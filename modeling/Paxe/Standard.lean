import Paxe.Stats

/-!
# Standard frames (`src/standard.rs`)

`Prefix(9) | Nonce(12) | Ciphertext(N) | Tag(16)`. Sealing writes into the
caller's buffer and opening reads from the datagram; both pass the first nine
bytes of the frame as AAD.
-/

namespace Paxe
open Wire

def Standard.overhead : Nat := prefixLen + npubBytes + aBytes
def maxUdpDatagram : Nat := 65507
def Standard.maxPayload : Nat := maxUdpDatagram - Standard.overhead

def frameAad (frame : Bytes) : Option Bytes := slice frame 0 prefixLen

inductive Standard.SealError where
  | payloadTooLarge (len : Nat)
  | outputTooSmall (needed actual : Nat)
  | noKey
  | sodium (e : SodiumError)
  deriving DecidableEq, Repr

inductive Standard.OpenError where
  | rejected
  deriving DecidableEq, Repr

structure Standard.SealRet where
  result : Res Standard.SealError Nat
  out : Bytes
  trace : Trace

structure Standard.OpenRet where
  result : Res Standard.OpenError (Header × Flags × Nat)
  out : Bytes
  diag : Diag
  trace : Trace

def Standard.sealCore (L : Libsodium) (store : KeyStore) (toId : UInt16) (channel : UInt32) (epoch : Epoch)
    (payload : Bytes) (nonce : Nonce) (out : Bytes) (t : Trace) : Standard.SealRet :=
  if payload.length > Standard.maxPayload then ⟨.err (.payloadTooLarge payload.length), out, t⟩
  else
    let frameLen := payload.length + Standard.overhead
    if out.length < frameLen then ⟨.err (.outputTooSmall frameLen out.length), out, t⟩
    else
      match store.keyForSend toId epoch with
      | none => ⟨.err .noKey, out, t⟩
      | some stored =>
        match tryInto keyBytes stored.expose with
        | none => ⟨.err (.sodium .internal), out, t⟩
        | some key =>
          let header : Header := ⟨store.localId, toId, channel⟩
          let flags : Flags := ⟨.standard, epoch⟩
          match splitAtMut out prefixLen with
          | none => ⟨.panic, out, t⟩
          | some (prefixSlot, rest) =>
            match copyFromSlice prefixSlot (serializePrefix header flags).val, splitAtMut rest npubBytes with
            | some pre, some (nonceSlot, ctSlot) =>
              match copyFromSlice nonceSlot nonce.val with
              | none => ⟨.panic, pre ++ rest, t⟩
              | some nonceField =>
                match frameAad pre with
                | none => ⟨.err (.sodium .internal), pre ++ nonceField ++ ctSlot, t⟩
                | some aad =>
                  let r := aeadEncrypt L key nonce aad payload ctSlot t
                  match r.result with
                  | .ok _ => ⟨.ok frameLen, pre ++ nonceField ++ r.out, r.trace⟩
                  | .err e => ⟨.err (.sodium e), pre ++ nonceField ++ r.out, r.trace⟩
                  | .panic => ⟨.panic, pre ++ nonceField ++ r.out, r.trace⟩
            | _, _ => ⟨.panic, out, t⟩

def Standard.seal (L : Libsodium) (store : KeyStore) (toId : UInt16) (channel : UInt32) (epoch : Epoch)
    (payload out : Bytes) (t : Trace) : Standard.SealRet :=
  let (nonce, t) := randomNonce L t
  Standard.sealCore L store toId channel epoch payload nonce out t

def Standard.open (L : Libsodium) (store : KeyStore) (frame out : Bytes) (d : Diag) (t : Trace) :
    Standard.OpenRet :=
  match parsePrefix frame with
  | .error e => ⟨.err .rejected, out, d.recordReject (.fromCodec e), t⟩
  | .ok (header, flags) =>
    if header.toId ≠ store.localId then ⟨.err .rejected, out, d.recordReject .plaintext, t⟩
    -- Mode routing, not a wire rejection: uncounted.
    else if flags.mode ≠ .standard then ⟨.err .rejected, out, d, t⟩
    else if frame.length < Standard.overhead then ⟨.err .rejected, out, d.recordReject .lenMismatch, t⟩
    else
      match store.keyForReceive header.fromId flags.epoch with
      | none =>
        let reason := if store.peerKnown header.fromId then RejectReason.noEpoch else RejectReason.noPeer
        ⟨.err .rejected, out, d.recordReject reason, t⟩
      | some stored =>
        match tryInto keyBytes stored.expose, frameAad frame, slice frame prefixLen (prefixLen + npubBytes) with
        | some key, some aad, some nonceBytes =>
          match tryInto npubBytes nonceBytes, slice frame (prefixLen + npubBytes) frame.length with
          | some nonce, some ciphertext =>
            let r := aeadDecrypt L key nonce aad ciphertext out t
            match r.result with
            | .ok n => ⟨.ok (header, flags, n), r.out, d, r.trace⟩
            | .err .authFailed => ⟨.err .rejected, r.out, d.recordReject .authFailed, r.trace⟩
            -- A short output buffer or an impossible libsodium result: uncounted.
            | .err _ => ⟨.err .rejected, r.out, d, r.trace⟩
            | .panic => ⟨.panic, r.out, d, r.trace⟩
          | _, _ => ⟨.err .rejected, out, d, t⟩
        | _, _, _ => ⟨.err .rejected, out, d, t⟩

end Paxe

import Paxe.Standard

/-!
# Reusable-DEK fanout and receive dispatch (`src/dek.rs`)

`Prefix(9) | EnvelopeNonce(12) | EncryptedDEK(32) | EnvelopeTag(16) | BodyNonce(12) | BodyCiphertext(N) |
BodyTag(16)`. Sealing appends the pieces; opening slices them at absolute offsets and takes the body tag from
the end of the datagram.
-/

namespace Paxe
open Wire

def envelopeLen : Nat := keyBytes + aBytes
def bodyStart : Nat := prefixLen + npubBytes + envelopeLen
def bodyTagLen : Nat := aBytes
def Dek.overhead : Nat := bodyStart + npubBytes + bodyTagLen
def Dek.maxPayload : Nat := maxUdpDatagram - Dek.overhead

namespace Layout

def envelopeNonce : Nat := prefixLen
def encryptedDek : Nat := envelopeNonce + npubBytes
def envelopeTag : Nat := encryptedDek + keyBytes
def bodyNonce : Nat := envelopeTag + aBytes
def body : Nat := bodyNonce + npubBytes

end Layout

structure FanoutFrame where
  toId : UInt16
  epoch : Epoch
  frame : Bytes
  deriving DecidableEq, Repr

inductive Dek.SealError where
  | oversize (len : Nat)
  | noKey
  | emptyRecipients
  | duplicateRecipient (peer : UInt16)
  | sodium (e : SodiumError)
  deriving DecidableEq, Repr

def Dek.SealError.display : Dek.SealError → String
  | .oversize n => "payload too large: " ++ toString n ++ " bytes"
  | .noKey => "no PSK installed for the destination peer"
  | .emptyRecipients => "fanout needs at least one recipient"
  | .duplicateRecipient peer => "duplicate fanout recipient " ++ toString peer
  | .sodium e => "libsodium failure: " ++ e.display

inductive Dek.OpenError where
  | badPrefix (e : CodecError)
  | tooShort (len : Nat)
  | lengthMismatch
  | noKey
  | authFailed
  | wrongDestination
  | standardRejected
  | sodium (e : SodiumError)
  deriving DecidableEq, Repr

structure Dek.SealRet (α : Type) where
  result : Res Dek.SealError α
  trace : Trace

structure Dek.OpenRet where
  result : Res Dek.OpenError (Header × Flags × Bytes)
  diag : Diag
  trace : Trace

def psk (stored : StoredKey) : Except SodiumError Key :=
  match tryInto keyBytes stored.expose with
  | some k => .ok k
  | none => .error .internal

def bodyAad (fromId : UInt16) (channel : UInt32) : Fixed 7 :=
  ⟨(u16ToBeBytes fromId).val ++ (u32ToBeBytes channel).val ++ [0x05], by simp [u16ToBeBytes, u32ToBeBytes]⟩

def envelopeAad (pre : Fixed prefixLen) (bodyNonce : Nonce) (bodyTag : Tag) : Fixed 37 :=
  ⟨pre.val ++ bodyNonce.val ++ bodyTag.val, by
    simp [pre.property, bodyNonce.property, bodyTag.property, prefixLen, npubBytes, aBytes]⟩

/-! ## Sealing -/

def Dek.seal (L : Libsodium) (store : KeyStore) (toId : UInt16) (channel : UInt32) (epoch : Epoch)
    (payload : Bytes) (t : Trace) : Dek.SealRet Bytes :=
  if payload.length > Standard.maxPayload then ⟨.err (.oversize payload.length), t⟩
  else
    let frame := List.replicate (payload.length + Standard.overhead) 0
    let r := Standard.seal L store toId channel epoch payload frame t
    match r.result with
    | .ok _ => ⟨.ok r.out, r.trace⟩
    | .err (.payloadTooLarge n) => ⟨.err (.oversize n), r.trace⟩
    | .err .noKey => ⟨.err .noKey, r.trace⟩
    | .err (.sodium e) => ⟨.err (.sodium e), r.trace⟩
    | .err (.outputTooSmall _ _) => ⟨.err (.sodium .internal), r.trace⟩
    | .panic => ⟨.panic, r.trace⟩

abbrev Selected := UInt16 × Epoch × StoredKey

/-- The loop of `select_fanout`, with its set of ids seen so far. -/
def Dek.selectLoop (store : KeyStore) : List UInt16 → List UInt16 → List Selected →
    Except Dek.SealError (List Selected)
  | [], _, selected => .ok selected
  | toId :: rest, seen, selected =>
    if seen.contains toId then .error (.duplicateRecipient toId)
    else
      match store.keyForSendCurrent toId with
      | none => .error .noKey
      | some (epoch, stored) => selectLoop store rest (toId :: seen) (selected ++ [(toId, epoch, stored)])

def Dek.selectFanout (store : KeyStore) (recipients : List UInt16) (payload : Bytes) :
    Except Dek.SealError (List Selected) :=
  if recipients.isEmpty then .error .emptyRecipients
  else if payload.length > Dek.maxPayload then .error (.oversize payload.length)
  else Dek.selectLoop store recipients [] []

/-- `Vec::resize(n, 0)`. -/
def resize (b : Bytes) (n : Nat) : Bytes :=
  if n ≤ b.length then b.take n else b ++ List.replicate (n - b.length) 0

/-- One turn of the emission loop of `seal_fanout_core`. -/
def Dek.fanoutFrame (L : Libsodium) (localId : UInt16) (channel : UInt32) (dek : Key) (body bodyTag : Bytes)
    (s : Selected) (envelopeNonce : Nonce) (t : Trace) : Dek.SealRet FanoutFrame :=
  let (toId, epoch, stored) := s
  let header : Header := ⟨localId, toId, channel⟩
  let flags : Flags := ⟨.dek, epoch⟩
  let pre := serializePrefix header flags
  match slice body 0 npubBytes with
  | none => ⟨.panic, t⟩
  | some bodyNonceBytes =>
    match tryInto npubBytes bodyNonceBytes, tryInto aBytes bodyTag with
    | some bodyNonce, some bodyTag =>
      let aad := envelopeAad pre bodyNonce bodyTag
      let frame := resize (pre.val ++ envelopeNonce.val) bodyStart
      match psk stored with
      | .error e => ⟨.err (.sodium e), t⟩
      | .ok key =>
        match slice frame Layout.encryptedDek bodyStart with
        | none => ⟨.panic, t⟩
        | some slot =>
          let r := aeadEncrypt L key envelopeNonce aad.val dek.val slot t
          match r.result with
          | .err e => ⟨.err (.sodium e), r.trace⟩
          | .panic => ⟨.panic, r.trace⟩
          | .ok _ =>
            let frame := frame.take Layout.encryptedDek ++ r.out ++ frame.drop bodyStart
            ⟨.ok ⟨toId, epoch, frame ++ body⟩, r.trace⟩
    | _, _ => ⟨.err (.sodium .internal), t⟩

/-- The emission loop, over recipients zipped with their nonces. -/
def Dek.fanoutLoop (L : Libsodium) (localId : UInt16) (channel : UInt32) (dek : Key) (body bodyTag : Bytes) :
    List (Selected × Nonce) → List FanoutFrame → Trace → Dek.SealRet (List FanoutFrame)
  | [], frames, t => ⟨.ok frames, t⟩
  | (s, envelopeNonce) :: rest, frames, t =>
    let r := Dek.fanoutFrame L localId channel dek body bodyTag s envelopeNonce t
    match r.result with
    | .ok f => fanoutLoop L localId channel dek body bodyTag rest (frames ++ [f]) r.trace
    | .err e => ⟨.err e, r.trace⟩
    | .panic => ⟨.panic, r.trace⟩

def Dek.sealFanoutCore (L : Libsodium) (localId : UInt16) (selected : List Selected) (channel : UInt32)
    (payload : Bytes) (dek : Key) (bodyNonce : Nonce) (envelopeNonces : List Nonce) (t : Trace) :
    Dek.SealRet (List FanoutFrame) :=
  let aad := bodyAad localId channel
  let body := List.replicate (npubBytes + payload.length + aBytes) 0
  match splitAtMut body npubBytes with
  | none => ⟨.panic, t⟩
  | some (nonceSlot, ctSlot) =>
    match copyFromSlice nonceSlot bodyNonce.val with
    | none => ⟨.panic, t⟩
    | some nonceField =>
      let r := aeadEncrypt L dek bodyNonce aad.val payload ctSlot t
      match r.result with
      | .err e => ⟨.err (.sodium e), r.trace⟩
      | .panic => ⟨.panic, r.trace⟩
      | .ok _ =>
        let body := nonceField ++ r.out
        match checkedSub body.length aBytes with
        | none => ⟨.panic, r.trace⟩
        | some bodyTagStart =>
          match slice body bodyTagStart body.length with
          | none => ⟨.panic, r.trace⟩
          | some bodyTag =>
            Dek.fanoutLoop L localId channel dek body bodyTag (selected.zip envelopeNonces) [] r.trace

/-- `recipients.iter().map(|_| sodium::random_nonce()).collect()`. -/
def drawNonces (L : Libsodium) : List UInt16 → Trace → List Nonce × Trace
  | [], t => ([], t)
  | _ :: rest, t =>
    let (n, t) := randomNonce L t
    let (ns, t) := drawNonces L rest t
    (n :: ns, t)

def Dek.sealFanout (L : Libsodium) (store : KeyStore) (recipients : List UInt16) (channel : UInt32)
    (payload : Bytes) (t : Trace) : Dek.SealRet (List FanoutFrame) :=
  match Dek.selectFanout store recipients payload with
  | .error e => ⟨.err e, t⟩
  | .ok selected =>
    let (envelopeNonces, t) := drawNonces L recipients t
    let (dek, t) := randomKey L t
    let (bodyNonce, t) := randomNonce L t
    Dek.sealFanoutCore L store.localId selected channel payload dek bodyNonce envelopeNonces t

/-! ## Opening -/

def openDek (L : Libsodium) (store : KeyStore) (frame : Bytes) (header : Header) (flags : Flags) (d : Diag)
    (t : Trace) : Dek.OpenRet :=
  if frame.length < Dek.overhead then ⟨.err (.tooShort frame.length), d.recordReject .tooShort, t⟩
  else
    match checkedSub frame.length Dek.overhead with
    | none => ⟨.panic, d, t⟩
    | some payloadLen =>
      if header.toId ≠ store.localId then ⟨.err .wrongDestination, d.recordReject .plaintext, t⟩
      else
        match store.keyForReceive header.fromId flags.epoch with
        | none =>
          let reason := if store.peerKnown header.fromId then RejectReason.noEpoch else RejectReason.noPeer
          ⟨.err .noKey, d.recordReject reason, t⟩
        | some stored =>
          -- The two indexed slices and the subtraction panic out of bounds.
          match slice frame Layout.envelopeNonce Layout.encryptedDek, slice frame Layout.bodyNonce Layout.body,
              checkedSub frame.length aBytes with
          | some envelopeNonceBytes, some bodyNonceBytes, some tagStart =>
            match tryInto npubBytes envelopeNonceBytes, tryInto npubBytes bodyNonceBytes,
                (slice frame tagStart frame.length).bind (tryInto aBytes),
                (slice frame 0 prefixLen).bind (tryInto prefixLen),
                slice frame Layout.encryptedDek Layout.bodyNonce, psk stored with
            | some envelopeNonce, some bodyNonce, some bodyTag, some pre, some envelope, .ok key =>
              let aad := envelopeAad pre bodyNonce bodyTag
              let r := aeadDecrypt L key envelopeNonce aad.val envelope (List.replicate keyBytes 0) t
              match r.result with
              | .panic => ⟨.panic, d, r.trace⟩
              | .err .authFailed => ⟨.err .authFailed, d.recordReject .authFailed, r.trace⟩
              | .err e => ⟨.err (.sodium e), d, r.trace⟩
              | .ok _ =>
                let dek : Key := ⟨r.out, by rw [aeadDecrypt_out_length, List.length_replicate]⟩
                match slice frame Layout.body frame.length with
                | none => ⟨.err (.sodium .internal), d, r.trace⟩
                | some body =>
                  let r := aeadDecrypt L dek bodyNonce (bodyAad header.fromId header.channel).val body
                    (List.replicate payloadLen 0) r.trace
                  match r.result with
                  | .ok n => ⟨.ok (header, flags, r.out.take n), d, r.trace⟩
                  | .panic => ⟨.panic, d, r.trace⟩
                  | .err .authFailed => ⟨.err .authFailed, d.recordReject .authFailed, r.trace⟩
                  | .err e => ⟨.err (.sodium e), d, r.trace⟩
            | _, _, _, _, _, _ => ⟨.err (.sodium .internal), d, t⟩
          | _, _, _ => ⟨.panic, d, t⟩

def Dek.open (L : Libsodium) (store : KeyStore) (frame : Bytes) (d : Diag) (t : Trace) : Dek.OpenRet :=
  match parsePrefix frame with
  | .error e => ⟨.err (.badPrefix e), d.recordReject (.fromCodec e), t⟩
  | .ok (header, flags) =>
    if flags.mode = .standard then
      let out := List.replicate (frame.length - Standard.overhead) 0
      let r := Standard.open L store frame out d t
      match r.result with
      | .ok (h, f, n) => ⟨.ok (h, f, r.out.take n), r.diag, r.trace⟩
      | .err _ => ⟨.err .standardRejected, r.diag, r.trace⟩
      | .panic => ⟨.panic, r.diag, r.trace⟩
    else openDek L store frame header flags d t

end Paxe

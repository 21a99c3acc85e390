import Paxe.CodecSound
import Paxe.KeystoreSound
import Paxe.Standard

/-!
# Standard frames: what sealing writes and what opening accepts

`Standard.frame` is the wire image of one sealed payload. `sealCore_eq` says
what sealing does in every case, `open_frame` what opening does with a frame
cut into prefix, nonce and ciphertext.
-/

namespace Paxe
open Wire

def Standard.frame (L : Libsodium) (k : Key) (h : Header) (e : Epoch) (n : Nonce) (p : Bytes) : Bytes :=
  (serializePrefix h ⟨.standard, e⟩).val ++ (n.val ++ L.enc k n (serializePrefix h ⟨.standard, e⟩).val p)

theorem psk_eq (k : StoredKey) : tryInto keyBytes k.expose = some k.mem := tryInto_val k.mem

theorem frameAad_append {pre : Bytes} (rest : Bytes) (h : pre.length = prefixLen) :
    frameAad (pre ++ rest) = some pre := slice_append_left rest h

theorem Standard.frame_parse (L : Libsodium) (k : Key) (h : Header) (e : Epoch) (n : Nonce) (p : Bytes) :
    parsePrefix (Standard.frame L k h e n p) = .ok (h, ⟨.standard, e⟩) :=
  parsePrefix_serialize h ⟨.standard, e⟩ _

/-! ## Sealing -/

theorem sealCore_core (L : Libsodium) (store : KeyStore) {toId : UInt16} (channel : UInt32) {epoch : Epoch}
    {payload : Bytes} (nonce : Nonce) {out : Bytes} (t : Trace) {k : StoredKey}
    (hp : payload.length ≤ Standard.maxPayload) (ho : payload.length + Standard.overhead ≤ out.length)
    (hk : store.keyForSend toId epoch = some k) :
    let pre := (serializePrefix ⟨store.localId, toId, channel⟩ ⟨.standard, epoch⟩).val
    Standard.sealCore L store toId channel epoch payload nonce out t =
      ⟨match L.encStatus k.mem nonce pre payload with
        | .ok _ => .ok (payload.length + Standard.overhead)
        | .err e => .err (.sodium e)
        | .panic => .panic,
        pre ++ nonce.val ++ overwrite ((out.drop prefixLen).drop npubBytes) (L.enc k.mem nonce pre payload),
        t ++ [.encrypt ⟨k.mem, nonce, pre, payload, L.enc k.mem nonce pre payload⟩]⟩ := by
  intro pre
  have hov : Standard.overhead = 37 := rfl
  have hmax : Standard.maxPayload = 65470 := rfl
  have h9 : splitAtMut out prefixLen = some (out.take prefixLen, out.drop prefixLen) :=
    splitAtMut_eq_some (by simp only [prefixLen]; omega)
  have h12 : splitAtMut (out.drop prefixLen) npubBytes =
      some ((out.drop prefixLen).take npubBytes, (out.drop prefixLen).drop npubBytes) :=
    splitAtMut_eq_some (by simp only [prefixLen, npubBytes, List.length_drop]; omega)
  have hc9 : copyFromSlice (out.take prefixLen) pre = some pre := by
    rw [copyFromSlice, if_pos]
    rw [serializePrefix_length, List.length_take]
    simp only [prefixLen]; omega
  have hc12 : copyFromSlice ((out.drop prefixLen).take npubBytes) nonce.val = some nonce.val := by
    rw [copyFromSlice, if_pos]
    rw [nonce.property, List.length_take, List.length_drop]
    simp only [prefixLen, npubBytes]; omega
  have haad : frameAad pre = some pre := by
    have := frameAad_append [] (serializePrefix_length ⟨store.localId, toId, channel⟩ ⟨.standard, epoch⟩)
    rwa [List.append_nil] at this
  have henc := aeadEncrypt_eq L k.mem nonce pre payload ((out.drop prefixLen).drop npubBytes) t
    (by simp only [usizeMax, aBytes]; omega) (by simp only [List.length_drop, prefixLen, npubBytes, aBytes]; omega)
  unfold Standard.sealCore
  rw [if_neg (by omega), if_neg (by omega)]
  simp only [hk, psk_eq, h9, h12, hc12, show copyFromSlice (out.take prefixLen)
    (serializePrefix ⟨store.localId, toId, channel⟩ ⟨.standard, epoch⟩).val = some pre from hc9, haad, henc]
  cases L.encStatus k.mem nonce pre payload with
  | ok _ => rfl
  | err _ => rfl
  | panic => rfl

section
variable {L : Libsodium} (hL : L.Contract)
include hL

theorem Standard.frame_length (k : Key) (h : Header) (e : Epoch) (n : Nonce) (p : Bytes) :
    (Standard.frame L k h e n p).length = p.length + Standard.overhead := by
  simp only [Standard.frame, List.length_append, serializePrefix_length, n.property, enc_length hL,
    Standard.overhead]
  omega

theorem sealCore_eq (store : KeyStore) (toId : UInt16) (channel : UInt32) (epoch : Epoch) (payload : Bytes)
    (nonce : Nonce) (out : Bytes) (t : Trace) :
    Standard.sealCore L store toId channel epoch payload nonce out t =
      if payload.length > Standard.maxPayload then ⟨.err (.payloadTooLarge payload.length), out, t⟩
      else if out.length < payload.length + Standard.overhead then
        ⟨.err (.outputTooSmall (payload.length + Standard.overhead) out.length), out, t⟩
      else match store.keyForSend toId epoch with
        | none => ⟨.err .noKey, out, t⟩
        | some k =>
          let h : Header := ⟨store.localId, toId, channel⟩
          let pre := (serializePrefix h ⟨.standard, epoch⟩).val
          ⟨.ok (payload.length + Standard.overhead),
            Standard.frame L k.mem h epoch nonce payload ++ out.drop (payload.length + Standard.overhead),
            t ++ [.encrypt ⟨k.mem, nonce, pre, payload, L.enc k.mem nonce pre payload⟩]⟩ := by
  by_cases hp : payload.length > Standard.maxPayload
  · rw [if_pos hp, Standard.sealCore, if_pos hp]
  · rw [if_neg hp]
    by_cases ho : out.length < payload.length + Standard.overhead
    · rw [if_pos ho, Standard.sealCore, if_neg hp]
      simp only [if_pos ho]
    · rw [if_neg ho]
      cases hk : store.keyForSend toId epoch with
      | none =>
        rw [Standard.sealCore, if_neg hp]
        simp only [if_neg ho, hk]
      | some k =>
        have hlen := enc_length hL k.mem nonce
          (serializePrefix ⟨store.localId, toId, channel⟩ ⟨.standard, epoch⟩).val payload
        have hroom : payload.length + aBytes ≤ ((out.drop prefixLen).drop npubBytes).length := by
          simp only [List.length_drop, Standard.overhead] at ho ⊢
          omega
        have hd : ((out.drop prefixLen).drop npubBytes).drop (payload.length + aBytes) =
            out.drop (payload.length + Standard.overhead) := by
          rw [List.drop_drop, List.drop_drop]
          congr 1
          simp only [Standard.overhead]; omega
        rw [sealCore_core L store channel nonce t (Nat.not_lt.mp hp) (Nat.not_lt.mp ho) hk]
        simp only [encStatus_ok hL]
        rw [overwrite_eq (by omega), hlen, hd]
        simp [Standard.frame]

end

/-! ## Opening -/

theorem Standard.frame_parts {frame : Bytes} {h : Header} {f : Flags} (hp : parsePrefix frame = .ok (h, f))
    (hl : Standard.overhead ≤ frame.length) :
    ∃ (n : Nonce) (c : Bytes), frame = (serializePrefix h f).val ++ (n.val ++ c) ∧ aBytes ≤ c.length := by
  obtain ⟨rest, rfl⟩ := parsePrefix_ok hp
  simp only [List.length_append, serializePrefix_length, Standard.overhead] at hl
  obtain ⟨n, c, rfl⟩ := exists_split (b := rest) (n := npubBytes) (by omega)
  refine ⟨n, c, rfl, ?_⟩
  simp only [List.length_append, n.property] at hl
  omega

section
variable {L : Libsodium} (hL : L.Contract)
include hL

theorem Standard.open_frame (store : KeyStore) {h : Header} {f : Flags} (n : Nonce) {c : Bytes} (out : Bytes)
    (d : Diag) (t : Trace) (hto : h.toId = store.localId) (hm : f.mode = .standard) (hc : aBytes ≤ c.length)
    (ho : c.length - aBytes ≤ out.length) :
    Standard.open L store ((serializePrefix h f).val ++ (n.val ++ c)) out d t =
      match store.keyForReceive h.fromId f.epoch with
      | none => ⟨.err .rejected, out,
          d.recordReject (if store.peerKnown h.fromId then .noEpoch else .noPeer), t⟩
      | some k =>
        match L.dec k.mem n (serializePrefix h f).val c with
        | some p => ⟨.ok (h, f, c.length - aBytes), p ++ out.drop (c.length - aBytes), d,
            t ++ [.decrypt ⟨k.mem, n, (serializePrefix h f).val, c, true⟩]⟩
        | none => ⟨.err .rejected, List.replicate (c.length - aBytes) 0 ++ out.drop (c.length - aBytes),
            d.recordReject .authFailed, t ++ [.decrypt ⟨k.mem, n, (serializePrefix h f).val, c, false⟩]⟩ := by
  have hpre := serializePrefix_length h f
  have hlen : ¬ ((serializePrefix h f).val ++ (n.val ++ c)).length < Standard.overhead := by
    simp only [List.length_append, hpre, n.property, Standard.overhead]; omega
  unfold Standard.open
  rw [parsePrefix_serialize]
  simp only [ne_eq, hto, not_true_eq_false, if_false, hm, if_neg hlen]
  cases hk : store.keyForReceive h.fromId f.epoch with
  | none => rfl
  | some k =>
    have hn : slice ((serializePrefix h f).val ++ (n.val ++ c)) prefixLen (prefixLen + npubBytes) = some n.val :=
      slice_mid c hpre (by rw [n.property])
    have hct : slice ((serializePrefix h f).val ++ (n.val ++ c)) (prefixLen + npubBytes)
        ((serializePrefix h f).val ++ (n.val ++ c)).length = some c := by
      rw [← List.append_assoc]
      exact slice_tail (by rw [List.length_append, hpre, n.property]) (by
        simp only [List.length_append, hpre, n.property])
    simp only [psk_eq, frameAad_append _ hpre, hn, tryInto_val, hct, aeadDecrypt_spec hL k.mem n _ c out t hc ho]
    cases L.dec k.mem n (serializePrefix h f).val c <;> rfl

end

end Paxe

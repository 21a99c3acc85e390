import Paxe.AesGcm
import Paxe.OpenSound

/-!
# The verdict on a frame, read off its bytes

`verdict` says what a receiver makes of a byte string in terms of absolute
offsets, occupied slots and the AEAD alone: the payload, or the first gate
that fails. Both receive calls report and count by it, whatever the frame.
-/

namespace Paxe
open Wire

/-! ## Fields of a frame -/

namespace Field

def u16At (frame : Bytes) (i : Nat) : UInt16 := UInt16.ofNat (beDecode ((frame.drop i).take 2))

def fromId (frame : Bytes) : UInt16 := u16At frame 0
def toId (frame : Bytes) : UInt16 := u16At frame 2
def flags (frame : Bytes) : UInt8 := frame.getD 8 0

theorem shift_table : ∀ b : Fin 256, UInt8.ofFin b >>> 3 ≤ maxEpoch := by decide +kernel

theorem shift_le (b : UInt8) : b >>> 3 ≤ maxEpoch := by
  have h := shift_table b.toFin
  rwa [UInt8.ofFin_toFin] at h

def epoch (frame : Bytes) : Epoch := ⟨flags frame >>> 3, shift_le (flags frame)⟩

end Field

/-- The payload of a standard frame that verifies under `k`. -/
def Standard.verify (L : Libsodium) (k : Key) (frame : Bytes) : Option Bytes := do
  let nonce ← tryInto npubBytes ((frame.drop 9).take 12)
  L.dec k nonce (frame.take 9) (frame.drop 21)

/-- The payload of a fanout frame whose envelope verifies under `k` and whose
body verifies under the key in the envelope. -/
def Dek.verify (L : Libsodium) (k : Key) (frame : Bytes) : Option Bytes := do
  let envelopeNonce ← tryInto npubBytes ((frame.drop 9).take 12)
  let bodyNonce ← tryInto npubBytes ((frame.drop 69).take 12)
  let tag := frame.drop (frame.length - 16)
  let dek ← L.dec k envelopeNonce (frame.take 9 ++ (frame.drop 69).take 12 ++ tag) ((frame.drop 21).take 48)
  let dek ← tryInto keyBytes dek
  L.dec dek bodyNonce (frame.take 2 ++ (frame.drop 4).take 4 ++ [0x05]) (frame.drop 81)

open Classical in
/-- The last two gates, shared by both modes: the key of the source under the
wire epoch, and what verifies under it. -/
noncomputable def unlock (store : KeyStore) (frame : Bytes) (verify : Key → Option Bytes) :
    Except RejectReason Bytes :=
  match store.slots (Field.fromId frame, Field.epoch frame) with
  | none => .error (if ∃ e, (store.slots (Field.fromId frame, e)).isSome then .noEpoch else .noPeer)
  | some k =>
    match verify k with
    | none => .error .authFailed
    | some payload => .ok payload

noncomputable def verdict (L : Libsodium) (store : KeyStore) (frame : Bytes) : Except RejectReason Bytes :=
  if frame.length < 9 then .error .tooShort
  else if Field.flags frame &&& 0x06 ≠ 0x04 then .error .badFlags
  else if Field.flags frame &&& 0x01 = 0 then
    if Field.toId frame ≠ store.localId then .error .plaintext
    else if frame.length < 37 then .error .lenMismatch
    else unlock store frame (Standard.verify L · frame)
  else
    if frame.length < 97 then .error .tooShort
    else if Field.toId frame ≠ store.localId then .error .plaintext
    else unlock store frame (Dek.verify L · frame)

/-! ## Fields and the codec -/

theorem Field.u16At_append (a rest : Bytes) (x : UInt16) {i : Nat} (h : a.length = i) :
    Field.u16At (a ++ ((u16ToBeBytes x).val ++ rest)) i = x := by
  unfold Field.u16At
  rw [List.drop_left' h, List.take_left' (u16ToBeBytes x).property]
  exact u16FromBeBytes_toBeBytes x

section
variable {frame : Bytes} {h : Header} {f : Flags}

theorem parse_bytes (hp : parsePrefix frame = .ok (h, f)) :
    ∃ rest, frame = (u16ToBeBytes h.fromId).val ++ ((u16ToBeBytes h.toId).val ++
      ((u32ToBeBytes h.channel).val ++ (f.toByte :: rest))) := by
  obtain ⟨rest, rfl⟩ := parsePrefix_ok hp
  exact ⟨rest, by simp [serializePrefix, Header.toBytes]⟩

theorem parse_length (hp : parsePrefix frame = .ok (h, f)) : 9 ≤ frame.length := by
  obtain ⟨rest, rfl⟩ := parsePrefix_ok hp
  rw [List.length_append, serializePrefix_length]
  exact Nat.le_add_right _ _

theorem parse_fromId (hp : parsePrefix frame = .ok (h, f)) : Field.fromId frame = h.fromId := by
  obtain ⟨rest, rfl⟩ := parse_bytes hp
  exact Field.u16At_append [] _ h.fromId rfl

theorem parse_toId (hp : parsePrefix frame = .ok (h, f)) : Field.toId frame = h.toId := by
  obtain ⟨rest, rfl⟩ := parse_bytes hp
  exact Field.u16At_append _ _ h.toId (u16ToBeBytes h.fromId).property

theorem parse_flags (hp : parsePrefix frame = .ok (h, f)) : Field.flags frame = f.toByte := by
  obtain ⟨rest, rfl⟩ := parse_bytes hp
  have h1 := (u16ToBeBytes h.fromId).property
  have h2 := (u16ToBeBytes h.toId).property
  have h3 := (u32ToBeBytes h.channel).property
  simp only [Field.flags, List.getD_eq_getElem?_getD]
  rw [List.getElem?_append_right (by omega), List.getElem?_append_right (by omega),
    List.getElem?_append_right (by omega)]
  simp [h1, h2, h3]

theorem dek_bit (hp : parsePrefix frame = .ok (h, f)) (hm : f.mode = .dek) : Field.flags frame &&& 0x01 ≠ 0 := by
  intro h0
  rw [parse_flags hp] at h0
  rw [(Flags.toByte_bits f).2.1.mp h0] at hm
  cases hm

theorem parse_epoch (hp : parsePrefix frame = .ok (h, f)) : Field.epoch frame = f.epoch := by
  apply Epoch.ext
  show Field.flags frame >>> 3 = f.epoch.bits
  rw [parse_flags hp]
  exact (Flags.toByte_bits f).2.2

end

theorem parse_error {frame : Bytes} {e : CodecError} (hp : parsePrefix frame = .error e) :
    (frame.length < 9 ∧ e = .tooShort frame.length) ∨
      (9 ≤ frame.length ∧ Field.flags frame &&& 0x06 ≠ 0x04 ∧ e = .invalidFlags (Field.flags frame)) := by
  by_cases hl : frame.length < 9
  · refine Or.inl ⟨hl, ?_⟩
    rw [parsePrefix, slice, if_neg (by simp only [prefixLen]; omega)] at hp
    exact (Except.error.inj hp).symm
  · have hl : prefixLen ≤ frame.length := Nat.not_lt.mp hl
    obtain ⟨x, rest, rfl⟩ := exists_split hl
    obtain ⟨f0, f1, t0, t1, c0, c1, c2, c3, flags, rfl⟩ := fixed_nine x
    refine Or.inr ⟨hl, ?_⟩
    rw [parsePrefix_nine] at hp
    cases hf : Flags.fromByte flags with
    | ok f =>
      rw [hf] at hp
      cases hp
    | error c =>
      rw [hf] at hp
      cases hp
      exact Flags.fromByte_error hf

/-! ## Verifying what was cut -/

section
variable {store : KeyStore} {frame : Bytes} {h : Header} {f : Flags}

theorem Standard.Attempt.length {n : Nonce} {c : Bytes} {k : StoredKey}
    (a : Standard.Attempt store frame h f n c k) : frame.length = c.length + 21 := by
  rw [a.bytes, List.length_append, List.length_append, serializePrefix_length, n.property]
  simp only [prefixLen, npubBytes]
  omega

theorem Standard.Attempt.cut {n : Nonce} {c : Bytes} {k : StoredKey} (a : Standard.Attempt store frame h f n c k) :
    frame.take 9 = (serializePrefix h f).val ∧ (frame.drop 9).take 12 = n.val ∧ frame.drop 21 = c := by
  have hpre := serializePrefix_length h f
  have hd : frame.drop 9 = n.val ++ c := by rw [a.bytes]; exact List.drop_left' hpre
  refine ⟨?_, ?_, ?_⟩
  · rw [a.bytes]
    exact List.take_left' hpre
  · rw [hd]
    exact List.take_left' n.property
  · rw [show 21 = 9 + 12 from rfl, ← List.drop_drop, hd]
    exact List.drop_left' n.property

theorem Standard.Attempt.verify (L : Libsodium) {n : Nonce} {c : Bytes} {k : StoredKey}
    (a : Standard.Attempt store frame h f n c k) (k' : Key) :
    Standard.verify L k' frame = L.dec k' n (serializePrefix h f).val c := by
  obtain ⟨h9, h12, h21⟩ := a.cut
  simp only [Standard.verify, h9, h12, h21, tryInto_val, Option.bind_eq_bind, Option.bind_some]

theorem Dek.Attempt.verify {L : Libsodium} {en : Nonce} {env : Fixed envelopeLen} {bn : Nonce} {c : Bytes}
    {tag : Tag} {k : StoredKey} (a : Dek.Attempt store frame h f en env bn c tag k) (k' : Key) :
    Dek.verify L k' frame =
      (L.dec k' en (Paxe.envelopeAad (serializePrefix h f) bn tag).val env.val).bind fun dek =>
        (tryInto keyBytes dek).bind fun dek => L.dec dek bn (bodyAad h.fromId h.channel).val (c ++ tag.val) := by
  have hpre := serializePrefix_length h f
  have hlen : frame.length - 16 = 81 + c.length := by
    rw [a.bytes, Dek.wire_length]
    simp only [Dek.overhead, bodyStart, bodyTagLen, prefixLen, npubBytes, envelopeLen, keyBytes, aBytes]
    omega
  have h9 : frame.take 9 = (serializePrefix h f).val := by rw [a.bytes]; exact List.take_left' hpre
  have hd9 : frame.drop 9 = en.val ++ (env.val ++ (bn.val ++ (c ++ tag.val))) := by
    rw [a.bytes]; exact List.drop_left' hpre
  have hd21 : frame.drop 21 = env.val ++ (bn.val ++ (c ++ tag.val)) := by
    rw [show 21 = 9 + 12 from rfl, ← List.drop_drop, hd9]
    exact List.drop_left' en.property
  have hd69 : frame.drop 69 = bn.val ++ (c ++ tag.val) := by
    rw [show 69 = 21 + 48 from rfl, ← List.drop_drop, hd21]
    exact List.drop_left' env.property
  have hd81 : frame.drop 81 = c ++ tag.val := by
    rw [show 81 = 69 + 12 from rfl, ← List.drop_drop, hd69]
    exact List.drop_left' bn.property
  have htag : frame.drop (frame.length - 16) = tag.val := by
    rw [hlen, ← List.drop_drop, hd81]
    exact List.drop_left' rfl
  obtain ⟨rest, hb⟩ := parse_bytes a.parse
  have h2 : frame.take 2 = (u16ToBeBytes h.fromId).val := by
    rw [hb]; exact List.take_left' (u16ToBeBytes h.fromId).property
  have hd4 : frame.drop (2 + 2) = (u32ToBeBytes h.channel).val ++ (f.toByte :: rest) := by
    rw [← List.drop_drop, hb, List.drop_left' (u16ToBeBytes h.fromId).property]
    exact List.drop_left' (u16ToBeBytes h.toId).property
  have h4 : (frame.drop 4).take 4 = (u32ToBeBytes h.channel).val := by
    rw [hd4]
    exact List.take_left' (u32ToBeBytes h.channel).property
  have t1 : (en.val ++ (env.val ++ (bn.val ++ (c ++ tag.val)))).take 12 = en.val := List.take_left' en.property
  have t2 : (env.val ++ (bn.val ++ (c ++ tag.val))).take 48 = env.val := List.take_left' env.property
  have t3 : (bn.val ++ (c ++ tag.val)).take 12 = bn.val := List.take_left' bn.property
  have haad : (Paxe.envelopeAad (serializePrefix h f) bn tag).val =
      (serializePrefix h f).val ++ bn.val ++ tag.val := rfl
  have hbody : (bodyAad h.fromId h.channel).val =
    (u16ToBeBytes h.fromId).val ++ (u32ToBeBytes h.channel).val ++ [0x05] := rfl
  simp only [Dek.verify, h9, hd9, hd21, hd69, hd81, htag, h2, h4, t1, t2, t3, tryInto_val, Option.bind_eq_bind,
    Option.bind_some, haad, hbody]

end

/-! ## The verdict at the gates and past them -/

section
variable {store : KeyStore} {frame : Bytes} {h : Header} {f : Flags}

theorem unlock_miss (hp : parsePrefix frame = .ok (h, f)) (hk : store.keyForReceive h.fromId f.epoch = none)
    (v : Key → Option Bytes) : unlock store frame v = .error (missReason store h.fromId) := by
  have hs : store.slots (h.fromId, f.epoch) = none := by rw [← keyForReceive_slots, hk]; rfl
  simp only [unlock, parse_fromId hp, parse_epoch hp, hs, missReason, ← peerKnown_iff]

theorem unlock_hit {k : StoredKey} (hp : parsePrefix frame = .ok (h, f))
    (hk : store.keyForReceive h.fromId f.epoch = some k) (v : Key → Option Bytes) :
    unlock store frame v = (v k.mem).elim (.error .authFailed) .ok := by
  have hs : store.slots (h.fromId, f.epoch) = some k.mem := by rw [← keyForReceive_slots, hk]; rfl
  simp only [unlock, parse_fromId hp, parse_epoch hp, hs]
  cases v k.mem <;> rfl

theorem verdict_standard_mode (L : Libsodium) (hp : parsePrefix frame = .ok (h, f)) (hm : f.mode = .standard) :
    verdict L store frame =
      if h.toId ≠ store.localId then .error .plaintext
      else if frame.length < 37 then .error .lenMismatch
      else unlock store frame (Standard.verify L · frame) := by
  obtain ⟨hfix, hbit, -⟩ := Flags.toByte_bits f
  rw [verdict, if_neg (Nat.not_lt.mpr (parse_length hp)), parse_flags hp, if_neg (not_not_intro hfix),
    if_pos (hbit.mpr hm), parse_toId hp]

theorem verdict_dek_mode (L : Libsodium) (hp : parsePrefix frame = .ok (h, f)) (hm : f.mode = .dek) :
    verdict L store frame =
      if frame.length < 97 then .error .tooShort
      else if h.toId ≠ store.localId then .error .plaintext
      else unlock store frame (Dek.verify L · frame) := by
  obtain ⟨hfix, -⟩ := Flags.toByte_bits f
  rw [verdict, if_neg (Nat.not_lt.mpr (parse_length hp)), if_neg (dek_bit hp hm), parse_flags hp,
    if_neg (not_not_intro hfix), parse_toId hp]

theorem verdict_gate (L : Libsodium) {r : RejectReason} {e : Dek.OpenError} (g : Dek.Gate store frame r e) :
    verdict L store frame = .error r := by
  cases g with
  | codec hp =>
    rcases parse_error hp with ⟨hl, rfl⟩ | ⟨hl, hb, rfl⟩
    · exact if_pos hl
    · rw [verdict, if_neg (Nat.not_lt.mpr hl), if_pos hb]
      rfl
  | standardDest hp hm hto => rw [verdict_standard_mode L hp hm, if_pos hto]
  | standardShort hp hm hto hl => rw [verdict_standard_mode L hp hm, if_neg (not_not_intro hto)]; exact if_pos hl
  | standardMiss hp hm hto hl hk =>
    rw [verdict_standard_mode L hp hm, if_neg (not_not_intro hto), unlock_miss hp hk]
    exact if_neg (Nat.not_lt.mpr hl)
  | dekShort hp hm hl => rw [verdict_dek_mode L hp hm]; exact if_pos hl
  | dekDest hp hm hl hto =>
    rw [verdict_dek_mode L hp hm, if_pos hto]
    exact if_neg (Nat.not_lt.mpr hl)
  | dekMiss hp hm hl hto hk =>
    rw [verdict_dek_mode L hp hm, if_neg (not_not_intro hto), unlock_miss hp hk]
    exact if_neg (Nat.not_lt.mpr hl)

theorem verdict_standard (L : Libsodium) {n : Nonce} {c : Bytes} {k : StoredKey}
    (a : Standard.Attempt store frame h f n c k) :
    verdict L store frame = (L.dec k.mem n (serializePrefix h f).val c).elim (.error .authFailed) .ok := by
  have hl : ¬ frame.length < 37 := by
    have := a.tag
    have := a.length
    simp only [aBytes] at *
    omega
  rw [verdict_standard_mode L a.parse a.mode, if_neg (not_not_intro a.dest), if_neg hl, unlock_hit a.parse a.key,
    a.verify L]

theorem verdict_dek (L : Libsodium) {en : Nonce} {env : Fixed envelopeLen} {bn : Nonce} {c : Bytes}
    {tag : Tag} {k : StoredKey} (a : Dek.Attempt store frame h f en env bn c tag k) :
    verdict L store frame =
      ((L.dec k.mem en (envelopeAad (serializePrefix h f) bn tag).val env.val).bind fun dek =>
        (tryInto keyBytes dek).bind fun dek => L.dec dek bn (bodyAad h.fromId h.channel).val (c ++ tag.val)).elim
          (.error .authFailed) .ok := by
  have hl : ¬ frame.length < 97 := by
    rw [a.bytes, Dek.wire_length]
    exact Nat.not_lt.mpr (Nat.le_add_left _ _)
  rw [verdict_dek_mode L a.parse a.mode, if_neg hl, if_neg (not_not_intro a.dest), unlock_hit a.parse a.key,
    a.verify]

end

/-! ## Both receive calls follow the verdict -/

theorem Standard.open_gate (L : Libsodium) {store : KeyStore} {frame : Bytes} {r : RejectReason} {e : Dek.OpenError}
    (out : Bytes) (d : Diag) (t : Trace) (hbit : Field.flags frame &&& 0x01 = 0) (g : Dek.Gate store frame r e) :
    Standard.open L store frame out d t = ⟨.err .rejected, out, d.recordReject r, t⟩ := by
  cases g with
  | codec hp => simp [Standard.open, hp]
  | standardDest hp hm hto => simp [Standard.open, hp, hto]
  | standardShort hp hm hto hl => simp [Standard.open, hp, hm, hto, hl]
  | standardMiss hp hm hto hl hk => simp [Standard.open, hp, hm, hto, Nat.not_lt.mpr hl, hk, missReason]
  | dekShort hp hm _ => exact absurd hbit (dek_bit hp hm)
  | dekDest hp hm _ _ => exact absurd hbit (dek_bit hp hm)
  | dekMiss hp hm _ _ _ => exact absurd hbit (dek_bit hp hm)

theorem Standard.open_routed (L : Libsodium) (store : KeyStore) {frame : Bytes} (out : Bytes) (d : Diag) (t : Trace)
    (hbit : Field.flags frame &&& 0x01 ≠ 0) :
    ∃ d', Standard.open L store frame out d t = ⟨.err .rejected, out, d', t⟩ := by
  cases hp : parsePrefix frame with
  | error e => exact ⟨d.recordReject (.fromCodec e), by simp only [Standard.open, hp]⟩
  | ok hf =>
    obtain ⟨h, f⟩ := hf
    have hm : f.mode ≠ .standard := by
      intro hm
      rw [parse_flags hp] at hbit
      exact hbit ((Flags.toByte_bits f).2.1.mpr hm)
    by_cases hto : h.toId = store.localId
    · exact ⟨d, by simp [Standard.open, hp, hto, hm]⟩
    · exact ⟨d.recordReject .plaintext, by simp [Standard.open, hp, hto]⟩

theorem Standard.open_small (L : Libsodium) {store : KeyStore} {frame : Bytes} {h : Header} {f : Flags} {n : Nonce}
    {c : Bytes} {k : StoredKey} (a : Standard.Attempt store frame h f n c k) {out : Bytes} (d : Diag) (t : Trace)
    (ho : out.length < c.length - aBytes) :
    Standard.open L store frame out d t = ⟨.err .rejected, out, d, t⟩ := by
  have hpre := serializePrefix_length h f
  have hlen : ¬ frame.length < Standard.overhead := by
    have := a.tag
    have := a.length
    simp only [Standard.overhead, prefixLen, npubBytes, aBytes] at *
    omega
  have hn : slice frame prefixLen (prefixLen + npubBytes) = some n.val := by
    rw [a.bytes]
    exact slice_mid c hpre (by rw [n.property])
  have hct : slice frame (prefixLen + npubBytes) frame.length = some c := by
    rw [a.bytes, ← List.append_assoc]
    exact slice_tail (by rw [List.length_append, hpre, n.property]) (by
      simp only [List.length_append, hpre, n.property])
  have haad : frameAad frame = some (serializePrefix h f).val := by
    rw [a.bytes]
    exact frameAad_append _ hpre
  simp only [Standard.open, a.parse, a.dest, a.mode, if_neg hlen, a.key, psk_eq, haad, hn, hct, tryInto_val,
    aeadDecrypt, checkedSub_eq a.tag, if_pos ho, ne_eq, not_true_eq_false, if_false]

section
variable {L : Libsodium} (hL : L.Contract)
include hL

theorem Standard.open_room {store : KeyStore} {frame : Bytes} {h : Header} {f : Flags} {n : Nonce} {c : Bytes}
    {k : StoredKey} (a : Standard.Attempt store frame h f n c k) {out : Bytes} (d : Diag) (t : Trace)
    (ho : c.length - aBytes ≤ out.length) :
    Standard.open L store frame out d t =
      match L.dec k.mem n (serializePrefix h f).val c with
      | some p => ⟨.ok (h, f, c.length - aBytes), p ++ out.drop (c.length - aBytes), d,
          t ++ [.decrypt ⟨k.mem, n, (serializePrefix h f).val, c, true⟩]⟩
      | none => ⟨.err .rejected, List.replicate (c.length - aBytes) 0 ++ out.drop (c.length - aBytes),
          d.recordReject .authFailed, t ++ [.decrypt ⟨k.mem, n, (serializePrefix h f).val, c, false⟩]⟩ := by
  have ho := Standard.open_frame hL store n out d t a.dest a.mode a.tag ho
  rwa [a.key, ← a.bytes] at ho

theorem open_follows_verdict (store : KeyStore) (frame : Bytes) (d : Diag) (t : Trace) :
    (∀ p, verdict L store frame = .ok p →
      ∃ h f, (Dek.open L store frame d t).result = .ok (h, f, p) ∧ (Dek.open L store frame d t).diag = d) ∧
    (∀ r, verdict L store frame = .error r →
      ∃ e, (Dek.open L store frame d t).result = .err e ∧
        (Dek.open L store frame d t).diag = d.recordReject r) := by
  rcases gate_or_attempt store frame with ⟨r, e, g⟩ | ⟨h, f, n, c, k, a⟩ | ⟨h, f, en, env, bn, c, tag, k, a⟩
  · rw [verdict_gate L g, open_gate L d t g]
    refine ⟨nofun, ?_⟩
    intro r' hr
    cases hr
    exact ⟨e, rfl, rfl⟩
  · rw [verdict_standard L a, open_standard hL a]
    cases L.dec k.mem n (serializePrefix h f).val c with
    | none =>
      refine ⟨nofun, ?_⟩
      intro r hr
      cases hr
      exact ⟨_, rfl, rfl⟩
    | some p =>
      refine ⟨?_, nofun⟩
      intro q hq
      cases hq
      exact ⟨h, f, rfl, rfl⟩
  · rw [verdict_dek L a]
    rcases open_dek hL a d t with ⟨henv, hr⟩ | ⟨dek, henv, hr⟩
    · rw [hr, henv]
      refine ⟨nofun, ?_⟩
      intro r hr
      cases hr
      exact ⟨_, rfl, rfl⟩
    · rw [hr, henv, Option.bind_some, tryInto_val, Option.bind_some]
      cases L.dec dek bn (bodyAad h.fromId h.channel).val (c ++ tag.val) with
      | none =>
        refine ⟨nofun, ?_⟩
        intro r hr
        cases hr
        exact ⟨_, rfl, rfl⟩
      | some p =>
        refine ⟨?_, nofun⟩
        intro q hq
        cases hq
        exact ⟨h, f, rfl, rfl⟩

/-- Every frame is accepted uncounted or attributed to its first failing gate,
and `standard::open` with room for the payload counts what the dispatch does. -/
theorem open_attribution (store : KeyStore) (frame : Bytes) (d : Diag) (t : Trace) :
    (∀ p, verdict L store frame = .ok p →
      ∃ h f, (Dek.open L store frame d t).result = .ok (h, f, p) ∧ (Dek.open L store frame d t).diag = d) ∧
    (∀ r, verdict L store frame = .error r →
      ∃ e, (Dek.open L store frame d t).result = .err e ∧ (Dek.open L store frame d t).diag = d.recordReject r) ∧
    (Field.flags frame &&& 0x01 = 0 → ∀ out : Bytes, frame.length - 37 ≤ out.length →
      (Standard.open L store frame out d t).diag = (Dek.open L store frame d t).diag) := by
  obtain ⟨hok, herr⟩ := open_follows_verdict hL store frame d t
  refine ⟨hok, herr, ?_⟩
  intro hbit out ho
  rcases gate_or_attempt store frame with ⟨r, e, g⟩ | ⟨h, f, n, c, k, a⟩ | ⟨h, f, en, env, bn, c, tag, k, a⟩
  · rw [Standard.open_gate L out d t hbit g, open_gate L d t g]
  · have hroom : c.length - aBytes ≤ out.length := by
      have := a.length
      simp only [aBytes]
      omega
    rw [Standard.open_room hL a d t hroom, open_standard hL a]
    cases L.dec k.mem n (serializePrefix h f).val c <;> rfl
  · exact absurd hbit (dek_bit a.parse a.mode)

end

theorem open_attribution_epoch :
    let L := aesGcm counterBytes
    let key : Key := ⟨List.replicate keyBytes 7, by decide⟩
    let R := KeyStore.ofLinks 2 [((1, ⟨3, by decide⟩), key)]
    let frame := (serializePrefix ⟨1, 2, 100⟩ ⟨.standard, ⟨4, by decide⟩⟩).val ++ List.replicate 28 0
    (∃ e, (Dek.open L R frame .init []).result = .err e) ∧
      (Dek.open L R frame .init []).diag = Diag.init.recordReject .noEpoch ∧
      (Standard.open L R frame [] .init []).diag = Diag.init.recordReject .noEpoch := by
  intro L key R frame
  have g : Dek.Gate R frame .noEpoch .standardRejected :=
    @Dek.Gate.standardMiss R frame ⟨1, 2, 100⟩ ⟨.standard, ⟨4, by decide⟩⟩ (parsePrefix_serialize ..) rfl rfl
      (by decide) (by decide)
  obtain ⟨-, herr, hstd⟩ := open_attribution (aesGcm_contract counterBytes) R frame .init []
  obtain ⟨e, hr, hd⟩ := herr .noEpoch (verdict_gate L g)
  exact ⟨⟨e, hr⟩, hd, (hstd (by decide) [] (by decide)).trans hd⟩

/-! ## The caller's buffer -/

theorem Standard.open_cases (L : Libsodium) (store : KeyStore) (frame out : Bytes) (d : Diag) (t : Trace) :
    (∃ d', Standard.open L store frame out d t = ⟨.err .rejected, out, d', t⟩) ∨
      ∃ h f n c k, Standard.Attempt store frame h f n c k ∧ c.length - aBytes ≤ out.length := by
  rcases gate_or_attempt store frame with ⟨r, e, g⟩ | ⟨h, f, n, c, k, a⟩ | ⟨h, f, en, env, bn, c, tag, k, a⟩
  · by_cases hbit : Field.flags frame &&& 0x01 = 0
    · exact Or.inl ⟨_, Standard.open_gate L out d t hbit g⟩
    · exact Or.inl (Standard.open_routed L store out d t hbit)
  · by_cases ho : c.length - aBytes ≤ out.length
    · exact Or.inr ⟨h, f, n, c, k, a, ho⟩
    · exact Or.inl ⟨d, Standard.open_small L a d t (Nat.not_le.mp ho)⟩
  · exact Or.inl (Standard.open_routed L store out d t (dek_bit a.parse a.mode))

theorem Standard.Attempt.slots {store : KeyStore} {frame : Bytes} {h : Header} {f : Flags} {n : Nonce} {c : Bytes}
    {k : StoredKey} (a : Standard.Attempt store frame h f n c k) :
    store.slots (h.fromId, f.epoch) = some k.mem := by
  rw [← keyForReceive_slots, a.key]
  rfl

section
variable {L : Libsodium} (hL : L.Contract) {store : KeyStore} {frame out : Bytes} {d : Diag} {t : Trace}
include hL

theorem Standard.open_writes {h : Header} {f : Flags} {n : Nat}
    (hr : (Standard.open L store frame out d t).result = .ok (h, f, n)) :
    n + 37 = frame.length ∧ ∃ k p, store.slots (h.fromId, f.epoch) = some k ∧ Standard.verify L k frame = some p ∧
      p.length = n ∧ (Standard.open L store frame out d t).out = p ++ out.drop n := by
  rcases Standard.open_cases L store frame out d t with ⟨d', he⟩ | ⟨h', f', nonce, c, k, a, ho⟩
  · rw [he] at hr
    cases hr
  · rw [Standard.open_room hL a d t ho] at hr ⊢
    cases hd : L.dec k.mem nonce (serializePrefix h' f').val c with
    | none =>
      rw [hd] at hr
      cases hr
    | some p =>
      rw [hd] at hr
      cases hr
      have hl := a.length
      have ht := a.tag
      refine ⟨?_, k.mem, p, a.slots, (a.verify L k.mem).trans hd, dec_length hL ht hd, rfl⟩
      simp only [aBytes] at ht ⊢
      omega

theorem Standard.open_wipes (hr : (Standard.open L store frame out d t).result = .err .rejected) :
    (Standard.open L store frame out d t).out = out ∨
      (∃ k n, store.slots (Field.fromId frame, Field.epoch frame) = some k ∧ Standard.verify L k frame = none ∧
          (Standard.open L store frame out d t).trace =
            t ++ [.decrypt ⟨k, n, frame.take 9, frame.drop 21, false⟩]) ∧
        37 ≤ frame.length ∧ frame.length - 37 ≤ out.length ∧ (Standard.open L store frame out d t).out =
          List.replicate (frame.length - 37) 0 ++ out.drop (frame.length - 37) := by
  rcases Standard.open_cases L store frame out d t with ⟨d', he⟩ | ⟨h, f, nonce, c, k, a, ho⟩
  · exact Or.inl (by rw [he])
  · rw [Standard.open_room hL a d t ho] at hr ⊢
    cases hd : L.dec k.mem nonce (serializePrefix h f).val c with
    | none =>
      have hl := a.length
      have ht := a.tag
      simp only [aBytes] at ht ho
      have hc : c.length - aBytes = frame.length - 37 := by simp only [aBytes]; omega
      obtain ⟨h9, -, h21⟩ := a.cut
      refine Or.inr ⟨⟨k.mem, nonce, ?_, (a.verify L k.mem).trans hd, by rw [h9, h21]⟩, by omega, by omega,
        by rw [hc]⟩
      rw [parse_fromId a.parse, parse_epoch a.parse]
      exact a.slots
    | some p =>
      rw [hd] at hr
      cases hr

theorem Standard.open_iff_dispatch (hbit : Field.flags frame &&& 0x01 = 0) (ho : frame.length - 37 ≤ out.length)
    (h : Header) (f : Flags) (p : Bytes) :
    (∃ n, (Standard.open L store frame out d t).result = .ok (h, f, n) ∧
      (Standard.open L store frame out d t).out.take n = p) ↔
        (Dek.open L store frame d t).result = .ok (h, f, p) := by
  rcases gate_or_attempt store frame with ⟨r, e, g⟩ | ⟨h', f', n, c, k, a⟩ | ⟨h', f', en, env, bn, c, tag, k, a⟩
  · rw [Standard.open_gate L out d t hbit g, Paxe.open_gate L d t g]
    simp
  · have hroom : c.length - aBytes ≤ out.length := by
      have := a.length
      simp only [aBytes]
      omega
    rw [Standard.open_room hL a d t hroom, open_standard hL a]
    cases hd : L.dec k.mem n (serializePrefix h' f').val c with
    | none => simp
    | some q =>
      have hq := dec_length hL a.tag hd
      constructor
      · rintro ⟨m, hm, hp⟩
        cases hm
        rw [← hp]
        simp only [← hq, List.take_left]
      · intro hr
        cases hr
        exact ⟨_, rfl, by rw [← hq, List.take_left]⟩
  · exact absurd hbit (dek_bit a.parse a.mode)

/-- What a caller finds in its buffer: the payload that verified, zeros where
one that did not would have stood, or its own bytes. -/
theorem standard_open_buffer (store : KeyStore) (frame out : Bytes) (d : Diag) (t : Trace) :
    let r := Standard.open L store frame out d t
    (∀ h f n, r.result = .ok (h, f, n) → n + 37 = frame.length ∧
      ∃ k p, store.slots (h.fromId, f.epoch) = some k ∧ Standard.verify L k frame = some p ∧ p.length = n ∧
        r.out = p ++ out.drop n) ∧
    (r.result = .err .rejected → r.out = out ∨
      (∃ k n, store.slots (Field.fromId frame, Field.epoch frame) = some k ∧ Standard.verify L k frame = none ∧
          r.trace = t ++ [.decrypt ⟨k, n, frame.take 9, frame.drop 21, false⟩]) ∧
        37 ≤ frame.length ∧ frame.length - 37 ≤ out.length ∧
        r.out = List.replicate (frame.length - 37) 0 ++ out.drop (frame.length - 37)) ∧
    r.result ≠ .panic ∧
    (Field.flags frame &&& 0x01 = 0 → frame.length - 37 ≤ out.length → ∀ h f p,
      (∃ n, r.result = .ok (h, f, n) ∧ r.out.take n = p) ↔
        (Dek.open L store frame d t).result = .ok (h, f, p)) := by
  intro r
  refine ⟨?_, ?_, (Standard.open_any L store frame out d t).1, ?_⟩
  · intro h f n hr
    exact Standard.open_writes hL hr
  · intro hr
    exact Standard.open_wipes hL hr
  · intro hbit ho h f p
    exact Standard.open_iff_dispatch hL hbit ho h f p

end

/-- A standard frame with nothing but zeros behind its prefix passes every gate. -/
theorem zeros_attempt (e : Epoch) (key : Key) : ∃ k, k.mem = key ∧
    Standard.Attempt (KeyStore.ofLinks 2 [((1, e), key)])
      ((serializePrefix ⟨1, 2, 100⟩ ⟨.standard, e⟩).val ++ List.replicate 30 0) ⟨1, 2, 100⟩ ⟨.standard, e⟩
      ⟨List.replicate 12 0, rfl⟩ (List.replicate 18 0) k := by
  obtain ⟨hid, hk⟩ := ofLinks_single 2 (1, e) key
  rw [← keyForReceive_slots, Option.map_eq_some_iff] at hk
  obtain ⟨k, hk, hm⟩ := hk
  exact ⟨k, hm, rfl, hid.symm, rfl, by decide, hk⟩

theorem zeros_rejected : (aesGcm counterBytes).dec ⟨List.replicate keyBytes 7, by decide⟩ ⟨List.replicate 12 0, rfl⟩
    (serializePrefix ⟨1, 2, 100⟩ ⟨.standard, ⟨3, by decide⟩⟩).val (List.replicate 18 0) = none := by
  decide +kernel

theorem standard_open_buffer_forged :
    let L := aesGcm counterBytes
    let e : Epoch := ⟨3, by decide⟩
    let key : Key := ⟨List.replicate keyBytes 7, by decide⟩
    let R := KeyStore.ofLinks 2 [((1, e), key)]
    let forged := (serializePrefix ⟨1, 2, 100⟩ ⟨.standard, e⟩).val ++ List.replicate 30 0
    (Standard.open L R forged [9, 9, 9] .init []).result = .err .rejected ∧
      ((Standard.open L R forged [9, 9, 9] .init []).out = [9, 9, 9] ∨
        (Standard.open L R forged [9, 9, 9] .init []).out = [0, 0, 9]) := by
  intro L e key R forged
  have hr : (Standard.open L R forged [9, 9, 9] .init []).result = .err .rejected := by
    obtain ⟨k, hk, a⟩ := zeros_attempt ⟨3, by decide⟩ ⟨List.replicate keyBytes 7, by decide⟩
    have hroom : (List.replicate 18 (0 : UInt8)).length - aBytes ≤ ([9, 9, 9] : Bytes).length := by decide
    have ho := Standard.open_room (aesGcm_contract counterBytes) a .init [] hroom
    rw [hk, zeros_rejected] at ho
    dsimp only at ho
    rw [ho]
  refine ⟨hr, ?_⟩
  obtain ⟨-, hrej, -⟩ := standard_open_buffer (aesGcm_contract counterBytes) R forged [9, 9, 9] .init []
  rcases hrej hr with h | ⟨-, -, -, h⟩
  · exact Or.inl h
  · exact Or.inr h

/-! ## Accesses in bounds -/

/-- The accesses of `standard::open` behind its geometry gate, with the
subtraction of `aead_decrypt` on its ciphertext. -/
structure Standard.InBounds (frame : Bytes) : Prop where
  aad : (frameAad frame).isSome
  nonce : ((slice frame prefixLen (prefixLen + npubBytes)).bind (tryInto npubBytes)).isSome
  ciphertext : ((slice frame (prefixLen + npubBytes) frame.length).bind (checkedSub ·.length aBytes)).isSome

/-- The accesses of `open_dek` behind its length gate, with the subtractions
of `aead_decrypt`: the DEK has the size of a key, the payload that of its
buffer. -/
structure Dek.InBounds (frame : Bytes) : Prop where
  payloadLen : (checkedSub frame.length Dek.overhead).isSome
  envelopeNonce : ((slice frame Layout.envelopeNonce Layout.encryptedDek).bind (tryInto npubBytes)).isSome
  bodyNonce : ((slice frame Layout.bodyNonce Layout.body).bind (tryInto npubBytes)).isSome
  bodyTag : ((checkedSub frame.length aBytes).bind fun i =>
    (slice frame i frame.length).bind (tryInto aBytes)).isSome
  pre : ((slice frame 0 prefixLen).bind (tryInto prefixLen)).isSome
  envelope : (slice frame Layout.encryptedDek Layout.bodyNonce).bind (checkedSub ·.length aBytes) = some keyBytes
  body : (slice frame Layout.body frame.length).bind (checkedSub ·.length aBytes) =
    checkedSub frame.length Dek.overhead

theorem slice_length {b x : Bytes} {lo hi : Nat} (h : slice b lo hi = some x) : x.length = hi - lo := by
  unfold slice at h
  split at h
  · rename_i hb
    cases h
    rw [List.length_take, List.length_drop]
    omega
  · cases h

theorem slice_tryInto {b : Bytes} {lo hi n : Nat} (hl : lo ≤ hi) (hb : hi ≤ b.length) (hn : hi - lo = n) :
    ((slice b lo hi).bind (tryInto n)).isSome := by
  have hs := slice_eq_some hl hb
  rw [hs, Option.bind_some, tryInto_eq_some ((slice_length hs).trans hn)]
  rfl

theorem Standard.inBounds {frame : Bytes} (h : Standard.overhead ≤ frame.length) : Standard.InBounds frame := by
  have hl : 37 ≤ frame.length := h
  have hc := @slice_eq_some frame (prefixLen + npubBytes) frame.length
    (by simp only [prefixLen, npubBytes]; omega) (Nat.le_refl _)
  refine ⟨?_, slice_tryInto (by decide) (by simp only [prefixLen, npubBytes]; omega) (by decide), ?_⟩
  · rw [frameAad, slice_eq_some (Nat.zero_le _) (by simp only [prefixLen]; omega)]
    rfl
  · rw [hc, Option.bind_some, slice_length hc, checkedSub_eq (by simp only [prefixLen, npubBytes, aBytes]; omega)]
    rfl

theorem Dek.inBounds {frame : Bytes} (h : Dek.overhead ≤ frame.length) : Dek.InBounds frame := by
  have hl : 97 ≤ frame.length := h
  have h21 : Layout.encryptedDek ≤ frame.length := Nat.le_trans (by decide : Layout.encryptedDek ≤ 97) hl
  have h69 : Layout.bodyNonce ≤ frame.length := Nat.le_trans (by decide : Layout.bodyNonce ≤ 97) hl
  have h81 : Layout.body ≤ frame.length := Nat.le_trans (by decide : Layout.body ≤ 97) hl
  have h16 : aBytes ≤ frame.length := Nat.le_trans (by decide : aBytes ≤ 97) hl
  have henv := @slice_eq_some frame Layout.encryptedDek Layout.bodyNonce (by decide) h69
  have hbody := slice_eq_some h81 (Nat.le_refl _)
  refine ⟨?_, slice_tryInto (by decide) h21 (by decide), slice_tryInto (by decide) h81 (by decide), ?_,
    slice_tryInto (Nat.zero_le _) (Nat.le_trans (by decide : prefixLen ≤ 97) hl) (by decide), ?_, ?_⟩
  · rw [checkedSub_eq h]
    rfl
  · rw [checkedSub_eq h16, Option.bind_some]
    exact slice_tryInto (Nat.sub_le _ _) (Nat.le_refl _) (Nat.sub_sub_self h16)
  · rw [henv, Option.bind_some, slice_length henv]
    rfl
  · have hsum : Dek.overhead = Layout.body + aBytes := rfl
    rw [hbody, Option.bind_some, slice_length hbody, checkedSub_eq h, checkedSub_eq (by omega)]
    congr 1

/-- No byte string takes the receive path out of bounds, to an internal error,
or to an uncounted rejection. -/
theorem open_never_aborts {L : Libsodium} (hL : L.Contract) (store : KeyStore) (frame : Bytes) (d : Diag)
    (t : Trace) :
    (Dek.open L store frame d t).result ≠ .panic ∧
    (∀ e, (Dek.open L store frame d t).result ≠ .err (.sodium e)) ∧
    ((Dek.open L store frame d t).result = .err .standardRejected →
      ∃ r, (Dek.open L store frame d t).diag = d.recordReject r) ∧
    (∀ out, (Standard.open L store frame out d t).result ≠ .panic) ∧
    (∀ k n aad c out, (aeadDecrypt L k n aad c out t).result ≠ .panic) ∧
    (Standard.overhead ≤ frame.length → Standard.InBounds frame) ∧
    (Dek.overhead ≤ frame.length → Dek.InBounds frame) ∧
    (∀ stored : StoredKey, tryInto keyBytes stored.expose = some stored.mem) := by
  refine ⟨?_, ?_, ?_, ?_, ?_, Standard.inBounds, Dek.inBounds, ?_⟩
  · intro hr
    rcases open_any L store frame d t with ⟨h, f, p, ho, -⟩ | ⟨e, he⟩
    · rw [hr] at ho
      cases ho
    · rw [hr] at he
      cases he
  · intro e hr
    exact @open_not_sodium L hL store frame d _ t _ e (by rw [← hr])
  · intro hr
    rcases open_verdict hL store frame d t with ⟨h, f, p, ho, -⟩ | ⟨e, r, -, -, hd⟩
    · rw [hr] at ho
      cases ho
    · exact ⟨r, hd⟩
  · intro out
    exact (Standard.open_any L store frame out d t).1
  · intro k n aad c out
    exact aeadDecrypt_ne_panic L k n aad c out t
  · intro stored
    exact psk_eq stored

theorem open_never_aborts_forged :
    let L := aesGcm counterBytes
    let R := KeyStore.ofLinks 2 [((1, ⟨3, by decide⟩), ⟨List.replicate keyBytes 7, by decide⟩)]
    let forged := (serializePrefix ⟨1, 2, 100⟩ ⟨.standard, ⟨3, by decide⟩⟩).val ++ List.replicate 30 0
    (Dek.open L R forged .init []).result = .err .standardRejected ∧
      ∃ r, (Dek.open L R forged .init []).diag = Diag.init.recordReject r := by
  intro L R forged
  have hr : (Dek.open L R forged .init []).result = .err .standardRejected := by
    obtain ⟨k, hk, a⟩ := zeros_attempt ⟨3, by decide⟩ ⟨List.replicate keyBytes 7, by decide⟩
    have ho := open_standard (aesGcm_contract counterBytes) a .init []
    rw [hk, zeros_rejected] at ho
    dsimp only at ho
    rw [ho]
  exact ⟨hr, (open_never_aborts (aesGcm_contract counterBytes) R forged .init []).2.2.1 hr⟩

end Paxe

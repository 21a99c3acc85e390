import Paxe.Codec

/-!
# The prefix codec is exact

`parsePrefix` accepts a byte string exactly when it starts with a serialized
prefix, and then returns what was serialized.
-/

namespace Paxe
open Wire

/-! ## Integer fields -/

@[simp] theorem u16FromBeBytes_toBeBytes (x : UInt16) : u16FromBeBytes (u16ToBeBytes x) = x := by
  apply UInt16.toNat_inj.mp
  simp only [u16FromBeBytes, u16ToBeBytes, UInt16.toNat_ofNat']
  rw [beDecode_beEncode 2 _ (by have := x.toNat_lt; omega)]
  exact Nat.mod_eq_of_lt x.toNat_lt

@[simp] theorem u32FromBeBytes_toBeBytes (x : UInt32) : u32FromBeBytes (u32ToBeBytes x) = x := by
  apply UInt32.toNat_inj.mp
  simp only [u32FromBeBytes, u32ToBeBytes, UInt32.toNat_ofNat']
  rw [beDecode_beEncode 4 _ (by have := x.toNat_lt; omega)]
  exact Nat.mod_eq_of_lt x.toNat_lt

@[simp] theorem u16ToBeBytes_fromBeBytes (b : Fixed 2) : u16ToBeBytes (u16FromBeBytes b) = b := by
  apply Subtype.ext
  have hlt : beDecode b.val < 2 ^ 16 := by have := beDecode_lt b.val; rw [b.property] at this; omega
  simp only [u16FromBeBytes, u16ToBeBytes, UInt16.toNat_ofNat', Nat.mod_eq_of_lt hlt]
  exact beEncode_beDecode b.property

@[simp] theorem u32ToBeBytes_fromBeBytes (b : Fixed 4) : u32ToBeBytes (u32FromBeBytes b) = b := by
  apply Subtype.ext
  have hlt : beDecode b.val < 2 ^ 32 := by have := beDecode_lt b.val; rw [b.property] at this; omega
  simp only [u32FromBeBytes, u32ToBeBytes, UInt32.toNat_ofNat', Nat.mod_eq_of_lt hlt]
  exact beEncode_beDecode b.property

/-! ## Header -/

theorem fixed_eight (b : Fixed headerLen) : ∃ f0 f1 t0 t1 c0 c1 c2 c3,
    b = ⟨[f0, f1, t0, t1, c0, c1, c2, c3], rfl⟩ := by
  obtain ⟨l, hl⟩ := b
  match l, hl with
  | [f0, f1, t0, t1, c0, c1, c2, c3], _ => exact ⟨f0, f1, t0, t1, c0, c1, c2, c3, rfl⟩

@[simp] theorem Header.toBytes_fromBytes (b : Fixed headerLen) : (Header.fromBytes b).toBytes = b := by
  obtain ⟨f0, f1, t0, t1, c0, c1, c2, c3, rfl⟩ := fixed_eight b
  apply Subtype.ext
  simp [Header.fromBytes, Header.toBytes]

@[simp] theorem Header.fromBytes_toBytes (h : Header) : Header.fromBytes h.toBytes = h := by
  obtain ⟨f0, f1, t0, t1, c0, c1, c2, c3, hb⟩ := fixed_eight h.toBytes
  have hv : (u16ToBeBytes h.fromId).val ++ (u16ToBeBytes h.toId).val ++ (u32ToBeBytes h.channel).val =
      [f0, f1] ++ [t0, t1] ++ [c0, c1, c2, c3] := congrArg Subtype.val hb
  obtain ⟨hv, h3⟩ := List.append_inj hv (by simp [(u16ToBeBytes _).property])
  obtain ⟨h1, h2⟩ := List.append_inj hv (by simp [(u16ToBeBytes _).property])
  have e1 : u16ToBeBytes h.fromId = ⟨[f0, f1], rfl⟩ := Subtype.ext h1
  have e2 : u16ToBeBytes h.toId = ⟨[t0, t1], rfl⟩ := Subtype.ext h2
  have e3 : u32ToBeBytes h.channel = ⟨[c0, c1, c2, c3], rfl⟩ := Subtype.ext h3
  rw [hb]
  simp only [Header.fromBytes, ← e1, ← e2, ← e3, u16FromBeBytes_toBeBytes, u32FromBeBytes_toBeBytes]

/-! ## Flags byte -/

theorem flags_byte_table : ∀ b : Fin 256,
    let byte := UInt8.ofFin b
    (byte &&& fixedMask ≠ fixedPattern) ∨
      (byte >>> 3 ≤ maxEpoch ∧
        (if byte &&& dekBit = 0 then 0 else dekBit) ||| fixedPattern ||| ((byte >>> 3) <<< 3) = byte) := by
  decide +kernel

theorem epoch_byte_table : ∀ e : Fin 32, ∀ m : Bool,
    let byte := (if m then dekBit else 0) ||| fixedPattern ||| (UInt8.ofNat e.val <<< 3)
    byte &&& fixedMask = fixedPattern ∧ (byte &&& dekBit = 0 ↔ m = false) ∧ byte >>> 3 = UInt8.ofNat e.val := by
  decide +kernel

theorem Epoch.new_ok {b : UInt8} (h : b ≤ maxEpoch) : Epoch.new b = .ok ⟨b, h⟩ := by
  unfold Epoch.new
  rw [dif_neg (UInt8.not_lt.mpr h)]

theorem Flags.fromByte_ok {byte : UInt8} {f : Flags} (h : Flags.fromByte byte = .ok f) : f.toByte = byte := by
  have ht := flags_byte_table byte.toFin
  simp only [UInt8.ofFin_toFin] at ht
  unfold Flags.fromByte at h
  split at h
  · cases h
  · rename_i hb
    obtain ⟨he, hv⟩ := ht.resolve_left hb
    rw [Epoch.new_ok he] at h
    simp only [Except.ok.injEq] at h
    subst h
    by_cases hd : byte &&& dekBit = 0
    · simpa [Flags.toByte, hd] using hv
    · simpa [Flags.toByte, hd] using hv

@[simp] theorem Flags.fromByte_toByte (f : Flags) : Flags.fromByte f.toByte = .ok f := by
  obtain ⟨mode, bits, hb⟩ := f
  have hlt : bits.toNat < 32 := by have := UInt8.le_iff_toNat_le.mp hb; simp [maxEpoch] at this; omega
  have hof : UInt8.ofNat bits.toNat = bits := by simp
  have ht := epoch_byte_table ⟨bits.toNat, hlt⟩ (mode == .dek)
  simp only [hof] at ht
  obtain ⟨h1, h2, h3⟩ := ht
  cases mode with
  | standard =>
    simp only [show (Mode.standard == Mode.dek) = false from rfl, Bool.false_eq_true, if_false, iff_true]
      at h1 h2 h3
    simp only [Flags.fromByte, Flags.toByte, h1, h2, h3, ne_eq, not_true_eq_false, if_false, if_true,
      Epoch.new_ok hb]
  | dek =>
    simp only [show (Mode.dek == Mode.dek) = true from rfl, if_true, Bool.true_eq_false, iff_false] at h1 h2 h3
    simp only [Flags.fromByte, Flags.toByte, h1, h2, h3, ne_eq, not_true_eq_false, if_false, Epoch.new_ok hb]

theorem Flags.fromByte_error {byte : UInt8} {e : CodecError} (h : Flags.fromByte byte = .error e) :
    byte &&& fixedMask ≠ fixedPattern ∧ e = .invalidFlags byte := by
  have ht := flags_byte_table byte.toFin
  simp only [UInt8.ofFin_toFin] at ht
  unfold Flags.fromByte at h
  split at h
  · rename_i hb
    exact ⟨hb, (Except.error.inj h).symm⟩
  · rename_i hb
    rw [Epoch.new_ok (ht.resolve_left hb).1] at h
    cases h

theorem Flags.toByte_bits (f : Flags) :
    f.toByte &&& 0x06 = 0x04 ∧ (f.toByte &&& 0x01 = 0 ↔ f.mode = .standard) ∧ f.toByte >>> 3 = f.epoch.bits := by
  obtain ⟨mode, bits, hb⟩ := f
  have hlt : bits.toNat < 32 := by have := UInt8.le_iff_toNat_le.mp hb; simp [maxEpoch] at this; omega
  have ht := epoch_byte_table ⟨bits.toNat, hlt⟩ (mode == .dek)
  simp only [UInt8.ofNat_toNat] at ht
  obtain ⟨h1, h2, h3⟩ := ht
  cases mode with
  | standard => exact ⟨h1, iff_of_true (h2.mpr rfl) rfl, h3⟩
  | dek => exact ⟨h1, iff_of_false (fun h => absurd (h2.mp h) (by decide)) Mode.noConfusion, h3⟩

/-! ## Prefix -/

theorem serializePrefix_length (h : Header) (f : Flags) : (serializePrefix h f).val.length = prefixLen :=
  (serializePrefix h f).property

theorem parsePrefix_serialize (h : Header) (f : Flags) (rest : Bytes) :
    parsePrefix ((serializePrefix h f).val ++ rest) = .ok (h, f) := by
  have hs := slice_append_left rest (serializePrefix_length h f)
  obtain ⟨f0, f1, t0, t1, c0, c1, c2, c3, hb⟩ := fixed_eight h.toBytes
  have hv : (serializePrefix h f).val = [f0, f1, t0, t1, c0, c1, c2, c3, f.toByte] := by
    simp [serializePrefix, hb]
  unfold parsePrefix
  rw [hs, hv]
  simp only [Flags.fromByte_toByte]
  rw [← hb, Header.fromBytes_toBytes]

theorem parsePrefix_ok {b : Bytes} {h : Header} {f : Flags} (hp : parsePrefix b = .ok (h, f)) :
    ∃ rest, b = (serializePrefix h f).val ++ rest := by
  unfold parsePrefix at hp
  split at hp
  · rename_i f0 f1 t0 t1 c0 c1 c2 c3 byte hs
    split at hp
    · cases hp
    · rename_i fl hfl
      obtain ⟨rfl, rfl⟩ := Prod.mk.inj (Except.ok.inj hp)
      have hlen : prefixLen ≤ b.length := by
        unfold slice at hs
        split at hs
        · rename_i h; exact h.2
        · cases hs
      rw [slice_eq_some (Nat.zero_le _) hlen] at hs
      refine ⟨b.drop prefixLen, ?_⟩
      have ht : b.take prefixLen = [f0, f1, t0, t1, c0, c1, c2, c3, byte] := by simpa using hs
      simp only [serializePrefix, Header.toBytes_fromBytes, Flags.fromByte_ok hfl, List.cons_append,
        List.nil_append]
      rw [← List.take_append_drop prefixLen b, ht]
      simp [prefixLen]
  · cases hp

theorem fixed_nine (b : Fixed prefixLen) : ∃ f0 f1 t0 t1 c0 c1 c2 c3 flags,
    b = ⟨[f0, f1, t0, t1, c0, c1, c2, c3, flags], rfl⟩ := by
  obtain ⟨l, hl⟩ := b
  match l, hl with
  | [f0, f1, t0, t1, c0, c1, c2, c3, flags], _ => exact ⟨f0, f1, t0, t1, c0, c1, c2, c3, flags, rfl⟩

theorem parsePrefix_nine (f0 f1 t0 t1 c0 c1 c2 c3 flags : UInt8) (rest : Bytes) :
    parsePrefix ([f0, f1, t0, t1, c0, c1, c2, c3, flags] ++ rest) =
      (Flags.fromByte flags).map fun f => (Header.fromBytes ⟨[f0, f1, t0, t1, c0, c1, c2, c3], rfl⟩, f) := by
  have hl : [f0, f1, t0, t1, c0, c1, c2, c3, flags].length = prefixLen := rfl
  rw [parsePrefix, slice_append_left rest hl]
  dsimp only
  cases Flags.fromByte flags <;> rfl

theorem serializePrefix_inj {h h' : Header} {f f' : Flags}
    (he : (serializePrefix h f).val = (serializePrefix h' f').val) : h = h' ∧ f = f' := by
  have h1 := parsePrefix_serialize h f []
  rw [he, parsePrefix_serialize] at h1
  obtain ⟨rfl, rfl⟩ := Prod.mk.inj (Except.ok.inj h1)
  exact ⟨rfl, rfl⟩

/-! ## The codec as a whole -/

theorem flags_bits_table : ∀ b : Fin 256,
    let byte := UInt8.ofFin b
    byte &&& fixedMask ≠ fixedPattern ↔ byte.toNat.testBit 1 = true ∨ byte.toNat.testBit 2 = false := by
  decide +kernel

theorem Flags.fromByte_eq_error {byte : UInt8} {e : CodecError} :
    Flags.fromByte byte = .error e ↔
      (byte.toNat.testBit 1 = true ∨ byte.toNat.testBit 2 = false) ∧ e = .invalidFlags byte := by
  have ht := flags_bits_table byte.toFin
  simp only [UInt8.ofFin_toFin] at ht
  rw [← ht]
  constructor
  · exact Flags.fromByte_error
  · rintro ⟨hb, rfl⟩
    unfold Flags.fromByte
    rw [if_pos hb]

theorem shift_epoch (byte : UInt8) : byte >>> 3 ≤ maxEpoch := by
  have ht : ∀ b : Fin 256, UInt8.ofFin b >>> 3 ≤ maxEpoch := by decide +kernel
  have := ht byte.toFin
  rwa [UInt8.ofFin_toFin] at this

theorem parsePrefix_short {b : Bytes} (h : b.length < prefixLen) : parsePrefix b = .error (.tooShort b.length) := by
  have hs : slice b 0 prefixLen = none := by
    unfold slice
    rw [if_neg]
    omega
  unfold parsePrefix
  rw [hs]

theorem nine_bytes {b : Bytes} (h : prefixLen ≤ b.length) : ∃ f0 f1 t0 t1 c0 c1 c2 c3 flags rest,
    b = [f0, f1, t0, t1, c0, c1, c2, c3, flags] ++ rest := by
  obtain ⟨x, rest, rfl⟩ := exists_split h
  obtain ⟨f0, f1, t0, t1, c0, c1, c2, c3, flags, rfl⟩ := fixed_nine x
  exact ⟨f0, f1, t0, t1, c0, c1, c2, c3, flags, rest, rfl⟩

/-- What the codec reads is exactly what it writes, and it refuses exactly the
short strings and the wrong constant bits. -/
theorem prefix_codec_exact :
    (∀ (f : Bytes) (h : Header) (fl : Flags),
      parsePrefix f = .ok (h, fl) ↔ ∃ rest, f = (serializePrefix h fl).val ++ rest) ∧
    (∀ (f : Bytes) (e : CodecError), parsePrefix f = .error e ↔
      (f.length < 9 ∧ e = .tooShort f.length) ∨
      ∃ byte, f[8]? = some byte ∧ (byte.toNat.testBit 1 = true ∨ byte.toNat.testBit 2 = false) ∧
        e = .invalidFlags byte) ∧
    (∀ (h h' : Header) (fl fl' : Flags), serializePrefix h fl = serializePrefix h' fl' → h = h' ∧ fl = fl') ∧
    (∀ (f0 f1 t0 t1 c0 c1 c2 c3 flags : UInt8) (rest : Bytes) (h : Header) (fl : Flags),
      parsePrefix ([f0, f1, t0, t1, c0, c1, c2, c3, flags] ++ rest) = .ok (h, fl) →
      h.fromId.toNat = f0.toNat * 256 + f1.toNat ∧ h.toId.toNat = t0.toNat * 256 + t1.toNat ∧
      h.channel.toNat = ((c0.toNat * 256 + c1.toNat) * 256 + c2.toNat) * 256 + c3.toNat) ∧
    (∀ byte : UInt8, ∃ e, Epoch.new (byte >>> 3) = .ok e) := by
  refine ⟨?_, ?_, ?_, ?_, ?_⟩
  · intro f h fl
    constructor
    · exact parsePrefix_ok
    · rintro ⟨rest, rfl⟩
      exact parsePrefix_serialize h fl rest
  · intro f e
    by_cases hl : f.length < prefixLen
    · have hnone : f[8]? = none := List.getElem?_eq_none (Nat.le_of_lt_succ hl)
      rw [parsePrefix_short hl, hnone]
      constructor
      · intro h
        cases h
        exact Or.inl ⟨hl, rfl⟩
      · rintro (⟨-, rfl⟩ | ⟨byte, hb, -⟩)
        · rfl
        · cases hb
    · obtain ⟨f0, f1, t0, t1, c0, c1, c2, c3, flags, rest, rfl⟩ := nine_bytes (Nat.le_of_not_lt hl)
      have hat : ([f0, f1, t0, t1, c0, c1, c2, c3, flags] ++ rest)[8]? = some flags := rfl
      have hmap : ((Flags.fromByte flags).map fun fl =>
          (Header.fromBytes ⟨[f0, f1, t0, t1, c0, c1, c2, c3], rfl⟩, fl)) = .error e ↔
            Flags.fromByte flags = .error e := by
        cases Flags.fromByte flags <;> simp [Except.map]
      rw [parsePrefix_nine, hat, hmap, Flags.fromByte_eq_error]
      constructor
      · rintro ⟨hbits, rfl⟩
        exact Or.inr ⟨flags, rfl, hbits, rfl⟩
      · rintro (⟨h, -⟩ | ⟨byte, hb, hbits, rfl⟩)
        · exact absurd h hl
        · cases hb
          exact ⟨hbits, rfl⟩
  · intro h h' fl fl' he
    exact serializePrefix_inj (congrArg Subtype.val he)
  · intro f0 f1 t0 t1 c0 c1 c2 c3 flags rest h fl hp
    rw [parsePrefix_nine] at hp
    cases hf : Flags.fromByte flags with
    | error e =>
      rw [hf] at hp
      cases hp
    | ok f =>
      rw [hf] at hp
      cases hp
      have h16 : ∀ a b : UInt8, (u16FromBeBytes ⟨[a, b], rfl⟩).toNat = a.toNat * 256 + b.toNat := by
        intro a b
        have ha := a.toNat_lt
        have hb := b.toNat_lt
        simp only [u16FromBeBytes, beDecode, UInt16.toNat_ofNat', List.foldl_cons, List.foldl_nil]
        omega
      have h32 : (u32FromBeBytes ⟨[c0, c1, c2, c3], rfl⟩).toNat =
          ((c0.toNat * 256 + c1.toNat) * 256 + c2.toNat) * 256 + c3.toNat := by
        have h0 := c0.toNat_lt
        have h1 := c1.toNat_lt
        have h2 := c2.toNat_lt
        have h3 := c3.toNat_lt
        simp only [u32FromBeBytes, beDecode, UInt32.toNat_ofNat', List.foldl_cons, List.foldl_nil]
        omega
      exact ⟨h16 f0 f1, h16 t0 t1, h32⟩
  · intro byte
    exact ⟨_, Epoch.new_ok (shift_epoch byte)⟩

end Paxe

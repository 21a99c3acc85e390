import Mathlib

/-!
# Byte strings and big-endian fields

Slices as a checked language sees them: a range of a byte string exists or it
does not, a fixed-size array carries its length, and a field of `w` bytes is
an integer below `256 ^ w` written most significant byte first.
-/

namespace Wire

abbrev Bytes := List UInt8

/-- A byte array whose size is part of its type. -/
abbrev Fixed (n : Nat) := { b : Bytes // b.length = n }

/-- What a call that can abort the process does: it returns a value, returns
an error, or panics. -/
inductive Res (ε α : Type) where
  | ok (a : α)
  | err (e : ε)
  | panic
  deriving DecidableEq, Repr

def tryInto (n : Nat) (b : Bytes) : Option (Fixed n) :=
  if h : b.length = n then some ⟨b, h⟩ else none

/-- The bytes `lo..hi` of `b`, when they all exist. -/
def slice (b : Bytes) (lo hi : Nat) : Option Bytes :=
  if lo ≤ hi ∧ hi ≤ b.length then some ((b.drop lo).take (hi - lo)) else none

def splitAtMut (b : Bytes) (mid : Nat) : Option (Bytes × Bytes) :=
  if mid ≤ b.length then some (b.take mid, b.drop mid) else none

def copyFromSlice (dst src : Bytes) : Option Bytes :=
  if dst.length = src.length then some src else none

/-- A buffer `dst` after a callee stored `src` at its start. -/
def overwrite (dst src : Bytes) : Bytes :=
  src.take dst.length ++ dst.drop src.length

/-! ## Slices -/

theorem tryInto_val {n : Nat} (a : Fixed n) : tryInto n a.val = some a := by
  simp [tryInto, a.property]

theorem tryInto_eq_some {n : Nat} {b : Bytes} (h : b.length = n) : tryInto n b = some ⟨b, h⟩ := by
  simp [tryInto, h]

theorem slice_eq_some {b : Bytes} {lo hi : Nat} (h : lo ≤ hi) (h' : hi ≤ b.length) :
    slice b lo hi = some ((b.drop lo).take (hi - lo)) := by
  simp [slice, h, h']

theorem slice_append_right (a b : Bytes) {lo hi : Nat} (h : a.length ≤ lo) (hl : lo ≤ hi) :
    slice (a ++ b) lo hi = slice b (lo - a.length) (hi - a.length) := by
  unfold slice
  have hd : (a ++ b).drop lo = b.drop (lo - a.length) := by
    rw [List.drop_append, List.drop_eq_nil_of_le h, List.nil_append]
  rw [hd]
  have hw : hi - a.length - (lo - a.length) = hi - lo := by omega
  rw [hw]
  by_cases hb : hi ≤ a.length + b.length
  · rw [if_pos ⟨hl, by simpa using hb⟩, if_pos ⟨by omega, by omega⟩]
  · rw [if_neg (by simp; omega), if_neg (by omega)]

theorem slice_append_left {a : Bytes} {n : Nat} (b : Bytes) (h : a.length = n) :
    slice (a ++ b) 0 n = some a := by
  subst h
  rw [slice_eq_some (Nat.zero_le _) (by simp)]
  simp

theorem slice_mid {a b : Bytes} {lo hi : Nat} (c : Bytes) (ha : a.length = lo) (hb : lo + b.length = hi) :
    slice (a ++ (b ++ c)) lo hi = some b := by
  rw [slice_append_right a (b ++ c) (Nat.le_of_eq ha) (by omega)]
  have h0 : lo - a.length = 0 := by omega
  rw [h0, slice_append_left c (by omega)]

theorem slice_tail {a b : Bytes} {lo hi : Nat} (ha : a.length = lo) (hb : lo + b.length = hi) :
    slice (a ++ b) lo hi = some b := by
  have := slice_mid (a := a) (b := b) [] ha hb
  rwa [List.append_nil] at this

theorem exists_split {b : Bytes} {n : Nat} (h : n ≤ b.length) : ∃ (x : Fixed n) (y : Bytes), b = x.val ++ y :=
  ⟨⟨b.take n, by simp [h]⟩, b.drop n, (List.take_append_drop n b).symm⟩

theorem splitAtMut_eq_some {b : Bytes} {mid : Nat} (h : mid ≤ b.length) :
    splitAtMut b mid = some (b.take mid, b.drop mid) := by
  simp [splitAtMut, h]

theorem overwrite_length (dst src : Bytes) : (overwrite dst src).length = dst.length := by
  simp only [overwrite, List.length_append, List.length_take, List.length_drop]
  omega

theorem overwrite_eq {dst src : Bytes} (h : src.length ≤ dst.length) :
    overwrite dst src = src ++ dst.drop src.length := by
  rw [overwrite, List.take_of_length_le h]

theorem overwrite_full {dst src : Bytes} (h : src.length = dst.length) : overwrite dst src = src := by
  rw [overwrite_eq (Nat.le_of_eq h), h, List.drop_length, List.append_nil]

/-! ## Big-endian integers -/

def beEncode : Nat → Nat → Bytes
  | 0, _ => []
  | w + 1, x => beEncode w (x / 256) ++ [UInt8.ofNat x]

def beDecode (b : Bytes) : Nat :=
  b.foldl (fun acc byte => acc * 256 + byte.toNat) 0

@[simp] theorem beEncode_length : ∀ w x, (beEncode w x).length = w
  | 0, _ => rfl
  | w + 1, x => by simp [beEncode, beEncode_length w]

theorem beDecode_snoc (b : Bytes) (x : UInt8) : beDecode (b ++ [x]) = beDecode b * 256 + x.toNat := by
  simp [beDecode]

theorem beDecode_lt (b : Bytes) : beDecode b < 256 ^ b.length := by
  induction b using List.reverseRecOn with
  | nil => simp [beDecode]
  | append_singleton b x ih =>
    rw [beDecode_snoc, List.length_append, List.length_singleton, Nat.pow_succ]
    have := x.toNat_lt
    omega

theorem beDecode_beEncode : ∀ w x, x < 256 ^ w → beDecode (beEncode w x) = x
  | 0, x, h => by
    have : x = 0 := by simpa using h
    simp [beEncode, beDecode, this]
  | w + 1, x, h => by
    rw [Nat.pow_succ] at h
    rw [beEncode, beDecode_snoc, beDecode_beEncode w (x / 256) (by omega)]
    simp
    omega

theorem beEncode_beDecode {b : Bytes} {w : Nat} (h : b.length = w) : beEncode w (beDecode b) = b := by
  subst h
  induction b using List.reverseRecOn with
  | nil => rfl
  | append_singleton b x ih =>
    rw [List.length_append, List.length_singleton, beEncode, beDecode_snoc]
    have hx := x.toNat_lt
    have hd : (beDecode b * 256 + x.toNat) / 256 = beDecode b := by omega
    have hm : UInt8.ofNat (beDecode b * 256 + x.toNat) = x := by
      apply UInt8.toNat_inj.mp
      simp
    rw [hd, ih, hm]

end Wire

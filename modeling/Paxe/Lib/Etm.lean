import Paxe.Lib.Wire

/-!
# Encrypt a stream, then authenticate it

The shape of counter-mode AEADs: a ciphertext is the plaintext xored with a
keystream, followed by a tag over it. Opening is the exact inverse of sealing
for every keystream and every tag function.
-/

namespace Etm
open Wire

def xorStream (ks : Nat → UInt8) (b : Bytes) : Bytes := b.mapIdx fun i x => x ^^^ ks i

section
variable {n : Nat} (ks : Nat → UInt8) (tag : Bytes → Fixed n)

def sealed (p : Bytes) : Bytes := xorStream ks p ++ (tag (xorStream ks p)).val

def opened (c : Bytes) : Option Bytes :=
  let body := c.take (c.length - n)
  if c.drop (c.length - n) = (tag body).val then some (xorStream ks body) else none

@[simp] theorem xorStream_length (b : Bytes) : (xorStream ks b).length = b.length := by
  simp [xorStream]

@[simp] theorem xorStream_xorStream (b : Bytes) : xorStream ks (xorStream ks b) = b := by
  simp only [xorStream, List.mapIdx_mapIdx]
  refine List.ext_getElem (by simp) fun i _ _ => ?_
  simp

theorem sealed_length (p : Bytes) : (sealed ks tag p).length = p.length + n := by
  simp [sealed, (tag _).property]

theorem opened_length {c p : Bytes} (h : opened ks tag c = some p) : p.length = c.length - n := by
  simp only [opened, Option.ite_none_right_eq_some, Option.some.injEq] at h
  rw [← h.2, xorStream_length, List.length_take]
  omega

theorem opened_iff {c p : Bytes} (hc : n ≤ c.length) : opened ks tag c = some p ↔ sealed ks tag p = c := by
  constructor
  · intro h
    simp only [opened, Option.ite_none_right_eq_some, Option.some.injEq] at h
    obtain ⟨ht, rfl⟩ := h
    rw [sealed, xorStream_xorStream, ← ht, List.take_append_drop]
  · rintro rfl
    have hk : (sealed ks tag p).length - n = (xorStream ks p).length := by
      rw [sealed_length, xorStream_length, Nat.add_sub_cancel]
    have hbody : (sealed ks tag p).take ((sealed ks tag p).length - n) = xorStream ks p := by
      rw [hk, sealed, List.take_left]
    have htag : (sealed ks tag p).drop ((sealed ks tag p).length - n) = (tag (xorStream ks p)).val := by
      rw [hk, sealed, List.drop_left]
    simp only [opened, hbody, htag, if_true, xorStream_xorStream]

end

end Etm

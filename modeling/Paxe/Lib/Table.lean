import Mathlib

/-!
# Capped ordered maps

Lookups in an ordered map after an update. A map that admits a new key only
below a cap, and any overwrite: the size after an insertion, the size as the
number of occupied keys, and the size of a part of another map.
-/

namespace Table

section
variable {κ ν : Type} {cmp : κ → κ → Ordering} [Std.TransCmp cmp]

section
variable [DecidableEq κ] [Std.LawfulEqCmp cmp] (m : Std.TreeMap κ ν cmp) (k a : κ)

theorem lookup_insert (v : ν) : (m.insert k v)[a]? = if a = k then some v else m[a]? := by
  rw [Std.TreeMap.getElem?_insert]
  by_cases h : a = k
  · simp [h]
  · simp [h, Ne.symm h]

theorem lookup_erase : (m.erase k)[a]? = if a = k then none else m[a]? := by
  rw [Std.TreeMap.getElem?_erase]
  by_cases h : a = k
  · simp [h]
  · simp [h, Ne.symm h]

theorem erase_some {m : Std.TreeMap κ ν cmp} {k a : κ} {v : ν} :
    (m.erase k)[a]? = some v ↔ a ≠ k ∧ m[a]? = some v := by
  rw [lookup_erase]
  by_cases h : a = k
  · simp [h]
  · simp [h]

end

theorem size_insert_le {m : Std.TreeMap κ ν cmp} {k : κ} {cap : Nat} (v : ν) (hm : m.size ≤ cap)
    (h : ¬ (!m.contains k && decide (cap ≤ m.size)) = true) : (m.insert k v).size ≤ cap := by
  rw [Std.TreeMap.size_insert]
  split
  · exact hm
  · rename_i hk
    have hc : m.contains k = false := Bool.eq_false_iff.mpr fun hc => hk (Std.TreeMap.contains_iff_mem.mp hc)
    simp only [hc, Bool.not_false, Bool.true_and, decide_eq_true_eq] at h
    omega

theorem ncard_occupied [DecidableEq κ] [Std.LawfulEqCmp cmp] (m : Std.TreeMap κ ν cmp) :
    {k : κ | m[k]?.isSome}.ncard = m.size := by
  have hkeys : {k : κ | m[k]?.isSome} = ((m.keys.toFinset : Finset κ) : Set κ) := by
    ext k
    simp
  rw [hkeys, Set.ncard_coe_finset, List.toFinset_card_of_nodup Std.TreeMap.nodup_keys, Std.TreeMap.length_keys]

theorem ncard_filter [DecidableEq κ] [Std.LawfulEqCmp cmp] (m : Std.TreeMap κ ν cmp) (p : κ → Bool) :
    {k : κ | p k = true ∧ m[k]?.isSome}.ncard = (m.keys.filter p).length := by
  have hkeys : {k : κ | p k = true ∧ m[k]?.isSome} = (((m.keys.filter p).toFinset : Finset κ) : Set κ) := by
    ext k
    simp [and_comm]
  rw [hkeys, Set.ncard_coe_finset, List.toFinset_card_of_nodup (Std.TreeMap.nodup_keys.filter _)]

theorem size_restrict [DecidableEq κ] [Std.LawfulEqCmp cmp] {m n : Std.TreeMap κ ν cmp} {p : κ → Bool}
    (h : ∀ k : κ, n[k]? = if p k then m[k]? else none) : n.size = (m.keys.filter p).length := by
  have hperm : n.keys.Perm (m.keys.filter p) := by
    apply (List.perm_ext_iff_of_nodup Std.TreeMap.nodup_keys (Std.TreeMap.nodup_keys.filter _)).mpr
    intro k
    rw [List.mem_filter, Std.TreeMap.mem_keys, Std.TreeMap.mem_keys, Std.TreeMap.mem_iff_isSome_getElem?,
      Std.TreeMap.mem_iff_isSome_getElem?, h k]
    by_cases hp : p k = true
    · simp [hp]
    · simp [hp]
  rw [← Std.TreeMap.length_keys, hperm.length_eq]

end

end Table

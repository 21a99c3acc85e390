import Paxe.SixSeven.Kv

/-!
# The placement rule and the store

Who owns a key, what an operation leaves alone, how much text an accepted
request can carry, and the store compared with one map for all keys.
-/

namespace Paxe.SixSeven
open Str

/-! ## The rule -/

theorem owner_comm (key : UInt64) (a b : UInt16) : owner key a b = owner key b a := by
  unfold owner
  rcases UInt16.le_total a b with h | h
  · by_cases h' : b ≤ a
    · rw [UInt16.le_antisymm h h']
    · rw [if_pos h, if_neg h']
  · by_cases h' : a ≤ b
    · rw [UInt16.le_antisymm h' h]
    · rw [if_neg h', if_pos h]

theorem owner_mem (key : UInt64) (a b : UInt16) : owner key a b = a ∨ owner key a b = b := by
  unfold owner
  by_cases h : a ≤ b
  · by_cases hk : key % 2 = 1
    · simp [h, hk]
    · simp [h, hk]
  · by_cases hk : key % 2 = 1
    · simp [h, hk]
    · simp [h, hk]

theorem owner_iff_not {a b : UInt16} (hab : a ≠ b) (key : UInt64) : owner key a b = a ↔ ¬ owner key b a = b := by
  rw [owner_comm key b a]
  constructor
  · intro h h'
    exact hab (h.symm.trans h')
  · intro h
    exact (owner_mem key a b).resolve_right h

theorem mod_two (k : UInt64) : k % 2 = 0 ∨ k % 2 = 1 := by
  rcases Nat.mod_two_eq_zero_or_one k.toNat with h | h
  · left
    apply UInt64.toNat_inj.mp
    simpa using h
  · right
    apply UInt64.toNat_inj.mp
    simpa using h

theorem owner_parity {a b : UInt16} (hab : a ≠ b) (j k : UInt64) :
    owner j a b = owner k a b ↔ j % 2 = k % 2 := by
  unfold owner
  by_cases h : a ≤ b
  · rcases mod_two j with hj | hj <;> rcases mod_two k with hk | hk <;> simp [h, hj, hk, hab, Ne.symm hab]
  · rcases mod_two j with hj | hj <;> rcases mod_two k with hk | hk <;> simp [h, hj, hk, hab, Ne.symm hab]

/-! ## The store -/

theorem Store.execute_frame (s : Store) (op : Op) {k : UInt64} (h : k ≠ op.key) :
    (s.execute op).2.entries[k]? = s.entries[k]? := by
  cases op with
  | get j =>
    unfold execute
    dsimp only
    split <;> rfl
  | rm j =>
    unfold execute
    dsimp only
    split
    · rw [Table.lookup_erase]
      exact if_neg h
    · rfl
  | put j v =>
    unfold execute
    dsimp only
    split
    · rfl
    · rw [Table.lookup_insert]
      exact if_neg h

/-! ## Sizes -/

def Op.textLen : Op → Nat
  | .put _ v => len v
  | _ => 0

def Reply.textLen : Reply → Nat
  | .value v => len v
  | .err e => len e
  | _ => 0

theorem Except.map_eq_ok {ε α β : Type} {x : Except ε α} {f : α → β} {b : β} (h : x.map f = .ok b) :
    ∃ a, x = .ok a ∧ f a = b := by
  cases x with
  | error e => cases h
  | ok a =>
    cases h
    exact ⟨a, rfl, rfl⟩

theorem len_le_of_splitOnce {p : Char → Bool} {t a b : Text} (h : splitOnce p t = some (a, b)) : len b ≤ len t := by
  obtain ⟨c, -, rfl⟩ := splitOnce_some h
  rw [len_append, len_cons]
  omega

theorem Op.parseVerb_textLen {debug : Text → Text} {size : Nat} {verb rest : Text} {op : Op}
    (hsize : len rest ≤ size) (h : parseVerb debug size verb rest = .ok op) : op.textLen ≤ maxPutBytes := by
  unfold parseVerb at h
  dsimp only at h
  split at h
  · obtain ⟨k, -, rfl⟩ := Except.map_eq_ok h
    exact Nat.zero_le _
  · split at h
    · obtain ⟨k, -, rfl⟩ := Except.map_eq_ok h
      exact Nat.zero_le _
    · split at h
      · split at h
        · cases h
        · rename_i hlen
          split at h
          · cases h
          · rename_i k v hs
            obtain ⟨j, -, rfl⟩ := Except.map_eq_ok h
            have := len_le_of_splitOnce hs
            show len v ≤ maxPutBytes
            omega
      · split at h
        · cases h
        · cases h

theorem Op.parse_textLen {debug : Text → Text} {body : Text} {op : Op} (h : parse debug body = .ok op) :
    op.textLen ≤ maxPutBytes := by
  unfold parse at h
  dsimp only at h
  split at h
  · rename_i v r hs
    exact parseVerb_textLen (Nat.le_trans (len_le_of_suffix (trimStart_suffix r)) (len_le_of_splitOnce hs)) h
  · exact parseVerb_textLen (Nat.zero_le _) h

end Paxe.SixSeven

import Paxe.SixSeven.Server

/-!
# One store for all keys

What the pair is for: a single map that parses a request and executes it, with
the ceiling of one node counted over the keys of one parity. A node's store is
the part of that map which the node owns, and stays so under every operation.
-/

namespace Paxe.SixSeven
open Str

abbrev Reference := Std.TreeMap UInt64 Text

namespace Reference

def parityLen (m : Reference) (k : UInt64) : Nat := (m.keys.filter fun j => j % 2 == k % 2).length

def execute (m : Reference) : Op → Reply × Reference
  | .get k =>
    match m[k]? with
    | some v => (.value v, m)
    | none => (.nil, m)
  | .rm k =>
    match m[k]? with
    | some _ => (.ok, m.erase k)
    | none => (.nil, m)
  | .put k v =>
    if !m.contains k && decide (maxKeys ≤ m.parityLen k) then (ceiling, m)
    else (.ok, m.insert k v)

def serve (debug : Text → Text) (m : Reference) (body : Text) : Text × Reference :=
  match Op.parse debug body with
  | .error e => ((Reply.err e).body, m)
  | .ok op => ((m.execute op).1.body, (m.execute op).2)

theorem execute_frame (m : Reference) (op : Op) {k : UInt64} (h : k ≠ op.key) : (m.execute op).2[k]? = m[k]? := by
  cases op with
  | get j =>
    unfold execute
    dsimp only
    split <;> rfl
  | rm j =>
    unfold execute
    dsimp only
    split
    · rw [Table.lookup_erase]
      exact if_neg h
    · rfl
  | put j v =>
    unfold execute
    dsimp only
    split
    · rfl
    · rw [Table.lookup_insert]
      exact if_neg h

end Reference

/-! ## The part of a node -/

def Store.Part (s : Store) (own : UInt64 → Bool) (m : Reference) : Prop :=
  ∀ k : UInt64, s.entries[k]? = if own k then m[k]? else none

namespace Store.Part

section
variable {s : Store} {own : UInt64 → Bool} {m : Reference} (h : s.Part own m)
  (hpar : ∀ j k, own j = own k ↔ j % 2 = k % 2)
include h

theorem at_own {k : UInt64} (hk : own k = true) : s.entries[k]? = m[k]? := by
  rw [h k, if_pos hk]

theorem skip {op : Op} (hop : own op.key = false) : s.Part own (m.execute op).2 := by
  intro k
  rw [h k]
  by_cases hk : k = op.key
  · simp [hk, hop]
  · rw [Reference.execute_frame m op hk]

include hpar

theorem size_eq {k : UInt64} (hk : own k = true) : s.entries.size = m.parityLen k := by
  apply Table.size_restrict
  intro j
  rw [h j]
  have : (j % 2 == k % 2) = own j := by
    by_cases hj : j % 2 = k % 2
    · have := (hpar j k).mpr hj
      rw [this, hk]
      simpa using hj
    · have : ¬ own j = own k := fun he => hj ((hpar j k).mp he)
      rw [hk] at this
      simp [hj, this]
  rw [this]

theorem execute {op : Op} (hop : own op.key = true) :
    (s.execute op).1 = (m.execute op).1 ∧ (s.execute op).2.Part own (m.execute op).2 := by
  have hval : (s.execute op).1 = (m.execute op).1 ∧
      (s.execute op).2.entries[op.key]? = (m.execute op).2[op.key]? := by
    cases op with
    | get k =>
      have hk := h.at_own hop
      unfold Store.execute Reference.execute
      dsimp only [Op.key] at hk ⊢
      rw [hk]
      cases hm : m[k]? with
      | none => exact ⟨rfl, by dsimp only; rw [hk]⟩
      | some v => exact ⟨rfl, by dsimp only; rw [hk]⟩
    | rm k =>
      have hk := h.at_own hop
      unfold Store.execute Reference.execute
      dsimp only [Op.key] at hk ⊢
      cases hm : m[k]? with
      | none =>
        rw [hm] at hk
        rw [hk]
        exact ⟨rfl, by dsimp only; rw [hk, hm]⟩
      | some v =>
        rw [hm] at hk
        rw [hk]
        exact ⟨rfl, by dsimp only; rw [Std.TreeMap.getElem?_erase_self, Std.TreeMap.getElem?_erase_self]⟩
    | put k v =>
      have hk := h.at_own hop
      have hsize := h.size_eq hpar hop
      have hcond : (!s.entries.contains k && decide (maxKeys ≤ s.entries.size)) =
          (!m.contains k && decide (maxKeys ≤ m.parityLen k)) := by
        rw [Std.TreeMap.contains_eq_isSome_getElem?, Std.TreeMap.contains_eq_isSome_getElem?]
        dsimp only [Op.key] at hk hsize
        rw [hk, hsize]
      unfold Store.execute Reference.execute
      dsimp only [Op.key] at hk ⊢
      by_cases hc : (!m.contains k && decide (maxKeys ≤ m.parityLen k)) = true
      · rw [dif_pos (hcond.trans hc), if_pos hc]
        exact ⟨rfl, hk⟩
      · rw [dif_neg (fun h => hc (hcond.symm.trans h)), if_neg hc]
        exact ⟨rfl, by dsimp only; rw [Std.TreeMap.getElem?_insert_self, Std.TreeMap.getElem?_insert_self]⟩
  refine ⟨hval.1, ?_⟩
  intro k
  by_cases hk : k = op.key
  · rw [hk, if_pos hop]
    exact hval.2
  · rw [Store.execute_frame s op hk, Reference.execute_frame m op hk]
    exact h k

end

end Store.Part

/-! ## Sizes -/

def Reference.Small (m : Reference) : Prop := ∀ (k : UInt64) (v : Text), m[k]? = some v → len v ≤ maxPutBytes

theorem Reference.Small.empty : Small ∅ := by
  intro k v h
  simp at h

theorem ceiling_textLen : ceiling.textLen ≤ maxPutBytes := by decide +kernel

theorem Reference.Small.execute {m : Reference} (h : m.Small) {op : Op} (hop : op.textLen ≤ maxPutBytes) :
    (m.execute op).1.textLen ≤ maxPutBytes ∧ (m.execute op).2.Small := by
  cases op with
  | get k =>
    unfold Reference.execute
    dsimp only
    cases hk : m[k]? with
    | none => exact ⟨Nat.zero_le _, h⟩
    | some v => exact ⟨h k v hk, h⟩
  | rm k =>
    unfold Reference.execute
    dsimp only
    cases hk : m[k]? with
    | none => exact ⟨Nat.zero_le _, h⟩
    | some v =>
      refine ⟨Nat.zero_le _, ?_⟩
      intro j w hj
      dsimp only at hj
      rw [Table.lookup_erase] at hj
      split at hj
      · cases hj
      · exact h j w hj
  | put k v =>
    unfold Reference.execute
    dsimp only
    split
    · exact ⟨ceiling_textLen, h⟩
    · refine ⟨Nat.zero_le _, ?_⟩
      intro j w hj
      dsimp only at hj
      rw [Table.lookup_insert] at hj
      split at hj
      · cases hj
        exact hop
      · exact h j w hj

theorem Reference.Small.serve {m : Reference} (h : m.Small) (debug : Text → Text) (body : Text) :
    (m.serve debug body).2.Small := by
  unfold Reference.serve
  split
  · exact h
  · rename_i op hop
    exact (h.execute (Op.parse_textLen hop)).2

theorem request_fits {debug : Text → Text} {body : Text} {op : Op} (h : Op.parse debug body = .ok op)
    (corr : UInt64) : (toBytes (Peer.request corr op).encode).length ≤ 65470 := by
  have hlen := Peer.encode_request_len corr op
  have htext := Op.parse_textLen h
  unfold maxPutBytes at htext
  unfold len at hlen
  omega

theorem response_fits {reply : Reply} (h : reply.textLen ≤ maxPutBytes) (corr : UInt64) :
    (toBytes (Peer.response corr reply).encode).length ≤ 65470 := by
  have hlen := Peer.encode_response_len corr reply
  unfold maxPutBytes at h
  unfold len at hlen
  omega

end Paxe.SixSeven

import Mathlib

/-!
# Tickets

Requests get tickets in increasing order. A ticket waits under a key or is
settled; `Fair` says that none is settled twice, waits under two keys, or waits
after it was settled. A key may be taken over by a new ticket.
-/

namespace Ledger

structure Book (κ : Type) where
  waiting : κ → Option Nat
  settled : List Nat

structure Fair {κ : Type} (b : Book κ) (next : Nat) : Prop where
  nodup : b.settled.Nodup
  settled_lt : ∀ t ∈ b.settled, t < next
  waiting_lt : ∀ k t, b.waiting k = some t → t < next
  unsettled : ∀ k t, b.waiting k = some t → t ∉ b.settled
  apart : ∀ k k' t, b.waiting k = some t → b.waiting k' = some t → k = k'

namespace Fair

section
variable {κ : Type}

theorem empty : Fair (⟨fun _ => none, []⟩ : Book κ) 0 := by
  refine ⟨List.nodup_nil, ?_, ?_, ?_, ?_⟩ <;> simp

variable {b : Book κ} {next : Nat} (h : Fair b next)
include h

theorem later : Fair b (next + 1) where
  nodup := h.nodup
  settled_lt t ht := Nat.lt_succ_of_lt (h.settled_lt t ht)
  waiting_lt k t hk := Nat.lt_succ_of_lt (h.waiting_lt k t hk)
  unsettled := h.unsettled
  apart := h.apart

theorem direct : Fair ⟨b.waiting, b.settled ++ [next]⟩ (next + 1) := by
  have hfresh : next ∉ b.settled := fun hm => absurd (h.settled_lt next hm) (Nat.lt_irrefl _)
  refine ⟨?_, ?_, h.later.waiting_lt, ?_, h.apart⟩
  · rw [List.nodup_append]
    refine ⟨h.nodup, List.nodup_singleton _, ?_⟩
    rintro x hx y hy rfl
    exact hfresh (List.mem_singleton.mp hy ▸ hx)
  · intro t ht
    rcases List.mem_append.mp ht with ht | ht
    · exact Nat.lt_succ_of_lt (h.settled_lt t ht)
    · rw [List.mem_singleton.mp ht]
      exact Nat.lt_succ_self next
  · intro k t hk ht
    rcases List.mem_append.mp ht with ht | ht
    · exact h.unsettled k t hk ht
    · rw [List.mem_singleton.mp ht] at hk
      exact absurd (h.waiting_lt k next hk) (Nat.lt_irrefl _)

theorem issue [DecidableEq κ] (k : κ) : Fair ⟨Function.update b.waiting k (some next), b.settled⟩ (next + 1) := by
  have hnew : ∀ {j t}, Function.update b.waiting k (some next) j = some t →
      (j = k ∧ t = next) ∨ b.waiting j = some t := by
    intro j t hj
    by_cases hjk : j = k
    · subst hjk
      rw [Function.update_self] at hj
      exact Or.inl ⟨rfl, (Option.some.inj hj).symm⟩
    · rw [Function.update_of_ne hjk] at hj
      exact Or.inr hj
  refine ⟨h.nodup, h.later.settled_lt, ?_, ?_, ?_⟩
  · intro j t hj
    rcases hnew hj with ⟨-, rfl⟩ | hj
    · exact Nat.lt_succ_self _
    · exact h.later.waiting_lt j t hj
  · intro j t hj ht
    rcases hnew hj with ⟨-, rfl⟩ | hj
    · exact absurd (h.settled_lt _ ht) (Nat.lt_irrefl _)
    · exact h.unsettled j t hj ht
  · intro j j' t hj hj'
    rcases hnew hj with ⟨rfl, ht⟩ | hold
    · rcases hnew hj' with ⟨rfl, -⟩ | hold'
      · rfl
      · exact absurd (ht ▸ h.waiting_lt j' t hold') (Nat.lt_irrefl _)
    · rcases hnew hj' with ⟨rfl, ht⟩ | hold'
      · exact absurd (ht ▸ h.waiting_lt j t hold) (Nat.lt_irrefl _)
      · exact h.apart j j' t hold hold'

/-- The tickets of some keys are settled, in any order. -/
theorem settle [DecidableEq κ] {ι : Type} (key : ι → κ) {xs : List ι} {Q : ι → Nat → Prop}
    (hx : ∀ x ∈ xs, ∃ t, b.waiting (key x) = some t ∧ Q x t) (hn : (xs.map key).Nodup) :
    ∃ ticket : ι → Nat, (∀ x ∈ xs, b.waiting (key x) = some (ticket x) ∧ Q x (ticket x)) ∧
      Fair ⟨fun k => if k ∈ xs.map key then none else b.waiting k, b.settled ++ xs.map ticket⟩ next := by
  obtain ⟨ticket, hticket⟩ : ∃ ticket : ι → Nat,
      ∀ x ∈ xs, b.waiting (key x) = some (ticket x) ∧ Q x (ticket x) := by
    refine ⟨fun x => (b.waiting (key x)).getD 0, fun x hxm => ?_⟩
    obtain ⟨t, ht, hq⟩ := hx x hxm
    dsimp only
    rw [ht]
    exact ⟨rfl, hq⟩
  have hw : ∀ {k t}, (if k ∈ xs.map key then none else b.waiting k) = some t →
      b.waiting k = some t ∧ k ∉ xs.map key := by
    intro k t hk
    by_cases hm : k ∈ xs.map key
    · rw [if_pos hm] at hk
      cases hk
    · rw [if_neg hm] at hk
      exact ⟨hk, hm⟩
  have htick : (xs.map ticket).Nodup := by
    apply List.Nodup.map_on ?_ (List.Nodup.of_map _ hn)
    intro x hxm y hym hxy
    have hx1 := (hticket x hxm).1
    have hy1 := (hticket y hym).1
    rw [← hxy] at hy1
    exact List.inj_on_of_nodup_map hn hxm hym (h.apart _ _ _ hx1 hy1)
  refine ⟨ticket, hticket, ?_, ?_, ?_, ?_, ?_⟩
  · rw [List.nodup_append]
    refine ⟨h.nodup, htick, ?_⟩
    rintro t ht u hu rfl
    obtain ⟨x, hxm, rfl⟩ := List.mem_map.mp hu
    exact h.unsettled _ _ (hticket x hxm).1 ht
  · intro t ht
    rcases List.mem_append.mp ht with ht | ht
    · exact h.settled_lt t ht
    · obtain ⟨x, hxm, rfl⟩ := List.mem_map.mp ht
      exact h.waiting_lt _ _ (hticket x hxm).1
  · intro k t hk
    exact h.waiting_lt k t (hw hk).1
  · intro k t hk ht
    obtain ⟨hk, hm⟩ := hw hk
    rcases List.mem_append.mp ht with ht | ht
    · exact h.unsettled k t hk ht
    · obtain ⟨x, hxm, rfl⟩ := List.mem_map.mp ht
      rw [h.apart _ _ _ hk (hticket x hxm).1] at hm
      exact hm (List.mem_map_of_mem hxm)
  · intro k k' t hk hk'
    exact h.apart k k' t (hw hk).1 (hw hk').1

end

end Fair

end Ledger

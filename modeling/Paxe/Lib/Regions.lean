import Mathlib

/-!
# Regions of an allocator

A memory hands out regions, each under a new id, and takes each back once. A call
on a region that is not there is a fault, and so is a copy of another length. What
a region held when it was released is kept. `Owns` says that the regions that are
live are those that a table of owners holds, each by one of them.
-/

namespace Regions

structure Region (α : Type) where
  cells : List α
  locked : Bool
  deriving DecidableEq, Repr

/-- `released` lists the regions that were taken back, with what they last held. -/
structure Memory (α : Type) where
  next : Nat
  live : Nat → Option (Region α)
  released : List (Nat × Region α)

namespace Memory

section
variable {α : Type}

def empty : Memory α := ⟨0, fun _ => none, []⟩

def alloc (m : Memory α) (cells : List α) : Memory α :=
  { m with next := m.next + 1, live := Function.update m.live m.next (some ⟨cells, false⟩) }

def modify (m : Memory α) (id : Nat) (f : Region α → Region α) : Option (Memory α) :=
  (m.live id).map fun r => { m with live := Function.update m.live id (some (f r)) }

def write (m : Memory α) (id : Nat) (cells : List α) : Option (Memory α) :=
  match m.live id with
  | some r => if cells.length = r.cells.length then m.modify id fun r => { r with cells } else none
  | none => none

def lock (m : Memory α) (id : Nat) : Option (Memory α) := m.modify id fun r => { r with locked := true }

def wipe [Zero α] (m : Memory α) (id : Nat) : Option (Memory α) :=
  m.modify id fun r => { r with cells := List.replicate r.cells.length 0 }

def free (m : Memory α) (id : Nat) : Option (Memory α) :=
  (m.live id).map fun r => { m with live := Function.update m.live id none, released := m.released ++ [(id, r)] }

/-! ## Calls on a live region -/

variable {m : Memory α} {id : Nat} {r : Region α}

theorem modify_eq (h : m.live id = some r) (f : Region α → Region α) :
    m.modify id f = some { m with live := Function.update m.live id (some (f r)) } := by
  rw [modify, h]
  rfl

theorem write_eq (h : m.live id = some r) {cells : List α} (hlen : cells.length = r.cells.length) :
    m.write id cells = some { m with live := Function.update m.live id (some { r with cells }) } := by
  rw [write, h]
  dsimp only
  rw [if_pos hlen]
  exact modify_eq h _

theorem lock_eq (h : m.live id = some r) :
    m.lock id = some { m with live := Function.update m.live id (some { r with locked := true }) } := modify_eq h _

theorem wipe_eq [Zero α] (h : m.live id = some r) :
    m.wipe id = some { m with
      live := Function.update m.live id (some { r with cells := List.replicate r.cells.length 0 }) } :=
  modify_eq h _

theorem free_eq (h : m.live id = some r) :
    m.free id = some { m with live := Function.update m.live id none, released := m.released ++ [(id, r)] } := by
  rw [free, h]
  rfl

/-! ## Every region is live or was released once -/

/-- Ids are handed out in order, and each was either released, once, or is live. -/
structure Sound (m : Memory α) : Prop where
  fresh : ∀ id, m.next ≤ id → m.live id = none
  ledger : ∀ id, id ∈ m.released.map (·.1) ↔ id < m.next ∧ m.live id = none
  once : (m.released.map (·.1)).Nodup

theorem Sound.empty : Sound (.empty : Memory α) :=
  ⟨fun _ _ => rfl, fun id => by simp [Memory.empty], by simp [Memory.empty]⟩

theorem Sound.lt (hs : m.Sound) (h : m.live id = some r) : id < m.next := by
  by_contra hle
  rw [hs.fresh id (Nat.le_of_not_lt hle)] at h
  cases h

theorem Sound.alloc (hs : m.Sound) (cells : List α) : (m.alloc cells).Sound := by
  have hnext : m.next ∉ m.released.map (·.1) := fun h => absurd ((hs.ledger _).mp h).1 (Nat.lt_irrefl _)
  refine ⟨?_, ?_, hs.once⟩
  · intro id hid
    have hne : id ≠ m.next := Nat.ne_of_gt hid
    show Function.update m.live m.next _ id = none
    rw [Function.update_of_ne hne]
    exact hs.fresh id (Nat.le_of_succ_le hid)
  · intro id
    show _ ↔ id < m.next + 1 ∧ Function.update m.live m.next _ id = none
    by_cases hid : id = m.next
    · subst hid
      rw [Function.update_self]
      exact ⟨fun h => absurd h hnext, fun h => absurd h.2 (Option.some_ne_none _)⟩
    · rw [Function.update_of_ne hid]
      refine (hs.ledger id).trans ?_
      constructor
      · rintro ⟨hlt, hno⟩
        exact ⟨Nat.lt_succ_of_lt hlt, hno⟩
      · rintro ⟨hlt, hno⟩
        exact ⟨by omega, hno⟩

theorem Sound.set (hs : m.Sound) (h : m.live id = some r) (r' : Region α) :
    Sound { m with live := Function.update m.live id (some r') } := by
  refine ⟨?_, ?_, hs.once⟩
  · intro j hj
    have hne : j ≠ id := (Nat.lt_of_lt_of_le (hs.lt h) hj).ne'
    dsimp only
    rw [Function.update_of_ne hne]
    exact hs.fresh j hj
  · intro j
    by_cases hj : j = id
    · subst hj
      dsimp only
      rw [Function.update_self, hs.ledger, h]
      simp
    · dsimp only
      rw [Function.update_of_ne hj]
      exact hs.ledger j

theorem Sound.free (hs : m.Sound) (h : m.live id = some r) :
    Sound { m with live := Function.update m.live id none, released := m.released ++ [(id, r)] } := by
  have hno : id ∉ m.released.map (·.1) := by
    intro hm
    rw [((hs.ledger id).mp hm).2] at h
    cases h
  refine ⟨?_, ?_, ?_⟩
  · intro j hj
    have hne : j ≠ id := (Nat.lt_of_lt_of_le (hs.lt h) hj).ne'
    dsimp only
    rw [Function.update_of_ne hne]
    exact hs.fresh j hj
  · intro j
    rw [List.map_append, List.mem_append]
    by_cases hj : j = id
    · subst hj
      simp [hs.lt h]
    · dsimp only
      rw [Function.update_of_ne hj, hs.ledger]
      simp [hj]
  · rw [List.map_append, List.nodup_append]
    refine ⟨hs.once, List.nodup_singleton _, ?_⟩
    rintro a ha b hb rfl
    rw [List.mem_singleton.mp hb] at ha
    exact hno ha

end

end Memory

/-! ## Owners -/

section
variable {α κ : Type}

/-- Every owner's region holds what it should, and every live region has exactly
one owner. -/
structure Owns (m : Memory α) (held : κ → Option Nat) (val : κ → Option (Region α)) : Prop where
  reads : ∀ k, (held k).bind m.live = val k
  live : ∀ k id, held k = some id → (m.live id).isSome
  apart : ∀ k k' id, held k = some id → held k' = some id → k = k'
  all : ∀ id, (m.live id).isSome → ∃ k, held k = some id

namespace Owns

variable {m m' : Memory α} {held : κ → Option Nat} {val : κ → Option (Region α)} (h : Owns m held val)

theorem congr (h : Owns m held val) {held' : κ → Option Nat} {val' : κ → Option (Region α)}
    (hlive : m'.live = m.live) (hheld : held' = held) (hval : val' = val) : Owns m' held' val' := by
  subst hheld hval
  exact ⟨by rw [hlive]; exact h.reads, by rw [hlive]; exact h.live, h.apart, by rw [hlive]; exact h.all⟩

variable [DecidableEq κ]
include h

/-- An owner takes a region that nobody holds and lets go of the one it held. -/
theorem put {k : κ} {id : Nat} {r : Region α} (hid : m.live id = none)
    (hlive : ∀ j, m'.live j = if j = id then some r else if held k = some j then none else m.live j) :
    Owns m' (Function.update held k (some id)) (Function.update val k (some r)) := by
  have hne : ∀ {k' j}, held k' = some j → j ≠ id := by
    rintro k' j hk rfl
    have := h.live k' j hk
    rw [hid] at this
    cases this
  have hother : ∀ {k' j}, k' ≠ k → held k' = some j → m'.live j = m.live j := by
    intro k' j hk hj
    rw [hlive, if_neg (hne hj), if_neg fun hkj => hk (h.apart k' k j hj hkj)]
  refine ⟨?_, ?_, ?_, ?_⟩
  · intro k'
    by_cases hk : k' = k
    · subst hk
      rw [Function.update_self, Function.update_self, Option.bind_some, hlive, if_pos rfl]
    · rw [Function.update_of_ne hk, Function.update_of_ne hk, ← h.reads k']
      cases hj : held k' with
      | none => rfl
      | some j => exact hother hk hj
  · intro k' j hj
    by_cases hk : k' = k
    · subst hk
      rw [Function.update_self, Option.some.injEq] at hj
      rw [← hj, hlive, if_pos rfl]
      rfl
    · rw [Function.update_of_ne hk] at hj
      rw [hother hk hj]
      exact h.live k' j hj
  · intro k₁ k₂ j h₁ h₂
    by_cases hk₁ : k₁ = k
    · by_cases hk₂ : k₂ = k
      · rw [hk₁, hk₂]
      · rw [hk₁, Function.update_self, Option.some.injEq] at h₁
        rw [Function.update_of_ne hk₂] at h₂
        exact absurd h₁.symm (hne h₂)
    · rw [Function.update_of_ne hk₁] at h₁
      by_cases hk₂ : k₂ = k
      · rw [hk₂, Function.update_self, Option.some.injEq] at h₂
        exact absurd h₂.symm (hne h₁)
      · rw [Function.update_of_ne hk₂] at h₂
        exact h.apart k₁ k₂ j h₁ h₂
  · intro j hj
    rw [hlive] at hj
    by_cases hji : j = id
    · exact ⟨k, by rw [Function.update_self, hji]⟩
    · rw [if_neg hji] at hj
      by_cases hkj : held k = some j
      · rw [if_pos hkj] at hj
        cases hj
      · rw [if_neg hkj] at hj
        obtain ⟨k', hk'⟩ := h.all j hj
        have hk : k' ≠ k := by
          rintro rfl
          exact hkj hk'
        exact ⟨k', by rw [Function.update_of_ne hk]; exact hk'⟩

/-- An owner lets go of its region. -/
theorem drop {k : κ} (hlive : ∀ j, m'.live j = if held k = some j then none else m.live j) :
    Owns m' (Function.update held k none) (Function.update val k none) := by
  have hother : ∀ {k' j}, k' ≠ k → held k' = some j → m'.live j = m.live j := by
    intro k' j hk hj
    rw [hlive, if_neg fun hkj => hk (h.apart k' k j hj hkj)]
  refine ⟨?_, ?_, ?_, ?_⟩
  · intro k'
    by_cases hk : k' = k
    · subst hk
      rw [Function.update_self, Function.update_self]
      rfl
    · rw [Function.update_of_ne hk, Function.update_of_ne hk, ← h.reads k']
      cases hj : held k' with
      | none => rfl
      | some j => exact hother hk hj
  · intro k' j hj
    by_cases hk : k' = k
    · rw [hk, Function.update_self] at hj
      cases hj
    · rw [Function.update_of_ne hk] at hj
      rw [hother hk hj]
      exact h.live k' j hj
  · intro k₁ k₂ j h₁ h₂
    by_cases hk₁ : k₁ = k
    · rw [hk₁, Function.update_self] at h₁
      cases h₁
    · by_cases hk₂ : k₂ = k
      · rw [hk₂, Function.update_self] at h₂
        cases h₂
      · rw [Function.update_of_ne hk₁] at h₁
        rw [Function.update_of_ne hk₂] at h₂
        exact h.apart k₁ k₂ j h₁ h₂
  · intro j hj
    rw [hlive] at hj
    by_cases hkj : held k = some j
    · rw [if_pos hkj] at hj
      cases hj
    · rw [if_neg hkj] at hj
      obtain ⟨k', hk'⟩ := h.all j hj
      have hk : k' ≠ k := by
        rintro rfl
        exact hkj hk'
      exact ⟨k', by rw [Function.update_of_ne hk]; exact hk'⟩

omit [DecidableEq κ] in
theorem held_isSome (k : κ) : (held k).isSome = (val k).isSome := by
  have hread := h.reads k
  cases hk : held k with
  | none =>
    rw [hk] at hread
    rw [← hread]
    rfl
  | some id =>
    rw [hk] at hread
    rw [← hread]
    exact (h.live k id hk).symm

omit [DecidableEq κ] in
/-- As many regions are live as owners hold one. -/
theorem ncard : {id | (m.live id).isSome}.ncard = {k | (val k).isSome}.ncard := by
  symm
  have hheld : ∀ k ∈ {k | (val k).isSome}, (held k).isSome := fun k hk => by rw [h.held_isSome]; exact hk
  refine Set.ncard_congr (fun k hk => (held k).get (hheld k hk)) ?_ ?_ ?_
  · intro k hk
    exact h.live k _ (Option.some_get _).symm
  · intro k k' hk hk' he
    exact h.apart k k' _ (Option.some_get (hheld k hk)).symm (he ▸ (Option.some_get (hheld k' hk')).symm)
  · intro id hid
    obtain ⟨k, hk⟩ := h.all id hid
    have hv : (val k).isSome := by
      rw [← h.held_isSome, hk]
      rfl
    exact ⟨k, hv, by simp [hk]⟩

end Owns

end

end Regions

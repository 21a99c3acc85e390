import Paxe.Lib.Mealy
import Paxe.StatsSound

/-!
# The page-lock budget on Windows (`src/sodium.rs`)

There the lock budget is the minimum working set of the process. A lock that the
quota refuses raises it and tries once more. Over any sequence of locks the raises
stay under a ceiling, and a process whose locks are never refused is left alone.
-/

namespace Paxe.LockBudget

def errorWorkingSetQuota : Int := 1453
def errorNotEnoughQuota : Int := 1816
def headroom : Nat := 8 * 1024 * 1024
def maxTotal : Nat := 64 * 1024 * 1024

/-- What the system answers while one call locks its pages: the first attempt and
the error it leaves, the working set, whether a new one is taken, and the second
attempt. -/
structure Host where
  first : Bool
  lastError : Option Int
  workingSet : Option (Nat × Nat)
  taken : Bool
  second : Bool

def Host.Quota (h : Host) : Prop := h.lastError = some errorWorkingSetQuota ∨ h.lastError = some errorNotEnoughQuota

instance (h : Host) : Decidable h.Quota := inferInstanceAs (Decidable (_ ∨ _))

inductive Request where
  | lock (len : Nat) (granted : Bool)
  | setWorkingSet (old new : Nat × Nat) (taken : Bool)
  deriving DecidableEq, Repr

/-- Whether to try again, the bytes granted so far, and what was asked for. -/
structure Growth where
  retry : Bool
  granted : Nat
  requests : List Request

def growLockedPageBudget (h : Host) (granted len : Nat) : Growth :=
  if h.Quota then
    let step := saturatingAdd len headroom
    let total := saturatingAdd granted step
    if total > maxTotal then ⟨false, granted, []⟩
    else
      match h.workingSet with
      | none => ⟨false, granted, []⟩
      | some (minimum, maximum) =>
        let newMinimum := saturatingAdd minimum step
        let newMaximum := max (saturatingAdd maximum step) newMinimum
        if h.taken then ⟨true, total, [.setWorkingSet (minimum, maximum) (newMinimum, newMaximum) true]⟩
        else ⟨false, granted, [.setWorkingSet (minimum, maximum) (newMinimum, newMaximum) false]⟩
  else ⟨false, granted, []⟩

structure Locked where
  result : Except SodiumError Unit
  requests : List Request

def mlock (granted : Nat) (len : Nat) (h : Host) : Locked × Nat :=
  if len = 0 then (⟨.ok (), []⟩, granted)
  else if h.first then (⟨.ok (), [.lock len true]⟩, granted)
  else
    let r := growLockedPageBudget h granted len
    if r.retry then
      if h.second then (⟨.ok (), .lock len false :: r.requests ++ [.lock len true]⟩, r.granted)
      else (⟨.error .mlockFailed, .lock len false :: r.requests ++ [.lock len false]⟩, r.granted)
    else (⟨.error .mlockFailed, .lock len false :: r.requests⟩, r.granted)

def step (granted : Nat) (x : Nat × Host) : Locked × Nat := mlock granted x.1 x.2

/-! ## One lock -/

namespace Request

def isLock : Request → Bool
  | .lock _ _ => true
  | .setWorkingSet _ _ _ => false

def raises : Request → Bool
  | .lock _ _ => false
  | .setWorkingSet _ _ taken => taken

def raised : Request → Nat
  | .setWorkingSet old new true => new.1 - old.1
  | _ => 0

end Request

inductive Grew (h : Host) (granted len : Nat) : Growth → Prop
  | refused : Grew h granted len ⟨false, granted, []⟩
  | untaken {old new : Nat × Nat} : h.Quota → new.1 ≤ new.2 →
      Grew h granted len ⟨false, granted, [.setWorkingSet old new false]⟩
  | grown {old new : Nat × Nat} : h.Quota → new.1 ≤ new.2 → new.1 ≤ old.1 + (len + headroom) →
      granted + (len + headroom) ≤ maxTotal →
      Grew h granted len ⟨true, granted + (len + headroom), [.setWorkingSet old new true]⟩

theorem grew (h : Host) (granted len : Nat) : Grew h granted len (growLockedPageBudget h granted len) := by
  unfold growLockedPageBudget
  by_cases hq : h.Quota
  · rw [if_pos hq]
    dsimp only
    by_cases ht : saturatingAdd granted (saturatingAdd len headroom) > maxTotal
    · rw [if_pos ht]
      exact .refused
    · rw [if_neg ht]
      -- below the ceiling nothing saturates
      have hmax : maxTotal < u64Max := by decide
      have hstep : saturatingAdd len headroom = len + headroom := by
        unfold saturatingAdd at ht ⊢
        omega
      rw [hstep] at ht ⊢
      have htotal : saturatingAdd granted (len + headroom) = granted + (len + headroom) := by
        unfold saturatingAdd at ht ⊢
        omega
      rw [htotal] at ht ⊢
      cases h.workingSet with
      | none => exact .refused
      | some ws =>
        obtain ⟨minimum, maximum⟩ := ws
        dsimp only
        by_cases hs : h.taken = true
        · rw [if_pos hs]
          exact .grown hq (le_max_right _ _) (Nat.min_le_left _ _) (Nat.not_lt.mp ht)
        · rw [if_neg hs]
          exact .untaken hq (le_max_right _ _)
  · rw [if_neg hq]
    exact .refused

/-- What one lock asks for and what it spends. -/
structure Spends (granted len : Nat) (h : Host) (rs : List Request) (result : Except SodiumError Unit)
    (granted' : Nat) : Prop where
  raises : ∀ old new taken, .setWorkingSet old new taken ∈ rs → len ≠ 0 ∧ h.first = false ∧ h.Quota ∧ new.1 ≤ new.2
  locked : result = .ok () ↔ len = 0 ∨ .lock len true ∈ rs
  tries : rs.countP Request.isLock ≤ 2
  raised : granted + (rs.map Request.raised).sum ≤ granted'
  count : granted + rs.countP Request.raises * (headroom + 1) ≤ granted'
  bound : granted ≤ maxTotal → granted' ≤ maxTotal

theorem mlock_spends (granted len : Nat) (h : Host) :
    Spends granted len h (mlock granted len h).1.requests (mlock granted len h).1.result
      (mlock granted len h).2 := by
  unfold mlock
  by_cases hl : len = 0
  · rw [if_pos hl]
    constructor <;> simp [hl]
  · rw [if_neg hl]
    by_cases hf : h.first = true
    · rw [if_pos hf]
      constructor <;> simp [Request.raised, Request.raises, Request.isLock]
    · rw [if_neg hf]
      have hfirst : h.first = false := by simpa using hf
      have hg := grew h granted len
      generalize growLockedPageBudget h granted len = r at hg
      cases hg with
      | refused => constructor <;> simp [hl, Request.raised, Request.raises, Request.isLock]
      | untaken hq hle =>
        constructor <;> simp [hl, hfirst, hq, hle, List.countP_cons, Request.raised, Request.raises, Request.isLock]
      | grown hq hle hnew hroom =>
        dsimp only
        by_cases hs : h.second = true
        · rw [if_pos rfl, if_pos hs]
          constructor <;> simp [hl, hfirst, hq, hle, hroom, List.countP_cons, Request.raised, Request.raises,
            Request.isLock] <;> omega
        · rw [if_pos rfl, if_neg hs]
          constructor <;> simp [hl, hfirst, hq, hle, hroom, List.countP_cons, Request.raised, Request.raises,
            Request.isLock] <;> omega

/-! ## Any number of locks -/

/-- Whatever is locked and whatever the system answers, the minimum working set is
raised at most seven times and by at most the ceiling in all, and only after a lock
that the quota refused. A lock succeeds when one of its attempts did, and it makes
at most two. -/
theorem page_budget (xs : List (Nat × Host)) :
    let log := Mealy.log step 0 xs
    let requests := log.flatMap fun x => x.2.requests
    (requests.map Request.raised).sum ≤ maxTotal ∧ requests.countP Request.raises ≤ 7 ∧
      ∀ len h r, ((len, h), r) ∈ log →
        (∀ old new taken, .setWorkingSet old new taken ∈ r.requests →
          len ≠ 0 ∧ h.first = false ∧ h.Quota ∧ new.1 ≤ new.2) ∧
        (r.result = .ok () ↔ len = 0 ∨ .lock len true ∈ r.requests) ∧ r.requests.countP Request.isLock ≤ 2 := by
  intro log requests
  have hrun := Mealy.log_inv step (s := 0)
    (I := fun log granted => ((log.flatMap fun x => x.2.requests).map Request.raised).sum ≤ granted ∧
      (log.flatMap fun x => x.2.requests).countP Request.raises * (headroom + 1) ≤ granted ∧ granted ≤ maxTotal ∧
      ∀ x ∈ log, ∃ before after, Spends before x.1.1 x.1.2 x.2.requests x.2.result after)
    ⟨Nat.le_refl 0, Nat.le_refl 0, Nat.zero_le _, by simp⟩ ?_ xs
  · obtain ⟨hraised, hcount, hbound, hall⟩ := hrun
    refine ⟨hraised.trans hbound, ?_, ?_⟩
    · have hle : requests.countP Request.raises * (headroom + 1) ≤ maxTotal := hcount.trans hbound
      unfold maxTotal headroom at hle
      omega
    · intro len h r hr
      obtain ⟨before, after, hsp⟩ := hall _ hr
      exact ⟨hsp.raises, hsp.locked, hsp.tries⟩
  · rintro log granted ⟨len, h⟩ ⟨hraised, hcount, hbound, hall⟩
    have hsp := mlock_spends granted len h
    have hr := hsp.raised
    have hc := hsp.count
    refine ⟨?_, ?_, hsp.bound hbound, ?_⟩
    · rw [List.flatMap_append, List.map_append, List.sum_append, List.flatMap_singleton]
      exact (Nat.add_le_add_right hraised _).trans hr
    · rw [List.flatMap_append, List.countP_append, List.flatMap_singleton, Nat.add_mul]
      exact (Nat.add_le_add_right hcount _).trans hc
    · intro x hx
      rcases List.mem_append.mp hx with hx | hx
      · exact hall x hx
      · obtain rfl := List.mem_singleton.mp hx
        exact ⟨_, _, hsp⟩

end Paxe.LockBudget

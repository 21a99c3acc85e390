import Paxe.Lib.Mealy

/-!
# One object kept in parts

An object executes operations and replies. It is kept in parts, each with a
state of its own, and every operation belongs to one of them. If a part replies
to its own operations as the object does, and the others stay parts of it
without doing anything, then the parts together are the object: whatever they
executed, the replies are those of the object executing the same in that order.
-/

namespace Shards

section
variable {ι σ τ κ ρ : Type}

/-- How the parts of an object relate to it. -/
structure Split (exec : σ → κ → ρ × σ) (one : τ → κ → ρ × τ) (own : ι → κ → Bool) (part : ι → τ → σ → Prop) :
    Prop where
  execute : ∀ {i t m o}, part i t m → own i o = true → (one t o).1 = (exec m o).1 ∧ part i (one t o).2 (exec m o).2
  skip : ∀ {i t m o}, part i t m → own i o = false → part i t (exec m o).2
  apart : ∀ {i j o}, own i o = true → j ≠ i → own j o = false

variable [DecidableEq ι] (one : τ → κ → ρ × τ)

def step (ts : ι → τ) (x : ι × κ) : ρ × (ι → τ) :=
  let r := one (ts x.1) x.2
  (r.1, Function.update ts x.1 r.2)

variable {one} {exec : σ → κ → ρ × σ} {own : ι → κ → Bool} {part : ι → τ → σ → Prop} (h : Split exec one own part)
include h

theorem Split.step {ts : ι → τ} {m : σ} (hp : ∀ i, part i (ts i) m) {x : ι × κ} (hx : own x.1 x.2 = true) :
    (step one ts x).1 = (exec m x.2).1 ∧ ∀ i, part i ((step one ts x).2 i) (exec m x.2).2 := by
  obtain ⟨hval, hpart⟩ := h.execute (hp x.1) hx
  refine ⟨hval, ?_⟩
  intro i
  by_cases hi : i = x.1
  · subst hi
    simp only [Shards.step, Function.update_self]
    exact hpart
  · simp only [Shards.step, Function.update_of_ne hi]
    exact h.skip (hp i) (h.apart hx hi)

theorem Split.run {ts : ι → τ} {m : σ} (hp : ∀ i, part i (ts i) m) {xs : List (ι × κ)}
    (hx : ∀ x ∈ xs, own x.1 x.2 = true) :
    (Mealy.log (Shards.step one) ts xs).map (fun y => (y.1.2, y.2)) = Mealy.log exec m (xs.map (·.2)) ∧
      ∀ i, part i (Mealy.run (Shards.step one) ts xs i) (Mealy.run exec m (xs.map (·.2))) := by
  induction xs generalizing ts m with
  | nil => exact ⟨rfl, hp⟩
  | cons x xs ih =>
    obtain ⟨hval, hstep⟩ := h.step hp (hx x List.mem_cons_self)
    obtain ⟨hlog, hrun⟩ := ih hstep fun y hy => hx y (List.mem_cons_of_mem x hy)
    refine ⟨?_, hrun⟩
    simp only [List.map_cons, Mealy.log, hval, hlog]

end

end Shards

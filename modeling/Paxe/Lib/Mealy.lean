import Mathlib

/-!
# Machines with replies

A machine reads inputs and replies to each: `step s i` is the reply and the
next state. A run leaves a state (`run`) and a log of inputs with their
replies (`log`). `log_inv` is the induction every statement about whole runs
goes through, and `abs_run` the one for refinements. `Since` speaks of the
past of a log, and `Commutes` of inputs whose order does not matter.
-/

namespace Mealy

section
variable {σ ι ο : Type} (step : σ → ι → ο × σ)

def run (s : σ) : List ι → σ
  | [] => s
  | i :: is => run (step s i).2 is

def log (s : σ) : List ι → List (ι × ο)
  | [] => []
  | i :: is => (i, (step s i).1) :: log (step s i).2 is

theorem run_append : ∀ (s : σ) (is js : List ι), run step s (is ++ js) = run step (run step s is) js
  | _, [], _ => rfl
  | s, i :: is, js => run_append (step s i).2 is js

theorem log_append : ∀ (s : σ) (is js : List ι),
    log step s (is ++ js) = log step s is ++ log step (run step s is) js
  | _, [], _ => rfl
  | s, i :: is, js => by
    simp only [List.cons_append, log, run, log_append (step s i).2 is js]

theorem run_snoc (s : σ) (is : List ι) (i : ι) : run step s (is ++ [i]) = (step (run step s is) i).2 := by
  rw [run_append]; rfl

theorem log_snoc (s : σ) (is : List ι) (i : ι) :
    log step s (is ++ [i]) = log step s is ++ [(i, (step (run step s is) i).1)] := by
  rw [log_append]; rfl

@[simp] theorem log_length (s : σ) : ∀ is : List ι, (log step s is).length = is.length
  | [] => rfl
  | i :: is => by simp [log, log_length (step s i).2 is]

theorem log_inv {I : List (ι × ο) → σ → Prop} {s : σ} (h0 : I [] s)
    (hs : ∀ h t i, I h t → I (h ++ [(i, (step t i).1)]) (step t i).2) :
    ∀ is, I (log step s is) (run step s is) := by
  intro is
  induction is using List.reverseRecOn with
  | nil => exact h0
  | append_singleton is i ih =>
    rw [log_snoc, run_snoc]
    exact hs _ _ i ih

theorem run_inv {I : σ → Prop} {s : σ} (h0 : I s) (hs : ∀ t i, I t → I (step t i).2) (is : List ι) :
    I (run step s is) :=
  log_inv step (I := fun _ t => I t) h0 (fun _ t i h => hs t i h) is

theorem abs_run {α : Type} (abs : σ → α) (astep : α → ι × ο → α)
    (h : ∀ s i, abs (step s i).2 = astep (abs s) (i, (step s i).1)) (s : σ) (is : List ι) :
    abs (run step s is) = (log step s is).foldl astep (abs s) :=
  log_inv step (I := fun l t => abs t = l.foldl astep (abs s)) rfl
    (fun l t i hl => by rw [List.foldl_append, ← hl]; exact h t i) is

end

/-! ## What happened last -/

section
variable {α : Type} (p q : α → Prop)

/-- Some entry of a log is a `p` and no later one is a `q`. -/
def Since (l : List α) : Prop :=
  ∃ pre x post, l = pre ++ x :: post ∧ p x ∧ ∀ y ∈ post, ¬ q y

theorem not_since_nil : ¬ Since p q [] := by
  intro hx
  obtain ⟨pre, x, post, h, -⟩ := hx
  simp at h

theorem since_snoc {l : List α} {x : α} : Since p q (l ++ [x]) ↔ p x ∨ (Since p q l ∧ ¬ q x) := by
  constructor
  · intro hx
    obtain ⟨pre, y, post, h, hy, hq⟩ := hx
    rcases List.eq_nil_or_concat post with rfl | ⟨post, z, rfl⟩
    · obtain ⟨-, h⟩ := List.append_inj' h rfl
      exact Or.inl ((List.cons.inj h).1 ▸ hy)
    · rw [List.concat_eq_append, ← List.cons_append, ← List.append_assoc] at h
      obtain ⟨rfl, hx⟩ := List.append_inj' h rfl
      obtain rfl := (List.cons.inj hx).1
      exact Or.inr ⟨⟨pre, y, post, rfl, hy, fun z hz => hq z (by simp [hz])⟩, hq _ (by simp)⟩
  · intro hx
    rcases hx with hx | ⟨⟨pre, y, post, rfl, hy, hq⟩, hx⟩
    · exact ⟨l, x, [], rfl, hx, by simp⟩
    · refine ⟨pre, y, post ++ [x], by simp, hy, fun z hz => ?_⟩
      rcases List.mem_append.mp hz with hz | hz
      · exact hq z hz
      · exact List.mem_singleton.mp hz ▸ hx

end

/-! ## Inputs in any order -/

section
variable {σ ι ο : Type} {step : σ → ι → ο × σ}

/-- Where the replies tell nothing of the state, the log is read off the inputs. -/
theorem log_map {I : σ → Prop} {f : ι → ο} (hs : ∀ t i, I t → I (step t i).2)
    (hf : ∀ t i, I t → (step t i).1 = f i) :
    ∀ (is : List ι) {s : σ}, I s → log step s is = is.map fun i => (i, f i)
  | [], _, _ => rfl
  | i :: is, s, h0 => by
    rw [log, hf s i h0, log_map hs hf is (hs s i h0), List.map_cons]

/-- Two inputs in a row may change places, up to a relation that each step keeps. -/
structure Commutes (step : σ → ι → ο × σ) (R : σ → σ → Prop) : Prop where
  refl : ∀ s, R s s
  trans : ∀ {s t u}, R s t → R t u → R s u
  keeps : ∀ {s t} i, R s t → R (step s i).2 (step t i).2
  swap : ∀ s i j, R (step (step s i).2 j).2 (step (step s j).2 i).2

namespace Commutes
variable {R : σ → σ → Prop} (h : Commutes step R)
include h

theorem run : ∀ (is : List ι) {s t : σ}, R s t → R (Mealy.run step s is) (Mealy.run step t is)
  | [], _, _, hr => hr
  | i :: is, _, _, hr => run is (h.keeps i hr)

theorem run_perm {is js : List ι} (hp : is.Perm js) (s : σ) : R (Mealy.run step s is) (Mealy.run step s js) := by
  induction hp generalizing s with
  | nil => exact h.refl s
  | cons i _ ih => exact ih (step s i).2
  | swap i j is => exact h.run is (h.swap s j i)
  | trans _ _ ih₁ ih₂ => exact h.trans (ih₁ s) (ih₂ s)

end Commutes

end

end Mealy

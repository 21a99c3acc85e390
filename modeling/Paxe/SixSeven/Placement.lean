import Paxe.AesGcm
import Paxe.SixSeven.KvSound
import Paxe.SixSeven.ServerSound

/-!
# Placement

Every key has one home in a pair, and whatever reaches the two nodes only the
home of a key ever stores it. Neither the client's path nor the peer's needs
the other's ownership check.
-/

namespace Paxe.SixSeven
open Str

/-! ## The pair -/

def Node.Placed (n : Node) : Prop := ∀ k : UInt64, n.kv.entries.contains k = true → n.owns k = true

theorem Node.Placed.execute {n : Node} (h : n.Placed) {op : Op} (hop : n.owns op.key = true) :
    ∀ k : UInt64, (n.kv.execute op).2.entries.contains k = true → n.owns k = true := by
  intro k hk
  by_cases hkey : k = op.key
  · rw [hkey]
    exact hop
  · apply h
    rw [Std.TreeMap.contains_eq_isSome_getElem?, Store.execute_frame n.kv op hkey] at hk
    rw [Std.TreeMap.contains_eq_isSome_getElem?]
    exact hk

section
variable {L : Libsodium} {debug : Text → Text}

theorem Node.Did.placed {n n' : Node} {ev : Event} {out : List Output} (hd : Did L debug n ev out n')
    (h : n.Placed) : n'.Placed := by
  cases hd with
  | quiet _ _ _ => exact h
  | down _ => exact h
  | direct _ _ hr _ =>
    cases hr with
    | size _ => exact h
    | malformed _ _ => exact h
    | owned _ _ hown => exact h.execute hown
  | failed _ _ _ _ _ _ => exact h
  | forwarded _ _ _ => exact h
  | served _ _ hr _ _ =>
    cases hr with
    | own hown => exact h.execute hown
    | foreign _ _ => exact h
  | relayed _ _ _ _ _ => exact h
  | ticked _ _ _ _ => exact h

theorem run_placed {D : Deployment} {p : Pair} (hp : D.Started p) (es : List (Side × Event)) (s : Side) :
    ((Mealy.run (Pair.step L debug) p es).nodes s).Placed := by
  refine Mealy.run_inv (Pair.step L debug) (I := fun q => ∀ s, (q.nodes s).Placed) ?_ ?_ es s
  · intro s k hk
    rw [(hp.blank s).kv] at hk
    simp [Store.empty] at hk
  · intro q x hq
    exact Pair.step_each (P := fun _ n => n.Placed) L debug hq x ((Node.step_did _ _ _).placed (hq x.1))

variable (L debug)

/-- Wherever clients connect and whatever frames and datagrams come, in any
order and any number, each node stores only keys that it owns. -/
theorem placement {D : Deployment} {p : Pair} (hp : D.Started p) (es : List (Side × Event)) :
    let q := Mealy.run (Pair.step L debug) p es
    (∀ s (k : UInt64), (q.nodes s).kv.entries.contains k = true →
      owner k (D.config s).id (D.config s.other).id = (D.config s).id) ∧
    (∀ k : UInt64, ¬ ((q.nodes .left).kv.entries.contains k = true ∧
      (q.nodes .right).kv.entries.contains k = true)) ∧
    (∀ k : UInt64, owner k (q.nodes .left).config.id (q.nodes .left).config.peerId =
      owner k (q.nodes .right).config.id (q.nodes .right).config.peerId) ∧
    (∀ (k : UInt64) (a b : UInt16), owner k a b = owner k b a) ∧
    ∀ s, (q.nodes s).kv.len ≤ maxKeys := by
  intro q
  have hconf : ∀ s, (q.nodes s).config = D.config s := fun s => (hp.linked L debug es s).config
  have hown : ∀ s (k : UInt64), (q.nodes s).kv.entries.contains k = true →
      owner k (D.config s).id (D.config s.other).id = (D.config s).id := by
    intro s k hk
    have h := run_placed hp es s k hk
    rw [Node.owns, beq_iff_eq, hconf s, D.peers s] at h
    exact h
  refine ⟨hown, ?_, ?_, owner_comm, fun s => (q.nodes s).kv.len_le⟩
  · rintro k ⟨hl, hr⟩
    have hab : (D.config .left).id ≠ (D.config .right).id := by
      have := (D.config .left).ids_differ
      rwa [D.peers .left] at this
    exact (owner_iff_not hab k).mp (hown .left k hl) (hown .right k hr)
  · intro k
    rw [hconf, hconf, D.peers .left, D.peers .right]
    exact owner_comm ..

end

theorem placement_two :
    let D := Deployment.ofIds 100 200 (by decide) ⟨List.replicate keyBytes 7, by decide⟩
    let debug : Text → Text := fun s => '"' :: s ++ ['"']
    let io : Io := ⟨0, true, none⟩
    let es : List (Side × Event) := [(.left, .clientUp 1),
      (.left, .clientFrame 1 ⟨"SEND".toList, [], "PUT 1 six".toList⟩ io),
      (.left, .clientFrame 1 ⟨"SEND".toList, [], "PUT 2 seven".toList⟩ io)]
    let q := Mealy.run (Pair.step (aesGcm counterBytes) debug) D.boot es
    ((q.nodes .left).kv.entries.contains 1 = true ∧ (q.nodes .left).pending.contains 1 = true) ∧
      owner 1 100 200 = 100 ∧ ¬ (q.nodes .right).kv.entries.contains 1 = true := by
  intro D debug io es q
  have hrun : (q.nodes .left).kv.entries.contains 1 = true ∧ (q.nodes .left).pending.contains 1 = true := by
    decide +kernel
  obtain ⟨hown, hone, -⟩ := placement (aesGcm counterBytes) debug D.boot_started es
  exact ⟨hrun, hown .left 1 hrun.1, fun h => hone 1 ⟨hrun.1, h⟩⟩

end Paxe.SixSeven

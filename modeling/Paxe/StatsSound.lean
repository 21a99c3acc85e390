import Paxe.Stats

/-!
# Counters

What each recording operation does to the counters, and how far: every one
moves its own counters by one, up to the end of the counter, and no other.
-/

namespace Paxe

/-! ## Saturating counters -/

theorem saturatingAdd_one {x : Nat} (h : x < u64Max) : saturatingAdd x 1 = x + 1 := by
  unfold saturatingAdd
  omega

theorem le_saturatingAdd {x : Nat} (h : x ≤ u64Max) : x ≤ saturatingAdd x 1 := by
  unfold saturatingAdd
  omega

theorem saturatingAdd_le (x : Nat) : saturatingAdd x 1 ≤ u64Max := by
  unfold saturatingAdd
  omega

/-! ## Reasons -/

theorem RejectReason.index_inj {a b : RejectReason} (h : a.index = b.index) : a = b := by
  cases a <;> cases b <;> first | rfl | exact absurd h (by decide)

namespace Stats

def rejects (s : Stats) : Nat := (RejectReason.all.map s.reject).sum

theorem reject_bumpReject (s : Stats) (r x : RejectReason) :
    (s.bumpReject r).reject x = if x = r then saturatingAdd (s.reject r) 1 else s.reject x := by
  unfold bumpReject reject
  by_cases h : x = r
  · subst h
    simp
  · rw [if_neg h]
    simp only [Fin.getElem_fin]
    rw [Vector.getElem_set_ne]
    exact fun hv => h (RejectReason.index_inj (Fin.ext hv)).symm

theorem reject_le_rejects (s : Stats) (r : RejectReason) : s.reject r ≤ s.rejects := by
  simp only [rejects, RejectReason.all, List.map_cons, List.map_nil, List.sum_cons, List.sum_nil]
  cases r <;> omega

theorem rejects_bumpReject {s : Stats} {r : RejectReason} (h : s.reject r < u64Max) :
    (s.bumpReject r).rejects = s.rejects + 1 := by
  simp only [rejects, RejectReason.all, List.map_cons, List.map_nil, List.sum_cons, List.sum_nil, reject_bumpReject,
    saturatingAdd_one h]
  cases r <;> simp <;> omega

end Stats

/-! ## Recording -/

namespace Diag

theorem shouldLog_keeps (d : Diag) (r : RejectReason) :
    (d.shouldLog r).2.stats = d.stats ∧ (d.shouldLog r).2.policy = d.policy := by
  unfold shouldLog
  split
  · exact ⟨rfl, rfl⟩
  · exact ⟨rfl, rfl⟩
  · dsimp only
    split <;> exact ⟨rfl, rfl⟩

theorem recordReject_keeps (d : Diag) (r : RejectReason) :
    (d.recordReject r).stats = d.stats.bumpReject r ∧ (d.recordReject r).policy = d.policy := by
  obtain ⟨hs, hp⟩ := shouldLog_keeps { d with stats := d.stats.bumpReject r } r
  rw [recordReject]
  split
  · rename_i h
    rw [h] at hs hp
    exact ⟨hs, hp⟩
  · rename_i h
    rw [h] at hs hp
    exact ⟨hs, hp⟩

theorem recordReject_stats (d : Diag) (r : RejectReason) : (d.recordReject r).stats = d.stats.bumpReject r :=
  (recordReject_keeps d r).1

theorem recordReject_policy (d : Diag) (r : RejectReason) : (d.recordReject r).policy = d.policy :=
  (recordReject_keeps d r).2

end Diag

end Paxe

import Paxe.SixSeven.History

/-!
# What clients read

The history of the pair determines every reply in it: a key holds the value of
the last `PUT` that was accepted, if no later `RM` found it. So a `GET` returns
what was written last, an `RM` says whether there was something, and a `PUT` is
refused only for a new key, when the keys of its parity number a million.
-/

namespace Paxe.SixSeven
open Wire Str

/-! ## One store -/

def Stores (k : UInt64) (v : Text) (x : Op × Reply) : Prop := x.1 = .put k v ∧ x.2 = .ok

def Changes (k : UInt64) (x : Op × Reply) : Prop := ((∃ v, x.1 = .put k v) ∨ x.1 = .rm k) ∧ x.2 = .ok

theorem ceiling_ne_ok : ceiling ≠ .ok := by
  intro h
  cases h

theorem Reference.execute_holds (m : Reference) (op : Op) (k : UInt64) (v : Text) :
    (m.execute op).2[k]? = some v ↔
      Stores k v (op, (m.execute op).1) ∨ (m[k]? = some v ∧ ¬ Changes k (op, (m.execute op).1)) := by
  by_cases hk : k = op.key
  · subst hk
    cases op with
    | get j =>
      unfold execute Stores Changes
      dsimp only [Op.key]
      cases hm : m[j]? with
      | none => simp [hm]
      | some w => simp [hm]
    | rm j =>
      unfold execute Stores Changes
      dsimp only [Op.key]
      cases hm : m[j]? with
      | none => simp [hm]
      | some w => simp
    | put j w =>
      unfold execute Stores Changes
      dsimp only [Op.key]
      split
      · simp [ceiling_ne_ok]
      · simp
  · rw [Reference.execute_frame m op hk]
    have hw : ¬ Stores k v (op, (m.execute op).1) := by
      rintro ⟨rfl, -⟩
      exact hk rfl
    have hc : ¬ Changes k (op, (m.execute op).1) := by
      rintro ⟨⟨w, rfl⟩ | rfl, -⟩
      · exact hk rfl
      · exact hk rfl
    simp [hw, hc]

def Holds (log : List (Op × Reply)) (k : UInt64) (v : Text) : Prop := Mealy.Since (Stores k v) (Changes k) log

theorem Reference.run_holds (ops : List Op) (k : UInt64) (v : Text) :
    (Mealy.run execute ∅ ops)[k]? = some v ↔ Holds (Mealy.log execute ∅ ops) k v := by
  refine Mealy.log_inv execute (I := fun log m => m[k]? = some v ↔ Holds log k v) ?_ ?_ ops
  · simp [Holds, Mealy.not_since_nil]
  · intro log m op ih
    unfold Holds at ih ⊢
    rw [Mealy.since_snoc, Reference.execute_holds, ih]

/-- How a log determines the reply to the next operation. -/
def Replies (log : List (Op × Reply)) : Op → Reply → Prop
  | .get k, r => (∀ v, r = .value v ↔ Holds log k v) ∧ (r = .nil ↔ ∀ v, ¬ Holds log k v)
  | .rm k, r => (r = .ok ↔ ∃ v, Holds log k v) ∧ (r = .nil ↔ ∀ v, ¬ Holds log k v)
  | .put k _, r => (r = .ok ∨ r = ceiling) ∧
    (r = ceiling ↔ (∀ v, ¬ Holds log k v) ∧ maxKeys ≤ {j : UInt64 | j % 2 = k % 2 ∧ ∃ v, Holds log j v}.ncard)

theorem Reference.replies (ops : List Op) (op : Op) :
    Replies (Mealy.log execute ∅ ops) op ((Mealy.run execute ∅ ops).execute op).1 := by
  have hholds := Reference.run_holds ops
  generalize Mealy.log execute ∅ ops = log at hholds ⊢
  generalize Mealy.run execute ∅ ops = m at hholds ⊢
  have hfree : ∀ k : UInt64, m[k]? = none ↔ ∀ v, ¬ Holds log k v := by
    intro k
    rw [Option.eq_none_iff_forall_ne_some]
    exact forall_congr' fun v => not_congr (hholds k v)
  cases op with
  | get k =>
    unfold execute Replies
    dsimp only
    cases hm : m[k]? with
    | none =>
      have hno := (hfree k).mp hm
      refine ⟨fun v => ⟨?_, fun hv => absurd hv (hno v)⟩, by simp [hno]⟩
      intro h
      cases h
    | some w =>
      have hw := (hholds k w).mp hm
      refine ⟨fun v => ?_, ⟨?_, fun hno => absurd hw (hno w)⟩⟩
      · rw [← hholds k v, hm, Reply.value.injEq, Option.some.injEq]
      · intro h
        cases h
  | rm k =>
    unfold execute Replies
    dsimp only
    cases hm : m[k]? with
    | none =>
      have hno := (hfree k).mp hm
      refine ⟨⟨?_, fun ⟨v, hv⟩ => absurd hv (hno v)⟩, by simp [hno]⟩
      intro h
      cases h
    | some w =>
      have hw := (hholds k w).mp hm
      refine ⟨⟨fun _ => ⟨w, hw⟩, fun _ => rfl⟩, ?_, fun hno => absurd hw (hno w)⟩
      intro h
      cases h
  | put k w =>
    have hcount : {j : UInt64 | j % 2 = k % 2 ∧ ∃ v, Holds log j v}.ncard = m.parityLen k := by
      unfold parityLen
      rw [← Table.ncard_filter]
      congr 1
      ext j
      simp only [Set.mem_ofPred_eq, beq_iff_eq, Option.isSome_iff_exists, hholds]
    have hnew : (!m.contains k && decide (maxKeys ≤ m.parityLen k)) = true ↔
        (∀ v, ¬ Holds log k v) ∧ maxKeys ≤ m.parityLen k := by
      rw [← hfree k, Std.TreeMap.contains_eq_isSome_getElem?, Bool.and_eq_true, Bool.not_eq_true',
        Option.isSome_eq_false_iff, Option.isNone_iff_eq_none, decide_eq_true_eq]
    unfold execute Replies
    dsimp only
    rw [hcount]
    by_cases hc : (!m.contains k && decide (maxKeys ≤ m.parityLen k)) = true
    · rw [if_pos hc]
      exact ⟨Or.inr rfl, fun _ => hnew.mp hc, fun _ => rfl⟩
    · rw [if_neg hc]
      refine ⟨Or.inl rfl, ?_, fun h => absurd (hnew.mpr h) hc⟩
      intro h
      exact absurd h.symm ceiling_ne_ok

/-! ## The pair -/

/-- Every reply that either node computes follows from what both executed before. -/
theorem reads_latest (L : Libsodium) (debug : Text → Text) {D : Deployment} {p : Pair} (hp : D.Started p)
    (es : List (Side × Event)) {pre post : List Entry} {e : Entry} (h : history L debug p es = pre ++ e :: post) :
    Replies (pre.map fun e => (e.op, e.reply)) e.op e.reply := by
  obtain ⟨hlog, -⟩ := history_reference L debug hp es
  rw [h, List.map_append, List.map_append, List.map_cons, List.map_cons, Mealy.log_append] at hlog
  obtain ⟨hpre, hrest⟩ := List.append_inj hlog (by simp)
  obtain ⟨hhead, -⟩ := List.cons.inj hrest
  rw [hpre, (Prod.mk.inj hhead).2]
  exact Reference.replies _ _

theorem reads_latest_own :
    let L := aesGcm counterBytes
    let D := Deployment.ofIds 100 200 (by decide) ⟨List.replicate keyBytes 7, by decide⟩
    let debug : Text → Text := fun s => '"' :: s ++ ['"']
    let io : Io := ⟨0, true, none⟩
    let es := [(.left, .clientUp 1), (.left, .clientFrame 1 ⟨"SEND".toList, [], "PUT 1 six".toList⟩ io),
      (.left, .clientFrame 1 ⟨"SEND".toList, [], "GET 1".toList⟩ io)]
    history L debug D.boot es = [⟨1, .left, .put 1 "six".toList, .ok⟩, ⟨2, .left, .get 1, .value "six".toList⟩] ∧
      Replies [(.put 1 "six".toList, .ok)] (.get 1) (.value "six".toList) := by
  intro L D debug io es
  have hrun : history L debug D.boot es = [⟨1, .left, .put 1 "six".toList, .ok⟩] ++
      ⟨2, .left, .get 1, .value "six".toList⟩ :: [] := by decide +kernel
  exact ⟨hrun, reads_latest L debug D.boot_started es hrun⟩

/-! ## How many keys -/

def Deployment.held (D : Deployment) (s : Side) (log : List (Op × Reply)) : Set UInt64 :=
  {k | D.owns s k = true ∧ ∃ v, Holds log k v}

theorem Deployment.held_ncard (D : Deployment) (log : List (Op × Reply)) (s : Side) :
    (D.held s log).ncard + (D.held s.other log).ncard = {k | ∃ v, Holds log k v}.ncard := by
  have hdisj : Disjoint (D.held s log) (D.held s.other log) := by
    rw [Set.disjoint_left]
    rintro k ⟨hk, -⟩ ⟨hk', -⟩
    rw [D.owns_other, hk] at hk'
    cases hk'
  rw [← Set.ncard_union_eq hdisj]
  congr 1
  ext k
  unfold Deployment.held
  rw [Set.mem_union, Set.mem_ofPred_eq, Set.mem_ofPred_eq, Set.mem_ofPred_eq, D.owns_other]
  cases D.owns s k <;> simp

theorem history_len (L : Libsodium) (debug : Text → Text) {D : Deployment} {p : Pair} (hp : D.Started p)
    (es : List (Side × Event)) (s : Side) :
    ((Mealy.run (Pair.step L debug) p es).nodes s).kv.len =
      (D.held s ((history L debug p es).map fun e => (e.op, e.reply))).ncard := by
  obtain ⟨hlog, hparts⟩ := history_reference L debug hp es
  rw [hlog]
  have hpart := hparts s
  generalize (history L debug p es).map (·.op) = ops at hpart ⊢
  unfold Store.len
  rw [Table.size_restrict hpart, ← Table.ncard_filter]
  congr 1
  ext k
  unfold Deployment.held
  rw [Set.mem_ofPred_eq, Set.mem_ofPred_eq, Option.isSome_iff_exists]
  exact and_congr_right fun _ => exists_congr fun v => Reference.run_holds ops k v

/-- A node asked for its size counts its own keys that hold a value, and the two
nodes together count all that do. -/
theorem size_counts (L : Libsodium) (debug : Text → Text) {D : Deployment} {p : Pair} (hp : D.Started p)
    (es : List (Side × Event)) {i : Nat} {s : Side} {conn : UInt64} {frame : Frame} {io : Io}
    (hi : es[i]? = some (s, .clientFrame conn frame io)) (hs : frame.Sends) (hz : Node.isSize frame.body = true)
    (hup : conn ∈ (nodeAt L debug p es i s).clients) :
    let log := (history L debug p (es.take i)).map fun e => (e.op, e.reply)
    outAt L debug p es i = [.write conn
      (message frame.receipt (.value (showNat (D.held s log).ncard ++ " of ".toList ++
        showNat maxKeys ++ " keys on node ".toList ++ showNat (D.config s).id.toNat)))] ∧
      (D.held s log).ncard + (D.held s.other log).ncard = {k | ∃ v, Holds log k v}.ncard := by
  intro log
  refine ⟨?_, D.held_ncard log s⟩
  have hn : Node.Linked (D.config s) (nodeAt L debug p es i s) := nodeAt_linked hp es i s
  obtain ⟨t, hout, -⟩ := nodeAt_step (L := L) (p := p) hi
  have hlen : (nodeAt L debug p es i s).kv.len = (D.held s log).ncard := history_len L debug hp (es.take i) s
  rw [hout, Node.step_send hn.running hs]
  unfold Node.handleSend
  rw [if_pos hz]
  dsimp only
  rw [Node.replyToClient_up hup, Node.sizeReply, hlen, hn.config]

theorem size_counts_one :
    let L := aesGcm counterBytes
    let D := Deployment.ofIds 100 200 (by decide) ⟨List.replicate keyBytes 7, by decide⟩
    let debug : Text → Text := fun s => '"' :: s ++ ['"']
    let io : Io := ⟨0, true, none⟩
    let es := [(.left, .clientUp 1), (.left, .clientFrame 1 ⟨"SEND".toList, [], "PUT 1 six".toList⟩ io),
      (.left, .clientFrame 1 ⟨"SEND".toList, [], "size".toList⟩ io)]
    outAt L debug D.boot es 2 = [.write 1 (message none (.value "1 of 1000000 keys on node 100".toList))] := by
  intro L D debug io es
  have hs : Frame.Sends ⟨"SEND".toList, [], "size".toList⟩ :=
    show toAsciiUppercase "SEND".toList = "SEND".toList by decide +kernel
  have hup : (1 : UInt64) ∈ (nodeAt L debug D.boot es 2 .left).clients := by decide +kernel
  obtain ⟨hout, -⟩ := size_counts L debug D.boot_started es rfl hs (by decide +kernel) hup
  have hlen := history_len L debug D.boot_started (es.take 2) .left
  have hone : ((Mealy.run (Pair.step L debug) D.boot (es.take 2)).nodes .left).kv.len = 1 := by decide +kernel
  rw [hout, ← hlen, hone]
  decide +kernel

end Paxe.SixSeven

import Paxe.SixSeven.Hop

/-!
# Correlation ids over a run

The positions of a run and the nodes there, where an entry of the pending table
comes from, and the ids a node forwards under: the counter counts them, so a
node that forwards at most 2^64 requests uses none twice, and an entry that is
gone does not come back.
-/

namespace Paxe.SixSeven
open Wire Str

/-! ## One turn -/

namespace Node

section
variable {L : Libsodium} {debug : Text → Text} {n n' : Node} {ev : Event} {out : List Output}
  (hd : Did L debug n ev out n')
include hd

theorem Did.nextCorr : n'.nextCorr = n.nextCorr ∨ n'.nextCorr = n.nextCorr + 1 := by
  cases hd with
  | failed _ _ _ _ _ _ => exact Or.inr rfl
  | forwarded _ _ _ => exact Or.inr rfl
  | _ => exact Or.inl rfl

theorem Did.pending_source {c : UInt64} {p : Pending} (hp : n'.pending[c]? = some p) :
    n.pending[c]? = some p ∨ ∃ frame io op, ev = .clientFrame p.conn frame io ∧ frame.Sends ∧
      p.receipt = frame.receipt ∧ Forwards debug n frame.body op ∧ c = n.nextCorr + 1 ∧ n'.nextCorr = c := by
  cases hd with
  | down hl =>
    dsimp only at hp
    rw [hl c, Option.filter_eq_some_iff] at hp
    exact Or.inl hp.1
  | ticked _ _ _ hl =>
    dsimp only at hp
    rw [hl c, Option.filter_eq_some_iff] at hp
    exact Or.inl hp.1
  | relayed _ _ _ _ _ =>
    dsimp only at hp
    rw [Table.lookup_erase] at hp
    split at hp
    · cases hp
    · exact Or.inl hp
  | @forwarded conn frame io op ds hs hf hc =>
    dsimp only at hp
    rw [Table.lookup_insert] at hp
    split at hp
    · rename_i hc
      cases hp
      exact Or.inr ⟨frame, io, op, rfl, hs, rfl, hf, hc, hc.symm⟩
    · exact Or.inl hp
  | quiet _ _ _ => exact Or.inl hp
  | direct _ _ _ _ => exact Or.inl hp
  | failed _ _ _ _ _ _ => exact Or.inl hp
  | served _ _ _ _ _ => exact Or.inl hp

end

end Node

/-! ## Positions -/

section
variable (L : Libsodium) (debug : Text → Text) (p : Pair)

/-- The node of a side after the first `i` events. -/
def nodeAt (es : List (Side × Event)) (i : Nat) (s : Side) : Node :=
  (Mealy.run (Pair.step L debug) p (es.take i)).nodes s

/-- What the event at position `i` puts out. -/
def outAt (es : List (Side × Event)) (i : Nat) : List Output :=
  match es[i]? with
  | some x => ((Mealy.run (Pair.step L debug) p (es.take i)).step L debug x).1
  | none => []

/-- The ids a side forwards under, in order: the counter moves exactly then. -/
def minted (s : Side) : Pair → List (Side × Event) → List UInt64
  | _, [] => []
  | p, x :: es =>
    let q := (p.step L debug x).2
    (if (q.nodes s).nextCorr = (p.nodes s).nextCorr then [] else [(q.nodes s).nextCorr]) ++ minted s q es

variable {L debug p}

theorem nodeAt_append {es fs : List (Side × Event)} {i : Nat} (hi : i ≤ es.length) (s : Side) :
    nodeAt L debug p (es ++ fs) i s = nodeAt L debug p es i s := by
  unfold nodeAt
  rw [List.take_append_of_le_length hi]

theorem nodeAt_length (es : List (Side × Event)) (s : Side) :
    nodeAt L debug p es es.length s = (Mealy.run (Pair.step L debug) p es).nodes s := by
  unfold nodeAt
  rw [List.take_length]

theorem take_succ_of_get {es : List (Side × Event)} {i : Nat} {x : Side × Event} (h : es[i]? = some x) :
    es.take (i + 1) = es.take i ++ [x] := by
  rw [List.take_add_one, h]
  rfl

theorem nodeAt_ne {es : List (Side × Event)} {i : Nat} {s s' : Side} {ev : Event} (h : es[i]? = some (s, ev))
    (hs : s' ≠ s) : nodeAt L debug p es (i + 1) s' = nodeAt L debug p es i s' := by
  unfold nodeAt
  rw [take_succ_of_get h, Mealy.run_snoc]
  exact Pair.step_ne L debug _ hs ev

theorem nodeAt_step {es : List (Side × Event)} {i : Nat} {s : Side} {ev : Event} (h : es[i]? = some (s, ev)) :
    ∃ t, outAt L debug p es i = ((nodeAt L debug p es i s).step L debug ev t).out ∧
      nodeAt L debug p es (i + 1) s = ((nodeAt L debug p es i s).step L debug ev t).node := by
  unfold nodeAt outAt
  rw [take_succ_of_get h, Mealy.run_snoc, h, Pair.step_same]
  exact ⟨_, rfl, rfl⟩

theorem nodeAt_did {es : List (Side × Event)} {i : Nat} {s : Side} {ev : Event} (h : es[i]? = some (s, ev)) :
    Node.Did L debug (nodeAt L debug p es i s) ev (outAt L debug p es i) (nodeAt L debug p es (i + 1) s) := by
  obtain ⟨t, ho, hn⟩ := nodeAt_step h
  rw [ho, hn]
  exact Node.step_did _ ev t

/-! ## Where entries come from -/

/-- The event at `i` is a request that its node forwards under that id. -/
def Forwarded (L : Libsodium) (debug : Text → Text) (p : Pair) (es : List (Side × Event)) (i : Nat) (s : Side)
    (c conn : UInt64) (receipt : Option Text) (op : Op) : Prop :=
  ∃ frame io, es[i]? = some (s, .clientFrame conn frame io) ∧ frame.Sends ∧ receipt = frame.receipt ∧
    Node.Forwards debug (nodeAt L debug p es i s) frame.body op ∧ c = (nodeAt L debug p es i s).nextCorr + 1 ∧
    (nodeAt L debug p es (i + 1) s).nextCorr = c

theorem Forwarded.lt {es : List (Side × Event)} {i : Nat} {s : Side} {c conn : UInt64} {receipt : Option Text}
    {op : Op} (h : Forwarded L debug p es i s c conn receipt op) : i < es.length := by
  obtain ⟨frame, io, hi, -⟩ := h
  exact (List.getElem?_eq_some_iff.mp hi).1

theorem Forwarded.append {es : List (Side × Event)} {i : Nat} {s : Side} {c conn : UInt64} {receipt : Option Text}
    {op : Op} (h : Forwarded L debug p es i s c conn receipt op) (fs : List (Side × Event)) :
    Forwarded L debug p (es ++ fs) i s c conn receipt op := by
  have hlt := h.lt
  obtain ⟨frame, io, hi, hs, hr, hf, hc, hn⟩ := h
  refine ⟨frame, io, ?_, hs, hr, ?_, ?_, ?_⟩
  · rw [List.getElem?_append_left hlt]
    exact hi
  · rw [nodeAt_append hlt.le]
    exact hf
  · rw [nodeAt_append hlt.le]
    exact hc
  · rw [nodeAt_append hlt]
    exact hn

theorem forwarded_between {es : List (Side × Event)} {s : Side} {c : UInt64} {k i : Nat} (hki : k ≤ i)
    (hi : i ≤ es.length) (hk : (nodeAt L debug p es k s).pending[c]? = none) {pd : Pending}
    (hp : (nodeAt L debug p es i s).pending[c]? = some pd) :
    ∃ r op, k ≤ r ∧ r < i ∧ Forwarded L debug p es r s c pd.conn pd.receipt op := by
  induction i, hki using Nat.le_induction with
  | base =>
    rw [hk] at hp
    cases hp
  | succ i hki ih =>
    obtain ⟨⟨s', ev⟩, hev⟩ : ∃ x, es[i]? = some x := ⟨es[i], List.getElem?_eq_getElem hi⟩
    by_cases hs : s = s'
    · subst hs
      rcases (nodeAt_did hev).pending_source hp with hp | ⟨frame, io, op, rfl, hs, hr, hf, hc, hn⟩
      · obtain ⟨r, op, hkr, hri, hr⟩ := ih (Nat.le_of_succ_le hi) hp
        exact ⟨r, op, hkr, Nat.lt_succ_of_lt hri, hr⟩
      · exact ⟨i, op, hki, Nat.lt_succ_self i, frame, io, hev, hs, hr, hf, hc, hn⟩
    · rw [nodeAt_ne hev hs] at hp
      obtain ⟨r, op, hkr, hri, hr⟩ := ih (Nat.le_of_succ_le hi) hp
      exact ⟨r, op, hkr, Nat.lt_succ_of_lt hri, hr⟩

/-! ## The counter counts -/

theorem minted_append (s : Side) (p : Pair) (es fs : List (Side × Event)) :
    minted L debug s p (es ++ fs) = minted L debug s p es ++ minted L debug s
      (Mealy.run (Pair.step L debug) p es) fs := by
  induction es generalizing p with
  | nil => rfl
  | cons x es ih =>
    simp only [List.cons_append, minted, Mealy.run, ih, List.append_assoc]

variable (L debug) in
theorem Pair.step_nextCorr (p : Pair) (x : Side × Event) (s : Side) :
    ((p.step L debug x).2.nodes s).nextCorr = (p.nodes s).nextCorr ∨
      ((p.step L debug x).2.nodes s).nextCorr = (p.nodes s).nextCorr + 1 := by
  obtain ⟨s', ev⟩ := x
  by_cases hs : s = s'
  · subst hs
    rw [Pair.step_same]
    exact (Node.step_did _ ev _).nextCorr
  · rw [Pair.step_ne L debug p hs]
    exact Or.inl rfl

theorem succ_ne (c : UInt64) : c + 1 ≠ c := by
  intro h
  have := congrArg UInt64.toNat h
  rw [UInt64.toNat_add] at this
  have hc := c.toNat_lt
  simp only [UInt64.toNat_one] at this
  omega

theorem add_ofNat_succ (c : UInt64) (j : Nat) : c + 1 + UInt64.ofNat j = c + UInt64.ofNat (j + 1) := by
  have h1 : UInt64.ofNat 1 = 1 := rfl
  rw [UInt64.ofNat_add, h1, UInt64.add_assoc, UInt64.add_comm 1]

theorem minted_eq (s : Side) (p : Pair) (es : List (Side × Event)) :
    minted L debug s p es =
      (List.range (minted L debug s p es).length).map fun j => (p.nodes s).nextCorr + UInt64.ofNat (j + 1) := by
  induction es generalizing p with
  | nil => rfl
  | cons x es ih =>
    rcases Pair.step_nextCorr L debug p x s with h | h
    · have hm : minted L debug s p (x :: es) = minted L debug s (p.step L debug x).2 es := by
        simp only [minted, h, if_true, List.nil_append]
      rw [hm, ← h]
      exact ih _
    · have hm : minted L debug s p (x :: es) =
          ((p.nodes s).nextCorr + 1) :: minted L debug s (p.step L debug x).2 es := by
        simp only [minted, h, if_neg (succ_ne _), List.singleton_append]
      rw [hm, List.length_cons, List.range_succ_eq_map, List.map_cons, List.map_map]
      congr 1
      rw [ih]
      simp only [List.length_map, List.length_range]
      apply List.map_congr_left
      intro j _
      rw [h, Function.comp_apply, add_ofNat_succ]

theorem run_nextCorr (s : Side) (p : Pair) (es : List (Side × Event)) :
    ((Mealy.run (Pair.step L debug) p es).nodes s).nextCorr =
      (p.nodes s).nextCorr + UInt64.ofNat (minted L debug s p es).length := by
  induction es generalizing p with
  | nil => simp [Mealy.run, minted]
  | cons x es ih =>
    rw [Mealy.run, ih]
    rcases Pair.step_nextCorr L debug p x s with h | h
    · simp only [minted, h, if_true, List.nil_append]
    · simp only [minted, h, if_neg (succ_ne _), List.singleton_append, List.length_cons, add_ofNat_succ]

theorem ofNat_inj {a b : Nat} (ha : a < 2 ^ 64) (hb : b < 2 ^ 64) (h : UInt64.ofNat a = UInt64.ofNat b) :
    a = b := by
  have := congrArg UInt64.toNat h
  rw [UInt64.toNat_ofNat_of_lt' ha, UInt64.toNat_ofNat_of_lt' hb] at this
  exact this

theorem minted_length_le (s : Side) (p : Pair) (es : List (Side × Event)) :
    (minted L debug s p es).length ≤ es.length := by
  induction es generalizing p with
  | nil => exact le_rfl
  | cons x es ih =>
    have := ih (p.step L debug x).2
    simp only [minted, List.length_append, List.length_cons]
    split
    · simp only [List.length_nil]
      omega
    · simp only [List.length_singleton]
      omega

theorem minted_nodup_iff {s : Side} {es : List (Side × Event)} :
    (minted L debug s p es).Nodup ↔ (minted L debug s p es).length ≤ 2 ^ 64 := by
  constructor
  · intro hn
    by_contra hlen
    rw [minted_eq] at hn
    have h0 : 0 ∈ List.range (minted L debug s p es).length := List.mem_range.mpr (by omega)
    have htop : 2 ^ 64 ∈ List.range (minted L debug s p es).length := List.mem_range.mpr (by omega)
    have hwrap : UInt64.ofNat (0 + 1) = UInt64.ofNat (2 ^ 64 + 1) := by decide
    have := List.inj_on_of_nodup_map hn h0 htop (by rw [hwrap])
    omega
  · intro hfew
    rw [minted_eq]
    apply List.Nodup.map_on ?_ List.nodup_range
    intro i hi j hj hij
    have hi := List.mem_range.mp hi
    have hj := List.mem_range.mp hj
    rw [UInt64.ofNat_add, UInt64.ofNat_add, ← add_assoc, ← add_assoc] at hij
    have := add_left_cancel (add_right_cancel hij)
    exact ofNat_inj (by omega) (by omega) this

section
variable {es : List (Side × Event)} {s : Side}

theorem nodeAt_nextCorr (i : Nat) : (nodeAt L debug p es i s).nextCorr =
    (p.nodes s).nextCorr + UInt64.ofNat (minted L debug s p (es.take i)).length := run_nextCorr ..

theorem take_append_of_le {i j : Nat} (hij : i ≤ j) : es.take i ++ (es.take j).drop i = es.take j := by
  have := List.take_append_drop i (es.take j)
  rwa [List.take_take, Nat.min_eq_left hij] at this

theorem minted_take_mono {i j : Nat} (hij : i ≤ j) :
    minted L debug s p (es.take i) <+: minted L debug s p (es.take j) := by
  rw [← take_append_of_le hij, minted_append]
  exact List.prefix_append _ _

theorem Forwarded.mints {i : Nat} {c conn : UInt64} {receipt : Option Text} {op : Op}
    (h : Forwarded L debug p es i s c conn receipt op) :
    minted L debug s p (es.take (i + 1)) = minted L debug s p (es.take i) ++ [c] := by
  obtain ⟨frame, io, hi, -, -, -, hc, hn⟩ := h
  have hne : ¬ (nodeAt L debug p es (i + 1) s).nextCorr = (nodeAt L debug p es i s).nextCorr := by
    rw [hn, hc]
    exact succ_ne _
  have hstep : ((Pair.step L debug (Mealy.run (Pair.step L debug) p (es.take i))
      (s, .clientFrame conn frame io)).2.nodes s) =
      nodeAt L debug p es (i + 1) s := by
    unfold nodeAt
    rw [take_succ_of_get hi, Mealy.run_snoc]
  rw [take_succ_of_get hi, minted_append, ← hn]
  simp only [minted, hstep, List.append_nil]
  rw [if_neg]
  exact hne

theorem Forwarded.count {i : Nat} {c conn : UInt64} {receipt : Option Text} {op : Op}
    (h : Forwarded L debug p es i s c conn receipt op) :
    (minted L debug s p (es.take (i + 1))).length = (minted L debug s p (es.take i)).length + 1 := by
  rw [h.mints, List.length_append]
  rfl

theorem Forwarded.unique (hfew : (minted L debug s p es).length ≤ 2 ^ 64) {i j : Nat} {c conn conn' : UInt64}
    {receipt receipt' : Option Text} {op op' : Op} (hi : Forwarded L debug p es i s c conn receipt op)
    (hj : Forwarded L debug p es j s c conn' receipt' op') : i = j := by
  have key : ∀ {i j : Nat} {conn conn' : UInt64} {receipt receipt' : Option Text} {op op' : Op},
      Forwarded L debug p es i s c conn receipt op → Forwarded L debug p es j s c conn' receipt' op' → ¬ i < j := by
    intro i j conn conn' receipt receipt' op op' hi hj hij
    have hci := hi.count
    have hcj := hj.count
    have hmono : (minted L debug s p (es.take (i + 1))).length ≤ (minted L debug s p (es.take j)).length :=
      (minted_take_mono hij).length_le
    have htop : (minted L debug s p (es.take (j + 1))).length ≤ (minted L debug s p es).length := by
      have := (@minted_take_mono L debug p es s _ _ hj.lt).length_le
      rwa [List.take_length] at this
    obtain ⟨_, _, -, -, -, -, hc, -⟩ := hi
    obtain ⟨_, _, -, -, -, -, hc', -⟩ := hj
    rw [hc, nodeAt_nextCorr, nodeAt_nextCorr] at hc'
    have := ofNat_inj (by omega) (by omega) (add_left_cancel (add_right_cancel hc'))
    omega
  have h1 := key hi hj
  have h2 := key hj hi
  omega

theorem forwarded_of_pending (h0 : (p.nodes s).pending = ∅) {i : Nat} (hi : i ≤ es.length) {c : UInt64}
    {pd : Pending} (hp : (nodeAt L debug p es i s).pending[c]? = some pd) :
    ∃ r op, r < i ∧ Forwarded L debug p es r s c pd.conn pd.receipt op := by
  have hstart : (nodeAt L debug p es 0 s).pending[c]? = none := by
    show (p.nodes s).pending[c]? = none
    rw [h0]
    exact Std.TreeMap.getElem?_emptyc
  obtain ⟨r, op, -, hr, hf⟩ := forwarded_between (Nat.zero_le i) hi hstart hp
  exact ⟨r, op, hr, hf⟩

theorem minted_of_pending (h0 : (p.nodes s).pending = ∅) {i : Nat} (hi : i ≤ es.length) {c : UInt64} {pd : Pending}
    (hp : (nodeAt L debug p es i s).pending[c]? = some pd) : c ∈ minted L debug s p (es.take i) := by
  obtain ⟨r, op, hr, hf⟩ := forwarded_of_pending h0 hi hp
  apply (minted_take_mono hr).subset
  rw [hf.mints]
  exact List.mem_append_right _ (List.mem_singleton_self c)

theorem Forwarded.gone (hfew : (minted L debug s p es).length ≤ 2 ^ 64) {r : Nat} {c conn : UInt64}
    {receipt : Option Text} {op : Op} (hr : Forwarded L debug p es r s c conn receipt op) {k i : Nat} (hrk : r < k)
    (hki : k ≤ i) (hi : i ≤ es.length) (hk : (nodeAt L debug p es k s).pending[c]? = none) :
    (nodeAt L debug p es i s).pending[c]? = none := by
  cases hp : (nodeAt L debug p es i s).pending[c]? with
  | none => rfl
  | some pd =>
    obtain ⟨r', op', hkr, -, hr'⟩ := forwarded_between hki hi hk hp
    have := hr.unique hfew hr'
    omega

end

/-! ## Clients that left -/

/-- From its departure on, until it should ask again, nothing waits for a client. -/
theorem pending_after_down {es : List (Side × Event)} {i : Nat} {s : Side} {conn : UInt64}
    (h : es[i]? = some (s, .clientDown conn)) (hr : (nodeAt L debug p es i s).running = true) {j : Nat}
    (hij : i < j) (hj : j ≤ es.length)
    (hno : ∀ k frame io, i < k → k < j → es[k]? ≠ some (s, .clientFrame conn frame io)) {c : UInt64}
    {pd : Pending} (hp : (nodeAt L debug p es j s).pending[c]? = some pd) : pd.conn ≠ conn := by
  induction j, hij using Nat.le_induction generalizing pd with
  | base =>
    have hfilter : (nodeAt L debug p es (i + 1) s).pending[c]? =
        (nodeAt L debug p es i s).pending[c]?.filter (·.conn != conn) := by
      obtain ⟨t, -, hn⟩ := nodeAt_step h
      rw [hn, Node.step, if_pos hr]
      exact Std.TreeMap.getElem?_filter'
    rw [hfilter, Option.filter_eq_some_iff] at hp
    simpa using hp.2
  | succ j hij ih =>
    have hno' : ∀ k frame io, i < k → k < j → es[k]? ≠ some (s, .clientFrame conn frame io) :=
      fun k frame io hik hkj => hno k frame io hik (Nat.lt_succ_of_lt hkj)
    obtain ⟨⟨s', ev⟩, hev⟩ : ∃ x, es[j]? = some x := ⟨es[j], List.getElem?_eq_getElem hj⟩
    by_cases hs : s = s'
    · subst hs
      rcases (nodeAt_did hev).pending_source hp with hp | ⟨frame, io, op, rfl, -⟩
      · exact ih (Nat.le_of_succ_le hj) hno' hp
      · rintro rfl
        exact hno j frame io hij (Nat.lt_succ_self j) hev
    · rw [nodeAt_ne hev hs] at hp
      exact ih (Nat.le_of_succ_le hj) hno' hp

end

end Paxe.SixSeven

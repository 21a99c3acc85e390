import Paxe.SixSeven.Correlation

/-!
# Every request is answered once

The other half of the story of an answer: a request of a client that stays
connected gets one, at the latest from the first tick after the deadline. The
ledger of a run now names for each message the turn that wrote it and why, and
keeps every request that still waits.
-/

namespace Paxe.SixSeven
open Wire Str

/-! ## What a turn owes -/

namespace Node

section
variable {L : Libsodium} {debug : Text → Text}

theorem replyToClient_up {n : Node} {conn : UInt64} (h : conn ∈ n.clients) (receipt : Option Text) (reply : Reply)
    (written : Bool) :
    (n.replyToClient conn receipt reply written).1 = [.write conn (message receipt reply)] := by
  unfold replyToClient writeFrame
  rw [if_pos h]

theorem step_send_owed {n : Node} (hr : n.running = true) {conn : UInt64} (hup : conn ∈ n.clients) {frame : Frame}
    (hs : frame.Sends) (io : Io) (t : Trace) :
    (∃ reply, .write conn (message frame.receipt reply) ∈ (n.step L debug (.clientFrame conn frame io) t).out) ∨
      ((n.step L debug (.clientFrame conn frame io) t).node.nextCorr = n.nextCorr + 1 ∧
        (n.step L debug (.clientFrame conn frame io) t).node.pending[n.nextCorr + 1]? =
          some ⟨conn, frame.receipt, io.now + forwardTimeout⟩) := by
  have hw : ∀ (m : Node) (reply : Reply), m.clients = n.clients →
      .write conn (message frame.receipt reply) ∈ (m.replyToClient conn frame.receipt reply io.written).1 := by
    intro m reply hm
    rw [replyToClient_up (hm ▸ hup)]
    exact List.mem_singleton_self _
  rw [step_send hr hs]
  unfold handleSend
  split
  · exact Or.inl ⟨_, hw n _ rfl⟩
  · split
    · exact Or.inl ⟨_, hw n _ rfl⟩
    · rename_i op hop
      split
      · exact Or.inl ⟨_, hw _ _ rfl⟩
      · unfold forward
        dsimp only
        split
        · rename_i hp
          exact absurd hp (sendToPeer_ne_panic _ _ _ _)
        · exact Or.inl ⟨_, List.mem_append_right _ (hw _ _ rfl)⟩
        · exact Or.inr ⟨rfl, Std.TreeMap.getElem?_insert_self⟩

theorem handleRequest_pending (n : Node) (corr : UInt64) (op : Op) (io : Io) (t : Trace) :
    (n.handleRequest L corr op io t).node.pending = n.pending := by
  unfold handleRequest
  dsimp only
  by_cases hown : n.owns op.key = true
  · rw [if_pos hown]
    dsimp only
    split <;> rfl
  · rw [if_neg hown]
    dsimp only
    split <;> rfl

theorem handleDatagram_cases (n : Node) (bytes : Bytes) (io : Io) (t : Trace) :
    (n.handleDatagram L debug bytes io t).node.pending = n.pending ∨
      ∃ corr reply d t',
        n.handleDatagram L debug bytes io t = handleResponse { n with diag := d } corr reply io t' := by
  unfold handleDatagram
  dsimp only
  split
  · exact Or.inl rfl
  · exact Or.inl rfl
  · split
    · exact Or.inl rfl
    · split
      · exact Or.inl rfl
      · split
        · exact Or.inl rfl
        · exact Or.inl (handleRequest_pending _ _ _ _ _)
        · exact Or.inr ⟨_, _, _, _, rfl⟩

omit L debug in
theorem writeFrame_owed (n : Node) (conn : UInt64) (frame : Frame) (written : Bool) :
    ∃ clients ⊆ n.clients, n.writeFrame conn frame written =
      (if conn ∈ n.clients then [.write conn frame] else [], { n with clients := clients }) := by
  unfold writeFrame
  by_cases hup : conn ∈ n.clients
  · rw [if_pos hup, if_pos hup]
    cases written with
    | true => exact ⟨n.clients, subset_rfl, rfl⟩
    | false => exact ⟨n.clients.erase conn, Finset.erase_subset _ _, rfl⟩
  · rw [if_neg hup, if_neg hup]
    exact ⟨n.clients, subset_rfl, rfl⟩

omit L debug in
theorem replyToClient_owed (n : Node) (conn : UInt64) (receipt : Option Text) (reply : Reply) (written : Bool) :
    ∃ clients ⊆ n.clients, n.replyToClient conn receipt reply written =
      (if conn ∈ n.clients then [.write conn (message receipt reply)] else [], { n with clients := clients }) :=
  writeFrame_owed n conn (message receipt reply) written

theorem step_datagram_owed {n : Node} (hr : n.running = true) {bytes : Bytes} {io : Io} {t : Trace} {c : UInt64}
    {pd : Pending} (hp : n.pending[c]? = some pd)
    (hup : pd.conn ∈ (n.step L debug (.datagram bytes io) t).node.clients)
    (hgone : (n.step L debug (.datagram bytes io) t).node.pending[c]? = none) :
    ∃ reply, (n.step L debug (.datagram bytes io) t).out = [.write pd.conn (message pd.receipt reply)] := by
  have hstep : n.step L debug (.datagram bytes io) t = n.handleDatagram L debug bytes io t := by
    unfold step
    exact if_pos hr
  rw [hstep] at hgone hup ⊢
  rcases @handleDatagram_cases L debug n bytes io t with hq | ⟨corr, reply, d, t', hq⟩
  · rw [hq, hp] at hgone
    cases hgone
  · rw [hq] at hgone hup ⊢
    unfold handleResponse at hgone hup ⊢
    dsimp only at hgone hup ⊢
    cases hc : n.pending[corr]? with
    | none =>
      rw [hc] at hgone
      dsimp only at hgone
      rw [hp] at hgone
      cases hgone
    | some q =>
      rw [hc] at hgone hup
      obtain ⟨clients, hsub, hn⟩ :=
        replyToClient_owed { n with pending := n.pending.erase corr, diag := d } q.conn q.receipt reply io.written
      dsimp only at hgone hup ⊢
      rw [hn] at hgone hup ⊢
      dsimp only at hgone hup ⊢
      rw [Table.lookup_erase] at hgone
      split at hgone
      · rename_i hcc
        rw [hcc, hc] at hp
        cases hp
        exact ⟨reply, if_pos (hsub hup)⟩
      · rw [hp] at hgone
        cases hgone

omit L debug in
/-- The visit of a tick answers every entry whose client is connected after it. -/
theorem expire_owed (written : UInt64 → Bool) (n : Node) {cs : List UInt64} (hnd : cs.Nodup) :
    ∃ (answered : List (UInt64 × Pending)) (clients : Finset UInt64) (pending : Std.TreeMap UInt64 Pending),
      expire written n cs =
        (answered.map fun x => .write x.2.conn (message x.2.receipt n.timedOut), { n with clients, pending }) ∧
      (∀ x ∈ answered, n.pending[x.1]? = some x.2) ∧ (answered.map (·.1)).Sublist cs ∧
      (∀ c : UInt64, pending[c]? = if c ∈ cs then none else n.pending[c]?) ∧ clients ⊆ n.clients ∧
      ∀ c ∈ cs, ∀ pd : Pending, n.pending[c]? = some pd → pd.conn ∈ clients → (c, pd) ∈ answered := by
  induction cs generalizing n with
  | nil => exact ⟨[], n.clients, n.pending, rfl, by simp, by simp, by simp, subset_rfl, by simp⟩
  | cons corr rest ih =>
    obtain ⟨hfresh, hnd⟩ := List.nodup_cons.mp hnd
    cases hp : n.pending[corr]? with
    | none =>
      obtain ⟨answered, clients, pending, he, ha, hs, hl, hc, ho⟩ := ih n hnd
      refine ⟨answered, clients, pending, by rw [expire, hp]; exact he, ha, hs.cons _, ?_, hc, ?_⟩
      · intro c
        rw [hl c]
        by_cases hcc : c = corr
        · simp [hcc, hp]
        · simp [hcc]
      · intro c hm pd hpd hup
        rcases List.mem_cons.mp hm with rfl | hm
        · rw [hp] at hpd
          cases hpd
        · exact ho c hm pd hpd hup
    | some q =>
      obtain ⟨up, hsub, hn⟩ :=
        replyToClient_owed { n with pending := n.pending.erase corr } q.conn q.receipt n.timedOut (written corr)
      obtain ⟨answered, clients, pending, he, ha, hs, hl, hc, ho⟩ :=
        ih { n with pending := n.pending.erase corr, clients := up } hnd
      have hne : ∀ {c}, c ∈ rest → c ≠ corr := fun hm h => hfresh (h ▸ hm)
      have ha' : ∀ x ∈ answered, n.pending[x.1]? = some x.2 := by
        intro x hx
        have := ha x hx
        rwa [Table.lookup_erase, if_neg (hne (hs.subset (List.mem_map_of_mem hx)))] at this
      refine ⟨(if q.conn ∈ n.clients then [(corr, q)] else []) ++ answered, clients, pending, ?_, ?_, ?_, ?_,
        hc.trans hsub, ?_⟩
      · rw [expire, hp]
        dsimp only
        rw [hn, he]
        by_cases hup : q.conn ∈ n.clients
        · rw [if_pos hup, if_pos hup]
          rfl
        · rw [if_neg hup, if_neg hup]
          rfl
      · intro x hx
        rcases List.mem_append.mp hx with hx | hx
        · split at hx
          · rw [List.mem_singleton.mp hx]
            exact hp
          · cases hx
        · exact ha' x hx
      · split
        · exact hs.cons_cons corr
        · exact hs.cons corr
      · intro c
        rw [hl c, Table.lookup_erase]
        by_cases hcc : c = corr
        · simp [hcc]
        · simp [hcc]
      · intro c hm pd hpd hup
        rcases List.mem_cons.mp hm with rfl | hm
        · rw [hp] at hpd
          cases hpd
          rw [if_pos (hsub (hc hup))]
          exact List.mem_append_left _ (List.mem_singleton_self _)
        · apply List.mem_append_right
          apply ho c hm pd ?_ hup
          dsimp only
          rw [Table.lookup_erase, if_neg (hne hm)]
          exact hpd

theorem step_tick_owed {n : Node} (hr : n.running = true) (now : Nat) (rank : UInt64 → Nat)
    (written : UInt64 → Bool) (t : Trace) :
    ∃ (answered : List (UInt64 × Pending)) (clients : Finset UInt64) (pending : Std.TreeMap UInt64 Pending),
      n.step L debug (.tick now rank written) t =
        ⟨answered.map fun x => .write x.2.conn (message x.2.receipt n.timedOut), { n with clients, pending }, t⟩ ∧
      (∀ x ∈ answered, n.pending[x.1]? = some x.2 ∧ x.2.deadline ≤ now) ∧ (answered.map (·.1)).Nodup ∧
      (∀ c : UInt64, pending[c]? = n.pending[c]?.filter (now < ·.deadline)) ∧
      ∀ (c : UInt64) (pd : Pending), n.pending[c]? = some pd → pd.deadline ≤ now → pd.conn ∈ clients →
        (c, pd) ∈ answered := by
  have hnd := expired_nodup n now rank
  obtain ⟨answered, clients, pending, he, ha, hs, hl, -, ho⟩ := expire_owed written n hnd
  refine ⟨answered, clients, pending, ?_, ?_, hs.nodup hnd, ?_, ?_⟩
  · unfold step
    rw [if_pos hr]
    dsimp only
    rw [he]
  · intro x hx
    obtain ⟨pd, hpd, hd⟩ := mem_expired.mp (hs.subset (List.mem_map_of_mem hx))
    have hp := ha x hx
    rw [hp] at hpd
    cases hpd
    exact ⟨hp, hd⟩
  · intro c
    rw [hl c]
    cases hp : n.pending[c]? with
    | none => simp
    | some pd =>
      by_cases hd : pd.deadline ≤ now
      · rw [if_pos (mem_expired.mpr ⟨pd, hp, hd⟩)]
        simp [Option.filter, hd]
      · rw [if_neg]
        · simp [Option.filter, Nat.lt_of_not_le hd]
        · intro hm
          obtain ⟨q, hq, hqd⟩ := mem_expired.mp hm
          rw [hp] at hq
          cases hq
          exact hd hqd
  · intro c pd hp hd hup
    exact ho c (mem_expired.mpr ⟨pd, hp, hd⟩) pd hp hup

end

end Node

/-! ## The ledger -/

section
variable (L : Libsodium) (debug : Text → Text) (p : Pair) (es : List (Side × Event))

/-- Why the message was written, and which request it answers. -/
inductive Closing (i : Nat) (m : Posted) : Prop
  | direct {frame : Frame} {io : Io} {reply : Reply} {kv : Store} : m.pos = i →
      es[i]? = some (m.side, .clientFrame m.conn frame io) → frame.Sends →
      Node.Direct debug (nodeAt L debug p es i m.side) frame.body reply kv → m.frame = message frame.receipt reply →
      Closing i m
  | unsent {frame : Frame} {io : Io} {op : Op} {e : Text} : m.pos = i →
      es[i]? = some (m.side, .clientFrame m.conn frame io) → frame.Sends →
      Node.Forwards debug (nodeAt L debug p es i m.side) frame.body op →
      Node.SendError (nodeAt L debug p es i m.side) e → m.frame = message frame.receipt (.err e) → Closing i m
  | timeout {c : UInt64} {receipt : Option Text} {op : Op} {now : Nat} {rank : UInt64 → Nat}
      {written : UInt64 → Bool} :
      Forwarded L debug p es i m.side c m.conn receipt op → i < m.pos →
      es[m.pos]? = some (m.side, .tick now rank written) →
      m.frame = message receipt (nodeAt L debug p es m.pos m.side).timedOut → Closing i m
  | relayed {c : UInt64} {receipt : Option Text} {op : Op} {reply : Reply} {bytes : Bytes} {io : Io} :
      Forwarded L debug p es i m.side c m.conn receipt op → i < m.pos →
      es[m.pos]? = some (m.side, .datagram bytes io) →
      Node.Hears L debug (nodeAt L debug p es m.pos m.side) bytes (.response c reply) →
      m.frame = message receipt reply → Closing i m

def Early (i k : Nat) (s : Side) (deadline : Nat) : Prop :=
  ∀ j now rank written, i < j → j + 1 < k → es[j]? = some (s, .tick now rank written) → now < deadline

/-- What became of a request: it was answered, it waits, or its client was not
connected at some time before a tick came past the deadline. -/
inductive Kept (b : Ledger.Book (Side × UInt64)) (i : Nat) (s : Side) (conn : UInt64) (deadline : Nat) : Prop
  | settled : i ∈ b.settled → Kept b i s conn deadline
  | waits {c : UInt64} {pd : Pending} : b.waiting (s, c) = some i →
      (nodeAt L debug p es es.length s).pending[c]? = some pd → pd.conn = conn → pd.deadline = deadline →
      Early es i (es.length + 1) s deadline → Kept b i s conn deadline
  | cut {k : Nat} : i ≤ k → k ≤ es.length → conn ∉ (nodeAt L debug p es k s).clients → Early es i k s deadline →
      Kept b i s conn deadline

structure Tally (b : Ledger.Book (Side × UInt64)) : Prop where
  fair : Ledger.Fair b es.length
  tracks : ∀ (s : Side) (c : UInt64) (pd : Pending), (nodeAt L debug p es es.length s).pending[c]? = some pd →
    ∃ i op, b.waiting (s, c) = some i ∧ Forwarded L debug p es i s c pd.conn pd.receipt op
  closes : List.Forall₂ (Closing L debug p es) b.settled (messages (Mealy.log (Pair.step L debug) p es))
  kept : ∀ i s conn frame io, es[i]? = some (s, .clientFrame conn frame io) → frame.Sends →
    Kept L debug p es b i s conn (io.now + forwardTimeout)

end

section
variable {L : Libsodium} {debug : Text → Text} {p : Pair} {es : List (Side × Event)}

theorem Closing.append {i : Nat} {m : Posted} (hi : i < es.length) (h : Closing L debug p es i m)
    (fs : List (Side × Event)) : Closing L debug p (es ++ fs) i m := by
  have hnode : nodeAt L debug p es i m.side = nodeAt L debug p (es ++ fs) i m.side := (nodeAt_append hi.le _).symm
  cases h with
  | direct hpos hget hs hd hm =>
    rw [hnode] at hd
    exact .direct hpos (get_append hget fs).2 hs hd hm
  | unsent hpos hget hs hf he hm =>
    rw [hnode] at hf he
    exact .unsent hpos (get_append hget fs).2 hs hf he hm
  | timeout hf hlt hget hm =>
    obtain ⟨hpos, hget'⟩ := get_append hget fs
    rw [← nodeAt_append hpos.le] at hm
    exact .timeout (hf.append fs) hlt hget' hm
  | relayed hf hlt hget hh hm =>
    obtain ⟨hpos, hget'⟩ := get_append hget fs
    rw [← nodeAt_append hpos.le] at hh
    exact .relayed (hf.append fs) hlt hget' hh hm

theorem Early.append {i k : Nat} {s : Side} {deadline : Nat} (h : Early es i k s deadline) (hk : k ≤ es.length + 1)
    (fs : List (Side × Event)) : Early (es ++ fs) i k s deadline := by
  intro j now rank written hij hjk hget
  rw [List.getElem?_append_left (by omega)] at hget
  exact h j now rank written hij hjk hget

theorem Early.snoc {i : Nat} {s : Side} {deadline : Nat} (h : Early es i (es.length + 1) s deadline)
    {x : Side × Event} (hx : ∀ now rank written, x = (s, .tick now rank written) → now < deadline) :
    Early (es ++ [x]) i (es.length + 2) s deadline := by
  intro j now rank written hij hjk hget
  by_cases hj : j = es.length
  · subst hj
    rw [List.getElem?_concat_length] at hget
    exact hx now rank written (Option.some.inj hget)
  · rw [List.getElem?_append_left (by omega)] at hget
    exact h j now rank written hij (by omega) hget

/-- A request from before the last turn, by what that turn does to its entry. -/
theorem Kept.snoc {b b' : Ledger.Book (Side × UInt64)} {i : Nat} {s : Side} {conn : UInt64} {deadline : Nat}
    {x : Side × Event} (h : Kept L debug p es b i s conn deadline) (hi : i < es.length)
    (hsettled : i ∈ b.settled → i ∈ b'.settled)
    (hmove : ∀ (c : UInt64) (pd : Pending), b.waiting (s, c) = some i →
      (nodeAt L debug p es es.length s).pending[c]? = some pd →
      i ∈ b'.settled ∨ pd.conn ∉ (nodeAt L debug p (es ++ [x]) (es.length + 1) s).clients ∨
        (b'.waiting (s, c) = some i ∧ (nodeAt L debug p (es ++ [x]) (es.length + 1) s).pending[c]? = some pd ∧
          ∀ now rank written, x = (s, .tick now rank written) → now < pd.deadline)) :
    Kept L debug p (es ++ [x]) b' i s conn deadline := by
  have hlen : (es ++ [x]).length = es.length + 1 := by simp
  cases h with
  | settled hm => exact .settled (hsettled hm)
  | @waits c pd hc hpd hconn hd he =>
    rcases hmove c pd hc hpd with hm | hdown | ⟨hc', hpd', htick⟩
    · exact .settled hm
    · subst hconn
      exact .cut (by omega) hlen.ge hdown (he.append le_rfl _)
    · refine .waits hc' ?_ hconn hd ?_
      · rw [hlen]
        exact hpd'
      · rw [hlen]
        refine he.snoc ?_
        rw [← hd]
        exact htick
  | cut hik hk hdown he =>
    refine .cut hik (by omega) ?_ (he.append (by omega) _)
    rw [nodeAt_append hk]
    exact hdown

/-- The request of the last turn: it waits under an id, or its client was not
connected. -/
theorem Kept.last {b : Ledger.Book (Side × UInt64)} {s : Side} {ev : Event} {conn : UInt64} {receipt : Option Text}
    {deadline : Nat}
    (hnew : conn ∈ (nodeAt L debug p es es.length s).clients → es.length ∈ b.settled ∨
      ∃ c, b.waiting (s, c) = some es.length ∧
        (nodeAt L debug p (es ++ [(s, ev)]) (es.length + 1) s).pending[c]? = some ⟨conn, receipt, deadline⟩) :
    Kept L debug p (es ++ [(s, ev)]) b es.length s conn deadline := by
  have hlen : (es ++ [(s, ev)]).length = es.length + 1 := by simp
  by_cases hup : conn ∈ (nodeAt L debug p es es.length s).clients
  · rcases hnew hup with hm | ⟨c, hc, hpd⟩
    · exact .settled hm
    · rw [← hlen] at hpd
      refine .waits hc hpd rfl rfl ?_
      intro j now rank written hij hjk
      omega
  · refine .cut le_rfl (by omega) ?_ ?_
    · rw [nodeAt_append le_rfl]
      exact hup
    · intro j now rank written hij hjk
      omega

/-! ## One turn -/

namespace Tally

variable {b b' : Ledger.Book (Side × UInt64)} {s : Side} {ev : Event}

/-- One turn of a side, told by what it does to that side's entries: where a
waiting request goes, and where a new one does. -/
theorem extend (h : Tally L debug p es b) {l : List Nat} (hfair : Ledger.Fair b' (es.length + 1))
    (hother : ∀ s' ≠ s, ∀ c, b'.waiting (s', c) = b.waiting (s', c))
    (htracks : ∀ (c : UInt64) (pd : Pending),
      (nodeAt L debug p (es ++ [(s, ev)]) (es.length + 1) s).pending[c]? = some pd →
      ∃ i op, b'.waiting (s, c) = some i ∧ Forwarded L debug p (es ++ [(s, ev)]) i s c pd.conn pd.receipt op)
    (hsettled : b'.settled = b.settled ++ l)
    (hcloses : List.Forall₂ (Closing L debug p (es ++ [(s, ev)])) l
      ((outAt L debug p (es ++ [(s, ev)]) es.length).filterMap (Output.posted es.length s)))
    (hmove : ∀ (c : UInt64) (pd : Pending) (i : Nat), b.waiting (s, c) = some i →
      (nodeAt L debug p es es.length s).pending[c]? = some pd →
      i ∈ b'.settled ∨ pd.conn ∉ (nodeAt L debug p (es ++ [(s, ev)]) (es.length + 1) s).clients ∨
        (b'.waiting (s, c) = some i ∧ (nodeAt L debug p (es ++ [(s, ev)]) (es.length + 1) s).pending[c]? = some pd ∧
          ∀ now rank written, ev = .tick now rank written → now < pd.deadline))
    (hnew : ∀ conn frame io, ev = .clientFrame conn frame io → frame.Sends →
      conn ∈ (nodeAt L debug p es es.length s).clients → es.length ∈ b'.settled ∨
        ∃ c, b'.waiting (s, c) = some es.length ∧
          (nodeAt L debug p (es ++ [(s, ev)]) (es.length + 1) s).pending[c]? =
          some ⟨conn, frame.receipt, io.now + forwardTimeout⟩) :
    Tally L debug p (es ++ [(s, ev)]) b' := by
  have hget : (es ++ [(s, ev)])[es.length]? = some (s, ev) := List.getElem?_concat_length
  have hlen : (es ++ [(s, ev)]).length = es.length + 1 := by simp
  have hstill : ∀ s' ≠ s, nodeAt L debug p (es ++ [(s, ev)]) (es.length + 1) s' =
      nodeAt L debug p es es.length s' := by
    intro s' hs'
    rw [nodeAt_ne hget hs', nodeAt_append le_rfl]
  refine ⟨?_, ?_, ?_, ?_⟩
  · rw [hlen]
    exact hfair
  · intro s' c pd hpd
    rw [hlen] at hpd
    by_cases hs : s' = s
    · subst hs
      exact htracks c pd hpd
    · rw [hstill s' hs] at hpd
      obtain ⟨i, op, hi, hf⟩ := h.tracks s' c pd hpd
      exact ⟨i, op, (hother s' hs c).trans hi, hf.append _⟩
  · rw [log_outAt, messages_snoc, Mealy.log_length, hsettled]
    refine List.rel_append ?_ hcloses
    refine List.forall₂_iff_get.mpr ⟨h.closes.length_eq, ?_⟩
    intro i hi hi'
    exact (h.closes.get hi hi').append (h.fair.settled_lt _ (List.get_mem _ _)) _
  · intro i s' conn frame io hi hs
    by_cases hlast : i = es.length
    · subst hlast
      rw [hget] at hi
      cases hi
      exact .last (hnew conn frame io rfl hs)
    · have hlt : i < es.length := by
        have := (List.getElem?_eq_some_iff.mp hi).1
        omega
      rw [List.getElem?_append_left hlt] at hi
      refine (h.kept i s' conn frame io hi hs).snoc hlt ?_ ?_
      · intro hm
        rw [hsettled]
        exact List.mem_append_left _ hm
      · intro c pd hc hpd
        by_cases hs' : s' = s
        · subst hs'
          rcases hmove c pd i hc hpd with hm | hdown | ⟨hc', hpd', htick⟩
          · exact Or.inl hm
          · exact Or.inr (Or.inl hdown)
          · refine Or.inr (Or.inr ⟨hc', hpd', fun now rank written hx => ?_⟩)
            exact htick now rank written (Prod.mk.inj hx).2
        · refine Or.inr (Or.inr ⟨(hother s' hs' c).trans hc, ?_, fun now rank written hx => ?_⟩)
          · rw [hstill s' hs']
            exact hpd
          · exact absurd (Prod.mk.inj hx).1.symm hs'

theorem silent (h : Tally L debug p es b)
    (hsub : ∀ (c : UInt64) (pd : Pending),
      (nodeAt L debug p (es ++ [(s, ev)]) (es.length + 1) s).pending[c]? = some pd →
      (nodeAt L debug p es es.length s).pending[c]? = some pd)
    (hout : (outAt L debug p (es ++ [(s, ev)]) es.length).filterMap (Output.posted es.length s) = [])
    (hmove : ∀ (c : UInt64) (pd : Pending), (nodeAt L debug p es es.length s).pending[c]? = some pd →
      pd.conn ∉ (nodeAt L debug p (es ++ [(s, ev)]) (es.length + 1) s).clients ∨
        ((nodeAt L debug p (es ++ [(s, ev)]) (es.length + 1) s).pending[c]? = some pd ∧
          ∀ now rank written, ev = .tick now rank written → now < pd.deadline))
    (hnew : ∀ conn frame io, ev = .clientFrame conn frame io → frame.Sends →
      conn ∉ (nodeAt L debug p es es.length s).clients) :
    Tally L debug p (es ++ [(s, ev)]) b := by
  refine h.extend (l := []) h.fair.later (fun _ _ _ => rfl) ?_ (List.append_nil _).symm ?_ ?_ ?_
  · intro c pd hpd
    obtain ⟨i, op, hi, hf⟩ := h.tracks s c pd (hsub c pd hpd)
    exact ⟨i, op, hi, hf.append _⟩
  · rw [hout]
    exact .nil
  · intro c pd i hi hpd
    rcases hmove c pd hpd with hdown | ⟨hpd', htick⟩
    · exact Or.inr (Or.inl hdown)
    · exact Or.inr (Or.inr ⟨hi, hpd', htick⟩)
  · intro conn frame io hev hs hup
    exact absurd hup (hnew conn frame io hev hs)

theorem direct (h : Tally L debug p es b)
    (hsame : (nodeAt L debug p (es ++ [(s, ev)]) (es.length + 1) s).pending =
      (nodeAt L debug p es es.length s).pending)
    (htick : ∀ now rank written, ev ≠ .tick now rank written) {m : Posted}
    (hout : (outAt L debug p (es ++ [(s, ev)]) es.length).filterMap (Output.posted es.length s) = [m])
    (hm : Closing L debug p (es ++ [(s, ev)]) es.length m) :
    Tally L debug p (es ++ [(s, ev)]) ⟨b.waiting, b.settled ++ [es.length]⟩ := by
  refine h.extend (l := [es.length]) h.fair.direct (fun _ _ _ => rfl) ?_ rfl ?_ ?_ ?_
  · intro c pd hpd
    rw [hsame] at hpd
    obtain ⟨i, op, hi, hf⟩ := h.tracks s c pd hpd
    exact ⟨i, op, hi, hf.append _⟩
  · rw [hout]
    exact .cons hm .nil
  · intro c pd i hi hpd
    rw [hsame]
    exact Or.inr (Or.inr ⟨hi, hpd, fun now rank written hev => absurd hev (htick now rank written)⟩)
  · intro conn frame io _ _ _
    exact Or.inl (List.mem_append_right _ (List.mem_singleton_self _))

theorem settle (h : Tally L debug p es b) (xs : List (UInt64 × Pending)) (f : UInt64 × Pending → Posted)
    (hsub : ∀ (c : UInt64) (pd : Pending),
      (nodeAt L debug p (es ++ [(s, ev)]) (es.length + 1) s).pending[c]? = some pd →
      (nodeAt L debug p es es.length s).pending[c]? = some pd)
    (hgone : ∀ x ∈ xs, (nodeAt L debug p (es ++ [(s, ev)]) (es.length + 1) s).pending[x.1]? = none)
    (hx : ∀ x ∈ xs, (nodeAt L debug p es es.length s).pending[x.1]? = some x.2) (hn : (xs.map (·.1)).Nodup)
    (hout : (outAt L debug p (es ++ [(s, ev)]) es.length).filterMap (Output.posted es.length s) = xs.map f)
    (hf : ∀ x ∈ xs, ∀ i op, Forwarded L debug p es i s x.1 x.2.conn x.2.receipt op →
      Closing L debug p (es ++ [(s, ev)]) i (f x))
    (hmove : ∀ (c : UInt64) (pd : Pending), (nodeAt L debug p es es.length s).pending[c]? = some pd →
      (c, pd) ∈ xs ∨ pd.conn ∉ (nodeAt L debug p (es ++ [(s, ev)]) (es.length + 1) s).clients ∨
        ((nodeAt L debug p (es ++ [(s, ev)]) (es.length + 1) s).pending[c]? = some pd ∧
          ∀ now rank written, ev = .tick now rank written → now < pd.deadline))
    (hnew : ∀ conn frame io, ev ≠ .clientFrame conn frame io) : ∃ b', Tally L debug p (es ++ [(s, ev)]) b' := by
  have hwait : ∀ x ∈ xs, ∃ i, b.waiting (s, x.1) = some i ∧
      ∃ op, Forwarded L debug p es i s x.1 x.2.conn x.2.receipt op := by
    intro x hxm
    obtain ⟨i, op, hi, hfw⟩ := h.tracks s x.1 x.2 (hx x hxm)
    exact ⟨i, hi, op, hfw⟩
  have hnodup : (xs.map fun x => (s, x.1)).Nodup := by
    apply List.Nodup.of_map Prod.snd
    rw [List.map_map]
    exact hn
  obtain ⟨ticket, hticket, hfair⟩ := h.fair.settle (fun x : UInt64 × Pending => (s, x.1)) hwait hnodup
  have hfree : ∀ c pd, (nodeAt L debug p (es ++ [(s, ev)]) (es.length + 1) s).pending[c]? = some pd →
      (s, c) ∉ xs.map fun x => (s, x.1) := by
    intro c pd hpd hm
    obtain ⟨x, hxm, he⟩ := List.mem_map.mp hm
    cases he
    rw [hgone x hxm] at hpd
    cases hpd
  refine ⟨_, h.extend (l := xs.map ticket) hfair.later ?_ ?_ rfl ?_ ?_ ?_⟩
  · intro s' hs' c
    dsimp only
    rw [if_neg]
    intro hm
    obtain ⟨x, -, he⟩ := List.mem_map.mp hm
    exact hs' (Prod.mk.inj he).1.symm
  · intro c pd hpd
    obtain ⟨i, op, hi, hfw⟩ := h.tracks s c pd (hsub c pd hpd)
    refine ⟨i, op, ?_, hfw.append _⟩
    dsimp only
    rw [if_neg (hfree c pd hpd)]
    exact hi
  · rw [hout, List.forall₂_map_left_iff, List.forall₂_map_right_iff, List.forall₂_same]
    intro x hxm
    obtain ⟨-, op, hfw⟩ := hticket x hxm
    exact hf x hxm _ op hfw
  · intro c pd i hi hpd
    rcases hmove c pd hpd with hm | hdown | ⟨hpd', htick⟩
    · left
      dsimp only
      apply List.mem_append_right
      have := (hticket _ hm).1
      rw [hi] at this
      exact List.mem_map.mpr ⟨(c, pd), hm, (Option.some.inj this).symm⟩
    · exact Or.inr (Or.inl hdown)
    · refine Or.inr (Or.inr ⟨?_, hpd', htick⟩)
      dsimp only
      rw [if_neg (hfree c pd hpd')]
      exact hi
  · intro conn frame io hev
    exact absurd hev (hnew conn frame io)

end Tally

/-! ## The run -/

theorem posted_of_mem {out : List Output} {conn : UInt64} {receipt : Option Text} {reply : Reply}
    (h : .write conn (message receipt reply) ∈ out) (pos : Nat) (s : Side) :
    out.filterMap (Output.posted pos s) ≠ [] := by
  apply List.ne_nil_of_mem
  exact List.mem_filterMap.mpr ⟨_, h, posted_message ..⟩

theorem last_step (L : Libsodium) (debug : Text → Text) (p : Pair) (es : List (Side × Event)) (s : Side)
    (ev : Event) :
    ∃ t, outAt L debug p (es ++ [(s, ev)]) es.length = ((nodeAt L debug p es es.length s).step L debug ev t).out ∧
      nodeAt L debug p (es ++ [(s, ev)]) (es.length + 1) s =
        ((nodeAt L debug p es es.length s).step L debug ev t).node := by
  rw [← @nodeAt_append L debug p es [(s, ev)] _ le_rfl]
  exact nodeAt_step List.getElem?_concat_length

section
variable {D : Deployment} (hp : D.Started p)
include hp

namespace Tally

variable {b : Ledger.Book (Side × UInt64)} (h : Tally L debug p es b) {s : Side} {ev : Event}
include h

omit hp in
theorem fresh {c conn : UInt64} {receipt : Option Text} {op : Op} {x : Side × Event}
    (hfew : Few L debug p (es ++ [x])) (hf : Forwarded L debug p (es ++ [x]) es.length s c conn receipt op) :
    (nodeAt L debug p es es.length s).pending[c]? = none := by
  cases hpd : (nodeAt L debug p es es.length s).pending[c]? with
  | none => rfl
  | some pd =>
    obtain ⟨i, op', -, hi⟩ := h.tracks s c pd hpd
    have hlt := hi.lt
    have := (hi.append [x]).unique (hfew s) hf
    omega

/-- A turn that writes nothing and registers nothing had no request of a connected
client. -/
theorem mute (htick : ∀ now rank written, ev ≠ .tick now rank written)
    (hsame : (nodeAt L debug p (es ++ [(s, ev)]) (es.length + 1) s).pending =
      (nodeAt L debug p es es.length s).pending)
    (hout : (outAt L debug p (es ++ [(s, ev)]) es.length).filterMap (Output.posted es.length s) = [])
    (hfree : (nodeAt L debug p (es ++ [(s, ev)]) (es.length + 1) s).nextCorr =
      (nodeAt L debug p es es.length s).nextCorr + 1 →
      (nodeAt L debug p es es.length s).pending[(nodeAt L debug p es es.length s).nextCorr + 1]? = none) :
    Tally L debug p (es ++ [(s, ev)]) b := by
  have hrun : (nodeAt L debug p es es.length s).running = true := (nodeAt_linked hp es es.length s).running
  refine h.silent ?_ hout ?_ ?_
  · rw [hsame]
    exact fun _ _ hpd => hpd
  · intro c pd hpd
    rw [hsame]
    exact Or.inr ⟨hpd, fun now rank written hev => absurd hev (htick now rank written)⟩
  · rintro conn frame io rfl hs hup
    obtain ⟨t, ho, hn⟩ := last_step L debug p es s (.clientFrame conn frame io)
    have howed := @Node.step_send_owed L debug _ hrun conn hup frame hs io t
    rw [← ho, ← hn] at howed
    rcases howed with ⟨reply, hw⟩ | ⟨hcorr, hpd⟩
    · exact posted_of_mem hw es.length s hout
    · rw [hsame, hfree hcorr] at hpd
      cases hpd

theorem replied {m : Posted} (htick : ∀ now rank written, ev ≠ .tick now rank written)
    (hsame : (nodeAt L debug p (es ++ [(s, ev)]) (es.length + 1) s).pending =
      (nodeAt L debug p es es.length s).pending)
    (hout : (outAt L debug p (es ++ [(s, ev)]) es.length).filterMap (Output.posted es.length s) = [] ∨
      (outAt L debug p (es ++ [(s, ev)]) es.length).filterMap (Output.posted es.length s) = [m])
    (hfree : (nodeAt L debug p (es ++ [(s, ev)]) (es.length + 1) s).nextCorr =
      (nodeAt L debug p es es.length s).nextCorr + 1 →
      (nodeAt L debug p es es.length s).pending[(nodeAt L debug p es es.length s).nextCorr + 1]? = none)
    (hm : Closing L debug p (es ++ [(s, ev)]) es.length m) : ∃ b', Tally L debug p (es ++ [(s, ev)]) b' := by
  rcases hout with hout | hout
  · exact ⟨b, h.mute hp htick hsame hout hfree⟩
  · exact ⟨_, h.direct hsame htick hout hm⟩

omit hp in
theorem issue {conn : UInt64} {frame : Frame} {io : Io} {op : Op} {c : UInt64}
    (hev : ev = .clientFrame conn frame io) (hfew : Few L debug p (es ++ [(s, ev)]))
    (hf : Forwarded L debug p (es ++ [(s, ev)]) es.length s c conn frame.receipt op)
    (hpend : (nodeAt L debug p (es ++ [(s, ev)]) (es.length + 1) s).pending =
      (nodeAt L debug p es es.length s).pending.insert c ⟨conn, frame.receipt, io.now + forwardTimeout⟩)
    (hout : (outAt L debug p (es ++ [(s, ev)]) es.length).filterMap (Output.posted es.length s) = []) :
    ∃ b', Tally L debug p (es ++ [(s, ev)]) b' := by
  have hfree := h.fresh hfew hf
  have hother : ∀ {s' : Side} {c' : UInt64}, (s', c') ≠ (s, c) →
      Function.update b.waiting (s, c) (some es.length) (s', c') = b.waiting (s', c') :=
    fun hne => Function.update_of_ne hne ..
  have hne : ∀ {c' : UInt64}, c' ≠ c → (s, c') ≠ (s, c) := fun hc he => hc (Prod.mk.inj he).2
  refine ⟨_, h.extend (l := []) (h.fair.issue (s, c)) ?_ ?_ (List.append_nil _).symm ?_ ?_ ?_⟩
  · intro s' hs' c'
    exact hother fun he => hs' (Prod.mk.inj he).1
  · intro c' pd hpd
    rw [hpend, Table.lookup_insert] at hpd
    by_cases hc : c' = c
    · subst hc
      rw [if_pos rfl] at hpd
      cases hpd
      exact ⟨es.length, op, Function.update_self .., hf⟩
    · rw [if_neg hc] at hpd
      obtain ⟨i, op', hi, hf'⟩ := h.tracks s c' pd hpd
      exact ⟨i, op', (hother (hne hc)).trans hi, hf'.append _⟩
  · rw [hout]
    exact .nil
  · intro c' pd i hi hpd
    have hc : c' ≠ c := by
      rintro rfl
      rw [hfree] at hpd
      cases hpd
    refine Or.inr (Or.inr ⟨(hother (hne hc)).trans hi, ?_, by simp [hev]⟩)
    rw [hpend, Table.lookup_insert, if_neg hc]
    exact hpd
  · intro conn' frame' io' hev' hs' hup
    cases hev.symm.trans hev'
    refine Or.inr ⟨c, Function.update_self .., ?_⟩
    rw [hpend, Table.lookup_insert, if_pos rfl]

theorem relayed {bytes : Bytes} {io : Io} {corr : UInt64} {reply : Reply} {pd : Pending}
    (hev : ev = .datagram bytes io) (hpd : (nodeAt L debug p es es.length s).pending[corr]? = some pd)
    (hpend : (nodeAt L debug p (es ++ [(s, ev)]) (es.length + 1) s).pending =
      (nodeAt L debug p es es.length s).pending.erase corr)
    (ho : AtMost (.write pd.conn (message pd.receipt reply)) (outAt L debug p (es ++ [(s, ev)]) es.length))
    (hans : ∀ i op, Forwarded L debug p es i s corr pd.conn pd.receipt op →
      Closing L debug p (es ++ [(s, ev)]) i ⟨es.length, s, pd.conn, message pd.receipt reply⟩) :
    ∃ b', Tally L debug p (es ++ [(s, ev)]) b' := by
  have hrun : (nodeAt L debug p es es.length s).running = true := (nodeAt_linked hp es es.length s).running
  have hgone : (nodeAt L debug p (es ++ [(s, ev)]) (es.length + 1) s).pending[corr]? = none := by
    rw [hpend]
    exact Std.TreeMap.getElem?_erase_self
  have hsub : ∀ (c : UInt64) (qd : Pending),
      (nodeAt L debug p (es ++ [(s, ev)]) (es.length + 1) s).pending[c]? = some qd →
      (nodeAt L debug p es es.length s).pending[c]? = some qd := by
    intro c qd hq
    rw [hpend] at hq
    exact (Table.erase_some.mp hq).2
  have hkeep : ∀ {c : UInt64} {qd : Pending}, c ≠ corr → (nodeAt L debug p es es.length s).pending[c]? = some qd →
      (nodeAt L debug p (es ++ [(s, ev)]) (es.length + 1) s).pending[c]? = some qd := by
    intro c qd hc hq
    rw [hpend]
    exact Table.erase_some.mpr ⟨hc, hq⟩
  rcases posted_atMost ho es.length s with hm | hm
  · -- Nothing was written, so the client has left.
    refine ⟨b, h.silent hsub hm ?_ (by simp [hev])⟩
    intro c qd hq
    by_cases hc : c = corr
    · subst hc
      rw [hpd] at hq
      cases hq
      left
      intro hup
      subst hev
      obtain ⟨t, hout, hnext⟩ := last_step L debug p es s (.datagram bytes io)
      rw [hnext] at hup hgone
      obtain ⟨reply', hw⟩ := Node.step_datagram_owed hrun hpd hup hgone
      rw [hout, hw] at hm
      exact posted_of_mem (List.mem_singleton_self _) es.length s hm
    · exact Or.inr ⟨hkeep hc hq, by simp [hev]⟩
  · refine h.settle [(corr, pd)] (fun x => ⟨es.length, s, x.2.conn, message x.2.receipt reply⟩) hsub ?_ ?_
      (List.nodup_singleton _) hm ?_ ?_ (by simp [hev])
    · intro x hx
      rw [List.mem_singleton.mp hx]
      exact hgone
    · intro x hx
      rw [List.mem_singleton.mp hx]
      exact hpd
    · intro x hx i op hfw
      rw [List.mem_singleton.mp hx] at hfw ⊢
      exact hans i op hfw
    · intro c qd hq
      by_cases hc : c = corr
      · subst hc
        rw [hpd] at hq
        cases hq
        exact Or.inl (List.mem_singleton_self _)
      · exact Or.inr (Or.inr ⟨hkeep hc hq, by simp [hev]⟩)

theorem tick {now : Nat} {rank : UInt64 → Nat} {written : UInt64 → Bool} :
    ∃ b', Tally L debug p (es ++ [(s, .tick now rank written)]) b' := by
  have hget : (es ++ [(s, .tick now rank written)])[es.length]? = some (s, .tick now rank written) :=
    List.getElem?_concat_length
  have hn : nodeAt L debug p (es ++ [(s, .tick now rank written)]) es.length s = nodeAt L debug p es es.length s :=
    nodeAt_append le_rfl s
  have hrun : (nodeAt L debug p es es.length s).running = true := (nodeAt_linked hp es es.length s).running
  obtain ⟨t, hout, hnext⟩ := last_step L debug p es s (.tick now rank written)
  obtain ⟨answered, clients, pending, hstep, hx, hnd, hl, ho⟩ := @Node.step_tick_owed L debug _ hrun now rank
    written t
  rw [hstep] at hout hnext
  dsimp only at hout hnext
  refine h.settle answered (fun x => ⟨es.length, s, x.2.conn, message x.2.receipt
    (nodeAt L debug p es es.length s).timedOut⟩) ?_ ?_ (fun x hxm => (hx x hxm).1) hnd ?_ ?_ ?_ (by simp)
  · rw [hnext]
    intro c pd hpd
    dsimp only at hpd
    rw [hl c, Option.filter_eq_some_iff] at hpd
    exact hpd.1
  · rw [hnext]
    intro x hxm
    dsimp only
    rw [hl x.1, (hx x hxm).1]
    simp [Option.filter, (hx x hxm).2]
  · rw [hout]
    exact posted_writes ..
  · intro x hxm i op hfw
    rw [← hn]
    exact .timeout (hfw.append _) hfw.lt hget rfl
  · intro c pd hpd
    rw [hnext]
    dsimp only
    by_cases hd : pd.deadline ≤ now
    · by_cases hup : pd.conn ∈ clients
      · exact Or.inl (ho c pd hpd hd hup)
      · exact Or.inr (Or.inl hup)
    · refine Or.inr (Or.inr ⟨?_, ?_⟩)
      · rw [hl c, hpd]
        simp [Option.filter, Nat.lt_of_not_le hd]
      · intro now' rank' written' hev
        cases hev
        exact Nat.lt_of_not_le hd

theorem clientDown {conn : UInt64} : Tally L debug p (es ++ [(s, .clientDown conn)]) b := by
  have hrun : (nodeAt L debug p es es.length s).running = true := (nodeAt_linked hp es es.length s).running
  obtain ⟨t, hout, hnext⟩ := last_step L debug p es s (.clientDown conn)
  rw [Node.step, if_pos hrun] at hout hnext
  refine h.silent ?_ ?_ ?_ (by simp)
  · rw [hnext]
    intro c pd hpd
    rw [Std.TreeMap.getElem?_filter', Option.filter_eq_some_iff] at hpd
    exact hpd.1
  · rw [hout]
    rfl
  · intro c pd hpd
    rw [hnext]
    dsimp only
    by_cases hc : pd.conn = conn
    · left
      rw [hc]
      exact Finset.notMem_erase conn _
    · right
      rw [Std.TreeMap.getElem?_filter', hpd]
      exact ⟨by simp [Option.filter, hc], by simp⟩

theorem step (hfew : Few L debug p (es ++ [(s, ev)])) : ∃ b', Tally L debug p (es ++ [(s, ev)]) b' := by
  have hget : (es ++ [(s, ev)])[es.length]? = some (s, ev) := List.getElem?_concat_length
  have hn : nodeAt L debug p (es ++ [(s, ev)]) es.length s = nodeAt L debug p es es.length s :=
    nodeAt_append le_rfl s
  obtain ⟨out, n', hout, hn', hd⟩ := last_did L debug p es s ev
  by_cases htick : ∃ now rank written, ev = .tick now rank written
  · obtain ⟨now, rank, written, rfl⟩ := htick
    exact h.tick hp
  have htick : ∀ now rank written, ev ≠ .tick now rank written := fun _ _ _ hev => htick ⟨_, _, _, hev⟩
  -- No id is taken, unless the turn forwards.
  have hkept : n'.nextCorr = (nodeAt L debug p es es.length s).nextCorr →
      (nodeAt L debug p (es ++ [(s, ev)]) (es.length + 1) s).nextCorr =
        (nodeAt L debug p es es.length s).nextCorr + 1 →
      (nodeAt L debug p es es.length s).pending[(nodeAt L debug p es es.length s).nextCorr + 1]? = none := by
    rw [hn']
    exact fun hsame hcorr => absurd (hcorr.symm.trans hsame) (succ_ne _)
  cases hd with
  | quiet clients diag hq =>
    refine ⟨b, h.mute hp htick (by rw [hn']) ?_ (hkept rfl)⟩
    rw [hout]
    exact quiet_posted hq _ _
  | down _ => exact ⟨b, h.clientDown hp⟩
  | @direct conn frame io reply kv out clients hs hr ho =>
    refine h.replied hp (m := ⟨es.length, s, conn, message frame.receipt reply⟩) htick (by rw [hn']) ?_
      (hkept rfl) ?_
    · rw [hout]
      exact posted_atMost ho _ _
    · rw [← hn] at hr
      exact .direct rfl hget hs hr rfl
  | @failed conn frame io op e ds out clients hs hf hc he ho =>
    refine h.replied hp (m := ⟨es.length, s, conn, message frame.receipt (.err e)⟩) htick (by rw [hn']) ?_ ?_ ?_
    · rw [hout, List.filterMap_append, carries_posted hc, List.nil_append]
      exact posted_atMost ho _ _
    · exact fun _ => h.fresh hfew (.last hs hf (by rw [hn']))
    · rw [← hn] at hf he
      exact .unsent rfl hget hs hf he rfl
  | @forwarded conn frame io op ds hs hf hc =>
    refine h.issue rfl hfew (.last hs hf (by rw [hn'])) (by rw [hn']) ?_
    rw [hout]
    exact carries_posted hc _ _
  | @served bytes io corr op reply kv ds out diag hh hserve hc ho =>
    refine ⟨b, h.mute hp htick (by rw [hn']) ?_ (hkept rfl)⟩
    rw [hout, List.filterMap_append, carries_posted hc, quiet_posted ho]
    rfl
  | @relayed bytes io corr reply pd out clients diag hh hpd ho =>
    refine h.relayed hp rfl hpd (by rw [hn']) (hout.symm ▸ ho) fun i op hfw => ?_
    rw [← hn] at hh
    exact .relayed (hfw.append _) hfw.lt hget hh rfl
  | @ticked now rank written _ _ _ _ _ _ => exact absurd rfl (htick now rank written)

end Tally

theorem run_tally (es : List (Side × Event)) (hfew : Few L debug p es) : ∃ b, Tally L debug p es b := by
  induction es using List.reverseRecOn with
  | nil =>
    refine ⟨_, .empty, ?_, .nil, ?_⟩
    · intro s c pd hpd
      have : (nodeAt L debug p [] ([] : List (Side × Event)).length s).pending = ∅ := (hp.blank s).pending
      rw [this] at hpd
      simp at hpd
    · intro i s conn frame io hi
      simp at hi
  | append_singleton es x ih =>
    obtain ⟨b, hb⟩ := ih hfew.of_append
    exact hb.step hp hfew

/-- Whatever the network does with datagrams, and whoever sends them: every
request of a client that stays connected has exactly one answer, at the latest
when the first tick after its deadline was handled; there are no other answers. -/
theorem answered_once (es : List (Side × Event)) (hfew : Few L debug p es) :
    ∃ origins : List Nat, origins.Nodup ∧
      List.Forall₂ (Closing L debug p es) origins (messages (Mealy.log (Pair.step L debug) p es)) ∧
      ∀ i s conn frame io, es[i]? = some (s, .clientFrame conn frame io) → frame.Sends →
        ∀ j now rank written, i < j → es[j]? = some (s, .tick now rank written) → io.now + forwardTimeout ≤ now →
          (∀ k, i ≤ k → k ≤ j + 1 → conn ∈ (nodeAt L debug p es k s).clients) → i ∈ origins := by
  obtain ⟨b, hb⟩ := run_tally hp es hfew
  refine ⟨b.settled, hb.fair.nodup, hb.closes, ?_⟩
  intro i s conn frame io hi hs j now rank written hij hj hnow hup
  have hlt : j < es.length := (List.getElem?_eq_some_iff.mp hj).1
  cases hb.kept i s conn frame io hi hs with
  | settled hm => exact hm
  | waits hc hpd hconn hd he =>
    have := he j now rank written hij (by omega) hj
    omega
  | @cut k hik hk hdown he =>
    by_cases hkj : k ≤ j + 1
    · exact absurd (hup k hik hkj) hdown
    · have := he j now rank written hij (by omega) hj
      omega

end

end

theorem answered_once_lost :
    let L := aesGcm counterBytes
    let D := Deployment.ofIds 100 200 (by decide) ⟨List.replicate keyBytes 7, by decide⟩
    let debug : Text → Text := fun s => '"' :: s ++ ['"']
    let es := [(.left, .clientUp 1), (.left, .clientFrame 1 ⟨"SEND".toList, [], "GET 2".toList⟩ ⟨0, true, none⟩),
      (.left, .tick 5000000000 (fun _ => 0) fun _ => true)]
    ∃ origins : List Nat, origins.Nodup ∧
      List.Forall₂ (Closing L debug D.boot es) origins (messages (Mealy.log (Pair.step L debug) D.boot es)) ∧
      1 ∈ origins := by
  intro L D debug es
  let frame : Frame := ⟨"SEND".toList, [], "GET 2".toList⟩
  have hp : D.Started D.boot := D.boot_started
  have hs : frame.Sends := show toAsciiUppercase "SEND".toList = "SEND".toList by decide +kernel
  have hz : Node.isSize frame.body = false := by decide +kernel
  have hop : Op.parse debug frame.body = .ok (.get 2) := by decide +kernel
  have hown : D.owns .left (Op.get 2).key = false := by decide +kernel
  have hfew : Few L debug D.boot es := fun s => (minted_length_le s D.boot es).trans (show 3 ≤ 2 ^ 64 by norm_num)
  have hio : Io.Works ⟨0, true, none⟩ := ⟨rfl, rfl⟩
  obtain ⟨b, -, -, hnode⟩ := Pair.step_forward (hp.linked L debug [(.left, .clientUp 1)] .left) hio
    (aesGcm_contract counterBytes) hs hz hop hown 1
  have h1 : (1 : UInt64) ∈ (nodeAt L debug D.boot es 1 .left).clients := by decide +kernel
  have h2 : nodeAt L debug D.boot es 2 .left = _ := hnode
  have h2' : (1 : UInt64) ∈ (nodeAt L debug D.boot es 2 .left).clients := by
    rw [h2]
    exact h1
  have h3 : (1 : UInt64) ∈ (nodeAt L debug D.boot es 3 .left).clients := by
    obtain ⟨t, -, hn⟩ := @nodeAt_step L debug D.boot es 2 _ _ rfl
    have hany : ∀ n : Node, (n.step L debug (.tick 5000000000 (fun _ => 0) fun _ => true) t).node =
        (n.step L debug (.tick 5000000000 (fun _ => 0) fun _ => true) []).node := by
      intro n
      unfold Node.step
      split <;> rfl
    rw [hn, h2, hany]
    decide +kernel
  obtain ⟨origins, hnd, hcl, hdue⟩ := answered_once hp es hfew
  refine ⟨origins, hnd, hcl, hdue 1 .left 1 frame ⟨0, true, none⟩ rfl hs 2 5000000000 _ _ (by decide) rfl le_rfl ?_⟩
  intro k hk hk'
  obtain rfl | rfl | rfl : k = 1 ∨ k = 2 ∨ k = 3 := by omega
  · exact h1
  · exact h2'
  · exact h3

end Paxe.SixSeven

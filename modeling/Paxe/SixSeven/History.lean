import Paxe.Lib.Shards
import Paxe.SixSeven.Settlement

/-!
# One history of the pair

Every operation that either node executes on its store, in the order of the
events. On any network that only delivers what the nodes sent, the replies in
this history are those of one store for all keys that executes the same
operations in the same order; every entry stems from one request of a client,
and every answer to a request is the reply of an entry between the two.
-/

namespace Paxe.SixSeven
open Wire Str

/-! ## What a turn executes -/

instance (f : Frame) : Decidable f.Sends := inferInstanceAs (Decidable (_ = _))

def Frame.Asks (debug : Text → Text) (frame : Frame) (op : Op) : Prop :=
  frame.Sends ∧ Node.isSize frame.body = false ∧ Op.parse debug frame.body = .ok op

namespace Node

section
variable (L : Libsodium) (debug : Text → Text)

def ownOp (n : Node) (op : Op) : Option Op := if n.owns op.key then some op else none

/-- The operation that a turn of the core loop hands to the node's store. -/
def executes (n : Node) (ev : Event) (t : Trace) : Option Op :=
  match ev with
  | .clientFrame _ frame _ =>
    if frame.Sends ∧ isSize frame.body = false then
      match Op.parse debug frame.body with
      | .ok op => n.ownOp op
      | .error _ => none
    else none
  | .datagram bytes _ =>
    match (Dek.open L n.store bytes n.diag t).result with
    | .ok (header, _, payload) =>
      if header.fromId ≠ n.config.peerId ∨ header.channel ≠ peerChannel then none
      else
        match (fromUtf8 payload).map (Peer.decode debug) with
        | some (.ok (.request _ op)) => n.ownOp op
        | _ => none
    | _ => none
  | _ => none

variable {L debug}

theorem ownOp_eq_some {n : Node} {op op' : Op} : n.ownOp op = some op' ↔ op = op' ∧ n.owns op.key = true := by
  unfold ownOp
  split
  · simp [*]
  · simp [*]

def kvAfter (n : Node) : Option Op → Store
  | some op => (n.kv.execute op).2
  | none => n.kv

theorem handleSend_kv (n : Node) (conn : UInt64) (receipt : Option Text) (body : Text) (io : Io) (t : Trace) :
    (n.handleSend L debug conn receipt body io t).node.kv =
      n.kvAfter (if isSize body = false then
        match Op.parse debug body with
        | .ok op => n.ownOp op
        | .error _ => none
      else none) := by
  have hw : ∀ (m : Node) (reply : Reply), (m.replyToClient conn receipt reply io.written).2.kv = m.kv := by
    intro m reply
    obtain ⟨-, clients, hn⟩ := replyToClient_spec m conn receipt reply io.written
    rw [hn]
  unfold handleSend
  by_cases hz : isSize body = true
  · rw [if_pos hz, if_neg (by simp [hz])]
    exact hw _ _
  · rw [if_neg hz, if_pos (by simpa using hz)]
    cases hop : Op.parse debug body with
    | error e => exact hw _ _
    | ok op =>
      dsimp only
      unfold ownOp
      by_cases hown : n.owns op.key = true
      · rw [if_pos hown, if_pos hown]
        exact hw _ _
      · rw [if_neg hown, if_neg hown]
        unfold forward
        dsimp only
        split
        · rfl
        · exact hw _ _
        · rfl

theorem handleRequest_kv (n : Node) (corr : UInt64) (op : Op) (io : Io) (t : Trace) :
    (n.handleRequest L corr op io t).node.kv = n.kvAfter (n.ownOp op) := by
  unfold handleRequest ownOp
  dsimp only
  by_cases hown : n.owns op.key = true
  · rw [if_pos hown, if_pos hown]
    dsimp only
    split <;> rfl
  · rw [if_neg hown, if_neg hown]
    dsimp only
    split <;> rfl

theorem handleResponse_kv (n : Node) (corr : UInt64) (reply : Reply) (io : Io) (t : Trace) :
    (n.handleResponse corr reply io t).node.kv = n.kv := by
  unfold handleResponse
  split
  · rfl
  · rename_i pd hp
    obtain ⟨-, clients, hn⟩ :=
      replyToClient_spec { n with pending := n.pending.erase corr } pd.conn pd.receipt reply io.written
    dsimp only
    rw [hn]

theorem handleDatagram_kv (n : Node) (bytes : Bytes) (io : Io) (t : Trace) :
    (n.handleDatagram L debug bytes io t).node.kv = n.kvAfter (n.executes L debug (.datagram bytes io) t) := by
  unfold handleDatagram executes
  dsimp only
  split
  · rename_i hr
    rw [hr]
    rfl
  · rename_i hr
    rw [hr]
    rfl
  · rename_i header flags payload hr
    rw [hr]
    dsimp only
    split
    · rfl
    · cases hu : fromUtf8 payload with
      | none => rfl
      | some text =>
        dsimp only [Option.map_some]
        cases hm : Peer.decode debug text with
        | error e => rfl
        | ok m =>
          cases m with
          | request corr op => exact handleRequest_kv _ _ _ _ _
          | response corr reply => exact handleResponse_kv _ _ _ _ _

theorem step_kv {n : Node} (hr : n.running = true) (ev : Event) (t : Trace) :
    (n.step L debug ev t).node.kv = n.kvAfter (n.executes L debug ev t) := by
  unfold step
  rw [if_pos hr]
  cases ev with
  | clientUp conn => rfl
  | clientDown conn => rfl
  | clientFrame conn frame io =>
    dsimp only
    by_cases hs : frame.Sends
    · rw [handleClientFrame_send n conn io t hs, handleSend_kv]
      unfold executes
      simp only [hs, true_and]
    · obtain ⟨out, clients, ht, -, -⟩ := @handleClientFrame_other L debug n conn frame io t hs
      rw [ht]
      unfold executes
      simp only [hs, false_and, if_false]
      rfl
  | datagram bytes io => exact handleDatagram_kv n bytes io t
  | tick now rank written =>
    obtain ⟨answered, clients, pending, he, -⟩ := expire_spec written n (n.expired now rank)
    dsimp only
    rw [he]
    rfl

theorem executes_some {n : Node} {ev : Event} {t : Trace} {op : Op} (h : n.executes L debug ev t = some op) :
    n.owns op.key = true ∧ ((∃ conn frame io, ev = .clientFrame conn frame io ∧ frame.Asks debug op) ∨
      ∃ bytes io corr, ev = .datagram bytes io ∧ Hears L debug n bytes (.request corr op)) := by
  cases ev with
  | clientFrame conn frame io =>
    unfold executes at h
    dsimp only at h
    split at h
    · rename_i hs
      cases hop : Op.parse debug frame.body with
      | error e =>
        rw [hop] at h
        cases h
      | ok op' =>
        rw [hop] at h
        obtain ⟨rfl, hown⟩ := ownOp_eq_some.mp h
        exact ⟨hown, Or.inl ⟨conn, frame, io, rfl, hs.1, hs.2, hop⟩⟩
    · cases h
  | datagram bytes io =>
    unfold executes at h
    dsimp only at h
    split at h
    · rename_i header flags payload hr
      split at h
      · cases h
      · rename_i hh
        rw [not_or, not_not, not_not] at hh
        cases hu : fromUtf8 payload with
        | none =>
          rw [hu] at h
          cases h
        | some text =>
          rw [hu] at h
          dsimp only [Option.map_some] at h
          split at h
          · rename_i corr op' hm
            obtain ⟨rfl, hown⟩ := ownOp_eq_some.mp h
            exact ⟨hown, Or.inr ⟨bytes, io, corr, rfl, n.diag, t, header, flags, payload, text, hr, hh.1, hh.2, hu,
              Option.some.inj hm⟩⟩
          · cases h
    · cases h
  | clientUp conn => cases h
  | clientDown conn => cases h
  | tick now rank written => cases h

theorem executes_asked {n : Node} {conn : UInt64} {frame : Frame} {io : Io} {op : Op} (h : frame.Asks debug op)
    (t : Trace) : n.executes L debug (.clientFrame conn frame io) t = n.ownOp op := by
  obtain ⟨hs, hz, hop⟩ := h
  unfold executes
  simp only [hs, hz, hop, and_self, if_true]

theorem Linked.executes_sealed {D : Deployment} {s : Side} {n : Node} (h : Linked (D.config s) n) (hL : L.Correct)
    (hD : D.Shares) {corr : UInt64} {op : Op} {frame : Bytes} (hf : Sealed L D s.other (.request corr op) frame)
    (io : Io) (t : Trace) : n.executes L debug (.datagram frame io) t = n.ownOp op := by
  obtain ⟨t', ho⟩ := h.opens hL hD hf n.diag t
  unfold executes
  dsimp only
  rw [ho]
  simp only [fromUtf8_toBytes, Peer.decode_encode, Option.map_some, ne_eq, not_true_eq_false, or_self, if_false]

end

end Node

/-! ## The history of a run -/

/-- An operation that a node executed at some position, and its reply. -/
structure Entry where
  pos : Nat
  side : Side
  op : Op
  reply : Reply
  deriving DecidableEq

section
variable (L : Libsodium) (debug : Text → Text) (p : Pair)

def entryAt (es : List (Side × Event)) (i : Nat) : Option Entry :=
  match es[i]? with
  | none => none
  | some x =>
    let q := Mealy.run (Pair.step L debug) p (es.take i)
    ((q.nodes x.1).executes L debug x.2 q.trace).map fun op => ⟨i, x.1, op, ((q.nodes x.1).kv.execute op).1⟩

def history (es : List (Side × Event)) : List Entry := (List.range es.length).filterMap (entryAt L debug p es)

variable {L debug p} {es : List (Side × Event)}

theorem entryAt_append {i : Nat} (hi : i < es.length) (fs : List (Side × Event)) :
    entryAt L debug p (es ++ fs) i = entryAt L debug p es i := by
  unfold entryAt
  rw [List.getElem?_append_left hi, List.take_append_of_le_length hi.le]

theorem history_snoc (es : List (Side × Event)) (x : Side × Event) :
    history L debug p (es ++ [x]) = history L debug p es ++ (entryAt L debug p (es ++ [x]) es.length).toList := by
  unfold history
  rw [List.length_append, List.length_singleton, List.range_succ, List.filterMap_append]
  congr 1
  apply List.filterMap_congr
  intro i hi
  exact entryAt_append (List.mem_range.mp hi) _

theorem entryAt_some {i : Nat} {e : Entry} (h : entryAt L debug p es i = some e) :
    e.pos = i ∧ ∃ ev t, es[i]? = some (e.side, ev) ∧
      (nodeAt L debug p es i e.side).executes L debug ev t = some e.op ∧
      e.reply = ((nodeAt L debug p es i e.side).kv.execute e.op).1 := by
  unfold entryAt at h
  cases hx : es[i]? with
  | none =>
    rw [hx] at h
    cases h
  | some x =>
    rw [hx] at h
    obtain ⟨op, hop, rfl⟩ := Option.map_eq_some_iff.mp h
    exact ⟨rfl, x.2, _, rfl, hop, rfl⟩

theorem mem_history {e : Entry} : e ∈ history L debug p es ↔ entryAt L debug p es e.pos = some e := by
  unfold history
  rw [List.mem_filterMap]
  constructor
  · rintro ⟨i, -, h⟩
    rw [(entryAt_some h).1]
    exact h
  · intro h
    obtain ⟨-, ev, t, hget, -⟩ := entryAt_some h
    exact ⟨e.pos, List.mem_range.mpr (List.getElem?_eq_some_iff.mp hget).1, h⟩

theorem history_ordered (es : List (Side × Event)) : ((history L debug p es).map (·.pos)).Pairwise (· < ·) := by
  unfold history
  rw [List.pairwise_map]
  apply List.Pairwise.filterMap (R := (· < ·)) (entryAt L debug p es) ?_ List.pairwise_lt_range
  intro i j hij e he e' he'
  rw [(entryAt_some he).1, (entryAt_some he').1]
  exact hij

theorem history_unique {e e' : Entry} (h : e ∈ history L debug p es) (h' : e' ∈ history L debug p es)
    (hpos : e.pos = e'.pos) : e = e' := by
  rw [mem_history] at h h'
  rw [hpos, h'] at h
  exact (Option.some.inj h).symm

/-! ## The two stores are one -/

variable (L debug) in
theorem history_machine {D : Deployment} (hp : D.Started p) (es : List (Side × Event)) :
    (fun s => ((Mealy.run (Pair.step L debug) p es).nodes s).kv) =
      Mealy.run (Shards.step Store.execute) (fun s => (p.nodes s).kv)
        ((history L debug p es).map fun e => (e.side, e.op)) ∧
    (history L debug p es).map (fun e => ((e.side, e.op), e.reply)) = Mealy.log (Shards.step Store.execute)
      (fun s => (p.nodes s).kv) ((history L debug p es).map fun e => (e.side, e.op)) := by
  induction es using List.reverseRecOn with
  | nil => exact ⟨rfl, rfl⟩
  | append_singleton es x ih =>
    obtain ⟨hkv, hlog⟩ := ih
    obtain ⟨s, ev⟩ := x
    have hrun : ((Mealy.run (Pair.step L debug) p es).nodes s).running = true := (hp.linked L debug es s).running
    have hstep := @Node.step_kv L debug _ hrun ev (Mealy.run (Pair.step L debug) p es).trace
    have hentry : entryAt L debug p (es ++ [(s, ev)]) es.length =
        (((Mealy.run (Pair.step L debug) p es).nodes s).executes L debug ev
          (Mealy.run (Pair.step L debug) p es).trace).map
          fun op => ⟨es.length, s, op, (((Mealy.run (Pair.step L debug) p es).nodes s).kv.execute op).1⟩ := by
      unfold entryAt
      rw [List.getElem?_concat_length, List.take_left]
    have hnext : (fun s' => ((Mealy.run (Pair.step L debug) p (es ++ [(s, ev)])).nodes s').kv) =
        Function.update (fun s' => ((Mealy.run (Pair.step L debug) p es).nodes s').kv) s
          (((Mealy.run (Pair.step L debug) p es).nodes s).kvAfter
            (((Mealy.run (Pair.step L debug) p es).nodes s).executes L debug ev
              (Mealy.run (Pair.step L debug) p es).trace)) := by
      funext s'
      rw [Mealy.run_snoc]
      by_cases hs : s' = s
      · subst hs
        rw [Pair.step_same, hstep, Function.update_self]
      · rw [Pair.step_ne L debug _ hs, Function.update_of_ne hs]
    rw [history_snoc, hentry]
    cases hop : ((Mealy.run (Pair.step L debug) p es).nodes s).executes L debug ev
        (Mealy.run (Pair.step L debug) p es).trace with
    | none =>
      rw [hop] at hnext
      rw [hnext, Option.map_none, Option.toList_none, List.append_nil]
      refine ⟨?_, hlog⟩
      rw [← hkv]
      exact Function.update_eq_self s _
    | some op =>
      rw [hop] at hnext
      have hone : Shards.step Store.execute (fun s' => ((Mealy.run (Pair.step L debug) p es).nodes s').kv) (s, op) =
          ((((Mealy.run (Pair.step L debug) p es).nodes s).kv.execute op).1,
            Function.update (fun s' => ((Mealy.run (Pair.step L debug) p es).nodes s').kv) s
              (((Mealy.run (Pair.step L debug) p es).nodes s).kv.execute op).2) := rfl
      rw [hnext, Option.map_some, Option.toList_some, List.map_append, List.map_append, List.map_singleton,
        List.map_singleton, Mealy.run_snoc, Mealy.log_snoc, ← hkv, ← hlog, hone]
      exact ⟨rfl, rfl⟩

theorem split_reference (D : Deployment) :
    Shards.Split Reference.execute Store.execute (fun s op => D.owns s op.key)
      (fun s kv m => kv.Part (D.owns s) m) where
  execute h hown := h.execute (D.owns_parity _) hown
  skip h hown := h.skip hown
  apart := by
    intro s s' op hown hs
    rw [(Side.eq_or_other s s').resolve_left hs, D.owns_other, hown]
    rfl

theorem history_own {D : Deployment} (hp : D.Started p) {e : Entry} (he : e ∈ history L debug p es) :
    D.owns e.side e.op.key = true := by
  obtain ⟨-, ev, t, -, hop, -⟩ := entryAt_some (mem_history.mp he)
  have := (Node.executes_some hop).1
  rwa [(nodeAt_linked hp es e.pos e.side).owns_eq] at this

variable (L debug) in
theorem history_reference {D : Deployment} (hp : D.Started p) (es : List (Side × Event)) :
    (history L debug p es).map (fun e => (e.op, e.reply)) =
      Mealy.log Reference.execute ∅ ((history L debug p es).map (·.op)) ∧
    ∀ s, ((Mealy.run (Pair.step L debug) p es).nodes s).kv.Part (D.owns s)
      (Mealy.run Reference.execute ∅ ((history L debug p es).map (·.op))) := by
  obtain ⟨hkv, hlog⟩ := history_machine L debug hp es
  have hstart : ∀ s, ((p.nodes s).kv).Part (D.owns s) ∅ := by
    intro s k
    rw [(hp.blank s).kv]
    show (∅ : Std.TreeMap UInt64 Text)[k]? = if D.owns s k then (∅ : Std.TreeMap UInt64 Text)[k]? else none
    simp
  have hown : ∀ x ∈ (history L debug p es).map fun e => (e.side, e.op), D.owns x.1 x.2.key = true := by
    intro x hx
    obtain ⟨e, he, rfl⟩ := List.mem_map.mp hx
    exact history_own hp he
  obtain ⟨hreplies, hparts⟩ := (split_reference D).run hstart hown
  have hops : ((history L debug p es).map fun e => (e.side, e.op)).map (·.2) =
      (history L debug p es).map (·.op) := by
    rw [List.map_map]
    rfl
  rw [hops] at hreplies hparts
  refine ⟨?_, ?_⟩
  · rw [← hreplies, ← hlog, List.map_map]
    rfl
  · intro s
    have := hparts s
    rwa [← hkv] at this

/-! ## Where entries come from -/

/-- The entry executes the request that a client made at `i`: in its own turn, or
when a datagram that was sent for it reaches the other node. -/
inductive Stems (L : Libsodium) (debug : Text → Text) (p : Pair) (es : List (Side × Event)) (e : Entry) : Nat → Prop
  | here {conn : UInt64} {frame : Frame} {io : Io} : es[e.pos]? = some (e.side, .clientFrame conn frame io) →
      frame.Asks debug e.op → Stems L debug p es e e.pos
  | hop {i : Nat} {conn : UInt64} {frame : Frame} {io io' : Io} {b : Bytes} : i < e.pos →
      es[i]? = some (e.side.other, .clientFrame conn frame io) → frame.Asks debug e.op →
      .datagram b ∈ outAt L debug p es i → es[e.pos]? = some (e.side, .datagram b io') → Stems L debug p es e i

theorem sent_at {s : Side} {b : Bytes} (h : b ∈ sentBy s (Mealy.log (Pair.step L debug) p es)) :
    ∃ i ev, es[i]? = some (s, ev) ∧ .datagram b ∈ outAt L debug p es i := by
  induction es using List.reverseRecOn with
  | nil => cases h
  | append_singleton es x ih =>
    rw [log_outAt, sentBy_snoc, List.mem_append] at h
    rcases h with h | h
    · obtain ⟨i, ev, hi, hb⟩ := ih h
      have hlt : i < es.length := (List.getElem?_eq_some_iff.mp hi).1
      refine ⟨i, ev, (get_append hi [x]).2, ?_⟩
      have hout : outAt L debug p (es ++ [x]) i = outAt L debug p es i := by
        unfold outAt
        rw [List.getElem?_append_left hlt, List.take_append_of_le_length hlt.le]
      rw [hout]
      exact hb
    · split at h
      · rename_i hs
        refine ⟨es.length, x.2, ?_, ?_⟩
        · rw [List.getElem?_concat_length, ← hs]
        · exact mem_sent.mp h
      · cases h

theorem no_datagram {out : List Output} (h : out.filterMap Output.sent = []) (b : Bytes) : .datagram b ∉ out := by
  rw [← mem_sent, h]
  exact List.not_mem_nil

section
variable {D : Deployment} (hp : D.Started p)
include hp

/-- The turn that forwards a request hands one datagram to the socket. -/
theorem Forwarded.sends (hL : L.Contract) {i : Nat} {s : Side} {c conn : UInt64} {receipt : Option Text} {op : Op}
    (h : Forwarded L debug p es i s c conn receipt op) :
    ∃ b, (outAt L debug p es i).filterMap Output.sent = [b] ∧ Sealed L D s (.request c op) b := by
  obtain ⟨frame, io, hi, hs, -, hf, rfl, -⟩ := h
  have hlink : Node.Linked (D.config s) (nodeAt L debug p es i s) := nodeAt_linked hp es i s
  obtain ⟨t, hout, -⟩ := nodeAt_step (L := L) (p := p) hi
  rw [hout, Node.step_send hlink.running hs]
  exact Node.handleSend_sends hL hlink hf frame.receipt t

/-- A datagram of a turn is the request that the turn forwards, or the response
to the request that it serves. -/
theorem sent_cases (hL : L.Contract) {i : Nat} {s : Side} {ev : Event} {b : Bytes} (hi : es[i]? = some (s, ev))
    (hb : .datagram b ∈ outAt L debug p es i) :
    (∃ c conn receipt op, Forwarded L debug p es i s c conn receipt op ∧ Sealed L D s (.request c op) b) ∨
    ∃ bytes io c op reply, ev = .datagram bytes io ∧
      Node.Hears L debug (nodeAt L debug p es i s) bytes (.request c op) ∧
      Node.Serves (nodeAt L debug p es i s) op reply (nodeAt L debug p es (i + 1) s).kv ∧
      Sealed L D s (.response c reply) b := by
  have hlink : Node.Linked (D.config s) (nodeAt L debug p es i s) := nodeAt_linked hp es i s
  have hd := @nodeAt_did L debug p es i s ev hi
  generalize hout : outAt L debug p es i = out at hd hb
  generalize hnext : nodeAt L debug p es (i + 1) s = n' at hd
  -- The one datagram of a hop.
  have hop : ∀ {m : Peer} {ds rest : List Output}, Node.Carries L (nodeAt L debug p es i s) m ds →
      rest.filterMap Output.sent = [] → .datagram b ∈ ds ++ rest → Sealed L D s m b := by
    intro m ds rest hc hrest hb
    rcases List.mem_append.mp hb with hb | hb
    · rcases hlink.carries hL hc with rfl | ⟨frame, hf, rfl⟩
      · cases hb
      · cases List.mem_singleton.mp hb
        exact hf
    · exact absurd hb (no_datagram hrest b)
  cases hd with
  | quiet _ _ hq => exact absurd hb (no_datagram (quiet_sent hq) b)
  | down _ => cases hb
  | direct _ _ _ ho => exact absurd hb (no_datagram (sent_atMost ho) b)
  | @failed conn frame io op e ds out _ hs hf hc _ ho =>
    have hsealed := hop hc (sent_atMost ho) hb
    exact Or.inl ⟨_, conn, _, op, ⟨frame, io, hi, hs, rfl, hf, rfl, by rw [hnext]⟩, hsealed⟩
  | @forwarded conn frame io op _ hs hf hc =>
    rw [← List.append_nil out] at hb
    have hsealed := hop hc rfl hb
    exact Or.inl ⟨_, conn, _, op, ⟨frame, io, hi, hs, rfl, hf, rfl, by rw [hnext]⟩, hsealed⟩
  | @served bytes io c op reply kv ds out _ hh hserve hc ho =>
    have hsealed := hop hc (quiet_sent ho) hb
    exact Or.inr ⟨bytes, io, c, op, reply, rfl, hh, hserve, hsealed⟩
  | relayed _ _ _ _ ho => exact absurd hb (no_datagram (sent_atMost ho) b)
  | ticked _ _ _ _ =>
    obtain ⟨x, -, hx⟩ := List.mem_map.mp hb
    cases hx

variable (hL : L.Correct) (hD : D.Shares)
include hL hD

theorem Sealed.unique {s : Side} {m m' : Peer} {b : Bytes} (h : Sealed L D s m b) (h' : Sealed L D s m' b) :
    m = m' := by
  have hlink : Node.Linked (D.config s.other) (nodeAt L id p [] 0 s.other) := nodeAt_linked hp [] 0 s.other
  rw [← Side.other_other s] at h h'
  have hh := (hlink.hears_iff hL hD h id).mpr rfl
  exact (hlink.hears_iff hL hD h' id).mp hh

variable (hnet : Authentic L debug p es)
include hnet

theorem heard_at {i : Nat} {s : Side} {bytes : Bytes} {io : Io} (hi : es[i]? = some (s, .datagram bytes io))
    {m : Peer} (hh : Node.Hears L debug (nodeAt L debug p es i s) bytes m) :
    ∃ k ev, k < i ∧ es[k]? = some (s.other, ev) ∧ .datagram bytes ∈ outAt L debug p es k ∧
      Sealed L D s.other m bytes := by
  obtain ⟨hsealed, -⟩ := heard_sealed hL hD hp hnet hi hh
  have hsent : bytes ∈ sentBy s.other (Mealy.log (Pair.step L debug) p (es.take i)) := by
    apply hnet i s bytes io hi
    obtain ⟨d, t, header, flags, payload, text, ho, -⟩ := hh
    exact ⟨d, t, _, ho⟩
  obtain ⟨k, ev, hk, hb⟩ := sent_at hsent
  have hlt : k < (es.take i).length := (List.getElem?_eq_some_iff.mp hk).1
  have hki : k < i := Nat.lt_of_lt_of_le hlt (List.length_take_le i es)
  have hk' : es[k]? = some (s.other, ev) := by
    rw [List.getElem?_take_of_lt hki] at hk
    exact hk
  refine ⟨k, ev, hki, hk', ?_, hsealed⟩
  unfold outAt at hb ⊢
  rw [List.getElem?_take_of_lt hki, List.take_take, Nat.min_eq_left hki.le] at hb
  exact hb

theorem heard_request {i : Nat} {s : Side} {bytes : Bytes} {io : Io}
    (hi : es[i]? = some (s, .datagram bytes io)) {c : UInt64} {op : Op}
    (hh : Node.Hears L debug (nodeAt L debug p es i s) bytes (.request c op)) :
    ∃ k conn receipt, k < i ∧ Forwarded L debug p es k s.other c conn receipt op ∧
      .datagram bytes ∈ outAt L debug p es k := by
  obtain ⟨k, ev, hki, hk, hb, hsealed⟩ := heard_at hp hL hD hnet hi hh
  rcases sent_cases hp hL.toContract hk hb with ⟨c', conn, receipt, op', hf, hsealed'⟩ |
    ⟨bytes', io', c', op', reply, -, -, -, hsealed'⟩
  · cases Sealed.unique hp hL hD hsealed hsealed'
    exact ⟨k, conn, receipt, hki, hf, hb⟩
  · cases Sealed.unique hp hL hD hsealed hsealed'

theorem heard_reply {i : Nat} {s : Side} {bytes : Bytes} {io : Io} (hi : es[i]? = some (s, .datagram bytes io))
    {c : UInt64} {reply : Reply} (hh : Node.Hears L debug (nodeAt L debug p es i s) bytes (.response c reply)) :
    ∃ k j conn receipt op request io', k < j ∧ j < i ∧ Forwarded L debug p es k s c conn receipt op ∧
      .datagram request ∈ outAt L debug p es k ∧ es[j]? = some (s.other, .datagram request io') ∧
      Node.Hears L debug (nodeAt L debug p es j s.other) request (.request c op) ∧
      Node.Serves (nodeAt L debug p es j s.other) op reply (nodeAt L debug p es (j + 1) s.other).kv := by
  obtain ⟨j, ev, hji, hj, hb, hsealed⟩ := heard_at hp hL hD hnet hi hh
  rcases sent_cases hp hL.toContract hj hb with ⟨c', conn, receipt, op', hf, hsealed'⟩ |
    ⟨request, io', c', op, reply', rfl, hh', hserve, hsealed'⟩
  · cases Sealed.unique hp hL hD hsealed hsealed'
  · cases Sealed.unique hp hL hD hsealed hsealed'
    obtain ⟨k, conn, receipt, hkj, hf, hreq⟩ := heard_request hp hL hD hnet hj hh'
    rw [Side.other_other] at hf
    exact ⟨k, j, conn, receipt, op, request, io', hkj, hji, hf, hreq, hj, hh', hserve⟩

/-! ## Entries and requests -/

omit hL hD hnet hp in
theorem entryAt_of {i : Nat} {s : Side} {ev : Event} (hi : es[i]? = some (s, ev)) {op : Op}
    (h : ∀ t, (nodeAt L debug p es i s).executes L debug ev t = some op) :
    entryAt L debug p es i = some ⟨i, s, op, ((nodeAt L debug p es i s).kv.execute op).1⟩ := by
  have := h (Mealy.run (Pair.step L debug) p (es.take i)).trace
  unfold nodeAt at this ⊢
  unfold entryAt
  rw [hi]
  dsimp only
  rw [this]
  rfl

omit hL hD hnet in
theorem Forwarded.owns {i : Nat} {s : Side} {c conn : UInt64} {receipt : Option Text} {op : Op}
    (h : Forwarded L debug p es i s c conn receipt op) :
    D.owns s op.key = false ∧ D.owns s.other op.key = true := by
  obtain ⟨frame, io, hi, -, -, hf, -⟩ := h
  have hown := hf.2.2
  rw [(nodeAt_linked hp es i s).owns_eq] at hown
  refine ⟨hown, ?_⟩
  rw [D.owns_other, hown]
  rfl

omit hnet in
theorem entryAt_delivered {i j : Nat} {s : Side} {c conn : UInt64} {receipt : Option Text} {op : Op}
    (hf : Forwarded L debug p es i s c conn receipt op) {b : Bytes} (hb : Sealed L D s (.request c op) b) {io : Io}
    (hj : es[j]? = some (s.other, .datagram b io)) :
    entryAt L debug p es j = some ⟨j, s.other, op, ((nodeAt L debug p es j s.other).kv.execute op).1⟩ := by
  have hlink : Node.Linked (D.config s.other) (nodeAt L debug p es j s.other) := nodeAt_linked hp es j s.other
  apply entryAt_of hj
  intro t
  rw [← Side.other_other s] at hb
  rw [hlink.executes_sealed hL hD hb]
  apply Node.ownOp_eq_some.mpr
  rw [hlink.owns_eq]
  exact ⟨rfl, (hf.owns hp).2⟩

theorem stems_exists {e : Entry} (he : e ∈ history L debug p es) : ∃ i, Stems L debug p es e i := by
  obtain ⟨-, ev, t, hget, hop, -⟩ := entryAt_some (mem_history.mp he)
  rcases (Node.executes_some hop).2 with ⟨conn, frame, io, rfl, hasks⟩ | ⟨bytes, io, corr, rfl, hh⟩
  · exact ⟨e.pos, .here hget hasks⟩
  · obtain ⟨k, conn, receipt, hk, ⟨frame, io', hi, hs, -, hf, -⟩, hb⟩ := heard_request hp hL hD hnet hget hh
    exact ⟨k, .hop hk hi ⟨hs, hf.1, hf.2.1⟩ hb hget⟩

omit hnet hD in
theorem sent_forwarded {i : Nat} {s : Side} {conn : UInt64} {frame : Frame} {io : Io} {b : Bytes}
    (hi : es[i]? = some (s, .clientFrame conn frame io)) (hb : .datagram b ∈ outAt L debug p es i) :
    ∃ c receipt op, Forwarded L debug p es i s c conn receipt op ∧ Sealed L D s (.request c op) b ∧
      (outAt L debug p es i).filterMap Output.sent = [b] := by
  rcases sent_cases hp hL.toContract hi hb with ⟨c, conn', receipt, op, hf, hsealed⟩ |
    ⟨bytes, io', c, op, reply, hev, -⟩
  · obtain ⟨b', hone, -⟩ := hf.sends hp hL.toContract
    rw [← mem_sent, hone] at hb
    obtain rfl := List.mem_singleton.mp hb
    refine ⟨c, receipt, op, ?_, hsealed, hone⟩
    have hforward := hf
    obtain ⟨frame', io', hi', -⟩ := hforward
    rw [hi] at hi'
    cases hi'
    exact hf
  · cases hev

omit hnet in
theorem stems_unique (hfew : Few L debug p es) {e : Entry} {i i' : Nat} (h : Stems L debug p es e i)
    (h' : Stems L debug p es e i') : i = i' := by
  cases h with
  | here hget _ =>
    cases h' with
    | here _ _ => rfl
    | hop _ _ _ _ hdel =>
      rw [hget] at hdel
      cases hdel
  | hop _ hi _ hb hdel =>
    cases h' with
    | here hget _ =>
      rw [hget] at hdel
      cases hdel
    | hop _ hi' _ hb' hdel' =>
      rw [hdel] at hdel'
      cases hdel'
      obtain ⟨c, receipt, op, hf, hsealed, -⟩ := sent_forwarded hp hL hi hb
      obtain ⟨c', receipt', op', hf', hsealed', -⟩ := sent_forwarded hp hL hi' hb'
      cases Sealed.unique hp hL hD hsealed hsealed'
      exact hf.unique (hfew _) hf'

omit hL hD hnet in
theorem own_not_forwarded {e : Entry} {conn : UInt64} {frame : Frame} {io : Io} (he : e ∈ history L debug p es)
    (hget : es[e.pos]? = some (e.side, .clientFrame conn frame io)) (hasks : frame.Asks debug e.op)
    {c conn' : UInt64} {receipt : Option Text} {op : Op} :
    ¬ Forwarded L debug p es e.pos e.side c conn' receipt op := by
  intro hf
  have hno := (hf.owns hp).1
  obtain ⟨frame', io', hget', -, -, hfwd, -⟩ := hf
  rw [hget] at hget'
  cases hget'
  cases hasks.2.2.symm.trans hfwd.2.1
  rw [history_own hp he] at hno
  cases hno

omit hL hD hnet in
theorem stems_delivered {i : Nat} {s : Side} {c conn : UInt64} {receipt : Option Text} {op : Op}
    (hf : Forwarded L debug p es i s c conn receipt op) {b : Bytes}
    (hone : (outAt L debug p es i).filterMap Output.sent = [b]) {e : Entry} (he : e ∈ history L debug p es)
    (hst : Stems L debug p es e i) : ∃ io, es[e.pos]? = some (s.other, .datagram b io) := by
  have hforward := hf
  obtain ⟨frame, io, hi, -⟩ := hforward
  cases hst with
  | here hget hasks =>
    rw [hi] at hget
    cases hget
    exact absurd hf (own_not_forwarded hp he hi hasks)
  | hop _ hi' _ hb hdel =>
    rw [hi] at hi'
    obtain ⟨hside, -⟩ := Prod.mk.inj (Option.some.inj hi')
    rw [← mem_sent, hone] at hb
    obtain rfl := List.mem_singleton.mp hb
    rw [hside, Side.other_other]
    exact ⟨_, hdel⟩

theorem delivered_stems (hfew : Few L debug p es) {i : Nat} {s : Side} {c conn : UInt64} {receipt : Option Text}
    {op : Op} (hf : Forwarded L debug p es i s c conn receipt op) {b : Bytes}
    (hsealed : Sealed L D s (.request c op) b) {j : Nat} {io : Io}
    (hj : es[j]? = some (s.other, .datagram b io)) :
    ∃ e ∈ history L debug p es, e.pos = j ∧ Stems L debug p es e i := by
  have he := entryAt_delivered hp hL hD hf hsealed hj
  have hhears : Node.Hears L debug (nodeAt L debug p es j s.other) b (.request c op) := by
    rw [← Side.other_other s] at hsealed
    exact ((nodeAt_linked hp es j s.other).hears_iff hL hD hsealed debug).mpr rfl
  obtain ⟨k, conn', receipt', hkj, hfk, hb⟩ := heard_request hp hL hD hnet hj hhears
  rw [Side.other_other] at hfk
  obtain rfl := hf.unique (hfew s) hfk
  obtain ⟨frame, io', hi, hs, -, hfwd, -⟩ := hf
  rw [← Side.other_other s] at hi
  have hmem : (⟨j, s.other, op, ((nodeAt L debug p es j s.other).kv.execute op).1⟩ : Entry) ∈
      history L debug p es := mem_history.mpr he
  exact ⟨_, hmem, rfl, .hop hkj hi ⟨hs, hfwd.1, hfwd.2.1⟩ hb hj⟩

omit hnet hD in
theorem stems_once (hnodup : ∀ (j j' : Nat) (s : Side) (b : Bytes) (io io' : Io),
      es[j]? = some (s, Event.datagram b io) → es[j']? = some (s, Event.datagram b io') → j = j')
    {e e' : Entry} (he : e ∈ history L debug p es) (he' : e' ∈ history L debug p es) {i : Nat}
    (h : Stems L debug p es e i) (h' : Stems L debug p es e' i) : e.pos = e'.pos := by
  cases h with
  | here hget hasks =>
    generalize hpos : e.pos = i at h'
    cases h' with
    | here _ _ => rfl
    | hop _ _ _ hb _ =>
      subst hpos
      obtain ⟨c, receipt, op, hf, -⟩ := sent_forwarded hp hL hget hb
      exact absurd hf (own_not_forwarded hp he hget hasks)
  | hop _ hi _ hb hdel =>
    cases h' with
    | here hget hasks =>
      obtain ⟨c, receipt, op, hf, -⟩ := sent_forwarded hp hL hget hb
      exact absurd hf (own_not_forwarded hp he' hget hasks)
    | hop _ hi' _ hb' hdel' =>
      obtain ⟨c, receipt, op, -, -, hone⟩ := sent_forwarded hp hL hi hb
      rw [← mem_sent, hone] at hb'
      obtain rfl := List.mem_singleton.mp hb'
      rw [hi] at hi'
      obtain ⟨hside, -⟩ := Prod.mk.inj (Option.some.inj hi')
      have hsame : e.side = e'.side := by
        rw [← Side.other_other e.side, hside, Side.other_other]
      rw [← hsame] at hdel'
      exact hnodup _ _ _ _ _ _ hdel hdel'

/-! ## The theorems -/

omit hL hD hnet hp in
/-- The reply to a request that a message carries: that of an entry between the
two that stems from the request, or one given without executing it. -/
inductive Reports (L : Libsodium) (debug : Text → Text) (p : Pair) (es : List (Side × Event)) (i : Nat) (m : Posted)
    (body : Text) : Reply → Prop
  | executed {e : Entry} : e ∈ history L debug p es → Stems L debug p es e i → i ≤ e.pos → e.pos ≤ m.pos →
      Reports L debug p es i m body e.reply
  | size : m.pos = i → Node.isSize body = true →
      Reports L debug p es i m body (nodeAt L debug p es i m.side).sizeReply
  | malformed {e : Text} : m.pos = i → Op.parse debug body = .error e → Reports L debug p es i m body (.err e)
  | unsent {e : Text} : m.pos = i → Node.SendError (nodeAt L debug p es i m.side) e →
      Reports L debug p es i m body (.err e)
  | timeout {now : Nat} {rank : UInt64 → Nat} {written : UInt64 → Bool} : i < m.pos →
      es[m.pos]? = some (m.side, .tick now rank written) →
      Reports L debug p es i m body (nodeAt L debug p es m.pos m.side).timedOut

theorem Closing.reports (hfew : Few L debug p es) {i : Nat} {m : Posted} (h : Closing L debug p es i m) :
    ∃ frame io reply, es[i]? = some (m.side, .clientFrame m.conn frame io) ∧ frame.Sends ∧
      m.frame = message frame.receipt reply ∧ Reports L debug p es i m frame.body reply := by
  cases h with
  | @direct frame io reply kv hpos hi hs hd hm =>
    refine ⟨frame, io, reply, hi, hs, hm, ?_⟩
    cases hd with
    | size hz => exact .size hpos hz
    | malformed _ he => exact .malformed hpos he
    | @owned op hz hop hown =>
      have hasks : frame.Asks debug op := ⟨hs, hz, hop⟩
      have he : entryAt L debug p es i =
          some ⟨i, m.side, op, ((nodeAt L debug p es i m.side).kv.execute op).1⟩ := by
        apply entryAt_of hi
        intro t
        rw [Node.executes_asked hasks]
        exact Node.ownOp_eq_some.mpr ⟨rfl, hown⟩
      have hmem : (⟨i, m.side, op, ((nodeAt L debug p es i m.side).kv.execute op).1⟩ : Entry) ∈
          history L debug p es := mem_history.mpr he
      exact .executed hmem (.here hi hasks) le_rfl hpos.ge
  | @unsent frame io op e hpos hi hs _ he hm => exact ⟨frame, io, .err e, hi, hs, hm, .unsent hpos he⟩
  | @timeout c receipt op now rank written hf hlt ht hm =>
    obtain ⟨frame, io, hi, hs, rfl, -⟩ := hf
    exact ⟨frame, io, _, hi, hs, hm, .timeout hlt ht⟩
  | @relayed c receipt op reply bytes io hf hlt hd hh hm =>
    obtain ⟨k, j, conn, receipt', op', request, io', hkj, hjm, hf', hreq, hj, hheard, hserve⟩ :=
      heard_reply hp hL hD hnet hd hh
    obtain rfl := hf.unique (hfew _) hf'
    have hsealed := (heard_sealed hL hD hp hnet hj hheard).1
    rw [Side.other_other] at hsealed
    have he := entryAt_delivered hp hL hD hf' hsealed hj
    have hown : (nodeAt L debug p es j m.side.other).owns op'.key = true := by
      rw [(nodeAt_linked hp es j m.side.other).owns_eq]
      exact (hf'.owns hp).2
    obtain ⟨frame, io₀, hi, hs, rfl, -⟩ := hf
    obtain ⟨frame', io₁, hi', -, -, hfwd, -⟩ := hf'
    rw [hi] at hi'
    cases hi'
    refine ⟨frame, io₀, reply, hi, hs, hm, ?_⟩
    have hside : es[i]? = some (m.side.other.other, .clientFrame m.conn frame io₀) := by
      rw [Side.other_other]
      exact hi
    generalize (nodeAt L debug p es (j + 1) m.side.other).kv = kv at hserve
    cases hserve with
    | own _ =>
      have hmem : (⟨j, m.side.other, op', ((nodeAt L debug p es j m.side.other).kv.execute op').1⟩ : Entry) ∈
          history L debug p es := mem_history.mpr he
      exact .executed hmem (.hop hkj hside ⟨hs, hfwd.1, hfwd.2.1⟩ hreq hj) hkj.le hjm.le
    | foreign _ hno =>
      rw [hown] at hno
      cases hno

omit hnet in
/-- However many clients ask, and whatever the network loses, repeats, delays or
reorders: the two stores behave as one store for all keys that executes each
operation at one moment, after it was asked for and before a reply with its result. -/
theorem linearizable (es : List (Side × Event)) (hnet : Authentic L debug p es) (hfew : Few L debug p es) :
    ((history L debug p es).map (·.pos)).Pairwise (· < ·) ∧
    (history L debug p es).map (fun e => (e.op, e.reply)) =
      Mealy.log Reference.execute ∅ ((history L debug p es).map (·.op)) ∧
    (∀ s (k : UInt64), ((Mealy.run (Pair.step L debug) p es).nodes s).kv.entries[k]? =
      if D.owns s k then (Mealy.run Reference.execute ∅ ((history L debug p es).map (·.op)))[k]? else none) ∧
    (∀ e ∈ history L debug p es, ∃! i, Stems L debug p es e i) ∧
    ∃ origins : List Nat, origins.Nodup ∧ List.Forall₂ (fun i m => ∃ frame io reply,
      es[i]? = some (m.side, .clientFrame m.conn frame io) ∧ frame.Sends ∧ m.frame = message frame.receipt reply ∧
        Reports L debug p es i m frame.body reply) origins (messages (Mealy.log (Pair.step L debug) p es)) := by
  obtain ⟨hlog, hparts⟩ := history_reference L debug hp es
  obtain ⟨b, hb⟩ := run_tally hp es hfew
  refine ⟨history_ordered es, hlog, fun s k => hparts s k, ?_, b.settled, hb.fair.nodup, ?_⟩
  · intro e he
    obtain ⟨i, hi⟩ := stems_exists hp hL hD hnet he
    exact ⟨i, hi, fun i' hi' => stems_unique hp hL hD hfew hi' hi⟩
  · exact hb.closes.imp fun i m hc => hc.reports hp hL hD hnet hfew

/-- A forwarded request leaves in one datagram, and is executed once for each time
that the network delivers it; and no request is executed twice if the network
delivers none twice. -/
theorem executed_per_delivery (hfew : Few L debug p es) :
    (∀ i s c conn receipt op, Forwarded L debug p es i s c conn receipt op →
      ∃ b, (outAt L debug p es i).filterMap Output.sent = [b] ∧ Sealed L D s (.request c op) b ∧
        ∀ j, (∃ e ∈ history L debug p es, e.pos = j ∧ Stems L debug p es e i) ↔
          ∃ io, es[j]? = some (s.other, .datagram b io)) ∧
    ((∀ (j j' : Nat) (s : Side) (b : Bytes) (io io' : Io), es[j]? = some (s, Event.datagram b io) →
      es[j']? = some (s, Event.datagram b io') → j = j') →
      ∀ e ∈ history L debug p es, ∀ e' ∈ history L debug p es, ∀ i, Stems L debug p es e i →
        Stems L debug p es e' i → e = e') := by
  refine ⟨?_, ?_⟩
  · intro i s c conn receipt op hf
    obtain ⟨b, hone, hsealed⟩ := hf.sends hp hL.toContract
    refine ⟨b, hone, hsealed, fun j => ⟨?_, ?_⟩⟩
    · rintro ⟨e, he, rfl, hst⟩
      exact stems_delivered hp hf hone he hst
    · rintro ⟨io, hj⟩
      exact delivered_stems hp hL hD hnet hfew hf hsealed hj
  · intro hnodup e he e' he' i hst hst'
    exact history_unique he he' (stems_once hp hL hnodup he he' hst hst')

end

end

/-! ## A request delivered twice -/

/-- A request is forwarded, served and answered; then its datagram comes again. -/
def hopRun (conn : UInt64) (frame : Frame) (io : Io) (request response : Bytes) : List (Side × Event) :=
  [(.left, .clientUp conn), (.left, .clientFrame conn frame io), (.right, .datagram request io),
    (.left, .datagram response io), (.right, .datagram request io)]

theorem hop_delivered_twice {L : Libsodium} {debug : Text → Text} {p : Pair} (hL : L.Correct) {D : Deployment}
    (hD : D.Shares) (hp : D.Started p) {io : Io} (hio : io.Works) {frame : Frame} {op : Op}
    (hasks : frame.Asks debug op) (hown : D.owns .left op.key = false)
    (hfit : (Store.empty.execute op).1.textLen ≤ maxPutBytes) (conn : UInt64) :
    ∃ request response, Authentic L debug p (hopRun conn frame io request response) ∧
      Few L debug p (hopRun conn frame io request response) ∧
      (∃ c receipt, Forwarded L debug p (hopRun conn frame io request response) 1 .left c conn receipt op) ∧
      .datagram request ∈ outAt L debug p (hopRun conn frame io request response) 1 := by
  obtain ⟨hs, hz, hop⟩ := hasks
  let run := Mealy.run (Pair.step L debug) p
  have hlink : ∀ es s, Node.Linked (D.config s) ((run es).nodes s) := fun es s => hp.linked L debug es s
  let up : Side × Event := (.left, .clientUp conn)
  let ask : Side × Event := (.left, .clientFrame conn frame io)
  have hright : D.owns .right op.key = true := by
    have := D.owns_other .left op.key
    rw [hown] at this
    exact this
  obtain ⟨request, hask, hreq, hnode⟩ := Pair.step_forward (hlink [up] .left) hio hL.toContract hs hz hop hown conn
  have hblank : ((run [up, ask]).nodes .right).kv = .empty := by
    have h : (run [up, ask]).nodes .right = p.nodes .right := rfl
    rw [h]
    exact (hp.blank .right).kv
  obtain ⟨response, hserve, hresp, -⟩ := Pair.step_serve debug (hlink [up, ask] .right) hio hL hD hreq hright
    (by rw [hblank]; exact hfit)
  let serve : Side × Event := (.right, .datagram request io)
  let relay : Side × Event := (.left, .datagram response io)
  refine ⟨request, response, ?_, ?_, ?_, ?_⟩
  · have h2 : request ∈ sentBy .left (Mealy.log (Pair.step L debug) p ([up] ++ [ask])) := by
      rw [Mealy.log_snoc, sentBy_snoc, hask]
      simp [Output.sent, ask]
    have h3 : response ∈ sentBy .right (Mealy.log (Pair.step L debug) p ([up, ask] ++ [serve])) := by
      rw [Mealy.log_snoc, sentBy_snoc, hserve]
      simp [Output.sent, serve]
    have h4 : request ∈ sentBy .left (Mealy.log (Pair.step L debug) p (([up, ask] ++ [serve]) ++ [relay])) := by
      rw [Mealy.log_snoc, sentBy_snoc, Mealy.log_snoc, sentBy_snoc]
      exact List.mem_append_left _ (List.mem_append_left _ h2)
    intro i s bytes io' hi _
    unfold hopRun at hi
    rcases i with _ | _ | _ | _ | _ | i <;> cases hi
    · exact h2
    · exact h3
    · exact h4
  · intro s
    exact (minted_length_le s p _).trans (show 5 ≤ 2 ^ 64 by norm_num)
  · have hfwd : Node.Forwards debug ((run [up]).nodes .left) frame.body op := by
      refine ⟨hz, hop, ?_⟩
      rw [(hlink [up] .left).owns_eq]
      exact hown
    refine ⟨_, _, frame, io, rfl, hs, rfl, hfwd, rfl, ?_⟩
    have h : nodeAt L debug p (hopRun conn frame io request response) 2 .left = _ := hnode
    rw [h]
    rfl
  · have h : outAt L debug p (hopRun conn frame io request response) 1 = [.datagram request] := hask
    rw [h]
    exact List.mem_singleton_self _

theorem linearizable_twice :
    let L := aesGcm counterBytes
    let D := Deployment.ofIds 100 200 (by decide) ⟨List.replicate keyBytes 7, by decide⟩
    let debug : Text → Text := fun s => '"' :: s ++ ['"']
    ∃ request response,
      let es := hopRun 1 ⟨"SEND".toList, [], "PUT 2 x".toList⟩ ⟨0, true, none⟩ request response
      Authentic L debug D.boot es ∧ (history L debug D.boot es).map (fun e => (e.op, e.reply)) =
        Mealy.log Reference.execute ∅ ((history L debug D.boot es).map (·.op)) ∧
      ∀ e ∈ history L debug D.boot es, ∃! i, Stems L debug D.boot es e i := by
  intro L D debug
  have hD : D.Shares := by
    intro s
    cases s <;> rfl
  have hL : L.Correct := aesGcm_correct counterBytes
  have hasks : Frame.Asks debug ⟨"SEND".toList, [], "PUT 2 x".toList⟩ (.put 2 "x".toList) :=
    ⟨show toAsciiUppercase "SEND".toList = "SEND".toList by decide +kernel, by decide +kernel, by decide +kernel⟩
  have hio : Io.Works ⟨0, true, none⟩ := ⟨rfl, rfl⟩
  obtain ⟨request, response, hnet, hfew, -⟩ :=
    hop_delivered_twice hL hD D.boot_started hio hasks (by decide +kernel) (by decide +kernel) 1
  obtain ⟨-, hlog, -, hstems, -⟩ := linearizable D.boot_started hL hD _ hnet hfew
  exact ⟨request, response, hnet, hlog, hstems⟩

theorem executed_per_delivery_twice :
    let L := aesGcm counterBytes
    let D := Deployment.ofIds 100 200 (by decide) ⟨List.replicate keyBytes 7, by decide⟩
    let debug : Text → Text := fun s => '"' :: s ++ ['"']
    ∃ request response,
      let es := hopRun 1 ⟨"SEND".toList, [], "PUT 2 x".toList⟩ ⟨0, true, none⟩ request response
      (∃ e ∈ history L debug D.boot es, e.pos = 2 ∧ Stems L debug D.boot es e 1) ∧
        ∃ e ∈ history L debug D.boot es, e.pos = 4 ∧ Stems L debug D.boot es e 1 := by
  intro L D debug
  have hD : D.Shares := by
    intro s
    cases s <;> rfl
  have hL : L.Correct := aesGcm_correct counterBytes
  have hasks : Frame.Asks debug ⟨"SEND".toList, [], "PUT 2 x".toList⟩ (.put 2 "x".toList) :=
    ⟨show toAsciiUppercase "SEND".toList = "SEND".toList by decide +kernel, by decide +kernel, by decide +kernel⟩
  have hio : Io.Works ⟨0, true, none⟩ := ⟨rfl, rfl⟩
  obtain ⟨request, response, hnet, hfew, ⟨c, receipt, hf⟩, hb⟩ := hop_delivered_twice hL hD D.boot_started hio hasks
    (by decide +kernel) (by decide +kernel) 1
  obtain ⟨hper, -⟩ := executed_per_delivery D.boot_started hL hD hnet hfew
  obtain ⟨b, hone, -, hiff⟩ := hper 1 .left c 1 receipt _ hf
  rw [← mem_sent, hone] at hb
  obtain rfl := List.mem_singleton.mp hb
  exact ⟨request, response, (hiff 2).mpr ⟨_, rfl⟩, (hiff 4).mpr ⟨_, rfl⟩⟩

end Paxe.SixSeven

import Paxe.AesGcm
import Paxe.Lib.Ledger
import Paxe.SixSeven.Runs

/-!
# Requests and their answers

Any interleaving of clients, ticks and datagrams at both nodes, on a network
that may lose, repeat, delay and reorder what the nodes sent. Every answer
belongs to one request and no request has two; and the reply of the peer that
an answer relays is the one it computed for that very request.
-/

namespace Paxe.SixSeven
open Wire Str

/-! ## What a run shows -/

/-- A `MESSAGE`, with the position of the event that wrote it. -/
structure Posted where
  pos : Nat
  side : Side
  conn : UInt64
  frame : Frame

def Output.posted (pos : Nat) (side : Side) : Output → Option Posted
  | .write conn f => if f.command = "MESSAGE".toList then some ⟨pos, side, conn, f⟩ else none
  | _ => none

def messages (log : List ((Side × Event) × List Output)) : List Posted :=
  log.zipIdx.flatMap fun x => x.1.2.filterMap (Output.posted x.2 x.1.1.1)

def sentBy (s : Side) (log : List ((Side × Event) × List Output)) : List Bytes :=
  log.flatMap fun x => if x.1.1 = s then x.2.filterMap Output.sent else []

section
variable (L : Libsodium) (debug : Text → Text) (p : Pair)

/-- What a node opens was sent by its peer before. -/
def Authentic (es : List (Side × Event)) : Prop :=
  ∀ i s bytes io, es[i]? = some (s, .datagram bytes io) →
    (∃ d t opened, (Dek.open L (nodeAt L debug p es i s).store bytes d t).result = .ok opened) →
    bytes ∈ sentBy s.other (Mealy.log (Pair.step L debug) p (es.take i))

def Few (es : List (Side × Event)) : Prop := ∀ s, (minted L debug s p es).length ≤ 2 ^ 64

variable (es : List (Side × Event))

/-- Between two positions the peer of a side executed the operation, and that
was its reply. -/
def Computed (i pos : Nat) (s : Side) (op : Op) (reply : Reply) : Prop :=
  ∃ j bytes io, i < j ∧ j < pos ∧ es[j]? = some (s.other, .datagram bytes io) ∧
    (nodeAt L debug p es j s.other).owns op.key = true ∧
    (nodeAt L debug p es j s.other).kv.execute op = (reply, (nodeAt L debug p es (j + 1) s.other).kv)

inductive Explains (i pos : Nat) (s : Side) (body : Text) : Reply → Prop
  | direct {reply : Reply} {kv : Store} : pos = i → Node.Direct debug (nodeAt L debug p es i s) body reply kv →
      Explains i pos s body reply
  | unsent {op : Op} {e : Text} : pos = i → Node.Forwards debug (nodeAt L debug p es i s) body op →
      Node.SendError (nodeAt L debug p es i s) e → Explains i pos s body (.err e)
  | timeout {op : Op} {now : Nat} {rank : UInt64 → Nat} {written : UInt64 → Bool} : i < pos →
      Node.Forwards debug (nodeAt L debug p es i s) body op → es[pos]? = some (s, .tick now rank written) →
      Explains i pos s body (nodeAt L debug p es pos s).timedOut
  | relayed {op : Op} {reply : Reply} {bytes : Bytes} {io : Io} : i < pos →
      Node.Forwards debug (nodeAt L debug p es i s) body op → es[pos]? = some (s, .datagram bytes io) →
      (Few L debug p es → Computed L debug p es i pos s op reply) → Explains i pos s body reply

/-- The events that end the wait for an id: an answer, the deadline, the departure
of the client. -/
inductive Node.Closes (n : Node) (c : UInt64) : Event → Prop
  | answered {bytes : Bytes} {io : Io} {reply : Reply} : Node.Hears L debug n bytes (.response c reply) →
      Node.Closes n c (.datagram bytes io)
  | timedOut {pd : Pending} {now : Nat} {rank : UInt64 → Nat} {written : UInt64 → Bool} : n.pending[c]? = some pd →
      pd.deadline ≤ now → Node.Closes n c (.tick now rank written)
  | left {pd : Pending} {conn : UInt64} : n.pending[c]? = some pd → pd.conn = conn →
      Node.Closes n c (.clientDown conn)

/-- The message answers the request made at `i`: same connection, its receipt,
and a reply that follows from it. -/
def Answers (i : Nat) (m : Posted) : Prop :=
  ∃ frame io reply, es[i]? = some (m.side, .clientFrame m.conn frame io) ∧ frame.Sends ∧
    m.frame = message frame.receipt reply ∧ Explains L debug p es i m.pos m.side frame.body reply

end

/-! ## Longer runs -/

section
variable {L : Libsodium} {debug : Text → Text} {p : Pair} {es : List (Side × Event)}

theorem get_append {i : Nat} {x : Side × Event} (h : es[i]? = some x) (fs : List (Side × Event)) :
    i < es.length ∧ (es ++ fs)[i]? = some x := by
  have hlt : i < es.length := (List.getElem?_eq_some_iff.mp h).1
  refine ⟨hlt, ?_⟩
  rw [List.getElem?_append_left hlt]
  exact h

theorem Few.of_append {fs : List (Side × Event)} (h : Few L debug p (es ++ fs)) : Few L debug p es := by
  intro s
  have := h s
  rw [minted_append, List.length_append] at this
  omega

theorem Authentic.of_append {fs : List (Side × Event)} (h : Authentic L debug p (es ++ fs)) :
    Authentic L debug p es := by
  intro i s bytes io hi ho
  obtain ⟨hlt, hi'⟩ := get_append hi fs
  rw [← nodeAt_append (L := L) hlt.le] at ho
  have := h i s bytes io hi' ho
  rwa [List.take_append_of_le_length hlt.le] at this

theorem Computed.append {i pos : Nat} {s : Side} {op : Op} {reply : Reply}
    (h : Computed L debug p es i pos s op reply) (fs : List (Side × Event)) :
    Computed L debug p (es ++ fs) i pos s op reply := by
  obtain ⟨j, bytes, io, hij, hj, hget, hown, hex⟩ := h
  obtain ⟨hlt, hget'⟩ := get_append hget fs
  refine ⟨j, bytes, io, hij, hj, hget', ?_, ?_⟩
  · rw [nodeAt_append hlt.le]
    exact hown
  · rw [nodeAt_append hlt.le, nodeAt_append hlt]
    exact hex

theorem Explains.append {i pos : Nat} {s : Side} {body : Text} {reply : Reply} (hi : i < es.length)
    (h : Explains L debug p es i pos s body reply) (fs : List (Side × Event)) :
    Explains L debug p (es ++ fs) i pos s body reply := by
  have hnode : nodeAt L debug p es i s = nodeAt L debug p (es ++ fs) i s := (nodeAt_append hi.le s).symm
  cases h with
  | direct hp hd =>
    rw [hnode] at hd
    exact .direct hp hd
  | unsent hp hf he =>
    rw [hnode] at hf he
    exact .unsent hp hf he
  | timeout hp hf ht =>
    obtain ⟨hlt, ht'⟩ := get_append ht fs
    rw [hnode] at hf
    rw [← nodeAt_append hlt.le]
    exact .timeout hp hf ht'
  | relayed hp hf hd hc =>
    rw [hnode] at hf
    exact .relayed hp hf (get_append hd fs).2 fun hfew => (hc hfew.of_append).append fs

theorem Answers.append {i : Nat} {m : Posted} (h : Answers L debug p es i m) (fs : List (Side × Event)) :
    Answers L debug p (es ++ fs) i m := by
  obtain ⟨frame, io, reply, hi, hs, hm, hx⟩ := h
  obtain ⟨hlt, hi'⟩ := get_append hi fs
  exact ⟨frame, io, reply, hi', hs, hm, hx.append hlt fs⟩

theorem log_outAt (es : List (Side × Event)) (x : Side × Event) :
    Mealy.log (Pair.step L debug) p (es ++ [x]) =
      Mealy.log (Pair.step L debug) p es ++ [(x, outAt L debug p (es ++ [x]) es.length)] := by
  rw [Mealy.log_snoc]
  unfold outAt
  rw [List.getElem?_concat_length, List.take_left]

theorem messages_snoc (log : List ((Side × Event) × List Output)) (x : Side × Event) (out : List Output) :
    messages (log ++ [(x, out)]) = messages log ++ out.filterMap (Output.posted log.length x.1) := by
  simp [messages, List.zipIdx_append]

theorem sentBy_snoc (s : Side) (log : List ((Side × Event) × List Output)) (x : Side × Event) (out : List Output) :
    sentBy s (log ++ [(x, out)]) = sentBy s log ++ if x.1 = s then out.filterMap Output.sent else [] := by
  simp [sentBy]

/-! ## What the datagrams of a run mean -/

/-- A request that the side forwards, or the reply it computed to one that its
peer forwarded before. -/
inductive Meant (L : Libsodium) (debug : Text → Text) (p : Pair) (es : List (Side × Event)) (s : Side) : Peer → Prop
  | request {i : Nat} {c conn : UInt64} {receipt : Option Text} {op : Op} :
      Forwarded L debug p es i s c conn receipt op → Meant L debug p es s (.request c op)
  | response {i : Nat} {c conn : UInt64} {receipt : Option Text} {op : Op} {reply : Reply} :
      Forwarded L debug p es i s.other c conn receipt op → Computed L debug p es i es.length s.other op reply →
      Meant L debug p es s (.response c reply)

theorem Computed.mono {i pos pos' : Nat} {s : Side} {op : Op} {reply : Reply}
    (h : Computed L debug p es i pos s op reply) (hpos : pos ≤ pos') :
    Computed L debug p es i pos' s op reply := by
  obtain ⟨j, bytes, io, hij, hj, rest⟩ := h
  exact ⟨j, bytes, io, hij, Nat.lt_of_lt_of_le hj hpos, rest⟩

theorem Meant.append {s : Side} {m : Peer} (h : Meant L debug p es s m) (fs : List (Side × Event)) :
    Meant L debug p (es ++ fs) s m := by
  cases h with
  | request hf => exact .request (hf.append fs)
  | response hf hc => exact .response (hf.append fs) ((hc.append fs).mono (by simp))

theorem last_did (L : Libsodium) (debug : Text → Text) (p : Pair) (es : List (Side × Event)) (s : Side)
    (ev : Event) :
    ∃ out n', outAt L debug p (es ++ [(s, ev)]) es.length = out ∧
      nodeAt L debug p (es ++ [(s, ev)]) (es.length + 1) s = n' ∧
      Node.Did L debug (nodeAt L debug p es es.length s) ev out n' := by
  have hget : (es ++ [(s, ev)])[es.length]? = some (s, ev) := List.getElem?_concat_length
  refine ⟨_, _, rfl, rfl, ?_⟩
  rw [← nodeAt_append le_rfl]
  exact nodeAt_did hget

theorem Forwarded.last {s : Side} {conn : UInt64} {frame : Frame} {io : Io} {op : Op} (hs : frame.Sends)
    (hf : Node.Forwards debug (nodeAt L debug p es es.length s) frame.body op)
    (hnext : (nodeAt L debug p (es ++ [(s, .clientFrame conn frame io)]) (es.length + 1) s).nextCorr =
      (nodeAt L debug p es es.length s).nextCorr + 1) :
    Forwarded L debug p (es ++ [(s, .clientFrame conn frame io)]) es.length s
      ((nodeAt L debug p es es.length s).nextCorr + 1) conn frame.receipt op := by
  have hn : nodeAt L debug p (es ++ [(s, .clientFrame conn frame io)]) es.length s =
      nodeAt L debug p es es.length s :=
    nodeAt_append le_rfl s
  refine ⟨frame, io, List.getElem?_concat_length, hs, rfl, ?_, ?_, hnext⟩
  · rw [hn]
    exact hf
  · rw [hn]

section
variable (hL : L.Correct) {D : Deployment} (hD : D.Shares) (hp : D.Started p)

include hp in
theorem nodeAt_linked (es : List (Side × Event)) (i : Nat) (s : Side) :
    Node.Linked (D.config s) (nodeAt L debug p es i s) := hp.linked L debug (es.take i) s

include hL hD hp

/-- What holds of every message that was sent holds of the ones that are heard. -/
theorem heard_sent {Q : Side → Peer → Prop}
    (ih : ∀ s b, b ∈ sentBy s (Mealy.log (Pair.step L debug) p es) → ∃ m, Sealed L D s m b ∧ Q s m)
    {s : Side} {bytes : Bytes} {io : Io} (hnet : Authentic L debug p (es ++ [(s, .datagram bytes io)])) {m : Peer}
    (hh : Node.Hears L debug (nodeAt L debug p es es.length s) bytes m) :
    Sealed L D s.other m bytes ∧ Q s.other m := by
  have hsent : bytes ∈ sentBy s.other (Mealy.log (Pair.step L debug) p es) := by
    have := hnet es.length s bytes io List.getElem?_concat_length (by
      rw [nodeAt_append le_rfl]
      obtain ⟨d, t, header, flags, payload, text, ho, -⟩ := hh
      exact ⟨d, t, _, ho⟩)
    rwa [List.take_left] at this
  obtain ⟨m', hm', hmeant⟩ := ih s.other bytes hsent
  rw [((nodeAt_linked hp es es.length s).hears_iff hL hD hm' debug).mp hh]
  exact ⟨hm', hmeant⟩

theorem turn_meant {s : Side} {ev : Event} {b : Bytes}
    (ih : ∀ s b, b ∈ sentBy s (Mealy.log (Pair.step L debug) p es) → ∃ m, Sealed L D s m b ∧ Meant L debug p es s m)
    (hnet : Authentic L debug p (es ++ [(s, ev)]))
    (hb : b ∈ (outAt L debug p (es ++ [(s, ev)]) es.length).filterMap Output.sent) :
    ∃ m, Sealed L D s m b ∧ Meant L debug p (es ++ [(s, ev)]) s m := by
  have hget : (es ++ [(s, ev)])[es.length]? = some (s, ev) := List.getElem?_concat_length
  have hlink : Node.Linked (D.config s) (nodeAt L debug p es es.length s) := nodeAt_linked hp es es.length s
  have hn : nodeAt L debug p (es ++ [(s, ev)]) es.length s = nodeAt L debug p es es.length s :=
    nodeAt_append le_rfl s
  obtain ⟨out, n', hout, hn', hd⟩ := last_did L debug p es s ev
  rw [hout] at hb
  -- The datagram of one hop, once it is known what its message means.
  have hop : ∀ {m : Peer} {ds : List Output}, Node.Carries L (nodeAt L debug p es es.length s) m ds →
      b ∈ ds.filterMap Output.sent → Meant L debug p (es ++ [(s, ev)]) s m →
      ∃ m, Sealed L D s m b ∧ Meant L debug p (es ++ [(s, ev)]) s m := by
    intro m ds hc hb hm
    rcases hlink.carries hL.toContract hc with rfl | ⟨frame, hsealed, rfl⟩
    · cases hb
    · have : b = frame := by simpa [Output.sent] using hb
      exact ⟨m, this ▸ hsealed, hm⟩
  cases hd with
  | quiet _ _ hq =>
    rw [quiet_sent hq] at hb
    cases hb
  | down _ => cases hb
  | direct _ _ _ ho =>
    rw [sent_atMost ho] at hb
    cases hb
  | @failed conn frame io op e ds out _ hs hf hc _ ho =>
    rw [List.filterMap_append, sent_atMost ho, List.append_nil] at hb
    exact hop hc hb (.request (.last hs hf (by rw [hn'])))
  | @forwarded conn frame io op ds hs hf hc =>
    exact hop hc hb (.request (.last hs hf (by rw [hn'])))
  | @served bytes io corr op reply kv ds out _ hh hserve hc ho =>
    rw [List.filterMap_append, quiet_sent ho, List.append_nil] at hb
    obtain ⟨-, hmeant⟩ := heard_sent hL hD hp ih hnet hh
    cases hmeant with
    | @request i _ conn receipt _ hf =>
      -- The peer does not own the key, so this node does.
      have hown : (nodeAt L debug p es es.length s).owns op.key = true := by
        obtain ⟨_, _, -, -, -, hfwd, -⟩ := hf
        have := hfwd.2.2
        rw [(nodeAt_linked hp es i s.other).owns_eq, D.owns_other] at this
        rw [hlink.owns_eq]
        simpa using this
      refine hop hc hb (.response (hf.append _) ⟨es.length, bytes, io, hf.lt, by simp, ?_, ?_, ?_⟩)
      · rw [Side.other_other]
        exact hget
      · rw [Side.other_other, hn]
        exact hown
      · rw [Side.other_other, hn, hn']
        cases hserve with
        | own _ => rfl
        | foreign _ hno =>
          rw [hown] at hno
          cases hno
  | relayed _ _ _ _ ho =>
    rw [sent_atMost ho] at hb
    cases hb
  | ticked _ _ _ _ =>
    simp [Output.sent, List.filterMap_map] at hb

theorem sent_meant (es : List (Side × Event)) (hnet : Authentic L debug p es) :
    ∀ s b, b ∈ sentBy s (Mealy.log (Pair.step L debug) p es) → ∃ m, Sealed L D s m b ∧ Meant L debug p es s m := by
  induction es using List.reverseRecOn with
  | nil =>
    intro s b hb
    cases hb
  | append_singleton es x ih =>
    have ih := ih hnet.of_append
    obtain ⟨s', ev⟩ := x
    intro s b hb
    rw [log_outAt, sentBy_snoc, List.mem_append] at hb
    rcases hb with hb | hb
    · obtain ⟨m, hs, hm⟩ := ih s b hb
      exact ⟨m, hs, hm.append _⟩
    · split at hb
      · rename_i hs
        obtain rfl : s' = s := hs
        exact turn_meant hL hD hp ih hnet hb
      · cases hb

end

/-! ## The ledger of a run -/

/-- Tickets are positions of requests: those that wait are in the pending
tables, and the settled ones answer to the messages, one for one. -/
structure Accounts (L : Libsodium) (debug : Text → Text) (p : Pair) (es : List (Side × Event))
    (b : Ledger.Book (Side × UInt64)) : Prop where
  fair : Ledger.Fair b es.length
  tracks : ∀ (s : Side) (c : UInt64) (pd : Pending), (nodeAt L debug p es es.length s).pending[c]? = some pd →
    ∃ i op, b.waiting (s, c) = some i ∧ Forwarded L debug p es i s c pd.conn pd.receipt op
  answers : List.Forall₂ (Answers L debug p es) b.settled (messages (Mealy.log (Pair.step L debug) p es))

theorem quiet_posted {out : List Output} (h : ∀ o ∈ out, o.Quiet) (pos : Nat) (s : Side) :
    out.filterMap (Output.posted pos s) = [] :=
  quiet_filterMap (fun _ _ hf => if_neg hf) (fun _ => rfl) h

theorem posted_message (pos : Nat) (s : Side) (conn : UInt64) (receipt : Option Text) (reply : Reply) :
    Output.posted pos s (.write conn (message receipt reply)) = some ⟨pos, s, conn, message receipt reply⟩ := by
  change (if (message receipt reply).command = "MESSAGE".toList then some _ else none) = _
  rw [if_pos (message_command receipt reply)]

theorem posted_atMost {conn : UInt64} {receipt : Option Text} {reply : Reply} {out : List Output}
    (h : AtMost (.write conn (message receipt reply)) out) (pos : Nat) (s : Side) :
    out.filterMap (Output.posted pos s) = [] ∨
      out.filterMap (Output.posted pos s) = [⟨pos, s, conn, message receipt reply⟩] := by
  rcases h with rfl | rfl
  · exact Or.inl rfl
  · right
    rw [List.filterMap_cons, posted_message]
    rfl

theorem posted_writes (pos : Nat) (s : Side) (reply : Reply) (xs : List (UInt64 × Pending)) :
    (xs.map fun x => Output.write x.2.conn (message x.2.receipt reply)).filterMap (Output.posted pos s) =
      xs.map fun x => ⟨pos, s, x.2.conn, message x.2.receipt reply⟩ := by
  induction xs with
  | nil => rfl
  | cons x xs ih =>
    rw [List.map_cons, List.filterMap_cons, posted_message, ih]
    rfl

theorem carries_posted {n : Node} {m : Peer} {ds : List Output} (h : Node.Carries L n m ds) (pos : Nat) (s : Side) :
    ds.filterMap (Output.posted pos s) = [] := by
  rcases h with rfl | ⟨frame, t, -, rfl⟩ <;> rfl

namespace Accounts

variable {b : Ledger.Book (Side × UInt64)} (h : Accounts L debug p es b) {s : Side} {ev : Event}
include h

theorem extend {b' : Ledger.Book (Side × UInt64)} {l : List Nat} (hfair : Ledger.Fair b' (es.length + 1))
    (htracks : ∀ (s' : Side) (c : UInt64) (pd : Pending),
      (nodeAt L debug p (es ++ [(s, ev)]) (es.length + 1) s').pending[c]? = some pd →
      ∃ i op, b'.waiting (s', c) = some i ∧ Forwarded L debug p (es ++ [(s, ev)]) i s' c pd.conn pd.receipt op)
    (hsettled : b'.settled = b.settled ++ l)
    (hans : List.Forall₂ (Answers L debug p (es ++ [(s, ev)])) l
      ((outAt L debug p (es ++ [(s, ev)]) es.length).filterMap (Output.posted es.length s))) :
    Accounts L debug p (es ++ [(s, ev)]) b' := by
  refine ⟨?_, ?_, ?_⟩
  · rw [List.length_append]
    exact hfair
  · intro s' c pd hpd
    rw [List.length_append] at hpd
    exact htracks s' c pd hpd
  · rw [log_outAt, messages_snoc, Mealy.log_length, hsettled]
    exact List.rel_append (h.answers.imp fun _ _ ha => ha.append _) hans

theorem tracks_of_sub
    (hsub : ∀ (c : UInt64) (pd : Pending),
      (nodeAt L debug p (es ++ [(s, ev)]) (es.length + 1) s).pending[c]? = some pd →
      (nodeAt L debug p es es.length s).pending[c]? = some pd) (s' : Side) (c : UInt64) (pd : Pending)
    (hpd : (nodeAt L debug p (es ++ [(s, ev)]) (es.length + 1) s').pending[c]? = some pd) :
    ∃ i op, b.waiting (s', c) = some i ∧ Forwarded L debug p (es ++ [(s, ev)]) i s' c pd.conn pd.receipt op := by
  have hold : (nodeAt L debug p es es.length s').pending[c]? = some pd := by
    by_cases hs : s' = s
    · subst hs
      exact hsub c pd hpd
    · rw [nodeAt_ne List.getElem?_concat_length hs, nodeAt_append le_rfl] at hpd
      exact hpd
  obtain ⟨i, op, hi, hf⟩ := h.tracks s' c pd hold
  exact ⟨i, op, hi, hf.append _⟩

theorem silent
    (hsub : ∀ (c : UInt64) (pd : Pending),
      (nodeAt L debug p (es ++ [(s, ev)]) (es.length + 1) s).pending[c]? = some pd →
      (nodeAt L debug p es es.length s).pending[c]? = some pd)
    (hout : (outAt L debug p (es ++ [(s, ev)]) es.length).filterMap (Output.posted es.length s) = []) :
    Accounts L debug p (es ++ [(s, ev)]) b := by
  refine h.extend (l := []) h.fair.later (h.tracks_of_sub hsub) (List.append_nil _).symm ?_
  rw [hout]
  exact .nil

theorem direct {m : Posted}
    (hsame : (nodeAt L debug p (es ++ [(s, ev)]) (es.length + 1) s).pending =
      (nodeAt L debug p es es.length s).pending)
    (hout : (outAt L debug p (es ++ [(s, ev)]) es.length).filterMap (Output.posted es.length s) = [] ∨
      (outAt L debug p (es ++ [(s, ev)]) es.length).filterMap (Output.posted es.length s) = [m])
    (hm : Answers L debug p (es ++ [(s, ev)]) es.length m) : ∃ b', Accounts L debug p (es ++ [(s, ev)]) b' := by
  have hsub : ∀ (c : UInt64) (pd : Pending),
      (nodeAt L debug p (es ++ [(s, ev)]) (es.length + 1) s).pending[c]? = some pd →
      (nodeAt L debug p es es.length s).pending[c]? = some pd := by
    rw [hsame]
    exact fun _ _ hpd => hpd
  rcases hout with hout | hout
  · exact ⟨b, h.silent hsub hout⟩
  · refine ⟨_, h.extend (l := [es.length]) h.fair.direct (h.tracks_of_sub hsub) rfl ?_⟩
    rw [hout]
    exact .cons hm .nil

theorem settle (xs : List (UInt64 × Pending)) (f : UInt64 × Pending → Posted)
    (hsub : ∀ (c : UInt64) (pd : Pending),
      (nodeAt L debug p (es ++ [(s, ev)]) (es.length + 1) s).pending[c]? = some pd →
      (nodeAt L debug p es es.length s).pending[c]? = some pd)
    (hgone : ∀ x ∈ xs, (nodeAt L debug p (es ++ [(s, ev)]) (es.length + 1) s).pending[x.1]? = none)
    (hx : ∀ x ∈ xs, (nodeAt L debug p es es.length s).pending[x.1]? = some x.2) (hn : (xs.map (·.1)).Nodup)
    (hout : (outAt L debug p (es ++ [(s, ev)]) es.length).filterMap (Output.posted es.length s) = xs.map f)
    (hf : ∀ x ∈ xs, ∀ i op, Forwarded L debug p es i s x.1 x.2.conn x.2.receipt op →
      Answers L debug p (es ++ [(s, ev)]) i (f x)) : ∃ b', Accounts L debug p (es ++ [(s, ev)]) b' := by
  have hwait : ∀ x ∈ xs, ∃ i, b.waiting (s, x.1) = some i ∧
      ∃ op, Forwarded L debug p es i s x.1 x.2.conn x.2.receipt op := by
    intro x hxm
    obtain ⟨i, op, hi, hfw⟩ := h.tracks s x.1 x.2 (hx x hxm)
    exact ⟨i, hi, op, hfw⟩
  have hnodup : (xs.map fun x => (s, x.1)).Nodup := by
    apply List.Nodup.of_map Prod.snd
    rw [List.map_map]
    exact hn
  obtain ⟨ticket, hticket, hfair⟩ := h.fair.settle (fun x : UInt64 × Pending => (s, x.1)) hwait hnodup
  refine ⟨_, h.extend (l := xs.map ticket) hfair.later ?_ rfl ?_⟩
  · intro s' c pd hpd
    obtain ⟨i, op, hi, hfw⟩ := h.tracks_of_sub hsub s' c pd hpd
    refine ⟨i, op, ?_, hfw⟩
    have hfree : (s', c) ∉ xs.map fun x => (s, x.1) := by
      intro hm
      obtain ⟨x, hxm, he⟩ := List.mem_map.mp hm
      cases he
      rw [hgone x hxm] at hpd
      cases hpd
    dsimp only
    rw [if_neg hfree]
    exact hi
  · rw [hout, List.forall₂_map_left_iff, List.forall₂_map_right_iff, List.forall₂_same]
    intro x hxm
    obtain ⟨-, op, hfw⟩ := hticket x hxm
    exact hf x hxm _ op hfw

theorem issue {c conn : UInt64} {receipt : Option Text} {op : Op}
    (hf : Forwarded L debug p (es ++ [(s, ev)]) es.length s c conn receipt op) (pd : Pending)
    (hconn : pd.conn = conn) (hreceipt : pd.receipt = receipt)
    (hpend : (nodeAt L debug p (es ++ [(s, ev)]) (es.length + 1) s).pending =
      (nodeAt L debug p es es.length s).pending.insert c pd)
    (hout : (outAt L debug p (es ++ [(s, ev)]) es.length).filterMap (Output.posted es.length s) = []) :
    ∃ b', Accounts L debug p (es ++ [(s, ev)]) b' := by
  subst hconn hreceipt
  refine ⟨_, h.extend (l := []) (h.fair.issue (s, c)) ?_ (List.append_nil _).symm ?_⟩
  · intro s' c' pd' hpd
    by_cases hkey : (s', c') = (s, c)
    · cases hkey
      rw [hpend, Table.lookup_insert, if_pos rfl] at hpd
      cases hpd
      exact ⟨es.length, op, Function.update_self .., hf⟩
    · have hold : (nodeAt L debug p es es.length s').pending[c']? = some pd' := by
        by_cases hs' : s' = s
        · subst hs'
          rw [hpend, Table.lookup_insert, if_neg fun hc => hkey (by rw [hc])] at hpd
          exact hpd
        · rw [nodeAt_ne List.getElem?_concat_length hs', nodeAt_append le_rfl] at hpd
          exact hpd
      obtain ⟨i, op', hi, hfw⟩ := h.tracks s' c' pd' hold
      exact ⟨i, op', (Function.update_of_ne hkey ..).trans hi, hfw.append _⟩
  · rw [hout]
    exact .nil

theorem relayed {corr : UInt64} {reply : Reply} {pd : Pending}
    (hpd : (nodeAt L debug p es es.length s).pending[corr]? = some pd)
    (hpend : (nodeAt L debug p (es ++ [(s, ev)]) (es.length + 1) s).pending =
      (nodeAt L debug p es es.length s).pending.erase corr)
    (ho : AtMost (.write pd.conn (message pd.receipt reply)) (outAt L debug p (es ++ [(s, ev)]) es.length))
    (hans : ∀ i op, Forwarded L debug p es i s corr pd.conn pd.receipt op →
      Answers L debug p (es ++ [(s, ev)]) i ⟨es.length, s, pd.conn, message pd.receipt reply⟩) :
    ∃ b', Accounts L debug p (es ++ [(s, ev)]) b' := by
  have hsub : ∀ (c : UInt64) (qd : Pending),
      (nodeAt L debug p (es ++ [(s, ev)]) (es.length + 1) s).pending[c]? = some qd →
      (nodeAt L debug p es es.length s).pending[c]? = some qd := by
    intro c qd hq
    rw [hpend] at hq
    exact (Table.erase_some.mp hq).2
  rcases posted_atMost ho es.length s with hm | hm
  · exact ⟨b, h.silent hsub hm⟩
  · refine h.settle [(corr, pd)] (fun x => ⟨es.length, s, x.2.conn, message x.2.receipt reply⟩) hsub ?_ ?_
      (List.nodup_singleton _) hm ?_
    · intro x hx
      rw [List.mem_singleton.mp hx, hpend]
      exact Std.TreeMap.getElem?_erase_self
    · intro x hx
      rw [List.mem_singleton.mp hx]
      exact hpd
    · intro x hx i op hfw
      rw [List.mem_singleton.mp hx] at hfw ⊢
      exact hans i op hfw

theorem ticked {now : Nat} {reply : Reply} {answered : List (UInt64 × Pending)}
    (hx : ∀ x ∈ answered, (nodeAt L debug p es es.length s).pending[x.1]? = some x.2 ∧ x.2.deadline ≤ now)
    (hnd : (answered.map (·.1)).Nodup)
    (hl : ∀ c : UInt64, (nodeAt L debug p (es ++ [(s, ev)]) (es.length + 1) s).pending[c]? =
      (nodeAt L debug p es es.length s).pending[c]?.filter (now < ·.deadline))
    (hout : outAt L debug p (es ++ [(s, ev)]) es.length =
      answered.map fun x => .write x.2.conn (message x.2.receipt reply))
    (hans : ∀ x ∈ answered, ∀ i op, Forwarded L debug p es i s x.1 x.2.conn x.2.receipt op →
      Answers L debug p (es ++ [(s, ev)]) i ⟨es.length, s, x.2.conn, message x.2.receipt reply⟩) :
    ∃ b', Accounts L debug p (es ++ [(s, ev)]) b' := by
  refine h.settle answered (fun x => ⟨es.length, s, x.2.conn, message x.2.receipt reply⟩) ?_ ?_
    (fun x hxm => (hx x hxm).1) hnd ?_ hans
  · intro c pd hpd
    rw [hl c, Option.filter_eq_some_iff] at hpd
    exact hpd.1
  · intro x hxm
    rw [hl x.1, (hx x hxm).1]
    simp [Option.filter, (hx x hxm).2]
  · rw [hout]
    exact posted_writes ..

end Accounts

/-! ## One turn -/

theorem Forwarded.op_unique {i : Nat} {s : Side} {c conn c' conn' : UInt64} {receipt receipt' : Option Text}
    {op op' : Op} (h : Forwarded L debug p es i s c conn receipt op)
    (h' : Forwarded L debug p es i s c' conn' receipt' op') :
    op = op' := by
  obtain ⟨frame, io, hi, -, -, hf, -⟩ := h
  obtain ⟨frame', io', hi', -, -, hf', -⟩ := h'
  rw [hi] at hi'
  cases hi'
  have := hf.2.1.symm.trans hf'.2.1
  cases this
  rfl

theorem Forwarded.answers {i : Nat} {s : Side} {c conn : UInt64} {receipt : Option Text} {op : Op}
    (h : Forwarded L debug p es i s c conn receipt op) {x : Side × Event} {reply : Reply}
    (hx : ∀ body, Node.Forwards debug (nodeAt L debug p (es ++ [x]) i s) body op →
      Explains L debug p (es ++ [x]) i es.length s body reply) :
    Answers L debug p (es ++ [x]) i ⟨es.length, s, conn, message receipt reply⟩ := by
  obtain ⟨frame, io, hi, hs, rfl, hf, -⟩ := h.append [x]
  exact ⟨frame, io, reply, hi, hs, rfl, hx frame.body hf⟩

section
variable (hL : L.Correct) {D : Deployment} (hD : D.Shares) (hp : D.Started p)
include hL hD hp

theorem relayed_computed {s : Side} {bytes : Bytes} {io : Io}
    (hnet : Authentic L debug p (es ++ [(s, .datagram bytes io)])) {corr : UInt64} {reply : Reply}
    (hh : Node.Hears L debug (nodeAt L debug p es es.length s) bytes (.response corr reply)) {i : Nat}
    {conn : UInt64} {receipt : Option Text} {op : Op} (hf : Forwarded L debug p es i s corr conn receipt op)
    (hfew : Few L debug p es) :
    Computed L debug p es i es.length s op reply := by
  obtain ⟨-, hmeant⟩ := heard_sent hL hD hp (sent_meant hL hD hp es hnet.of_append) hnet hh
  cases hmeant with
  | response hf' hc =>
    rw [Side.other_other] at hf' hc
    obtain rfl := hf.unique (hfew s) hf'
    rw [hf.op_unique hf']
    exact hc

theorem Accounts.step {b : Ledger.Book (Side × UInt64)} (h : Accounts L debug p es b) {s : Side} {ev : Event}
    (hnet : Authentic L debug p (es ++ [(s, ev)])) : ∃ b', Accounts L debug p (es ++ [(s, ev)]) b' := by
  have hget : (es ++ [(s, ev)])[es.length]? = some (s, ev) := List.getElem?_concat_length
  have hn : nodeAt L debug p (es ++ [(s, ev)]) es.length s = nodeAt L debug p es es.length s :=
    nodeAt_append le_rfl s
  obtain ⟨out, n', hout, hn', hd⟩ := last_did L debug p es s ev
  cases hd with
  | quiet _ _ hq =>
    refine ⟨b, h.silent ?_ ?_⟩
    · rw [hn']
      exact fun c pd hpd => hpd
    · rw [hout]
      exact quiet_posted hq _ _
  | down hl =>
    refine ⟨b, h.silent ?_ ?_⟩
    · rw [hn']
      intro c pd hpd
      dsimp only at hpd
      rw [hl c, Option.filter_eq_some_iff] at hpd
      exact hpd.1
    · rw [hout]
      rfl
  | @direct conn frame io reply kv out _ hs hr ho =>
    refine h.direct (m := ⟨es.length, s, conn, message frame.receipt reply⟩) (by rw [hn']) ?_ ?_
    · rw [hout]
      exact posted_atMost ho _ _
    · rw [← hn] at hr
      exact ⟨frame, io, reply, hget, hs, rfl, .direct rfl hr⟩
  | @failed conn frame io op e ds out _ hs hf hc he ho =>
    refine h.direct (m := ⟨es.length, s, conn, message frame.receipt (.err e)⟩) (by rw [hn']) ?_ ?_
    · rw [hout, List.filterMap_append, carries_posted hc, List.nil_append]
      exact posted_atMost ho _ _
    · rw [← hn] at hf he
      exact ⟨frame, io, .err e, hget, hs, rfl, .unsent rfl hf he⟩
  | @forwarded conn frame io op ds hs hf hc =>
    refine h.issue (.last hs hf (by rw [hn'])) ⟨conn, frame.receipt, io.now + forwardTimeout⟩ rfl rfl
      (by rw [hn']) ?_
    rw [hout]
    exact carries_posted hc _ _
  | @served bytes io corr op reply kv ds out _ hh hserve hc ho =>
    refine ⟨b, h.silent ?_ ?_⟩
    · rw [hn']
      exact fun c pd hpd => hpd
    · rw [hout, List.filterMap_append, carries_posted hc, quiet_posted ho]
      rfl
  | @relayed bytes io corr reply pd out _ _ hh hpd ho =>
    refine h.relayed hpd (by rw [hn']) (hout.symm ▸ ho) fun i op hfw => ?_
    refine hfw.answers fun body hfwd => .relayed hfw.lt hfwd hget fun hfew => ?_
    exact (relayed_computed hL hD hp hnet hh hfw hfew.of_append).append _
  | @ticked now rank written answered pending _ hx hnd hl =>
    refine h.ticked hx hnd (by rw [hn']; exact hl) hout fun x _ i op hfw => ?_
    rw [← hn]
    exact hfw.answers fun body hfwd => .timeout hfw.lt hfwd hget

theorem run_accounts (es : List (Side × Event)) (hnet : Authentic L debug p es) : ∃ b, Accounts L debug p es b := by
  induction es using List.reverseRecOn with
  | nil =>
    refine ⟨_, .empty, ?_, .nil⟩
    intro s c pd hpd
    have : (nodeAt L debug p [] ([] : List (Side × Event)).length s).pending = ∅ := (hp.blank s).pending
    rw [this] at hpd
    simp at hpd
  | append_singleton es x ih =>
    obtain ⟨b, hb⟩ := ih hnet.of_append
    exact hb.step hL hD hp hnet

/-! ## Late answers -/

theorem heard_sealed (hnet : Authentic L debug p es) {i : Nat} {s : Side} {bytes : Bytes} {io : Io}
    (hi : es[i]? = some (s, .datagram bytes io)) {m : Peer}
    (hh : Node.Hears L debug (nodeAt L debug p es i s) bytes m) :
    Sealed L D s.other m bytes ∧ Meant L debug p (es.take i) s.other m := by
  have hpre : Authentic L debug p (es.take i ++ [(s, .datagram bytes io)]) := by
    rw [← List.take_append_drop (i + 1) es, take_succ_of_get hi] at hnet
    exact hnet.of_append
  apply heard_sent hL hD hp (sent_meant hL hD hp _ hpre.of_append) hpre
  rw [nodeAt_length]
  exact hh

/-- After an answer to a request that was forwarded before, nobody waits for it;
and if nobody did, it is dropped. -/
theorem heard_response (hnet : Authentic L debug p es) {i : Nat} {s : Side} {bytes : Bytes} {io : Io}
    (hi : es[i]? = some (s, .datagram bytes io)) {c : UInt64} {reply : Reply}
    (hh : Node.Hears L debug (nodeAt L debug p es i s) bytes (.response c reply)) :
    (∃ r conn receipt op, r < i ∧ Forwarded L debug p es r s c conn receipt op) ∧
      (nodeAt L debug p es (i + 1) s).pending[c]? = none ∧
      ((nodeAt L debug p es i s).pending[c]? = none → outAt L debug p es i = []) := by
  have hlink : Node.Linked (D.config s) (nodeAt L debug p es i s) := nodeAt_linked hp es i s
  obtain ⟨hsealed, hmeant⟩ := heard_sealed hL hD hp hnet hi hh
  refine ⟨?_, ?_⟩
  · cases hmeant with
    | @response r _ conn receipt op _ hf _ =>
      rw [Side.other_other] at hf
      have hr : r < i := Nat.lt_of_lt_of_le hf.lt (List.length_take_le i es)
      have hf' := hf.append (es.drop i)
      rw [List.take_append_drop] at hf'
      exact ⟨r, conn, receipt, op, hr, hf'⟩
  · obtain ⟨t, ho, hn⟩ := nodeAt_step hi
    rw [ho, hn, Node.step, if_pos hlink.running]
    obtain ⟨t', ht⟩ := hlink.handleDatagram_response hL hD debug hsealed io t
    rw [ht]
    unfold Node.handleResponse
    cases hp : (nodeAt L debug p es i s).pending[c]? with
    | none => exact ⟨hp, fun _ => rfl⟩
    | some pd =>
      obtain ⟨-, clients, hw⟩ := Node.replyToClient_spec
        { nodeAt L debug p es i s with pending := (nodeAt L debug p es i s).pending.erase c }
          pd.conn pd.receipt reply io.written
      refine ⟨?_, fun hno => by cases hno⟩
      dsimp only
      rw [hw]
      exact Std.TreeMap.getElem?_erase_self

theorem closed_gone (hnet : Authentic L debug p es) {k : Nat} {s : Side} {ev : Event} (hk : es[k]? = some (s, ev))
    {c : UInt64} (hc : Node.Closes L debug (nodeAt L debug p es k s) c ev) :
    (∃ r conn receipt op, r < k ∧ Forwarded L debug p es r s c conn receipt op) ∧
      (nodeAt L debug p es (k + 1) s).pending[c]? = none := by
  have hlink : Node.Linked (D.config s) (nodeAt L debug p es k s) := nodeAt_linked hp es k s
  have hlen : k ≤ es.length := (List.getElem?_eq_some_iff.mp hk).1.le
  have hsource : ∀ {pd : Pending}, (nodeAt L debug p es k s).pending[c]? = some pd →
      ∃ r conn receipt op, r < k ∧ Forwarded L debug p es r s c conn receipt op := by
    intro pd hpd
    obtain ⟨r, op, hr, hf⟩ := forwarded_of_pending (hp.blank s).pending hlen hpd
    exact ⟨r, _, _, op, hr, hf⟩
  obtain ⟨t, -, hn⟩ := nodeAt_step hk
  cases hc with
  | answered hh =>
    obtain ⟨hf, hgone, -⟩ := heard_response hL hD hp hnet hk hh
    exact ⟨hf, hgone⟩
  | @timedOut pd now rank written hpd hd =>
    refine ⟨hsource hpd, ?_⟩
    obtain ⟨answered, clients, pending, he, -, -, hl⟩ := Node.expire_spec written (nodeAt L debug p es k s)
      ((nodeAt L debug p es k s).expired now rank)
    rw [hn, Node.step, if_pos hlink.running]
    dsimp only
    rw [he]
    dsimp only
    rw [hl c, if_pos (Node.mem_expired.mpr ⟨pd, hpd, hd⟩)]
  | @left pd conn hpd hconn =>
    refine ⟨hsource hpd, ?_⟩
    rw [hn, Node.step, if_pos hlink.running]
    dsimp only
    rw [Std.TreeMap.getElem?_filter', hpd]
    simp [Option.filter, hconn]

/-- No request is answered twice. Each answer goes to the connection that asked,
under its receipt, and what it relays the owner computed for that very operation
after it was asked. Ids are not used twice, answers that come late write nothing,
and nothing waits for a client that left. -/
theorem correlation (es : List (Side × Event)) (hnet : Authentic L debug p es) :
    (∃ origins : List Nat, origins.Nodup ∧
      List.Forall₂ (Answers L debug p es) origins (messages (Mealy.log (Pair.step L debug) p es))) ∧
    (∀ i s, (nodeAt L debug p es i s).pending.keys.Nodup) ∧
    (Few L debug p es → ∀ s, (minted L debug s p es).Nodup ∧
      (∀ i, i ≤ es.length → ∀ c ∈ (nodeAt L debug p es i s).pending, c ∈ minted L debug s p (es.take i)) ∧
      ∀ k ev c, es[k]? = some (s, ev) → Node.Closes L debug (nodeAt L debug p es k s) c ev →
        ∀ i bytes io reply, k < i → es[i]? = some (s, .datagram bytes io) →
          Node.Hears L debug (nodeAt L debug p es i s) bytes (.response c reply) → outAt L debug p es i = []) ∧
    (∀ i s bytes io c reply, es[i]? = some (s, .datagram bytes io) →
      Node.Hears L debug (nodeAt L debug p es i s) bytes (.response c reply) →
      (nodeAt L debug p es i s).pending[c]? = none → outAt L debug p es i = []) ∧
    (∀ i s conn, es[i]? = some (s, .clientDown conn) → ∀ j, i < j → j ≤ es.length →
      (∀ k frame io, i < k → k < j → es[k]? ≠ some (s, .clientFrame conn frame io)) →
      ∀ (c : UInt64) (pd : Pending), (nodeAt L debug p es j s).pending[c]? = some pd → pd.conn ≠ conn) := by
  refine ⟨?_, ?_, ?_, ?_, ?_⟩
  · obtain ⟨b, hb⟩ := run_accounts hL hD hp es hnet
    exact ⟨b.settled, hb.fair.nodup, hb.answers⟩
  · intro i s
    exact Std.TreeMap.nodup_keys
  · intro hfew s
    refine ⟨minted_nodup_iff.mpr (hfew s), ?_, ?_⟩
    · intro i hi c hc
      obtain ⟨pd, hpd⟩ := Option.isSome_iff_exists.mp (Std.TreeMap.mem_iff_isSome_getElem?.mp hc)
      exact minted_of_pending (hp.blank s).pending hi hpd
    · intro k ev c hk hcl i bytes io reply hki hi hh
      obtain ⟨⟨r, conn, receipt, op, hr, hf⟩, hgone⟩ := closed_gone hL hD hp hnet hk hcl
      have hlen : i ≤ es.length := (List.getElem?_eq_some_iff.mp hi).1.le
      apply (heard_response hL hD hp hnet hi hh).2.2
      exact hf.gone (hfew s) (Nat.lt_succ_of_lt hr) hki hlen hgone
  · intro i s bytes io c reply hi hh
    exact (heard_response hL hD hp hnet hi hh).2.2
  · intro i s conn hi j hij hj hno c pd hpd
    exact pending_after_down hi (nodeAt_linked hp es i s).running hij hj hno hpd

end

end

/-- A request of a client of node 100 for a key of node 200, and the answer twice. -/
theorem correlation_duplicated :
    let L := aesGcm counterBytes
    let D := Deployment.ofIds 100 200 (by decide) ⟨List.replicate keyBytes 7, by decide⟩
    let debug : Text → Text := fun s => '"' :: s ++ ['"']
    let io : Io := ⟨0, true, none⟩
    ∃ request response : Bytes,
      let es := [(.left, .clientUp 1),
        (.left, .clientFrame 1 ⟨"SEND".toList, [("receipt".toList, "a".toList)], "PUT 2 x".toList⟩ io),
        (.right, .datagram request io), (.left, .datagram response io), (.left, .datagram response io)]
      Authentic L debug D.boot es ∧
      outAt L debug D.boot es 3 = [.write 1 (message (some "a".toList) .ok)] ∧ outAt L debug D.boot es 4 = [] ∧
      ∃ origins : List Nat, origins.Nodup ∧
        List.Forall₂ (Answers L debug D.boot es) origins (messages (Mealy.log (Pair.step L debug) D.boot es)) := by
  intro L D debug io
  let frame : Frame := ⟨"SEND".toList, [("receipt".toList, "a".toList)], "PUT 2 x".toList⟩
  let op : Op := .put 2 "x".toList
  have hD : D.Shares := by
    intro s
    cases s <;> rfl
  have hL : L.Correct := aesGcm_correct counterBytes
  have hio : io.Works := ⟨rfl, rfl⟩
  have hp : D.Started D.boot := D.boot_started
  have hs : frame.Sends := show toAsciiUppercase "SEND".toList = "SEND".toList by decide +kernel
  have hz : Node.isSize frame.body = false := by decide +kernel
  have hop : Op.parse debug frame.body = .ok op := by decide +kernel
  have hreceipt : frame.receipt = some "a".toList := by decide +kernel
  have hleft : D.owns .left op.key = false := by decide +kernel
  have hright : D.owns .right op.key = true := by decide +kernel
  let run := Mealy.run (Pair.step L debug) D.boot
  have hlink : ∀ es s, Node.Linked (D.config s) ((run es).nodes s) := fun es s => hp.linked L debug es s
  let up : Side × Event := (.left, .clientUp 1)
  let ask : Side × Event := (.left, .clientFrame 1 frame io)
  -- Node 100 forwards the request,
  obtain ⟨request, hask, hreq, hnode⟩ := Pair.step_forward (hlink [up] .left) hio hL.toContract hs hz hop hleft 1
  -- node 200 executes it and answers,
  have hput : (((run [up, ask]).nodes .right).kv.execute op).1 = .ok := by decide +kernel
  obtain ⟨response, hserve, hresp, -⟩ := Pair.step_serve debug (hlink [up, ask] .right) hio hL hD hreq hright
    (by rw [hput]; exact Nat.zero_le _)
  rw [hput] at hresp
  let serve : Side × Event := (.right, .datagram request io)
  let relay : Side × Event := (.left, .datagram response io)
  -- and the client is told.
  have hwait : ((run [up, ask, serve]).nodes .left).pending[(1 : UInt64)]? =
      some ⟨1, frame.receipt, io.now + forwardTimeout⟩ ∧
      (1 : UInt64) ∈ ((run [up, ask, serve]).nodes .left).clients := by
    have h : (run [up, ask, serve]).nodes .left = ((run [up]).step L debug ask).2.nodes .left := rfl
    rw [h, hnode]
    exact ⟨Std.TreeMap.getElem?_insert_self, Finset.mem_insert_self 1 ∅⟩
  obtain ⟨hrelay, -⟩ := Pair.step_relay debug (hlink [up, ask, serve] .left) hio hL hD hresp hwait.1 hwait.2
  rw [hreceipt] at hrelay
  refine ⟨request, response, ?_⟩
  intro es
  have hnet : Authentic L debug D.boot es := by
    have h2 : request ∈ sentBy .left (Mealy.log (Pair.step L debug) D.boot ([up] ++ [ask])) := by
      rw [Mealy.log_snoc, sentBy_snoc, hask]
      simp [Output.sent, ask]
    have h3 : response ∈ sentBy .right (Mealy.log (Pair.step L debug) D.boot ([up, ask] ++ [serve])) := by
      rw [Mealy.log_snoc, sentBy_snoc, hserve]
      simp [Output.sent, serve]
    have h4 : response ∈ sentBy .right (Mealy.log (Pair.step L debug) D.boot ([up, ask, serve] ++ [relay])) := by
      rw [Mealy.log_snoc, sentBy_snoc]
      exact List.mem_append_left _ h3
    intro i s bytes io' hi _
    rcases i with _ | _ | _ | _ | _ | i <;> cases hi
    · exact h2
    · exact h3
    · exact h4
  have hfew : Few L debug D.boot es := fun s => (minted_length_le s D.boot es).trans (show 5 ≤ 2 ^ 64 by norm_num)
  have hears : ∀ i, Node.Hears L debug (nodeAt L debug D.boot es i .left) response (.response 1 .ok) := fun i =>
    ((nodeAt_linked hp es i .left).hears_iff hL hD hresp debug).mpr rfl
  obtain ⟨hans, -, hlate, -⟩ := correlation hL hD hp es hnet
  obtain ⟨-, -, hlate⟩ := hlate hfew .left
  exact ⟨hnet, hrelay, hlate 3 _ 1 rfl (.answered (hears 3)) 4 response io .ok (by decide) rfl (hears 4), hans⟩

/-! ## The counter wraps -/

section
variable {L : Libsodium} {debug : Text → Text} {D : Deployment} {s : Side} (hL : L.Contract) {frame : Frame}
  (hs : frame.Sends) {op : Op} (hz : Node.isSize frame.body = false) (hop : Op.parse debug frame.body = .ok op)
  (hown : D.owns s op.key = false) {io : Io} (hio : io.Works)
include hL hs hz hop hown hio

theorem pending_forward (conn : UInt64) {p : Pair} {es : List (Side × Event)}
    (hq : Node.Linked (D.config s) ((Mealy.run (Pair.step L debug) p es).nodes s)) :
    ((Mealy.run (Pair.step L debug) p (es ++ [(s, .clientFrame conn frame io)])).nodes s).pending[
      ((Mealy.run (Pair.step L debug) p es).nodes s).nextCorr + 1]? =
        some ⟨conn, frame.receipt, io.now + forwardTimeout⟩ := by
  obtain ⟨b, -, -, hnode⟩ := Pair.step_forward hq hio hL hs hz hop hown conn
  rw [Mealy.run_snoc, hnode]
  exact Std.TreeMap.getElem?_insert_self

theorem minted_forwards (conn : UInt64) (n : Nat) {q : Pair} (hq : Node.Linked (D.config s) (q.nodes s)) :
    (minted L debug s q (List.replicate n (s, .clientFrame conn frame io))).length = n := by
  induction n generalizing q with
  | zero => rfl
  | succ n ih =>
    obtain ⟨b, -, -, hnode⟩ := Pair.step_forward hq hio hL hs hz hop hown conn
    have hne : ¬ ((q.step L debug (s, .clientFrame conn frame io)).2.nodes s).nextCorr = (q.nodes s).nextCorr := by
      rw [hnode]
      exact succ_ne _
    have hq' : Node.Linked (D.config s) ((q.step L debug (s, .clientFrame conn frame io)).2.nodes s) := by
      rw [Pair.step_same]
      exact hq.step L debug _ _
    simp only [List.replicate_succ, minted, if_neg hne, List.singleton_append, List.length_cons, ih hq']

end

/-- After 2^64 requests the first id is taken again, and the new entry replaces the
one of the first request. -/
theorem correlation_id_reused :
    let L := aesGcm counterBytes
    let D := Deployment.ofIds 100 200 (by decide) ⟨List.replicate keyBytes 7, by decide⟩
    let debug : Text → Text := fun s => '"' :: s ++ ['"']
    let ask : Text → Side × Event := fun receipt =>
      (.left, .clientFrame 1 ⟨"SEND".toList, [("receipt".toList, receipt)], "GET 2".toList⟩ ⟨0, true, none⟩)
    let es := (.left, .clientUp 1) :: ask "a".toList ::
      (List.replicate (2 ^ 64 - 1) (ask "a".toList) ++ [ask "b".toList])
    Authentic L debug D.boot es ∧ ¬ (minted L debug .left D.boot es).Nodup ∧
      (nodeAt L debug D.boot es 2 .left).pending[(1 : UInt64)]?.map (·.receipt) = some (some "a".toList) ∧
      (nodeAt L debug D.boot es es.length .left).pending[(1 : UInt64)]?.map (·.receipt) =
        some (some "b".toList) := by
  intro L D debug ask
  have hL : L.Contract := (aesGcm_correct counterBytes).toContract
  have hp : D.Started D.boot := D.boot_started
  let frame : Text → Frame := fun receipt => ⟨"SEND".toList, [("receipt".toList, receipt)], "GET 2".toList⟩
  have hs : ∀ r, (frame r).Sends := fun r => show toAsciiUppercase "SEND".toList = "SEND".toList by decide +kernel
  have hz : ∀ r, Node.isSize (frame r).body = false :=
    fun r => show Node.isSize "GET 2".toList = false by decide +kernel
  have hop : ∀ r, Op.parse debug (frame r).body = .ok (.get 2) := fun r =>
    show Op.parse debug "GET 2".toList = .ok (.get 2) by decide +kernel
  have hown : D.owns .left (Op.get 2).key = false := by decide +kernel
  have hio : Io.Works ⟨0, true, none⟩ := ⟨rfl, rfl⟩
  have hreceipt : ∀ r, (frame r).receipt = some r := by
    intro r
    simp only [Frame.receipt, Frame.header, frame, List.find?_cons, beq_self_eq_true, Option.map_some]
  let up : Side × Event := (.left, .clientUp 1)
  have hlink : ∀ es, Node.Linked (D.config .left) ((Mealy.run (Pair.step L debug) D.boot es).nodes .left) :=
    fun es => hp.linked L debug es .left
  have hlast : ∀ es r, ((Mealy.run (Pair.step L debug) D.boot (es ++ [ask r])).nodes .left).pending[
      ((Mealy.run (Pair.step L debug) D.boot es).nodes .left).nextCorr + 1]?.map (·.receipt) = some (some r) := by
    intro es r
    have := congrArg (Option.map (·.receipt)) (pending_forward hL (hs r) (hz r) (hop r) hown hio 1 (hlink es))
    rw [Option.map_some, hreceipt] at this
    exact this
  have hminted : ∀ es n r, (minted L debug .left D.boot (es ++ List.replicate n (ask r))).length =
      (minted L debug .left D.boot es).length + n := by
    intro es n r
    rw [minted_append, List.length_append, minted_forwards hL (hs r) (hz r) (hop r) hown hio 1 n (hlink es)]
  have key : ∀ n, n + 1 = 2 ^ 64 →
      let es := up :: ask "a".toList :: (List.replicate n (ask "a".toList) ++ [ask "b".toList])
      Authentic L debug D.boot es ∧ ¬ (minted L debug .left D.boot es).Nodup ∧
      (nodeAt L debug D.boot es 2 .left).pending[(1 : UInt64)]?.map (·.receipt) = some (some "a".toList) ∧
      (nodeAt L debug D.boot es es.length .left).pending[(1 : UInt64)]?.map (·.receipt) =
        some (some "b".toList) := by
    intro n hn es
    have hes : es = ([up] ++ List.replicate (n + 1) (ask "a".toList)) ++ [ask "b".toList] := by
      rw [List.replicate_succ]
      rfl
    have hup : (minted L debug .left D.boot [up]).length = 0 := rfl
    refine ⟨?_, ?_, hlast [up] "a".toList, ?_⟩
    · intro i s bytes io hi _
      have := List.mem_of_getElem? hi
      simp only [es, up, ask, List.mem_cons, List.mem_append, List.mem_replicate, List.not_mem_nil, Prod.mk.injEq,
        reduceCtorEq, and_false, or_self] at this
    · have hone : [ask "b".toList] = List.replicate 1 (ask "b".toList) := rfl
      rw [minted_nodup_iff, hes, hone, hminted, hminted, hup]
      omega
    · have := hlast ([up] ++ List.replicate (n + 1) (ask "a".toList)) "b".toList
      have hwrap : (D.boot.nodes .left).nextCorr + UInt64.ofNat (0 + (n + 1)) + 1 = 1 := by
        rw [hn]
        decide
      rw [run_nextCorr, hminted, hup, hwrap] at this
      rw [nodeAt_length, hes]
      exact this
  exact key (2 ^ 64 - 1) (by norm_num)

end Paxe.SixSeven

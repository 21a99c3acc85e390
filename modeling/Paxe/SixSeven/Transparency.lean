import Paxe.AesGcm
import Paxe.SixSeven.Hop

/-!
# Location transparency

The pair on a network that delivers every datagram once and in time, with
clients that wait for each answer. It does not matter which node a request is
sent to: the bodies of the replies are those of one store for all keys.
-/

namespace Paxe.SixSeven
open Wire Str

/-! ## The calm network -/

structure Request where
  side : Side
  conn : UInt64
  body : Text

/-- The pair, the datagrams on their way to a side, and what clients asked and
were told so far. -/
structure Net where
  pair : Pair
  inFlight : List (Side × Bytes)
  requests : List Request
  replies : List Text

def Output.answer : Output → Option Text
  | .write _ f => if f.command = "MESSAGE".toList then some f.body else none
  | _ => none

def Net.start (p : Pair) : Net := ⟨p, [], [], []⟩

def Net.Idle (net : Net) : Prop := net.replies.length = net.requests.length

/-- The last request has no answer yet and came from that client. -/
def Net.Waits (net : Net) (s : Side) (conn : UInt64) : Prop :=
  ¬ net.Idle ∧ ∃ body, net.requests.getLast? = some ⟨s, conn, body⟩

section
variable (L : Libsodium) (debug : Text → Text)

def Net.turn (net : Net) (s : Side) (ev : Event) (inFlight : List (Side × Bytes)) (asked : List Request) : Net :=
  let r := net.pair.step L debug (s, ev)
  { pair := r.2
    inFlight := inFlight ++ (r.1.filterMap Output.sent).map fun b => (s.other, b)
    requests := net.requests ++ asked
    replies := net.replies ++ r.1.filterMap Output.answer }

/-- A request comes from a connected client, when all earlier ones are
answered. A client that waits does nothing else, and no tick comes after the
deadline of what a side waits for. -/
inductive Calm (net : Net) : Net → Prop
  | request {s : Side} {conn : UInt64} {frame : Frame} {io : Io} : net.Idle → conn ∈ (net.pair.nodes s).clients →
      frame.Sends → Node.isSize frame.body = false → io.Works →
      Calm net (net.turn L debug s (.clientFrame conn frame io) net.inFlight [⟨s, conn, frame.body⟩])
  | deliver {pre post : List (Side × Bytes)} {s : Side} {b : Bytes} {io : Io} :
      net.inFlight = pre ++ (s, b) :: post → io.Works →
      Calm net (net.turn L debug s (.datagram b io) (pre ++ post) [])
  | tick {s : Side} {now : Nat} {rank : UInt64 → Nat} {written : UInt64 → Bool} :
      (∀ (c : UInt64) (p : Pending), (net.pair.nodes s).pending[c]? = some p → now < p.deadline) →
      Calm net (net.turn L debug s (.tick now rank written) net.inFlight [])
  | up {s : Side} {conn : UInt64} : Calm net (net.turn L debug s (.clientUp conn) net.inFlight [])
  | down {s : Side} {conn : UInt64} : ¬ net.Waits s conn →
      Calm net (net.turn L debug s (.clientDown conn) net.inFlight [])
  | frame {s : Side} {conn : UInt64} {frame : Frame} {io : Io} : ¬ net.Waits s conn → ¬ frame.Sends →
      Calm net (net.turn L debug s (.clientFrame conn frame io) net.inFlight [])

end

/-! ## The reference -/

section
variable (debug : Text → Text)

/-- The one map after some requests, and the bodies of its replies to them. -/
def reference (requests : List Request) : Reference :=
  Mealy.run (Reference.serve debug) ∅ (requests.map (·.body))

def expected (requests : List Request) : List Text :=
  (Mealy.log (Reference.serve debug) ∅ (requests.map (·.body))).map (·.2)

theorem reference_snoc (rs : List Request) (r : Request) :
    reference debug (rs ++ [r]) = ((reference debug rs).serve debug r.body).2 := by
  simp only [reference, List.map_append, List.map_cons, List.map_nil, Mealy.run_snoc]

theorem expected_snoc (rs : List Request) (r : Request) :
    expected debug (rs ++ [r]) = expected debug rs ++ [((reference debug rs).serve debug r.body).1] := by
  simp only [expected, reference, List.map_append, List.map_cons, List.map_nil, Mealy.log_snoc]

@[simp] theorem expected_length (rs : List Request) : (expected debug rs).length = rs.length := by
  simp [expected]

theorem reference_small (rs : List Request) : (reference debug rs).Small :=
  Mealy.run_inv (Reference.serve debug) (I := Reference.Small) Reference.Small.empty
    (fun _ body h => h.serve debug body) _

end

/-! ## A node between and during requests -/

namespace Node

structure Rests (n : Node) (own : UInt64 → Bool) (m : Reference) : Prop where
  pending : ∀ c : UInt64, n.pending[c]? = none
  part : n.kv.Part own m

structure Awaits (n : Node) (own : UInt64 → Bool) (m : Reference) (corr conn : UInt64) : Prop where
  up : conn ∈ n.clients
  pending : ∃ p : Pending, p.conn = conn ∧ ∀ c : UInt64, n.pending[c]? = if c = corr then some p else none
  part : n.kv.Part own m

structure Unmoved (n n' : Node) (conn : UInt64) : Prop where
  kv : n'.kv = n.kv
  pending : ∀ c : UInt64, n'.pending[c]? = n.pending[c]? ∨ ∃ p, n.pending[c]? = some p ∧ p.conn = conn
  clients : ∀ c ≠ conn, c ∈ n.clients → c ∈ n'.clients

variable {n n' : Node} {own : UInt64 → Bool} {m : Reference}

theorem Rests.unmoved {conn : UInt64} (h : n.Rests own m) (hu : n.Unmoved n' conn) : n'.Rests own m := by
  refine ⟨?_, ?_⟩
  · intro c
    rcases hu.pending c with hc | ⟨p, hp, -⟩
    · rw [hc]
      exact h.pending c
    · rw [h.pending c] at hp
      cases hp
  · rw [hu.kv]
    exact h.part

theorem Awaits.unmoved {corr conn conn' : UInt64} (h : n.Awaits own m corr conn) (hne : conn ≠ conn')
    (hu : n.Unmoved n' conn') : n'.Awaits own m corr conn := by
  obtain ⟨p, hp, hl⟩ := h.pending
  refine ⟨hu.clients conn hne h.up, ⟨p, hp, ?_⟩, ?_⟩
  · intro c
    rcases hu.pending c with hc | ⟨q, hq, hqc⟩
    · rw [hc, hl c]
    · rw [hl c] at hq
      split at hq
      · cases hq
        exact absurd (hp.symm.trans hqc) hne
      · cases hq
  · rw [hu.kv]
    exact h.part

end Node

/-! ## Turns that move nothing -/

theorem quiet_answer {out : List Output} (h : ∀ o ∈ out, o.Quiet) : out.filterMap Output.answer = [] :=
  quiet_filterMap (fun _ _ hf => if_neg hf) (fun _ => rfl) h

namespace Node

section
variable {L : Libsodium} {debug : Text → Text}

theorem step_up {n : Node} (hr : n.running = true) (conn conn' : UInt64) (t : Trace) :
    (n.step L debug (.clientUp conn) t).out = [] ∧ n.Unmoved (n.step L debug (.clientUp conn) t).node conn' := by
  simp only [step, hr, if_true]
  exact ⟨trivial, rfl, fun c => Or.inl rfl, fun c _ h => Finset.mem_insert_of_mem h⟩

theorem step_down {n : Node} (hr : n.running = true) (conn : UInt64) (t : Trace) :
    (n.step L debug (.clientDown conn) t).out = [] ∧ n.Unmoved (n.step L debug (.clientDown conn) t).node conn := by
  simp only [step, hr, if_true]
  refine ⟨trivial, rfl, ?_, fun c hc h => Finset.mem_erase.mpr ⟨hc, h⟩⟩
  intro c
  dsimp only
  rw [Std.TreeMap.getElem?_filter']
  cases hp : n.pending[c]? with
  | none => exact Or.inl rfl
  | some p =>
    by_cases hc : p.conn = conn
    · exact Or.inr ⟨p, rfl, hc⟩
    · exact Or.inl (by simp [Option.filter, hc])

theorem step_frame {n : Node} (hr : n.running = true) (conn : UInt64) {frame : Frame} (io : Io) (t : Trace)
    (h : ¬ frame.Sends) :
    (∀ o ∈ (n.step L debug (.clientFrame conn frame io) t).out, o.Quiet) ∧
      n.Unmoved (n.step L debug (.clientFrame conn frame io) t).node conn := by
  obtain ⟨out, clients, ht, ho, hc⟩ := handleClientFrame_other (L := L) n conn io t h
  have hs : n.step L debug (.clientFrame conn frame io) t = ⟨out, { n with clients := clients }, t⟩ := by
    unfold step
    rw [if_pos hr]
    exact ht
  rw [hs]
  exact ⟨ho, rfl, fun c => Or.inl rfl, hc⟩

theorem step_tick {n : Node} (hr : n.running = true) {now : Nat} (rank : UInt64 → Nat) (written : UInt64 → Bool)
    (t : Trace) (h : ∀ (c : UInt64) (p : Pending), n.pending[c]? = some p → now < p.deadline) :
    n.step L debug (.tick now rank written) t = ⟨[], n, t⟩ := by
  have hnil : n.expired now rank = [] := by
    apply List.eq_nil_iff_forall_not_mem.mpr
    intro c hc
    obtain ⟨p, hp, hd⟩ := mem_expired.mp hc
    exact absurd (h c p hp) (Nat.not_lt.mpr hd)
  unfold step
  rw [if_pos hr]
  dsimp only
  rw [hnil]
  rfl

end

end Node

/-! ## The phases of a request -/

section
variable (L : Libsodium) (debug : Text → Text) (D : Deployment)

/-- Between requests, after the hop out, and on the hop back, with the number of
deliveries that are still to come. -/
inductive Phase (net : Net) : Nat → Prop
  | idle : net.inFlight = [] → net.replies = expected debug net.requests →
      (∀ s, (net.pair.nodes s).Rests (D.owns s) (reference debug net.requests)) → Phase net 0
  | asked {s : Side} {conn : UInt64} {body : Text} {op : Op} {corr : UInt64} {frame : Bytes} {rest : List Request} :
      net.requests = rest ++ [⟨s, conn, body⟩] → net.replies = expected debug rest → Op.parse debug body = .ok op →
      D.owns s op.key = false → net.inFlight = [(s.other, frame)] → Sealed L D s (.request corr op) frame →
      (net.pair.nodes s).Awaits (D.owns s) (reference debug rest) corr conn →
      (net.pair.nodes s.other).Rests (D.owns s.other) (reference debug rest) → Phase net 2
  | told {s : Side} {conn : UInt64} {body : Text} {corr : UInt64} {reply : Reply} {frame : Bytes}
      {rest : List Request} : net.requests = rest ++ [⟨s, conn, body⟩] → net.replies = expected debug rest →
      reply.body = ((reference debug rest).serve debug body).1 → net.inFlight = [(s, frame)] →
      Sealed L D s.other (.response corr reply) frame →
      (net.pair.nodes s).Awaits (D.owns s) (reference debug net.requests) corr conn →
      (net.pair.nodes s.other).Rests (D.owns s.other) (reference debug net.requests) → Phase net 1

variable {L debug D}

theorem Net.waits_last {net : Net} {rest : List Request} {s : Side} {conn : UInt64} {body : Text}
    (hr : net.requests = rest ++ [⟨s, conn, body⟩]) (hp : net.replies = expected debug rest) :
    net.Waits s conn := by
  refine ⟨?_, body, by rw [hr]; simp⟩
  unfold Net.Idle
  rw [hr, hp, expected_length, List.length_append]
  simp

theorem Net.exists_not_waits (net : Net) (s : Side) : ∃ conn, ¬ net.Waits s conn := by
  by_contra h
  rw [not_exists_not] at h
  obtain ⟨-, b₀, h₀⟩ := h 0
  obtain ⟨-, b₁, h₁⟩ := h 1
  rw [h₀] at h₁
  simp at h₁

theorem Phase.of_idle {net : Net} {k : Nat} (h : Phase L debug D net k) (hi : net.Idle) :
    net.inFlight = [] ∧ net.replies = expected debug net.requests ∧
      ∀ s, (net.pair.nodes s).Rests (D.owns s) (reference debug net.requests) := by
  cases h with
  | idle hf hr hn => exact ⟨hf, hr, hn⟩
  | asked hr hp _ _ _ _ _ _ => exact absurd hi (Net.waits_last hr hp).1
  | told hr hp _ _ _ _ _ => exact absurd hi (Net.waits_last hr hp).1

theorem Phase.part {net : Net} {k : Nat} (h : Phase L debug D net k) (s : Side) :
    ∃ rs, (net.pair.nodes s).kv.Part (D.owns s) (reference debug rs) := by
  cases h with
  | idle _ _ hn => exact ⟨_, (hn s).part⟩
  | @asked s₀ _ _ _ _ _ rest _ _ _ _ _ _ ha ho =>
    rcases Side.eq_or_other s₀ s with rfl | rfl
    · exact ⟨rest, ha.part⟩
    · exact ⟨rest, ho.part⟩
  | @told s₀ _ _ _ _ _ rest _ _ _ _ _ ha ho =>
    rcases Side.eq_or_other s₀ s with rfl | rfl
    · exact ⟨_, ha.part⟩
    · exact ⟨_, ho.part⟩

theorem Phase.unmoved {net : Net} {k : Nat} {s : Side} {ev : Event} {conn : UInt64} (h : Phase L debug D net k)
    (hw : ¬ net.Waits s conn) (hq : ∀ o ∈ (net.pair.step L debug (s, ev)).1, o.Quiet)
    (hu : (net.pair.nodes s).Unmoved ((net.pair.step L debug (s, ev)).2.nodes s) conn) :
    Phase L debug D (net.turn L debug s ev net.inFlight []) k := by
  have hnet : net.turn L debug s ev net.inFlight [] =
      ⟨(net.pair.step L debug (s, ev)).2, net.inFlight, net.requests, net.replies⟩ := by
    simp only [Net.turn, quiet_sent hq, quiet_answer hq, List.map_nil, List.append_nil]
  rw [hnet]
  -- At the other side nothing happened at all.
  have hrests : ∀ {s' : Side} {m : Reference}, (net.pair.nodes s').Rests (D.owns s') m →
      ((net.pair.step L debug (s, ev)).2.nodes s').Rests (D.owns s') m := by
    intro s' m hr
    by_cases hs : s' = s
    · subst hs
      exact hr.unmoved hu
    · rw [Pair.step_ne L debug net.pair hs]
      exact hr
  have hawaits : ∀ {s' : Side} {m : Reference} {corr conn' : UInt64}, net.Waits s' conn' →
      (net.pair.nodes s').Awaits (D.owns s') m corr conn' →
      ((net.pair.step L debug (s, ev)).2.nodes s').Awaits (D.owns s') m corr conn' := by
    intro s' m corr conn' hw' ha
    by_cases hs : s' = s
    · subst hs
      refine ha.unmoved ?_ hu
      rintro rfl
      exact hw hw'
    · rw [Pair.step_ne L debug net.pair hs]
      exact ha
  cases h with
  | idle hf hr hn => exact .idle hf hr fun s' => hrests (hn s')
  | asked hr hp hop hown hf hs ha ho =>
    exact .asked hr hp hop hown hf hs (hawaits (Net.waits_last hr hp) ha) (hrests ho)
  | told hr hp hb hf hs ha ho =>
    exact .told hr hp hb hf hs (hawaits (Net.waits_last hr hp) ha) (hrests ho)

omit L in
@[simp] theorem answer_message (conn : UInt64) (receipt : Option Text) (reply : Reply) :
    Output.answer (.write conn (message receipt reply)) = some reply.body := by
  change (if (message receipt reply).command = "MESSAGE".toList then some _ else none) = _
  rw [if_pos (message_command receipt reply)]
  rfl

omit L in
@[simp] theorem answer_datagram (b : Bytes) : Output.answer (.datagram b) = none := rfl

omit L in
@[simp] theorem sent_write (conn : UInt64) (frame : Frame) : Output.sent (.write conn frame) = none := rfl

omit L in
theorem only_in_flight {pre post : List (Side × Bytes)} {s s' : Side} {b b' : Bytes}
    (h : [(s', b')] = pre ++ (s, b) :: post) : pre = [] ∧ post = [] ∧ s' = s ∧ b' = b := by
  cases pre with
  | nil =>
    simp only [List.nil_append, List.cons.injEq, Prod.mk.injEq] at h
    exact ⟨rfl, h.2.symm, h.1.1, h.1.2⟩
  | cons x pre => simp at h

variable (hL : L.Correct) (hD : D.Shares) {net : Net} (hlink : ∀ s, Node.Linked (D.config s) (net.pair.nodes s))
include hL hlink

theorem Phase.request {k : Nat} (h : Phase L debug D net k) (hi : net.Idle) {s : Side} {conn : UInt64}
    {frame : Frame} {io : Io} (hup : conn ∈ (net.pair.nodes s).clients) (hs : frame.Sends)
    (hz : Node.isSize frame.body = false) (hio : io.Works) :
    ∃ j, Phase L debug D
      (net.turn L debug s (.clientFrame conn frame io) net.inFlight [⟨s, conn, frame.body⟩]) j := by
  obtain ⟨hf, hr, hn⟩ := h.of_idle hi
  have hstep : (net.pair.nodes s).step L debug (.clientFrame conn frame io) net.pair.trace =
      (net.pair.nodes s).handleSend L debug conn frame.receipt frame.body io net.pair.trace :=
    Node.step_send (hlink s).running hs net.pair.trace
  have howns := (hlink s).owns_eq
  cases hop : Op.parse debug frame.body with
  | error e =>
    rw [Node.handleSend_error hio hup hz hop] at hstep
    have hserve : (reference debug net.requests).serve debug frame.body =
        ((Reply.err e).body, reference debug net.requests) := by
      simp only [Reference.serve, hop]
    refine ⟨0, .idle ?_ ?_ ?_⟩
    · simp [Net.turn, hstep, hf]
    · simp [Net.turn, hstep, expected_snoc, hserve, hr]
    · intro s'
      simp only [Net.turn, reference_snoc, hserve]
      refine Pair.step_each (P := fun s n => n.Rests (D.owns s) (reference debug net.requests)) L debug hn _ ?_ s'
      rw [hstep]
      exact hn s
  | ok op =>
    have hserve : (reference debug net.requests).serve debug frame.body =
        (((reference debug net.requests).execute op).1.body, ((reference debug net.requests).execute op).2) := by
      simp only [Reference.serve, hop]
    by_cases hown : (net.pair.nodes s).owns op.key = true
    · rw [Node.handleSend_own hio hup hz hop hown] at hstep
      rw [howns] at hown
      obtain ⟨hval, hpart⟩ := (hn s).part.execute (D.owns_parity s) hown
      refine ⟨0, .idle ?_ ?_ ?_⟩
      · simp [Net.turn, hstep, hf]
      · simp [Net.turn, hstep, expected_snoc, hserve, hr, hval]
      · intro s'
        simp only [Net.turn, reference_snoc, hserve]
        by_cases hs' : s' = s
        · subst hs'
          rw [Pair.step_same, hstep]
          exact ⟨(hn s').pending, hpart⟩
        · rw [Pair.step_ne L debug net.pair hs']
          refine ⟨(hn s').pending, (hn s').part.skip ?_⟩
          rw [(Side.eq_or_other s s').resolve_left hs', D.owns_other, hown]
          rfl
    · have hown : D.owns s op.key = false := by
        rw [← howns]
        simpa using hown
      obtain ⟨b, hout, hsealed, hnode⟩ := Pair.step_forward (hlink s) hio hL.toContract hs hz hop hown conn
      refine ⟨2, @Phase.asked L debug D _ s conn frame.body op _ b net.requests rfl ?_ hop hown ?_ hsealed ?_ ?_⟩
      · simp only [Net.turn, hout]
        simp [hr]
      · simp only [Net.turn, hout]
        simp [hf, Output.sent]
      · simp only [Net.turn]
        rw [hnode]
        refine ⟨hup, ⟨⟨conn, frame.receipt, io.now + forwardTimeout⟩, rfl, ?_⟩, (hn s).part⟩
        intro c
        dsimp only
        rw [Table.lookup_insert, (hn s).pending c]
      · simp only [Net.turn]
        rw [Pair.step_ne L debug net.pair (Side.ne_other s).symm]
        exact hn s.other

include hD

theorem Phase.deliver {k : Nat} (h : Phase L debug D net k) {pre post : List (Side × Bytes)} {s : Side}
    {b : Bytes} {io : Io} (hf : net.inFlight = pre ++ (s, b) :: post) (hio : io.Works) :
    ∃ j, k = j + 1 ∧ Phase L debug D (net.turn L debug s (.datagram b io) (pre ++ post) []) j := by
  cases h with
  | idle hn _ _ =>
    rw [hn] at hf
    simp at hf
  | @asked s₀ conn body op corr frame rest hr hp hop hown hfl hsealed hawait hrest =>
    -- The one datagram in flight goes to the owner of the key.
    obtain ⟨rfl, rfl, rfl, rfl⟩ := only_in_flight (hfl.symm.trans hf)
    have hown' : D.owns s₀.other op.key = true := by
      rw [D.owns_other, hown]
      rfl
    have hm := hawait.part
    obtain ⟨hval, hpart⟩ := hrest.part.execute (D.owns_parity s₀.other) hown'
    have hsmall := ((reference_small debug rest).execute (Op.parse_textLen hop)).1
    rw [← hval] at hsmall
    have hsealed' : Sealed L D s₀.other.other (.request corr op) frame := by
      rw [Side.other_other]
      exact hsealed
    obtain ⟨back, hout, hback, hnode⟩ := Pair.step_serve debug (hlink s₀.other) hio hL hD hsealed' hown' hsmall
    have hserve : (reference debug rest).serve debug body =
        (((reference debug rest).execute op).1.body, ((reference debug rest).execute op).2) := by
      simp only [Reference.serve, hop]
    have href : reference debug net.requests = ((reference debug rest).execute op).2 := by
      rw [hr, reference_snoc]
      exact congrArg Prod.snd hserve
    refine ⟨1, rfl, @Phase.told L debug D _ s₀ conn body corr _ back rest ?_ ?_ ?_ ?_ hback ?_ ?_⟩
    · simp [Net.turn, hr]
    · simp only [Net.turn, hout]
      simp [hp]
    · rw [hserve, hval]
    · simp only [Net.turn, hout]
      simp [Output.sent, Side.other_other]
    · simp only [Net.turn, List.append_nil, href]
      rw [Pair.step_ne L debug net.pair (Side.ne_other s₀)]
      exact ⟨hawait.up, hawait.pending, hm.skip hown⟩
    · simp only [Net.turn, List.append_nil, href]
      rw [hnode]
      exact ⟨hrest.pending, hpart⟩
  | @told s₀ conn body corr reply frame rest hr hp hb hfl hsealed hawait hrest =>
    obtain ⟨rfl, rfl, rfl, rfl⟩ := only_in_flight (hfl.symm.trans hf)
    obtain ⟨p, hconn, hl⟩ := hawait.pending
    have hpend : (net.pair.nodes s₀).pending[corr]? = some p := by
      rw [hl corr, if_pos rfl]
    obtain ⟨hout, hnode⟩ := Pair.step_relay debug (hlink s₀) hio hL hD hsealed hpend (hconn ▸ hawait.up)
    refine ⟨0, rfl, .idle ?_ ?_ ?_⟩
    · simp only [Net.turn, hout]
      simp
    · simp only [Net.turn, hout, List.append_nil]
      rw [hr, expected_snoc, ← hb, hp]
      simp
    · intro s'
      simp only [Net.turn, List.append_nil]
      by_cases hs' : s' = s₀
      · subst hs'
        rw [hnode]
        refine ⟨?_, hawait.part⟩
        intro c
        dsimp only
        rw [Table.lookup_erase, hl c]
        split <;> rfl
      · rw [Pair.step_ne L debug net.pair hs', (Side.eq_or_other s₀ s').resolve_left hs']
        exact hrest

theorem Phase.step {k : Nat} (h : Phase L debug D net k) {net' : Net} (hc : Calm L debug net net') :
    ∃ j, Phase L debug D net' j := by
  cases hc with
  | request hi hup hs hz hio => exact h.request hL hlink hi hup hs hz hio
  | deliver hf hio =>
    obtain ⟨j, -, hj⟩ := h.deliver hL hD hlink hf hio
    exact ⟨j, hj⟩
  | @tick s now rank written ht =>
    have hs : (net.pair.nodes s).step L debug (.tick now rank written) net.pair.trace =
        ⟨[], net.pair.nodes s, net.pair.trace⟩ :=
      Node.step_tick (hlink s).running rank written net.pair.trace ht
    obtain ⟨conn, hw⟩ := net.exists_not_waits s
    refine ⟨k, h.unmoved hw ?_ ?_⟩
    · simp [hs]
    · rw [Pair.step_same, hs]
      exact ⟨rfl, fun c => Or.inl rfl, fun c _ hc => hc⟩
  | @up s conn =>
    obtain ⟨conn', hw⟩ := net.exists_not_waits s
    obtain ⟨ho, hu⟩ := Node.step_up (L := L) (hlink s).running conn conn' net.pair.trace
    refine ⟨k, h.unmoved hw ?_ ?_⟩
    · rw [Pair.step_out, ho]
      simp
    · rw [Pair.step_same]
      exact hu
  | @down s conn hw =>
    obtain ⟨ho, hu⟩ := Node.step_down (L := L) (hlink s).running conn net.pair.trace
    refine ⟨k, h.unmoved hw ?_ ?_⟩
    · rw [Pair.step_out, ho]
      simp
    · rw [Pair.step_same]
      exact hu
  | @frame s conn frame io hw hs =>
    obtain ⟨ho, hu⟩ := Node.step_frame (L := L) (hlink s).running conn io net.pair.trace hs
    refine ⟨k, h.unmoved hw ?_ ?_⟩
    · rw [Pair.step_out]
      exact ho
    · rw [Pair.step_same]
      exact hu

omit hL hD hlink

theorem Calm.linked {net' : Net} (hc : Calm L debug net net')
    (h : ∀ s, Node.Linked (D.config s) (net.pair.nodes s)) :
    ∀ s, Node.Linked (D.config s) (net'.pair.nodes s) := by
  have hturn : ∀ x : Side × Event, ∀ s, Node.Linked (D.config s) ((net.pair.step L debug x).2.nodes s) := fun x =>
    Pair.step_each (P := fun s n => Node.Linked (D.config s) n) L debug h x
      ((h x.1).step L debug x.2 net.pair.trace)
  cases hc <;> exact hturn _

theorem Phase.start {p : Pair} (hp : D.Started p) : Phase L debug D (Net.start p) 0 := by
  refine .idle rfl rfl fun s => ⟨?_, ?_⟩
  · intro c
    show (p.nodes s).pending[c]? = none
    rw [(hp.blank s).pending]
    exact Std.TreeMap.getElem?_emptyc
  · intro k
    show (p.nodes s).kv.entries[k]? = _
    rw [(hp.blank s).kv]
    show (∅ : Std.TreeMap UInt64 Text)[k]? = if D.owns s k then (∅ : Std.TreeMap UInt64 Text)[k]? else none
    simp

include hL hD

theorem calm_run {p : Pair} (hp : D.Started p) (h : Relation.ReflTransGen (Calm L debug) (Net.start p) net) :
    (∀ s, Node.Linked (D.config s) (net.pair.nodes s)) ∧ ∃ k, Phase L debug D net k := by
  induction h with
  | refl => exact ⟨fun s => hp.linked L debug [] s, 0, Phase.start hp⟩
  | tail _ hc ih =>
    obtain ⟨hlink, k, hk⟩ := ih
    exact ⟨hc.linked hlink, hk.step hL hD hlink hc⟩

theorem Phase.drain {k : Nat} (hlink : ∀ s, Node.Linked (D.config s) (net.pair.nodes s))
    (h : Phase L debug D net k) :
    ∃ net', Relation.ReflTransGen (Calm L debug) net net' ∧ net'.requests = net.requests ∧ net'.inFlight = [] := by
  induction k generalizing net with
  | zero =>
    cases h with
    | idle hf _ _ => exact ⟨net, .refl, rfl, hf⟩
  | succ k ih =>
    have hf : ∃ s b, net.inFlight = [] ++ (s, b) :: [] := by
      cases h with
      | asked _ _ _ _ hf _ _ _ => exact ⟨_, _, hf⟩
      | told _ _ _ hf _ _ _ => exact ⟨_, _, hf⟩
    obtain ⟨s, b, hf⟩ := hf
    have hio : Io.Works ⟨0, true, none⟩ := ⟨rfl, rfl⟩
    have hc : Calm L debug net _ := .deliver hf hio
    obtain ⟨j, hj, hphase⟩ := h.deliver hL hD hlink hf hio
    obtain rfl : k = j := by omega
    obtain ⟨net', hrun, hreq, hdone⟩ := ih (hc.linked hlink) hphase
    exact ⟨net', Relation.ReflTransGen.head hc hrun, hreq.trans (List.append_nil _), hdone⟩

/-- Whatever is asked and wherever, the replies are those of one store for all
keys: so far while datagrams are in flight, and all of them when none is. What
is in flight can be delivered. The two stores are the two parts of that store,
and nothing that is forwarded or answered exceeds a datagram. -/
theorem location_transparency {p : Pair} (hp : D.Started p)
    (h : Relation.ReflTransGen (Calm L debug) (Net.start p) net) :
    net.replies <+: expected debug net.requests ∧
    (net.inFlight = [] → net.replies = expected debug net.requests ∧
      ∀ (s : Side) (k : UInt64), (net.pair.nodes s).kv.entries[k]? =
        if D.owns s k then (reference debug net.requests)[k]? else none) ∧
    (∃ net', Relation.ReflTransGen (Calm L debug) net net' ∧ net'.requests = net.requests ∧ net'.inFlight = []) ∧
    (∀ (body : Text) (op : Op), Op.parse debug body = .ok op → ∀ (s : Side) (corr : UInt64),
      (toBytes (Peer.request corr op).encode).length ≤ 65470 ∧
      (D.owns s op.key = true →
        (toBytes (Peer.response corr ((net.pair.nodes s).kv.execute op).1).encode).length ≤ 65470)) := by
  obtain ⟨hlink, k, hphase⟩ := calm_run hL hD hp h
  refine ⟨?_, ?_, hphase.drain hL hD hlink, ?_⟩
  · cases hphase with
    | idle _ hr _ =>
      rw [hr]
    | asked hr hrep _ _ _ _ _ _ =>
      rw [hrep, hr, expected_snoc]
      exact List.prefix_append _ _
    | told hr hrep _ _ _ _ _ =>
      rw [hrep, hr, expected_snoc]
      exact List.prefix_append _ _
  · intro hf
    cases hphase with
    | idle _ hr hn => exact ⟨hr, fun s k => (hn s).part k⟩
    | asked _ _ _ _ hf' _ _ _ =>
      rw [hf'] at hf
      cases hf
    | told _ _ _ hf' _ _ _ =>
      rw [hf'] at hf
      cases hf
  · intro body op hop s corr
    refine ⟨request_fits hop corr, fun hown => response_fits ?_ corr⟩
    obtain ⟨rs, hpart⟩ := hphase.part s
    rw [(hpart.execute (D.owns_parity s) hown).1]
    exact ((reference_small debug rs).execute (Op.parse_textLen hop)).1

end

/-- A client of node 100 writes a key of node 200. Delivering what is then in
flight answers it, and the value is kept with its trailing space. -/
theorem location_transparency_forwarded :
    let L := aesGcm counterBytes
    let D := Deployment.ofIds 100 200 (by decide) ⟨List.replicate keyBytes 7, by decide⟩
    let debug : Text → Text := fun s => '"' :: s ++ ['"']
    let body : Text := "PUT 2 six seven ".toList
    let net₁ := (Net.start D.boot).turn L debug .left (.clientUp 1) [] []
    let net₂ := net₁.turn L debug .left (.clientFrame 1 ⟨"SEND".toList, [], body⟩ ⟨0, true, none⟩) []
        [⟨.left, 1, body⟩]
    (net₂.inFlight.length = 1 ∧ net₂.replies = []) ∧
      ∃ net₃, Relation.ReflTransGen (Calm L debug) net₂ net₃ ∧ net₃.replies = ["OK".toList] ∧
        (net₃.pair.nodes .right).kv.entries[(2 : UInt64)]? = some "six seven ".toList := by
  intro L D debug body net₁ net₂
  have hD : D.Shares := by
    intro s
    cases s <;> rfl
  have hup : (1 : UInt64) ∈ (net₁.pair.nodes .left).clients := by decide +kernel
  have hrun : Relation.ReflTransGen (Calm L debug) (Net.start D.boot) net₂ := by
    refine .tail (.single .up) (.request rfl hup ?_ ?_ ⟨rfl, rfl⟩)
    · exact show toAsciiUppercase "SEND".toList = "SEND".toList by decide +kernel
    · decide +kernel
  have hrest : net₂.inFlight.length = 1 ∧ net₂.replies = [] := by decide +kernel
  have hexp : expected debug [⟨.left, 1, body⟩] = ["OK".toList] := by decide +kernel
  have href : (if D.owns .right 2 then (reference debug [⟨.left, 1, body⟩])[(2 : UInt64)]? else none) =
      some "six seven ".toList := by decide +kernel
  obtain ⟨-, -, ⟨net₃, hmore, hreq, hdone⟩, -⟩ :=
    location_transparency (aesGcm_correct counterBytes) hD D.boot_started hrun
  obtain ⟨-, hall, -⟩ := location_transparency (aesGcm_correct counterBytes) hD D.boot_started (hrun.trans hmore)
  obtain ⟨hrep, hkv⟩ := hall hdone
  have hreq' : net₃.requests = [⟨.left, 1, body⟩] := hreq
  rw [hreq'] at hrep hkv
  exact ⟨hrest, net₃, hmore, hrep.trans hexp, (hkv .right 2).trans href⟩

end Paxe.SixSeven

import Paxe.SealCall
import Paxe.SixSeven.Reference
import Paxe.SixSeven.ServerSound

/-!
# One hop

Two linked nodes under one key: what one seals for the other is a frame of its
message, and the other hears exactly that message from it. From this the turns
of a request follow when the sockets work: answered, forwarded, executed at the
owner, relayed to the client.
-/

namespace Paxe.SixSeven
open Wire Str

/-! ## Sealing and hearing -/

def Deployment.Shares (D : Deployment) : Prop := ∀ s, (D.config s).key = (D.config s.other).key

def Output.sent : Output → Option Bytes
  | .datagram b => some b
  | _ => none

theorem mem_sent {out : List Output} {b : Bytes} : b ∈ out.filterMap Output.sent ↔ .datagram b ∈ out := by
  rw [List.mem_filterMap]
  constructor
  · rintro ⟨o, ho, hob⟩
    cases o with
    | write conn f => cases hob
    | datagram b' =>
      cases hob
      exact ho
    | log line => cases hob
  · intro h
    exact ⟨_, h, rfl⟩

theorem quiet_sent {out : List Output} (h : ∀ o ∈ out, o.Quiet) : out.filterMap Output.sent = [] :=
  quiet_filterMap (fun _ _ _ => rfl) (fun _ => rfl) h

theorem sent_atMost {conn : UInt64} {frame : Frame} {out : List Output} (h : AtMost (.write conn frame) out) :
    out.filterMap Output.sent = [] := by
  rcases h with rfl | rfl <;> rfl

/-- The frame is that node's sealing of the message for its peer. -/
def Sealed (L : Libsodium) (D : Deployment) (s : Side) (m : Peer) (frame : Bytes) : Prop :=
  ∃ nonce : Nonce, frame = Standard.frame L (D.config s).key ⟨(D.config s).id, (D.config s.other).id, peerChannel⟩
    ⟨epochBits, epochBits_le⟩ nonce (toBytes m.encode)

namespace Node.Linked

section
variable {L : Libsodium} {D : Deployment} {s : Side} {n : Node} (h : Linked (D.config s) n)
include h

theorem seals (hL : L.Contract) {m : Peer} (hfit : (toBytes m.encode).length ≤ 65470) (t : Trace) :
    ∃ frame, (Dek.seal L n.store n.config.peerId peerChannel n.epoch (toBytes m.encode) t).result = .ok frame ∧
      Sealed L D s m frame := by
  refine ⟨_, ?_, (randomNonce L t).1, rfl⟩
  rw [dekSeal_result hL, if_neg (Nat.not_lt.mpr hfit), h.config, h.key, h.localId, h.epoch, D.peers s]
  rfl

theorem sendToPeer (hL : L.Contract) {m : Peer} (hfit : (toBytes m.encode).length ≤ 65470) (t : Trace) :
    ∃ frame t', n.sendToPeer L m.encode none t = ⟨.ok (), [.datagram frame], t'⟩ ∧ Sealed L D s m frame := by
  obtain ⟨frame, hr, hf⟩ := h.seals hL hfit t
  have hs : n.sendToPeer L m.encode none t = ⟨.ok (), [.datagram frame],
      (Dek.seal L n.store n.config.peerId peerChannel n.epoch (toBytes m.encode) t).trace⟩ := by
    unfold Node.sendToPeer
    dsimp only
    rw [hr]
  exact ⟨frame, _, hs, hf⟩

theorem sends (hL : L.Contract) {m : Peer} (hfit : (toBytes m.encode).length ≤ 65470) (sendTo : Option Text)
    (t : Trace) :
    ∃ frame, (n.sendToPeer L m.encode sendTo t).out = [.datagram frame] ∧ Sealed L D s m frame := by
  obtain ⟨frame, hr, hf⟩ := h.seals hL hfit t
  refine ⟨frame, ?_, hf⟩
  unfold Node.sendToPeer
  dsimp only
  rw [hr]
  cases sendTo <;> rfl

theorem carries (hL : L.Contract) {m : Peer} {ds : List Output} (hc : Carries L n m ds) :
    ds = [] ∨ ∃ frame, Sealed L D s m frame ∧ ds = [.datagram frame] := by
  rcases hc with rfl | ⟨frame, t, hr, rfl⟩
  · exact Or.inl rfl
  · refine Or.inr ⟨frame, ?_, rfl⟩
    rw [dekSeal_result hL, h.config, h.key] at hr
    split at hr
    · cases hr
    · cases hr
      rw [h.localId, h.epoch, D.peers s]
      exact ⟨_, rfl⟩

variable (hL : L.Correct) (hD : D.Shares) {m : Peer} {frame : Bytes} (hf : Sealed L D s.other m frame)
include hL hD hf

theorem opens (d : Diag) (t : Trace) :
    ∃ t', Dek.open L n.store frame d t = ⟨.ok (⟨n.config.peerId, n.config.id, peerChannel⟩,
      ⟨.standard, ⟨epochBits, epochBits_le⟩⟩, toBytes m.encode), d, t'⟩ := by
  obtain ⟨nonce, rfl⟩ := hf
  have hkey : n.store.slots ((D.config s.other).id, ⟨epochBits, epochBits_le⟩) = some (D.config s.other).key := by
    have := h.key
    rw [D.peers s, h.epoch, hD s] at this
    exact this
  have hopen := open_own_frame hL peerChannel nonce (toBytes m.encode) d t hkey
  rw [Side.other_other, h.config, D.peers s]
  rw [h.localId] at hopen
  exact ⟨_, hopen⟩

theorem hears_iff (debug : Text → Text) {m' : Peer} : Hears L debug n frame m' ↔ m' = m := by
  constructor
  · rintro ⟨d, t, header, flags, payload, text, hr, -, -, ht, hm⟩
    obtain ⟨t', ho⟩ := h.opens hL hD hf d t
    rw [ho] at hr
    cases hr
    rw [fromUtf8_toBytes] at ht
    cases ht
    rw [Peer.decode_encode] at hm
    cases hm
    rfl
  · rintro rfl
    obtain ⟨t', ho⟩ := h.opens hL hD hf n.diag []
    exact ⟨n.diag, [], _, _, _, _, by rw [ho], rfl, rfl, fromUtf8_toBytes _, Peer.decode_encode debug m'⟩

theorem handleDatagram_opened (debug : Text → Text) (io : Io) (t : Trace) :
    ∃ t', n.handleDatagram L debug frame io t =
      match m with
      | .request corr op => n.handleRequest L corr op io t'
      | .response corr reply => n.handleResponse corr reply io t' := by
  obtain ⟨t', ho⟩ := h.opens hL hD hf n.diag t
  refine ⟨t', ?_⟩
  unfold Node.handleDatagram
  rw [ho]
  simp only [fromUtf8_toBytes, Peer.decode_encode, ne_eq, not_true_eq_false, or_self, if_false]
  cases m <;> rfl

end

section
variable {L : Libsodium} {D : Deployment} {s : Side} {n : Node} (h : Linked (D.config s) n) (hL : L.Correct)
  (hD : D.Shares) {corr : UInt64} {frame : Bytes}
include h hL hD

theorem handleDatagram_request (debug : Text → Text) {op : Op} (hf : Sealed L D s.other (.request corr op) frame)
    (io : Io) (t : Trace) : ∃ t', n.handleDatagram L debug frame io t = n.handleRequest L corr op io t' :=
  h.handleDatagram_opened hL hD hf debug io t

theorem handleDatagram_response (debug : Text → Text) {reply : Reply}
    (hf : Sealed L D s.other (.response corr reply) frame) (io : Io) (t : Trace) :
    ∃ t', n.handleDatagram L debug frame io t = n.handleResponse corr reply io t' :=
  h.handleDatagram_opened hL hD hf debug io t

end

end Node.Linked

/-! ## The turns of a request -/

/-- The sockets do what they are asked to. -/
def Io.Works (io : Io) : Prop := io.written = true ∧ io.sendTo = none

namespace Node

section
variable {L : Libsodium} {debug : Text → Text} {n : Node} {conn : UInt64} {io : Io}

theorem step_send (hr : n.running = true) {frame : Frame} (hs : frame.Sends) (t : Trace) :
    n.step L debug (.clientFrame conn frame io) t = n.handleSend L debug conn frame.receipt frame.body io t := by
  unfold step
  rw [if_pos hr]
  exact handleClientFrame_send n conn io t hs

/-- A forwarded request is one datagram, whether or not the socket takes it. -/
theorem handleSend_sends (hL : L.Contract) {D : Deployment} {s : Side} (h : Linked (D.config s) n) {body : Text}
    {op : Op} (hf : Forwards debug n body op) (receipt : Option Text) (t : Trace) :
    ∃ b, (n.handleSend L debug conn receipt body io t).out.filterMap Output.sent = [b] ∧
      Sealed L D s (.request (n.nextCorr + 1) op) b := by
  obtain ⟨hz, hop, hown⟩ := hf
  have h' : Linked (D.config s) { n with nextCorr := n.nextCorr + 1 } :=
    ⟨h.config, h.localId, h.epoch, h.key, h.running⟩
  obtain ⟨b, hout, hb⟩ := h'.sends hL (request_fits hop (n.nextCorr + 1)) io.sendTo t
  refine ⟨b, ?_, hb⟩
  unfold handleSend forward
  rw [hz, hop]
  simp only [Bool.false_eq_true, if_false, hown]
  split
  · rw [hout]
    rfl
  · -- The sender reports the error to its client, by a write.
    rename_i e _
    obtain ⟨ho, -⟩ := replyToClient_spec { n with nextCorr := n.nextCorr + 1 } conn receipt (.err e) io.written
    rw [List.filterMap_append, hout, sent_atMost ho]
    rfl
  · rw [hout]
    rfl

variable (hio : io.Works)
include hio

theorem replyToClient_works (hup : conn ∈ n.clients) (receipt : Option Text) (reply : Reply) :
    n.replyToClient conn receipt reply io.written = ([.write conn (message receipt reply)], n) := by
  rw [hio.1]
  exact writeFrame_up hup _

theorem handleSend_error (hup : conn ∈ n.clients) {body e : Text} (hz : isSize body = false)
    (he : Op.parse debug body = .error e) (receipt : Option Text) (t : Trace) :
    n.handleSend L debug conn receipt body io t = ⟨[.write conn (message receipt (.err e))], n, t⟩ := by
  have hw := replyToClient_works hio hup receipt (.err e)
  unfold handleSend
  rw [hz, he]
  simp only [Bool.false_eq_true, if_false, hw]

theorem handleSend_own (hup : conn ∈ n.clients) {body : Text} {op : Op} (hz : isSize body = false)
    (hop : Op.parse debug body = .ok op) (hown : n.owns op.key = true) (receipt : Option Text) (t : Trace) :
    n.handleSend L debug conn receipt body io t =
      ⟨[.write conn (message receipt (n.kv.execute op).1)], { n with kv := (n.kv.execute op).2 }, t⟩ := by
  have hw := replyToClient_works (n := { n with kv := (n.kv.execute op).2 }) hio hup receipt (n.kv.execute op).1
  unfold handleSend
  rw [hz, hop]
  simp only [Bool.false_eq_true, if_false, hown, if_true, hw]

theorem handleResponse_up {corr : UInt64} {p : Pending} (hp : n.pending[corr]? = some p) (hup : p.conn ∈ n.clients)
    (reply : Reply) (t : Trace) :
    n.handleResponse corr reply io t =
      ⟨[.write p.conn (message p.receipt reply)], { n with pending := n.pending.erase corr }, t⟩ := by
  have hw := replyToClient_works (n := { n with pending := n.pending.erase corr }) hio hup p.receipt reply
  unfold handleResponse
  rw [hp]
  simp only [hw]

variable (hL : L.Contract) {D : Deployment} {s : Side} (h : Linked (D.config s) n)
include hL h

theorem handleSend_forward {body : Text} {op : Op} (hz : isSize body = false) (hop : Op.parse debug body = .ok op)
    (hown : n.owns op.key = false) (receipt : Option Text) (t : Trace) :
    ∃ frame t', n.handleSend L debug conn receipt body io t = ⟨[.datagram frame], { n with
        nextCorr := n.nextCorr + 1
        pending := n.pending.insert (n.nextCorr + 1) ⟨conn, receipt, io.now + forwardTimeout⟩ }, t'⟩ ∧
      Sealed L D s (.request (n.nextCorr + 1) op) frame := by
  have h' : Linked (D.config s) { n with nextCorr := n.nextCorr + 1 } :=
    ⟨h.config, h.localId, h.epoch, h.key, h.running⟩
  obtain ⟨frame, t', hr, hf⟩ := h'.sendToPeer hL (request_fits hop (n.nextCorr + 1)) t
  refine ⟨frame, t', ?_, hf⟩
  unfold handleSend forward
  rw [hz, hop, hio.2]
  simp only [Bool.false_eq_true, if_false, hown, hr]

theorem handleRequest_own {op : Op} (hown : n.owns op.key = true)
    (hfit : (n.kv.execute op).1.textLen ≤ maxPutBytes) (corr : UInt64) (t : Trace) :
    ∃ frame t', n.handleRequest L corr op io t =
        ⟨[.datagram frame], { n with kv := (n.kv.execute op).2 }, t'⟩ ∧
      Sealed L D s (.response corr (n.kv.execute op).1) frame := by
  have h' : Linked (D.config s) { n with kv := (n.kv.execute op).2 } :=
    ⟨h.config, h.localId, h.epoch, h.key, h.running⟩
  obtain ⟨frame, t', hr, hf⟩ := h'.sendToPeer hL (response_fits hfit corr) t
  refine ⟨frame, t', ?_, hf⟩
  unfold handleRequest
  rw [hio.2]
  simp only [hown, if_true, hr]

end

end Node

/-! ## The same turns, as the pair sees them -/

section
variable {L : Libsodium} {debug : Text → Text} {D : Deployment} {s : Side} {q : Pair}
  (hq : Node.Linked (D.config s) (q.nodes s)) {io : Io} (hio : io.Works)
include hq hio

theorem Pair.step_forward (hL : L.Contract) {frame : Frame} (hs : frame.Sends) {op : Op}
    (hz : Node.isSize frame.body = false) (hop : Op.parse debug frame.body = .ok op)
    (hown : D.owns s op.key = false) (conn : UInt64) :
    ∃ b, (q.step L debug (s, .clientFrame conn frame io)).1 = [.datagram b] ∧
      Sealed L D s (.request ((q.nodes s).nextCorr + 1) op) b ∧
      (q.step L debug (s, .clientFrame conn frame io)).2.nodes s = { q.nodes s with
        nextCorr := (q.nodes s).nextCorr + 1
        pending := (q.nodes s).pending.insert ((q.nodes s).nextCorr + 1)
          ⟨conn, frame.receipt, io.now + forwardTimeout⟩ } := by
  rw [← hq.owns_eq] at hown
  obtain ⟨b, t, ht, hb⟩ := Node.handleSend_forward hio hL hq hz hop hown frame.receipt q.trace
  rw [Pair.step_out, Pair.step_same, Node.step_send hq.running hs, ht]
  exact ⟨b, rfl, hb, rfl⟩

variable (debug) (hL : L.Correct) (hD : D.Shares) {c : UInt64} {b : Bytes}
include hL hD

theorem Pair.step_serve {op : Op} (hb : Sealed L D s.other (.request c op) b) (hown : D.owns s op.key = true)
    (hfit : ((q.nodes s).kv.execute op).1.textLen ≤ maxPutBytes) :
    ∃ b', (q.step L debug (s, .datagram b io)).1 = [.datagram b'] ∧
      Sealed L D s (.response c ((q.nodes s).kv.execute op).1) b' ∧
      (q.step L debug (s, .datagram b io)).2.nodes s = { q.nodes s with kv := ((q.nodes s).kv.execute op).2 } := by
  rw [← hq.owns_eq] at hown
  obtain ⟨t, hreq⟩ := hq.handleDatagram_request hL hD debug hb io q.trace
  obtain ⟨b', t', hserved, hb'⟩ := Node.handleRequest_own hio hL.toContract hq hown hfit c t
  rw [Pair.step_out, Pair.step_same, Node.step, if_pos hq.running, hreq, hserved]
  exact ⟨b', rfl, hb', rfl⟩

theorem Pair.step_relay {reply : Reply} (hb : Sealed L D s.other (.response c reply) b) {pd : Pending}
    (hpd : (q.nodes s).pending[c]? = some pd) (hup : pd.conn ∈ (q.nodes s).clients) :
    (q.step L debug (s, .datagram b io)).1 = [.write pd.conn (message pd.receipt reply)] ∧
      (q.step L debug (s, .datagram b io)).2.nodes s =
        { q.nodes s with pending := (q.nodes s).pending.erase c } := by
  obtain ⟨t, hresp⟩ := hq.handleDatagram_response hL hD debug hb io q.trace
  rw [Pair.step_out, Pair.step_same, Node.step, if_pos hq.running, hresp, Node.handleResponse_up hio hpd hup]
  exact ⟨rfl, rfl⟩

end

end Paxe.SixSeven

import Paxe.OpenSound
import Paxe.Sealing
import Paxe.SixSeven.KvSound
import Paxe.SixSeven.Server

/-!
# What one event does to a node

`Did` lists everything a turn of the core loop can do: the fields it changes,
what it writes, and the conditions it does so under. `step_did` is the one
place where the handlers are unfolded case by case.
-/

namespace Paxe.SixSeven
open Wire Str

/-! ## Writing -/

def AtMost (o : Output) (out : List Output) : Prop := out = [] ∨ out = [o]

/-- Neither an answer to a request nor a datagram. -/
def Output.Quiet : Output → Prop
  | .write _ f => f.command ≠ "MESSAGE".toList
  | .datagram _ => False
  | .log _ => True

/-- What shows only messages and datagrams shows nothing of a quiet turn. -/
theorem quiet_filterMap {β : Type} {view : Output → Option β}
    (hwrite : ∀ conn f, f.command ≠ "MESSAGE".toList → view (.write conn f) = none)
    (hlog : ∀ line, view (.log line) = none) {out : List Output} (h : ∀ o ∈ out, o.Quiet) :
    out.filterMap view = [] := by
  apply List.filterMap_eq_nil_iff.mpr
  intro o ho
  have hq := h o ho
  cases o with
  | write conn f => exact hwrite conn f hq
  | datagram b => exact hq.elim
  | log line => exact hlog line

def Frame.Sends (f : Frame) : Prop := toAsciiUppercase f.command = "SEND".toList

def Frame.receipt (f : Frame) : Option Text := f.header "receipt".toList

namespace Node

theorem writeFrame_spec (n : Node) (conn : UInt64) (frame : Frame) (written : Bool) :
    AtMost (.write conn frame) (n.writeFrame conn frame written).1 ∧
      ∃ clients, (∀ c ≠ conn, c ∈ n.clients → c ∈ clients) ∧
        (n.writeFrame conn frame written).2 = { n with clients := clients } := by
  unfold writeFrame
  split
  · refine ⟨Or.inr rfl, ?_⟩
    cases written with
    | true => exact ⟨n.clients, fun _ _ h => h, rfl⟩
    | false => exact ⟨n.clients.erase conn, fun c hc h => Finset.mem_erase.mpr ⟨hc, h⟩, rfl⟩
  · exact ⟨Or.inl rfl, n.clients, fun _ _ h => h, rfl⟩

theorem writeFrame_up {n : Node} {conn : UInt64} (h : conn ∈ n.clients) (frame : Frame) :
    n.writeFrame conn frame true = ([.write conn frame], n) := by
  simp [writeFrame, h]

theorem replyToClient_spec (n : Node) (conn : UInt64) (receipt : Option Text) (reply : Reply) (written : Bool) :
    AtMost (.write conn (message receipt reply)) (n.replyToClient conn receipt reply written).1 ∧
      ∃ clients, (n.replyToClient conn receipt reply written).2 = { n with clients := clients } := by
  obtain ⟨ho, clients, -, hn⟩ := writeFrame_spec n conn (message receipt reply) written
  exact ⟨ho, clients, hn⟩

theorem quiet_of_atMost {conn : UInt64} {frame : Frame} {out : List Output} (h : AtMost (.write conn frame) out)
    (hf : frame.command ≠ "MESSAGE".toList) : ∀ o ∈ out, o.Quiet := by
  intro o ho
  rcases h with rfl | rfl
  · cases ho
  · rw [List.mem_singleton.mp ho]
    exact hf

theorem connected_command : connected.command ≠ "MESSAGE".toList := by
  unfold connected
  simp

theorem unsupported_command (command : Text) : (unsupported command).command ≠ "MESSAGE".toList := by
  unfold unsupported
  simp

theorem writeReceipt_spec (n : Node) (conn : UInt64) (receipt : Option Text) (written : Bool) :
    (∀ o ∈ (n.writeReceipt conn receipt written).1, o.Quiet) ∧
      ∃ clients, (∀ c ≠ conn, c ∈ n.clients → c ∈ clients) ∧
        (n.writeReceipt conn receipt written).2 = { n with clients := clients } := by
  cases receipt with
  | none => exact ⟨by simp [writeReceipt], n.clients, fun _ _ h => h, rfl⟩
  | some r =>
    obtain ⟨ho, hn⟩ := writeFrame_spec n conn ⟨"RECEIPT".toList, [("receipt-id".toList, r)], []⟩ written
    exact ⟨quiet_of_atMost ho (by simp), hn⟩

/-! ## The outcomes -/

section
variable (L : Libsodium) (debug : Text → Text)

/-- The datagrams of one hop: at most one, and it seals that message. -/
def Carries (n : Node) (m : Peer) (ds : List Output) : Prop :=
  ds = [] ∨ ∃ frame t,
    (Dek.seal L n.store n.config.peerId peerChannel n.epoch (toBytes m.encode) t).result = .ok frame ∧
      ds = [.datagram frame]

/-- What `send_to_peer` reports when the message does not leave. -/
def SendError (n : Node) (e : Text) : Prop :=
  (∃ why, e = "sealing for peer ".toList ++ showNat n.config.peerId.toNat ++ ": ".toList ++ why) ∨
    ∃ why, e = "sending to peer ".toList ++ n.config.peerAddr ++ ": ".toList ++ why

/-- The datagram opens to a message of the peer. -/
def Hears (n : Node) (bytes : Bytes) (m : Peer) : Prop :=
  ∃ d t header flags payload text, (Dek.open L n.store bytes d t).result = .ok (header, flags, payload) ∧
    header.fromId = n.config.peerId ∧ header.channel = peerChannel ∧ fromUtf8 payload = some text ∧
    Peer.decode debug text = .ok m

inductive Direct (n : Node) (body : Text) : Reply → Store → Prop
  | size : isSize body = true → Direct n body n.sizeReply n.kv
  | malformed {e : Text} : isSize body = false → Op.parse debug body = .error e → Direct n body (.err e) n.kv
  | owned {op : Op} : isSize body = false → Op.parse debug body = .ok op → n.owns op.key = true →
      Direct n body (n.kv.execute op).1 (n.kv.execute op).2

def Forwards (n : Node) (body : Text) (op : Op) : Prop :=
  isSize body = false ∧ Op.parse debug body = .ok op ∧ n.owns op.key = false

inductive Serves (n : Node) (op : Op) : Reply → Store → Prop
  | own : n.owns op.key = true → Serves n op (n.kv.execute op).1 (n.kv.execute op).2
  | foreign (e : Text) : n.owns op.key = false → Serves n op (.err e) n.kv

inductive Did (n : Node) : Event → List Output → Node → Prop
  | quiet {ev : Event} {out : List Output} (clients : Finset UInt64) (diag : Diag) :
      (∀ o ∈ out, o.Quiet) → Did n ev out { n with clients, diag }
  | down {conn : UInt64} {pending : Std.TreeMap UInt64 Pending} :
      (∀ c : UInt64, pending[c]? = n.pending[c]?.filter (·.conn != conn)) →
      Did n (.clientDown conn) [] { n with clients := n.clients.erase conn, pending }
  | direct {conn : UInt64} {frame : Frame} {io : Io} {reply : Reply} {kv : Store} {out : List Output}
      (clients : Finset UInt64) : frame.Sends → Direct debug n frame.body reply kv →
      AtMost (.write conn (message frame.receipt reply)) out →
      Did n (.clientFrame conn frame io) out { n with kv, clients }
  | failed {conn : UInt64} {frame : Frame} {io : Io} {op : Op} {e : Text} {ds out : List Output}
      (clients : Finset UInt64) : frame.Sends → Forwards debug n frame.body op →
      Carries L n (.request (n.nextCorr + 1) op) ds → SendError n e →
      AtMost (.write conn (message frame.receipt (.err e))) out →
      Did n (.clientFrame conn frame io) (ds ++ out) { n with nextCorr := n.nextCorr + 1, clients }
  | forwarded {conn : UInt64} {frame : Frame} {io : Io} {op : Op} {ds : List Output} : frame.Sends →
      Forwards debug n frame.body op → Carries L n (.request (n.nextCorr + 1) op) ds →
      Did n (.clientFrame conn frame io) ds { n with
        nextCorr := n.nextCorr + 1
        pending := n.pending.insert (n.nextCorr + 1) ⟨conn, frame.receipt, io.now + forwardTimeout⟩ }
  | served {bytes : Bytes} {io : Io} {corr : UInt64} {op : Op} {reply : Reply} {kv : Store} {ds out : List Output}
      (diag : Diag) : Hears L debug n bytes (.request corr op) → Serves n op reply kv →
      Carries L n (.response corr reply) ds → (∀ o ∈ out, o.Quiet) →
      Did n (.datagram bytes io) (ds ++ out) { n with kv, diag }
  | relayed {bytes : Bytes} {io : Io} {corr : UInt64} {reply : Reply} {p : Pending} {out : List Output}
      (clients : Finset UInt64) (diag : Diag) : Hears L debug n bytes (.response corr reply) →
      n.pending[corr]? = some p → AtMost (.write p.conn (message p.receipt reply)) out →
      Did n (.datagram bytes io) out { n with pending := n.pending.erase corr, clients, diag }
  | ticked {now : Nat} {rank : UInt64 → Nat} {written : UInt64 → Bool} {answered : List (UInt64 × Pending)}
      {pending : Std.TreeMap UInt64 Pending} (clients : Finset UInt64) :
      (∀ x ∈ answered, n.pending[x.1]? = some x.2 ∧ x.2.deadline ≤ now) → (answered.map (·.1)).Nodup →
      (∀ c : UInt64, pending[c]? = n.pending[c]?.filter (now < ·.deadline)) →
      Did n (.tick now rank written)
        (answered.map fun x => .write x.2.conn (message x.2.receipt n.timedOut)) { n with pending, clients }

/-! ## The handlers, one by one -/

variable {L debug}

theorem sendToPeer_carries (n : Node) (m : Peer) (sendTo : Option Text) (t : Trace) :
    Carries L n m (n.sendToPeer L m.encode sendTo t).out := by
  unfold sendToPeer
  dsimp only
  split
  · exact Or.inl rfl
  · exact Or.inl rfl
  · rename_i frame hs
    cases sendTo with
    | none => exact Or.inr ⟨frame, t, hs, rfl⟩
    | some e => exact Or.inr ⟨frame, t, hs, rfl⟩

theorem sendToPeer_error {n : Node} {text : Text} {sendTo : Option Text} {t : Trace} {e : Text}
    (h : (n.sendToPeer L text sendTo t).result = .err e) : SendError n e := by
  unfold sendToPeer at h
  dsimp only at h
  split at h
  · cases h
  · cases h
    exact Or.inl ⟨_, rfl⟩
  · cases sendTo with
    | none => cases h
    | some why =>
      cases h
      exact Or.inr ⟨why, rfl⟩

/-- Sealing returns whatever the library does, so the hop does too. -/
theorem sendToPeer_ne_panic (n : Node) (text : Text) (sendTo : Option Text) (t : Trace) :
    (n.sendToPeer L text sendTo t).result ≠ .panic := by
  unfold sendToPeer
  dsimp only
  rcases dekSeal_any L n.store n.config.peerId peerChannel n.epoch (toBytes text) t with ⟨e, hs⟩ | ⟨frame, hs, -⟩
  · rw [hs]
    simp
  · rw [hs]
    cases sendTo <;> simp

theorem forward_did (n : Node) {conn : UInt64} {frame : Frame} {io : Io} {op : Op} (t : Trace) (hs : frame.Sends)
    (hf : Forwards debug n frame.body op) :
    Did L debug n (.clientFrame conn frame io) (n.forward L conn frame.receipt op io t).out
      (n.forward L conn frame.receipt op io t).node := by
  have hc := sendToPeer_carries (L := L) { n with nextCorr := n.nextCorr + 1 } (.request (n.nextCorr + 1) op)
    io.sendTo t
  unfold forward
  dsimp only
  split
  · rename_i hr
    exact absurd hr (sendToPeer_ne_panic _ _ _ _)
  · rename_i e hr
    obtain ⟨ho, clients, hn⟩ := replyToClient_spec { n with nextCorr := n.nextCorr + 1 } conn frame.receipt (.err e)
      io.written
    dsimp only
    rw [hn]
    exact .failed clients hs hf hc (sendToPeer_error hr) ho
  · exact .forwarded hs hf hc

theorem handleSend_did (n : Node) {conn : UInt64} {frame : Frame} {io : Io} (t : Trace) (hs : frame.Sends) :
    Did L debug n (.clientFrame conn frame io) (n.handleSend L debug conn frame.receipt frame.body io t).out
      (n.handleSend L debug conn frame.receipt frame.body io t).node := by
  unfold handleSend
  split
  · rename_i hz
    obtain ⟨ho, clients, hn⟩ := replyToClient_spec n conn frame.receipt n.sizeReply io.written
    dsimp only
    rw [hn]
    exact .direct clients hs (.size hz) ho
  · rename_i hz
    have hz : isSize frame.body = false := by simpa using hz
    split
    · rename_i e he
      obtain ⟨ho, clients, hn⟩ := replyToClient_spec n conn frame.receipt (.err e) io.written
      dsimp only
      rw [hn]
      exact .direct clients hs (.malformed hz he) ho
    · rename_i op hop
      split
      · rename_i hown
        obtain ⟨ho, clients, hn⟩ := replyToClient_spec { n with kv := (n.kv.execute op).2 } conn frame.receipt
          (n.kv.execute op).1 io.written
        dsimp only
        rw [hn]
        exact .direct clients hs (.owned hz hop hown) ho
      · rename_i hown
        exact forward_did n t hs ⟨hz, hop, by simpa using hown⟩

theorem handleClientFrame_other (n : Node) (conn : UInt64) {frame : Frame} (io : Io) (t : Trace)
    (h : ¬ frame.Sends) :
    ∃ out clients, n.handleClientFrame L debug conn frame io t = ⟨out, { n with clients := clients }, t⟩ ∧
      (∀ o ∈ out, o.Quiet) ∧ ∀ c ≠ conn, c ∈ n.clients → c ∈ clients := by
  obtain ⟨hr, rclients, hrc, hrn⟩ := writeReceipt_spec n conn (frame.header "receipt".toList) io.written
  unfold handleClientFrame
  dsimp only
  split
  · obtain ⟨ho, clients, hc, hn⟩ := writeFrame_spec n conn connected io.written
    rw [hn]
    exact ⟨_, clients, rfl, quiet_of_atMost ho connected_command, hc⟩
  · split
    · rw [hrn]
      exact ⟨_, rclients, rfl, hr, hrc⟩
    · split
      · rw [hrn]
        exact ⟨_, rclients.erase conn, rfl, hr, fun c hc hm => Finset.mem_erase.mpr ⟨hc, hrc c hc hm⟩⟩
      · split
        · rename_i hs
          exact absurd hs h
        · obtain ⟨ho, clients, hc, hn⟩ :=
            writeFrame_spec n conn (unsupported (toAsciiUppercase frame.command)) io.written
          rw [hn]
          exact ⟨_, clients, rfl, quiet_of_atMost ho (unsupported_command _), hc⟩

theorem handleClientFrame_send (n : Node) (conn : UInt64) {frame : Frame} (io : Io) (t : Trace) (h : frame.Sends) :
    n.handleClientFrame L debug conn frame io t = n.handleSend L debug conn frame.receipt frame.body io t := by
  unfold Frame.Sends at h
  unfold handleClientFrame
  dsimp only
  rw [h]
  simp only [String.toList_inj, String.reduceEq, or_self, if_false, if_true]
  rfl

theorem handleClientFrame_did (n : Node) (conn : UInt64) (frame : Frame) (io : Io) (t : Trace) :
    Did L debug n (.clientFrame conn frame io) (n.handleClientFrame L debug conn frame io t).out
      (n.handleClientFrame L debug conn frame io t).node := by
  by_cases hs : frame.Sends
  · rw [handleClientFrame_send n conn io t hs]
    exact handleSend_did n t hs
  · obtain ⟨out, clients, ht, ho, -⟩ := handleClientFrame_other (L := L) n conn io t hs
    rw [ht]
    exact .quiet clients n.diag ho

theorem handleRequest_did (n : Node) {bytes : Bytes} {corr : UInt64} {op : Op} {io : Io} (d : Diag) (t : Trace)
    (hh : Hears L debug n bytes (.request corr op)) :
    Did L debug n (.datagram bytes io) (handleRequest L { n with diag := d } corr op io t).out
      (handleRequest L { n with diag := d } corr op io t).node := by
  -- The answer and the store after it, whoever owns the key.
  obtain ⟨reply, kv, hs, hr⟩ : ∃ reply kv, Serves n op reply kv ∧
      (if ({ n with diag := d } : Node).owns op.key = true then
        ((n.kv.execute op).1, ({ n with diag := d, kv := (n.kv.execute op).2 } : Node))
      else (.err ("key ".toList ++ showU64 op.key ++ " does not belong to node ".toList ++
        showNat n.config.id.toNat),
        { n with diag := d })) = (reply, { n with kv := kv, diag := d }) := by
    by_cases hown : n.owns op.key = true
    · exact ⟨_, _, .own hown, if_pos hown⟩
    · exact ⟨_, _, .foreign _ (by simpa using hown), if_neg hown⟩
  have hc : Carries L n (.response corr reply)
      (({ n with kv := kv, diag := d } : Node).sendToPeer L (Peer.response corr reply).encode io.sendTo t).out :=
    sendToPeer_carries _ (.response corr reply) io.sendTo t
  unfold handleRequest
  dsimp only
  rw [hr]
  dsimp only
  split
  · rename_i hp
    exact absurd hp (sendToPeer_ne_panic _ _ _ _)
  · exact .served d hh hs hc (by simp [Output.Quiet])
  · have : Did L debug n (.datagram bytes io) (_ ++ []) { n with kv, diag := d } := .served d hh hs hc (by simp)
    rwa [List.append_nil] at this

theorem handleResponse_did (n : Node) {bytes : Bytes} {corr : UInt64} {reply : Reply} {io : Io} (d : Diag)
    (t : Trace) (hh : Hears L debug n bytes (.response corr reply)) :
    Did L debug n (.datagram bytes io) (handleResponse { n with diag := d } corr reply io t).out
      (handleResponse { n with diag := d } corr reply io t).node := by
  unfold handleResponse
  dsimp only
  split
  · exact .quiet n.clients d (by simp)
  · rename_i p hp
    obtain ⟨ho, clients, hn⟩ :=
      replyToClient_spec { n with pending := n.pending.erase corr, diag := d } p.conn p.receipt reply io.written
    dsimp only
    rw [hn]
    exact .relayed clients d hh hp ho

theorem handleDatagram_did (n : Node) (bytes : Bytes) (io : Io) (t : Trace) :
    Did L debug n (.datagram bytes io) (n.handleDatagram L debug bytes io t).out
      (n.handleDatagram L debug bytes io t).node := by
  have hq : ∀ out : List Output, (∀ o ∈ out, o.Quiet) →
      Did L debug n (.datagram bytes io) out { n with diag := (Dek.open L n.store bytes n.diag t).diag } :=
    fun out ho => .quiet n.clients _ ho
  unfold handleDatagram
  dsimp only
  split
  · rename_i hr
    rcases open_any L n.store bytes n.diag t with ⟨h, f, p, ho, -⟩ | ⟨e, he⟩
    · rw [ho] at hr
      cases hr
    · rw [he] at hr
      cases hr
  · exact hq [] (by simp)
  · rename_i header flags payload ho
    split
    · exact hq [] (by simp)
    · rename_i hh
      rw [not_or, not_not, not_not] at hh
      split
      · exact hq [] (by simp)
      · rename_i text htext
        have hears : ∀ m, Peer.decode debug text = .ok m → Hears L debug n bytes m :=
          fun m hm => ⟨n.diag, t, header, flags, payload, text, ho, hh.1, hh.2, htext, hm⟩
        split
        · exact hq _ (by simp [Output.Quiet])
        · rename_i corr op hm
          exact handleRequest_did n _ _ (hears _ hm)
        · rename_i corr reply hm
          exact handleResponse_did n _ _ (hears _ hm)

omit L debug in
/-- A visit to distinct ids answers some of those that wait, in order, and
clears them all. -/
theorem expire_spec (written : UInt64 → Bool) (n : Node) (cs : List UInt64) :
    ∃ (answered : List (UInt64 × Pending)) (clients : Finset UInt64) (pending : Std.TreeMap UInt64 Pending),
      expire written n cs =
        (answered.map fun x => .write x.2.conn (message x.2.receipt n.timedOut), { n with clients, pending }) ∧
      (∀ x ∈ answered, n.pending[x.1]? = some x.2) ∧ (answered.map (·.1)).Sublist cs ∧
      ∀ c : UInt64, pending[c]? = if c ∈ cs then none else n.pending[c]? := by
  induction cs generalizing n with
  | nil => exact ⟨[], n.clients, n.pending, rfl, by simp, by simp, by simp⟩
  | cons corr rest ih =>
    cases hp : n.pending[corr]? with
    | none =>
      obtain ⟨answered, clients, pending, he, ha, hs, hl⟩ := ih n
      refine ⟨answered, clients, pending, by rw [expire, hp]; exact he, ha, hs.cons _, ?_⟩
      intro c
      rw [hl c]
      by_cases hc : c = corr
      · simp [hc, hp]
      · simp [hc]
    | some p =>
      obtain ⟨ho, clients₁, hn⟩ :=
        replyToClient_spec { n with pending := n.pending.erase corr } p.conn p.receipt n.timedOut (written corr)
      obtain ⟨answered, clients, pending, he, ha, hs, hl⟩ :=
        ih { n with pending := n.pending.erase corr, clients := clients₁ }
      have ha' : ∀ x ∈ answered, n.pending[x.1]? = some x.2 := by
        intro x hx
        have := ha x hx
        rw [Table.lookup_erase] at this
        split at this
        · cases this
        · exact this
      have hl' : ∀ c : UInt64, pending[c]? = if c ∈ corr :: rest then none else n.pending[c]? := by
        intro c
        rw [hl c, Table.lookup_erase]
        by_cases hc : c = corr
        · simp [hc]
        · simp [hc]
      have hexp : expire written n (corr :: rest) =
          (({ n with pending := n.pending.erase corr }.replyToClient p.conn p.receipt n.timedOut
            (written corr)).1 ++
            (answered.map fun x => .write x.2.conn (message x.2.receipt n.timedOut)),
              { n with clients, pending }) := by
        rw [expire, hp]
        dsimp only
        rw [hn, he]
        rfl
      rcases ho with ho | ho
      · rw [ho] at hexp
        exact ⟨answered, clients, pending, hexp, ha', hs.cons _, hl'⟩
      · rw [ho] at hexp
        refine ⟨(corr, p) :: answered, clients, pending, hexp, ?_, hs.cons_cons corr, hl'⟩
        intro x hx
        rcases List.mem_cons.mp hx with rfl | hx
        · exact hp
        · exact ha' x hx

omit L debug in
theorem mem_expired {n : Node} {now : Nat} {rank : UInt64 → Nat} {c : UInt64} :
    c ∈ n.expired now rank ↔ ∃ p, n.pending[c]? = some p ∧ p.deadline ≤ now := by
  unfold expired
  rw [List.mem_insertionSort, List.mem_map]
  constructor
  · rintro ⟨⟨k, p⟩, hx, rfl⟩
    simp only [List.mem_filter, decide_eq_true_eq] at hx
    exact ⟨p, Std.TreeMap.mem_toList_iff_getElem?_eq_some.mp hx.1, hx.2⟩
  · rintro ⟨p, hp, hd⟩
    refine ⟨(c, p), ?_, rfl⟩
    simp only [List.mem_filter, decide_eq_true_eq]
    exact ⟨Std.TreeMap.mem_toList_iff_getElem?_eq_some.mpr hp, hd⟩

omit L debug in
theorem expired_nodup (n : Node) (now : Nat) (rank : UInt64 → Nat) : (n.expired now rank).Nodup := by
  unfold expired
  rw [(List.perm_insertionSort _ _).nodup_iff]
  refine List.Nodup.sublist (List.Sublist.map _ List.filter_sublist) ?_
  rw [Std.TreeMap.map_fst_toList_eq_keys]
  exact Std.TreeMap.nodup_keys

theorem step_did (n : Node) (ev : Event) (t : Trace) :
    Did L debug n ev (n.step L debug ev t).out (n.step L debug ev t).node := by
  unfold step
  split
  · cases ev with
    | clientUp conn => exact .quiet (insert conn n.clients) n.diag (by simp)
    | clientDown conn => exact .down fun c => Std.TreeMap.getElem?_filter'
    | clientFrame conn frame io => exact handleClientFrame_did n conn frame io t
    | datagram bytes io => exact handleDatagram_did n bytes io t
    | tick now rank written =>
      obtain ⟨answered, clients, pending, he, ha, hs, hl⟩ := expire_spec written n (n.expired now rank)
      dsimp only
      rw [he]
      refine .ticked clients ?_ (hs.nodup (expired_nodup n now rank)) ?_
      · intro x hx
        have hp := ha x hx
        obtain ⟨p, hp', hd⟩ := mem_expired.mp (hs.subset (List.mem_map_of_mem hx))
        rw [hp] at hp'
        cases hp'
        exact ⟨hp, hd⟩
      · intro c
        rw [hl c]
        cases hp : n.pending[c]? with
        | none => simp
        | some p =>
          by_cases hd : p.deadline ≤ now
          · have : c ∈ n.expired now rank := mem_expired.mpr ⟨p, hp, hd⟩
            simp [this, Option.filter, Nat.not_lt.mpr hd]
          · have : c ∉ n.expired now rank := by
              intro hc
              obtain ⟨q, hq, hqd⟩ := mem_expired.mp hc
              rw [hp] at hq
              cases hq
              exact hd hqd
            simp [this, Option.filter, Nat.not_le.mp hd]
  · exact .quiet n.clients n.diag (by simp)

theorem Did.static {n n' : Node} {ev : Event} {out : List Output} (h : Did L debug n ev out n') :
    n'.config = n.config ∧ n'.store = n.store ∧ n'.epoch = n.epoch ∧ n'.running = n.running := by
  cases h <;> exact ⟨rfl, rfl, rfl, rfl⟩

end

/-! ## A node that came up -/

/-- The node runs under a configuration, with the key of its link. -/
structure Linked (c : Config) (n : Node) : Prop where
  config : n.config = c
  localId : n.store.localId = c.id
  epoch : n.epoch = ⟨epochBits, epochBits_le⟩
  key : n.store.slots (c.peerId, n.epoch) = some c.key
  running : n.running = true

structure Blank (n : Node) : Prop where
  kv : n.kv = .empty
  clients : n.clients = ∅
  pending : n.pending = ∅
  nextCorr : n.nextCorr = 0

theorem start_ok {c : Config} {setup : SetupRets} {rc : Int} {heap : Heap} {n : Node}
    (h : start c setup rc heap = .ok n) : Linked c n ∧ Blank n := by
  have hepoch : Epoch.new epochBits = .ok ⟨epochBits, epochBits_le⟩ := rfl
  unfold start at h
  split at h
  · cases h
  · split at h
    · cases h
    · rw [hepoch] at h
      dsimp only at h
      split at h
      · cases h
      · rename_i store hnew
        obtain ⟨hid, -⟩ := slots_new hnew
        split at h
        · cases h
        · rename_i u store' hi
          have hi1 : (store.install c.peerId ⟨epochBits, epochBits_le⟩ c.key heap).1 = .ok () := by rw [hi]
          have hi2 : (store.install c.peerId ⟨epochBits, epochBits_le⟩ c.key heap).2 = store' := by rw [hi]
          have hslots := install_slots store hi1
          have hloc := install_localId store c.peerId ⟨epochBits, epochBits_le⟩ c.key heap
          rw [hi2] at hslots hloc
          cases h
          refine ⟨⟨rfl, hloc.trans hid, rfl, ?_, rfl⟩, ⟨rfl, rfl, rfl, rfl⟩⟩
          show store'.slots (c.peerId, _) = some c.key
          rw [hslots]
          exact Function.update_self ..

theorem Linked.step {c : Config} {n : Node} (h : Linked c n) (L : Libsodium) (debug : Text → Text) (ev : Event)
    (t : Trace) : Linked c (n.step L debug ev t).node := by
  have hd : Did L debug n ev (n.step L debug ev t).out (n.step L debug ev t).node := step_did n ev t
  obtain ⟨hc, hs, he, hr⟩ := hd.static
  exact ⟨hc.trans h.config, hs ▸ h.localId, he.trans h.epoch, by rw [hs, he]; exact h.key, hr.trans h.running⟩

end Node

/-! ## Two nodes -/

theorem Side.other_other (s : Side) : s.other.other = s := by cases s <;> rfl

theorem Side.ne_other (s : Side) : s ≠ s.other := by cases s <;> simp [Side.other]

theorem Side.eq_or_other (s s' : Side) : s' = s ∨ s' = s.other := by
  cases s <;> cases s' <;> simp [Side.other]

def Deployment.owns (D : Deployment) (s : Side) (key : UInt64) : Bool :=
  owner key (D.config s).id (D.config s.other).id == (D.config s).id

theorem Deployment.ids_ne (D : Deployment) (s : Side) : (D.config s).id ≠ (D.config s.other).id := by
  rw [← D.peers s]
  exact (D.config s).ids_differ

theorem Deployment.owns_other (D : Deployment) (s : Side) (key : UInt64) : D.owns s.other key = !D.owns s key := by
  unfold Deployment.owns
  rw [Side.other_other]
  have h := owner_iff_not (D.ids_ne s) key
  by_cases hk : owner key (D.config s).id (D.config s.other).id = (D.config s).id
  · simp [hk, h.mp hk]
  · have : owner key (D.config s.other).id (D.config s).id = (D.config s.other).id := by
      by_contra hno
      exact hk (h.mpr hno)
    simp [hk, this]

theorem Deployment.owns_parity (D : Deployment) (s : Side) (j k : UInt64) :
    D.owns s j = D.owns s k ↔ j % 2 = k % 2 := by
  rw [← owner_parity (D.ids_ne s) j k]
  unfold Deployment.owns
  rcases owner_mem j (D.config s).id (D.config s.other).id with hj | hj <;>
    rcases owner_mem k (D.config s).id (D.config s.other).id with hk | hk <;>
    simp [hj, hk, D.ids_ne s, (D.ids_ne s).symm]

theorem Node.Linked.owns_eq {D : Deployment} {s : Side} {n : Node} (h : Linked (D.config s) n) :
    n.owns = D.owns s := by
  funext k
  unfold Node.owns Deployment.owns
  rw [h.config, D.peers s]

section
variable (L : Libsodium) (debug : Text → Text)

@[simp] theorem Pair.step_out (p : Pair) (s : Side) (ev : Event) :
    (p.step L debug (s, ev)).1 = ((p.nodes s).step L debug ev p.trace).out := rfl

@[simp] theorem Pair.step_same (p : Pair) (s : Side) (ev : Event) :
    (p.step L debug (s, ev)).2.nodes s = ((p.nodes s).step L debug ev p.trace).node :=
  Function.update_self ..

theorem Pair.step_ne (p : Pair) {s s' : Side} (h : s' ≠ s) (ev : Event) :
    (p.step L debug (s, ev)).2.nodes s' = p.nodes s' :=
  Function.update_of_ne h ..

theorem Pair.step_each {P : Side → Node → Prop} {p : Pair} (hp : ∀ s, P s (p.nodes s)) (x : Side × Event)
    (h : P x.1 ((p.nodes x.1).step L debug x.2 p.trace).node) : ∀ s, P s ((p.step L debug x).2.nodes s) := by
  intro s
  obtain ⟨s', ev⟩ := x
  by_cases hs : s = s'
  · subst hs
    rw [Pair.step_same]
    exact h
  · rw [Pair.step_ne L debug p hs ev]
    exact hp s

theorem Deployment.Started.linked {D : Deployment} {p : Pair} (h : D.Started p) (es : List (Side × Event))
    (s : Side) : Node.Linked (D.config s) ((Mealy.run (Pair.step L debug) p es).nodes s) := by
  refine Mealy.run_inv (Pair.step L debug) (I := fun q => ∀ s, Node.Linked (D.config s) (q.nodes s)) ?_ ?_ es s
  · intro s
    obtain ⟨setup, rc, heap, hs⟩ := h s
    exact (Node.start_ok hs).1
  · intro q x hq
    exact Pair.step_each (P := fun s n => Node.Linked (D.config s) n) L debug hq x
      ((hq x.1).step L debug x.2 q.trace)

end

/-- The pair as it comes up when no host refuses. -/
def Node.boot (c : Config) : Node where
  config := c
  store := KeyStore.ofLinks c.id [((c.peerId, ⟨epochBits, epochBits_le⟩), c.key)]
  epoch := ⟨epochBits, epochBits_le⟩
  kv := .empty
  clients := ∅
  pending := ∅
  nextCorr := 0
  diag := .init
  running := true

def Deployment.boot (D : Deployment) : Pair := ⟨fun s => .boot (D.config s), []⟩

theorem Node.start_boot (c : Config) (version : String) :
    start c ⟨0, 32, 12, 16, 1, version⟩ 0 ⟨true, true⟩ = .ok (boot c) := by
  have hnew : KeyStore.new c.id 0 = .ok ⟨c.id, ∅, KeyStore.empty_len_le⟩ := rfl
  have hepoch : Epoch.new epochBits = .ok ⟨epochBits, epochBits_le⟩ := rfl
  have hroom : KeyStore.len ⟨c.id, ∅, KeyStore.empty_len_le⟩ < maxEntries := Nat.zero_lt_succ _
  have hinst : KeyStore.install ⟨c.id, ∅, KeyStore.empty_len_le⟩ c.peerId ⟨epochBits, epochBits_le⟩ c.key
      ⟨true, true⟩ = (.ok (), (boot c).store) :=
    Prod.ext ((install_ok_iff _).mpr ⟨⟨rfl, rfl⟩, Or.inr hroom⟩) rfl
  unfold start
  simp only [sodiumInit, requireAesGcm, if_true, hepoch, hnew, hinst]
  rfl

def Deployment.ofIds (a b : UInt16) (h : a ≠ b) (key : Key) : Deployment where
  config s := if s = .left then ⟨a, b, [], key, h⟩ else ⟨b, a, [], key, h.symm⟩
  peers s := by cases s <;> rfl

theorem Deployment.boot_started (D : Deployment) :
    D.Started D.boot := fun s => ⟨_, _, _, Node.start_boot (D.config s) ""⟩

theorem Deployment.Started.blank {D : Deployment} {p : Pair} (h : D.Started p) (s : Side) :
    Node.Blank (p.nodes s) := by
  obtain ⟨setup, rc, heap, hs⟩ := h s
  exact (Node.start_ok hs).2

end Paxe.SixSeven

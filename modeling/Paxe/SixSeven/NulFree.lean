import Paxe.SixSeven.Hop
import Paxe.SixSeven.Reading

/-!
# No NUL gets in, and none gets out

A frame from a stream has no NUL, and no text that a node makes of texts
without one has any: not a value, a receipt, a message to the peer, nor what a
client is sent.
-/

namespace Paxe.SixSeven
open Wire Str

/-! ## What comes in -/

/-- Without a NUL anywhere. -/
structure Frame.NulFree (f : Frame) : Prop where
  command : '\x00' ∉ f.command
  headers : ∀ h ∈ f.headers, '\x00' ∉ h.1 ∧ '\x00' ∉ h.2
  body : '\x00' ∉ f.body

theorem unescape_nul {s : Text} (h : '\x00' ∉ s) : '\x00' ∉ unescape s := by
  induction s using unescape.induct with
  | case1 => exact h
  | case2 c => exact h
  | case3 c d s hc ih =>
    rw [List.mem_cons, not_or] at h
    rw [unescape, if_pos hc]
    simp [h.1, ih h.2]
  | case4 c s hc ih => simp_all [unescape]
  | case5 c s hc _ ih => simp_all [unescape]
  | case6 c s hc _ _ ih => simp_all [unescape]
  | case7 c s hc _ _ _ ih => simp_all [unescape]
  | case8 c d s hc _ _ _ _ ih => simp_all [unescape]

theorem headerOf_nul {line : Text} {h : Text × Text} (hl : '\x00' ∉ line) (hh : headerOf line = some h) :
    '\x00' ∉ h.1 ∧ '\x00' ∉ h.2 := by
  unfold headerOf at hh
  dsimp only at hh
  split at hh
  · cases hh
  · obtain ⟨⟨k, v⟩, hs, rfl⟩ := Option.map_eq_some_iff.mp hh
    obtain ⟨hk, hv⟩ := splitOnce_subset hs
    have hline : '\x00' ∉ trimCr line := fun hm => hl (trimEndMatches_subset _ _ hm)
    exact ⟨unescape_nul fun hm => hline (hk hm), unescape_nul fun hm => hline (hv hm)⟩

theorem splitBlank_subset {t a b : Text} (h : splitBlank t = some (a, b)) : a ⊆ t ∧ b ⊆ t := by
  induction t generalizing a with
  | nil => cases h
  | cons c t ih =>
    rw [splitBlank] at h
    split at h
    · cases h
      exact ⟨List.nil_subset _, fun x hx => List.mem_cons_of_mem _ (List.mem_of_mem_tail hx)⟩
    · obtain ⟨⟨u, v⟩, hs, he⟩ := Option.map_eq_some_iff.mp h
      cases he
      obtain ⟨hu, hv⟩ := ih hs
      exact ⟨List.cons_subset_cons c hu, fun x hx => List.mem_cons_of_mem _ (hv hx)⟩

theorem parseFrame_nulFree {t : Text} (ht : '\x00' ∉ t) : (parseFrame t).NulFree := by
  obtain ⟨hhead, hbody⟩ : '\x00' ∉ ((splitBlank t).getD (t, [])).1 ∧ '\x00' ∉ ((splitBlank t).getD (t, [])).2 := by
    cases hs : splitBlank t with
    | none => exact ⟨ht, List.not_mem_nil⟩
    | some x =>
      obtain ⟨hx, hy⟩ := splitBlank_subset hs
      exact ⟨fun hm => ht (hx hm), fun hm => ht (hy hm)⟩
  unfold parseFrame
  dsimp only
  have hline : ∀ l ∈ (((splitBlank t).getD (t, [])).1).splitOn '\n', '\x00' ∉ l :=
    fun l hl hm => hhead (subset_of_mem_splitOn hl hm)
  generalize (((splitBlank t).getD (t, [])).1).splitOn '\n' = ls at hline
  cases ls with
  | nil => exact ⟨List.not_mem_nil, by simp, hbody⟩
  | cons command lines =>
    refine ⟨fun hm => hline command List.mem_cons_self (trimEndMatches_subset _ _ hm), fun h hh => ?_, hbody⟩
    obtain ⟨l, hl, hlh⟩ := List.mem_filterMap.mp hh
    exact headerOf_nul (hline l (List.mem_cons_of_mem _ hl)) hlh

theorem readFrame_nulFree {ε : Type} {r r' : Stream.Reader ε} {f : Frame} (h : readFrame r = (.frame f, r')) :
    f.NulFree := by
  obtain ⟨fillers, text, -, -, ht, -, rfl⟩ := readFrame_frame h
  exact parseFrame_nulFree fun hm => ht (trimStartMatches_subset _ _ hm)

theorem Frame.NulFree.receipt {f : Frame} (h : f.NulFree) : ∀ r ∈ f.receipt, '\x00' ∉ r := by
  intro r hr
  obtain ⟨⟨k, v⟩, hx, rfl⟩ := Option.map_eq_some_iff.mp hr
  exact (h.headers _ (List.mem_of_find?_eq_some hx)).2

/-! ## What is made of it -/

theorem nul_append {a b : Text} (ha : '\x00' ∉ a) (hb : '\x00' ∉ b) : '\x00' ∉ a ++ b := by
  simp [ha, hb]

theorem nul_showNat (n : Nat) : '\x00' ∉ showNat n := by
  intro h
  cases showNat_digit h

def Op.NulFree : Op → Prop
  | .put _ v => '\x00' ∉ v
  | _ => True

def Reply.NulFree : Reply → Prop
  | .value v => '\x00' ∉ v
  | .err e => '\x00' ∉ e
  | _ => True

def Peer.NulFree : Peer → Prop
  | .request _ op => op.NulFree
  | .response _ reply => reply.NulFree

theorem Reply.NulFree.body {reply : Reply} (h : reply.NulFree) : '\x00' ∉ reply.body := by
  cases reply with
  | value v => exact h
  | ok => decide
  | nil => decide
  | err e => exact nul_append (by decide) h

theorem Peer.NulFree.encode {m : Peer} (h : m.NulFree) : '\x00' ∉ m.encode := by
  cases m with
  | request corr op =>
    refine nul_append (nul_append (nul_append (by decide) (nul_showNat _)) (by decide)) ?_
    cases op with
    | get k => exact nul_append (by decide) (nul_showNat _)
    | rm k => exact nul_append (by decide) (nul_showNat _)
    | put k v => exact nul_append (nul_append (nul_append (by decide) (nul_showNat _)) (by decide)) h
  | response corr reply =>
    refine nul_append (nul_append (nul_append (by decide) (nul_showNat _)) (by decide)) ?_
    cases reply with
    | value v => exact nul_append (by decide) h
    | ok => decide
    | nil => decide
    | err e => exact nul_append (by decide) h

/-- How the host prints a text adds no NUL. -/
def Prints (debug : Text → Text) : Prop := ∀ s, '\x00' ∉ s → '\x00' ∉ debug s

section
variable {debug : Text → Text} (hdebug : Prints debug)
include hdebug

theorem Op.parseKey_nul {s e : Text} (hs : '\x00' ∉ s) (h : parseKey debug s = .error e) : '\x00' ∉ e := by
  unfold parseKey at h
  dsimp only at h
  split at h
  · cases h
    decide
  · split at h
    · cases h
    · cases h
      exact nul_append (by decide) (hdebug _ fun hm => hs (trim_subset s hm))

theorem map_parseKey_nul {s : Text} (hs : '\x00' ∉ s) {f : UInt64 → Op} {e : Text}
    (h : (Op.parseKey debug s).map f = .error e) : '\x00' ∉ e := by
  cases hk : Op.parseKey debug s with
  | ok k =>
    rw [hk] at h
    cases h
  | error e' =>
    rw [hk] at h
    cases h
    exact Op.parseKey_nul hdebug hs hk

/-- Neither the operation nor the error has a NUL. -/
theorem Op.parseVerb_nul {size : Nat} {verb rest : Text} (hv : '\x00' ∉ verb) (hr : '\x00' ∉ rest) :
    (∀ op, parseVerb debug size verb rest = .ok op → op.NulFree) ∧
      ∀ e, parseVerb debug size verb rest = .error e → '\x00' ∉ e := by
  unfold parseVerb
  dsimp only
  split
  · refine ⟨fun op h => ?_, fun e h => map_parseKey_nul hdebug hr h⟩
    obtain ⟨k, -, rfl⟩ := Except.map_eq_ok h
    trivial
  · split
    · refine ⟨fun op h => ?_, fun e h => map_parseKey_nul hdebug hr h⟩
      obtain ⟨k, -, rfl⟩ := Except.map_eq_ok h
      trivial
    · split
      · split
        · refine ⟨fun op h => (by cases h), fun e h => ?_⟩
          cases h
          refine nul_append (nul_append (nul_append (nul_append ?_ (nul_showNat _)) ?_) (nul_showNat _)) ?_
          · decide
          · decide
          · decide
        · split
          · refine ⟨fun op h => (by cases h), fun e h => ?_⟩
            cases h
            decide
          · rename_i k v hs
            obtain ⟨hk, hv⟩ := splitOnce_subset hs
            refine ⟨fun op h => ?_, fun e h => map_parseKey_nul hdebug (fun hm => hr (hk hm)) h⟩
            obtain ⟨j, -, rfl⟩ := Except.map_eq_ok h
            exact fun hm => hr (hv hm)
      · split
        · refine ⟨fun op h => (by cases h), fun e h => ?_⟩
          cases h
          decide
        · refine ⟨fun op h => (by cases h), fun e h => ?_⟩
          cases h
          exact nul_append (nul_append (by decide) (hdebug _ (nul_toAsciiUppercase hv))) (by decide)

theorem Op.parse_nul {body : Text} (hb : '\x00' ∉ body) :
    (∀ op, parse debug body = .ok op → op.NulFree) ∧ ∀ e, parse debug body = .error e → '\x00' ∉ e := by
  have hb : '\x00' ∉ trimStart body := fun hm => hb ((trimStart_suffix body).subset hm)
  unfold parse
  dsimp only
  split
  · rename_i v r hs
    obtain ⟨hv, hr⟩ := splitOnce_subset hs
    exact parseVerb_nul hdebug (fun hm => hb (hv hm)) fun hm => hb (hr ((trimStart_suffix r).subset hm))
  · exact parseVerb_nul hdebug hb List.not_mem_nil

end

/-! ## What is kept -/

def Store.NulFree (s : Store) : Prop := ∀ (k : UInt64) (v : Text), s.entries[k]? = some v → '\x00' ∉ v

theorem Store.execute_nul {s : Store} (h : s.NulFree) {op : Op} (hop : op.NulFree) :
    (s.execute op).1.NulFree ∧ (s.execute op).2.NulFree := by
  cases op with
  | get k =>
    unfold execute
    dsimp only
    split
    · rename_i v hv
      exact ⟨h k v hv, h⟩
    · exact ⟨trivial, h⟩
  | rm k =>
    unfold execute
    dsimp only
    split
    · refine ⟨trivial, fun j v hv => ?_⟩
      dsimp only at hv
      rw [Table.lookup_erase] at hv
      split at hv
      · cases hv
      · exact h j v hv
    · exact ⟨trivial, h⟩
  | put k v =>
    unfold execute
    dsimp only
    split
    · refine ⟨nul_append (nul_append ?_ (nul_showNat _)) ?_, h⟩
      · decide
      · decide
    · refine ⟨trivial, fun j w hw => ?_⟩
      dsimp only at hw
      rw [Table.lookup_insert] at hw
      split at hw
      · cases hw
        exact hop
      · exact h j w hw

/-- No value and no receipt that waits has a NUL. -/
structure Node.NulFree (n : Node) : Prop where
  kv : n.kv.NulFree
  pending : ∀ (c : UInt64) (p : Pending), n.pending[c]? = some p → ∀ r ∈ p.receipt, '\x00' ∉ r

/-! ## What goes out -/

/-- A frame that can be read back, a message without a NUL, or a line on
stderr. -/
def Output.Clean (L : Libsodium) (n : Node) : Output → Prop
  | .write _ f => f.Clean
  | .datagram b => ∃ (m : Peer) (t : Trace), m.NulFree ∧
      (Dek.seal L n.store n.config.peerId peerChannel n.epoch (toBytes m.encode) t).result = .ok b
  | .log _ => True

structure Node.Keeps (L : Libsodium) (n : Node) (out : List Output) (n' : Node) : Prop where
  node : n'.NulFree
  out : ∀ o ∈ out, o.Clean L n

/-- The host's own texts. -/
def Io.NulFree (io : Io) : Prop := ∀ e ∈ io.sendTo, '\x00' ∉ e

theorem message_clean {receipt : Option Text} (hr : ∀ r ∈ receipt, '\x00' ∉ r) {reply : Reply} (h : reply.NulFree) :
    (message receipt reply).Clean where
  command := by simp
  lineEnds := by simp
  nul := by simp
  headers := by
    intro x hx
    rcases List.mem_append.mp hx with hx | hx
    · simp only [List.mem_cons, List.not_mem_nil, or_false] at hx
      rcases hx with rfl | rfl | rfl <;> decide
    · cases receipt with
      | none => cases hx
      | some r =>
        cases List.mem_singleton.mp hx
        exact ⟨by simp, hr r rfl⟩
  body := h.body

theorem connected_clean : Node.connected.Clean := by
  unfold Node.connected
  exact ⟨by simp, by simp, by simp, by simp, List.not_mem_nil⟩

theorem receipt_clean {r : Text} (hr : '\x00' ∉ r) :
    (⟨"RECEIPT".toList, [("receipt-id".toList, r)], []⟩ : Frame).Clean where
  command := by simp
  lineEnds := by simp
  nul := by simp
  headers := by
    intro x hx
    cases List.mem_singleton.mp hx
    exact ⟨by simp, hr⟩
  body := List.not_mem_nil

theorem unsupported_clean {command : Text} (h : '\x00' ∉ command) : (Node.unsupported command).Clean where
  command := by simp [Node.unsupported]
  lineEnds := by simp [Node.unsupported]
  nul := by simp [Node.unsupported]
  headers := by
    intro x hx
    cases List.mem_singleton.mp hx
    simp
  body := nul_append (nul_append (by decide) h) (by decide)

theorem oversize_nul (n : Nat) : '\x00' ∉ (Dek.SealError.oversize n).display.toList := by
  unfold Dek.SealError.display
  simp only [String.toList_append, Nat.toString_eq_repr, Nat.toList_repr]
  refine nul_append (nul_append ?_ (nul_showNat n)) ?_
  · simp
  · simp

theorem noKey_nul : '\x00' ∉ Dek.SealError.noKey.display.toList := by
  unfold Dek.SealError.display
  simp

namespace Node

section
variable {L : Libsodium} {n : Node} (hn : n.NulFree)
include hn

theorem keeps_nil : Keeps L n [] n := ⟨hn, by simp⟩

theorem writeFrame_keeps (conn : UInt64) {frame : Frame} (hf : frame.Clean) (written : Bool) :
    Keeps L n (n.writeFrame conn frame written).1 (n.writeFrame conn frame written).2 := by
  obtain ⟨ho, clients, -, hx⟩ := writeFrame_spec n conn frame written
  rw [hx]
  refine ⟨⟨hn.kv, hn.pending⟩, fun o hm => ?_⟩
  rcases ho with ho | ho
  · rw [ho] at hm
    cases hm
  · rw [ho] at hm
    cases List.mem_singleton.mp hm
    exact hf

theorem replyToClient_keeps (conn : UInt64) {receipt : Option Text} (hr : ∀ r ∈ receipt, '\x00' ∉ r) {reply : Reply}
    (h : reply.NulFree) (written : Bool) :
    Keeps L n (n.replyToClient conn receipt reply written).1 (n.replyToClient conn receipt reply written).2 :=
  writeFrame_keeps hn conn (message_clean hr h) written

theorem writeReceipt_keeps (conn : UInt64) {receipt : Option Text} (hr : ∀ r ∈ receipt, '\x00' ∉ r)
    (written : Bool) :
    Keeps L n (n.writeReceipt conn receipt written).1 (n.writeReceipt conn receipt written).2 := by
  cases receipt with
  | none => exact keeps_nil hn
  | some r => exact writeFrame_keeps hn conn (receipt_clean (hr r rfl)) written

end

section
variable {L : Libsodium} (hL : L.Contract)
include hL

theorem seal_error_nul {S : KeyStore} {toId : UInt16} {channel : UInt32} {e : Epoch} {p : Bytes} {t : Trace}
    {err : Dek.SealError} (h : (Dek.seal L S toId channel e p t).result = .err err) :
    '\x00' ∉ err.display.toList := by
  rw [dekSeal_result hL] at h
  split at h
  · cases h
    exact oversize_nul _
  · cases hk : S.slots (toId, e) with
    | none =>
      rw [hk] at h
      cases h
      exact noKey_nul
    | some k =>
      rw [hk] at h
      cases h

theorem sendToPeer_clean {n : Node} (haddr : '\x00' ∉ n.config.peerAddr) {m : Peer} (hm : m.NulFree)
    {sendTo : Option Text} (hio : ∀ e ∈ sendTo, '\x00' ∉ e) (t : Trace) :
    (∀ o ∈ (n.sendToPeer L m.encode sendTo t).out, o.Clean L n) ∧
      ∀ e, (n.sendToPeer L m.encode sendTo t).result = .err e → '\x00' ∉ e := by
  constructor
  · intro o ho
    rcases sendToPeer_carries (L := L) n m sendTo t with hc | ⟨frame, t', hs, hc⟩
    · rw [hc] at ho
      cases ho
    · rw [hc] at ho
      cases List.mem_singleton.mp ho
      exact ⟨m, t', hm, hs⟩
  · intro e he
    unfold sendToPeer at he
    dsimp only at he
    split at he
    · cases he
    · rename_i err hs
      cases he
      exact nul_append (nul_append (nul_append (by decide) (nul_showNat _)) (by decide)) (seal_error_nul hL hs)
    · cases sendTo with
      | none => cases he
      | some why =>
        cases he
        exact nul_append (nul_append (nul_append (by decide) haddr) (by decide)) (hio why rfl)

/-! ## One event -/

variable {n : Node} (hn : n.NulFree) (haddr : '\x00' ∉ n.config.peerAddr) {io : Io} (hio : io.NulFree)
include hn haddr hio

theorem forward_keeps (conn : UInt64) {receipt : Option Text} (hr : ∀ r ∈ receipt, '\x00' ∉ r) {op : Op}
    (hop : op.NulFree) (t : Trace) :
    Keeps L n (n.forward L conn receipt op io t).out (n.forward L conn receipt op io t).node := by
  have hn' : ({ n with nextCorr := n.nextCorr + 1 } : Node).NulFree := ⟨hn.kv, hn.pending⟩
  obtain ⟨hout, herr⟩ := sendToPeer_clean hL (n := { n with nextCorr := n.nextCorr + 1 }) haddr
    (m := .request (n.nextCorr + 1) op) hop hio t
  unfold forward
  dsimp only
  split
  · exact ⟨⟨hn.kv, hn.pending⟩, hout⟩
  · rename_i e he
    obtain ⟨hnode, hw⟩ :=
      replyToClient_keeps (L := L) hn' conn hr (show Reply.NulFree (.err e) from herr e he) io.written
    refine ⟨hnode, fun o ho => ?_⟩
    rcases List.mem_append.mp ho with ho | ho
    · exact hout o ho
    · exact hw o ho
  · refine ⟨⟨hn.kv, fun c p hp => ?_⟩, hout⟩
    dsimp only at hp
    rw [Table.lookup_insert] at hp
    split at hp
    · cases hp
      exact hr
    · exact hn.pending c p hp

theorem handleRequest_keeps (corr : UInt64) {op : Op} (hop : op.NulFree) (t : Trace) :
    Keeps L n (n.handleRequest L corr op io t).out (n.handleRequest L corr op io t).node := by
  -- The answer and the node after it, whoever owns the key.
  obtain ⟨reply, kv, hreply, hkv, hr⟩ : ∃ reply kv, reply.NulFree ∧ Store.NulFree kv ∧
      (if n.owns op.key = true then ((n.kv.execute op).1, { n with kv := (n.kv.execute op).2 })
      else (.err ("key ".toList ++ showU64 op.key ++ " does not belong to node ".toList ++
        showNat n.config.id.toNat), n)) =
        (reply, { n with kv := kv }) := by
    by_cases hown : n.owns op.key = true
    · obtain ⟨h1, h2⟩ := Store.execute_nul hn.kv hop
      exact ⟨_, _, h1, h2, if_pos hown⟩
    · refine ⟨_, n.kv, ?_, hn.kv, if_neg hown⟩
      exact nul_append (nul_append (nul_append (by decide) (nul_showNat _)) (by decide)) (nul_showNat _)
  obtain ⟨hout, -⟩ := sendToPeer_clean hL (n := { n with kv := kv }) haddr (m := .response corr reply) hreply hio t
  unfold handleRequest
  dsimp only
  rw [hr]
  dsimp only
  split
  · exact ⟨⟨hkv, hn.pending⟩, hout⟩
  · refine ⟨⟨hkv, hn.pending⟩, fun o ho => ?_⟩
    rcases List.mem_append.mp ho with ho | ho
    · exact hout o ho
    · cases List.mem_singleton.mp ho
      trivial
  · exact ⟨⟨hkv, hn.pending⟩, hout⟩

omit hL haddr hio in
theorem handleResponse_keeps (corr : UInt64) {reply : Reply} (h : reply.NulFree) (t : Trace) :
    Keeps L n (n.handleResponse corr reply io t).out (n.handleResponse corr reply io t).node := by
  unfold handleResponse
  dsimp only
  split
  · exact keeps_nil hn
  · rename_i p hp
    have hn' : ({ n with pending := n.pending.erase corr } : Node).NulFree := by
      refine ⟨hn.kv, fun c q hq => ?_⟩
      dsimp only at hq
      rw [Table.lookup_erase] at hq
      split at hq
      · cases hq
      · exact hn.pending c q hq
    obtain ⟨hnode, hw⟩ := replyToClient_keeps (L := L) hn' p.conn (hn.pending corr p hp) h io.written
    exact ⟨hnode, hw⟩

variable {debug : Text → Text}

theorem handleDatagram_keeps {bytes : Bytes} (hh : ∀ m, Hears L debug n bytes m → m.NulFree) (t : Trace) :
    Keeps L n (n.handleDatagram L debug bytes io t).out (n.handleDatagram L debug bytes io t).node := by
  have hq : ∀ (out : List Output), (∀ o ∈ out, ∃ line, o = .log line) →
      Keeps L n out { n with diag := (Dek.open L n.store bytes n.diag t).diag } := by
    intro out ho
    refine ⟨⟨hn.kv, hn.pending⟩, fun o hm => ?_⟩
    obtain ⟨line, rfl⟩ := ho o hm
    trivial
  unfold handleDatagram
  dsimp only
  split
  · exact ⟨⟨hn.kv, hn.pending⟩, by simp⟩
  · exact hq [] (by simp)
  · rename_i header flags payload ho
    split
    · exact hq [] (by simp)
    · rename_i hfrom
      rw [not_or, not_not, not_not] at hfrom
      split
      · exact hq [] (by simp)
      · rename_i text htext
        have hears : ∀ m, Peer.decode debug text = .ok m → m.NulFree :=
          fun m hm => hh m ⟨n.diag, t, header, flags, payload, text, ho, hfrom.1, hfrom.2, htext, hm⟩
        have hn' : ({ n with diag := (Dek.open L n.store bytes n.diag t).diag } : Node).NulFree :=
          ⟨hn.kv, hn.pending⟩
        split
        · exact hq _ (by simp)
        · rename_i corr op hm
          obtain ⟨h1, h2⟩ := handleRequest_keeps hL hn' haddr hio corr (hears _ hm)
            (Dek.open L n.store bytes n.diag t).trace
          exact ⟨h1, h2⟩
        · rename_i corr reply hm
          obtain ⟨h1, h2⟩ := @handleResponse_keeps L _ hn' io corr reply (hears _ hm)
            (Dek.open L n.store bytes n.diag t).trace
          exact ⟨h1, h2⟩

variable (hdebug : Prints debug)
include hdebug

theorem handleSend_keeps (conn : UInt64) {receipt : Option Text} (hr : ∀ r ∈ receipt, '\x00' ∉ r) {body : Text}
    (hb : '\x00' ∉ body) (t : Trace) :
    Keeps L n (n.handleSend L debug conn receipt body io t).out
      (n.handleSend L debug conn receipt body io t).node := by
  obtain ⟨hok, herr⟩ := Op.parse_nul hdebug hb
  have hsize : n.sizeReply.NulFree :=
    nul_append (nul_append (nul_append (nul_append (nul_showNat _) (by decide)) (nul_showNat _)) (by decide))
      (nul_showNat _)
  unfold handleSend
  dsimp only
  split
  · exact replyToClient_keeps hn conn hr hsize io.written
  · split
    · rename_i e he
      exact replyToClient_keeps hn conn hr (show Reply.NulFree (.err e) from herr e he) io.written
    · rename_i op hop
      split
      · obtain ⟨h1, h2⟩ := Store.execute_nul hn.kv (hok op hop)
        have hn' : ({ n with kv := (n.kv.execute op).2 } : Node).NulFree := ⟨h2, hn.pending⟩
        obtain ⟨hnode, hw⟩ := replyToClient_keeps (L := L) hn' conn hr h1 io.written
        exact ⟨hnode, hw⟩
      · exact forward_keeps hL hn haddr hio conn hr (hok op hop) t

theorem handleClientFrame_keeps (conn : UInt64) {frame : Frame} (hf : frame.NulFree) (t : Trace) :
    Keeps L n (n.handleClientFrame L debug conn frame io t).out
      (n.handleClientFrame L debug conn frame io t).node := by
  have hr := writeReceipt_keeps (L := L) hn conn hf.receipt io.written
  unfold handleClientFrame
  dsimp only
  split
  · exact writeFrame_keeps hn conn connected_clean io.written
  · split
    · exact hr
    · split
      · exact ⟨⟨hr.node.kv, hr.node.pending⟩, hr.out⟩
      · split
        · exact handleSend_keeps hL hn haddr hio hdebug conn hf.receipt hf.body t
        · exact writeFrame_keeps hn conn (unsupported_clean (nul_toAsciiUppercase hf.command)) io.written

end

end Node

/-- A client's frame is one that was read from it, and what the host reports is
text. -/
def Event.Fed : Event → Prop
  | .clientFrame _ frame io => (∃ r r' : Stream.Reader Text, readFrame r = (.frame frame, r')) ∧ io.NulFree
  | .datagram _ io => io.NulFree
  | _ => True

namespace Node

theorem expire_keeps (L : Libsodium) {n : Node} (hn : n.NulFree) (written : UInt64 → Bool) (cs : List UInt64) :
    Keeps L n (expire written n cs).1 (expire written n cs).2 := by
  obtain ⟨answered, clients, pending, he, ha, -, hl⟩ := expire_spec written n cs
  have hout : n.timedOut.NulFree :=
    nul_append (nul_append (nul_append (by decide) (nul_showNat _)) (by decide)) (by decide)
  rw [he]
  refine ⟨⟨hn.kv, fun c p hp => ?_⟩, fun o ho => ?_⟩
  · dsimp only at hp
    rw [hl c] at hp
    split at hp
    · cases hp
    · exact hn.pending c p hp
  · obtain ⟨x, hx, rfl⟩ := List.mem_map.mp ho
    exact message_clean (hn.pending x.1 x.2 (ha x hx)) hout

theorem step_keeps {L : Libsodium} (hL : L.Contract) {debug : Text → Text} (hdebug : Prints debug) {n : Node}
    (hn : n.NulFree) (haddr : '\x00' ∉ n.config.peerAddr) {ev : Event} (hev : ev.Fed)
    (hh : ∀ bytes io m, ev = .datagram bytes io → Hears L debug n bytes m → m.NulFree) (t : Trace) :
    Keeps L n (n.step L debug ev t).out (n.step L debug ev t).node := by
  unfold step
  split
  · cases ev with
    | clientUp conn => exact ⟨⟨hn.kv, hn.pending⟩, by simp⟩
    | clientDown conn =>
      refine ⟨⟨hn.kv, fun c p hp => ?_⟩, by simp⟩
      dsimp only at hp
      rw [Std.TreeMap.getElem?_filter', Option.filter_eq_some_iff] at hp
      exact hn.pending c p hp.1
    | clientFrame conn frame io =>
      obtain ⟨⟨r, r', hr⟩, hio⟩ := hev
      exact handleClientFrame_keeps hL hn haddr hio hdebug conn (readFrame_nulFree hr) t
    | datagram bytes io => exact handleDatagram_keeps hL hn haddr hev (fun m hm => hh bytes io m rfl hm) t
    | tick now rank written => exact expire_keeps L hn written _
  · exact keeps_nil hn

end Node

end Paxe.SixSeven

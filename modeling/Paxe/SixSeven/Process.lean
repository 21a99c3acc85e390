import Paxe.SixSeven.History
import Paxe.SixSeven.Reading

/-!
# The threads of a process (`run` in `src/bin/six-seven-server/main.rs`)

An acceptor, one reader for each connection, the UDP reader and the ticker post
to one queue, and the core thread takes from it. Any interleaving of the threads
of two processes is a run of the pair; and whatever the interleaving, the core
thread sees every connection come up, then its frames in order, then go down.
-/

namespace Paxe.SixSeven
open Wire Str Stream

def maxDatagram : Nat := 65507

/-! ## The producers -/

/-- What a thread posts (`enum Event`). The answers of the host come when the core
thread handles it. -/
inductive Posting where
  | clientUp (conn : UInt64)
  | clientFrame (conn : UInt64) (frame : Frame)
  | clientDown (conn : UInt64)
  | datagram (bytes : Bytes)
  | tick
  deriving DecidableEq, Repr

/-- What the host answers while a posting is handled. -/
structure Host where
  io : Io
  rank : UInt64 → Nat
  written : UInt64 → Bool

def Posting.event (h : Host) : Posting → Event
  | .clientUp conn => .clientUp conn
  | .clientFrame conn frame => .clientFrame conn frame h.io
  | .clientDown conn => .clientDown conn
  | .datagram bytes => .datagram bytes h.io
  | .tick => .tick h.io.now h.rank h.written

section
variable (ε : Type)

/-- One turn of a thread. The text of an error is how it is displayed. -/
inductive Action where
  | accept (stream : Reader ε)
  | acceptFailed (e : Text)
  | cloneFailed (e : Text)
  | read (conn : UInt64)
  | recv (bytes : Bytes)
  | recvFailed (e : Text)
  | wake
  | handle (host : Host)

/-- The acceptor's counter, what each reader has still to read, whether the UDP
reader runs, and the queue. -/
structure Threads where
  nextId : UInt64
  readers : UInt64 → Option (Reader ε)
  udp : Bool
  queue : List Posting

def Threads.start : Threads ε := ⟨0, fun _ => none, true, []⟩

end

namespace Threads

variable {ε : Type} (display : ReadError ε → Text)

def post (ts : Threads ε) (x : Posting) : Threads ε := { ts with queue := ts.queue ++ [x] }

def read (ts : Threads ε) (conn : UInt64) : List Output × Threads ε :=
  match ts.readers conn with
  | none => ([], ts)
  | some r =>
    match readFrame r with
    | (.frame f, r') =>
      ([], { ts with readers := Function.update ts.readers conn (some r') }.post (.clientFrame conn f))
    | (.none, _) => ([], { ts with readers := Function.update ts.readers conn none }.post (.clientDown conn))
    | (.error e, _) =>
      ([.log ("client ".toList ++ showU64 conn ++ ": ".toList ++ display e)],
        { ts with readers := Function.update ts.readers conn none }.post (.clientDown conn))

/-- The core thread takes the first posting; its own work is `Pair.step`. -/
def step (ts : Threads ε) : Action ε → List Output × Threads ε
  | .accept stream =>
    let conn := ts.nextId + 1
    ([], { ts with nextId := conn, readers := Function.update ts.readers conn (some stream) }.post (.clientUp conn))
  | .acceptFailed e => ([.log ("accept: ".toList ++ e)], ts)
  | .cloneFailed e => ([.log ("clone client socket: ".toList ++ e)], { ts with nextId := ts.nextId + 1 })
  | .read conn => ts.read display conn
  | .recv bytes => ([], if ts.udp then ts.post (.datagram (bytes.take maxDatagram)) else ts)
  | .recvFailed e => if ts.udp then ([.log ("udp recv: ".toList ++ e)], { ts with udp := false }) else ([], ts)
  | .wake => ([], ts.post .tick)
  | .handle _ => ([], { ts with queue := ts.queue.tail })

end Threads

/-! ## Two processes -/

structure System (ε : Type) where
  threads : Side → Threads ε
  pair : Pair

namespace System

variable {ε : Type}

def start (p : Pair) : System ε := ⟨fun _ => .start ε, p⟩

def event (sys : System ε) : Side × Action ε → Option Event
  | (s, .handle host) => (sys.threads s).queue.head?.map (·.event host)
  | _ => none

def step (L : Libsodium) (debug : Text → Text) (display : ReadError ε → Text) (sys : System ε)
    (x : Side × Action ε) : List Output × System ε :=
  let r := (sys.threads x.1).step display x.2
  let threads := Function.update sys.threads x.1 r.2
  match sys.event x with
  | none => (r.1, ⟨threads, sys.pair⟩)
  | some ev =>
    let q := sys.pair.step L debug (x.1, ev)
    (r.1 ++ q.1, ⟨threads, q.2⟩)

end System

/-! ## What was posted -/

namespace Threads

section
variable {ε : Type} (display : ReadError ε → Text)

def taken : Threads ε → List (Action ε) → List Posting
  | _, [] => []
  | ts, a :: as =>
    (match a with
      | .handle _ => ts.queue.head?.toList
      | _ => []) ++ taken (ts.step display a).2 as

def accepted : UInt64 → List (Action ε) → List (UInt64 × Reader ε)
  | _, [] => []
  | id, .accept stream :: as => (id + 1, stream) :: accepted (id + 1) as
  | id, .cloneFailed _ :: as => accepted (id + 1) as
  | id, _ :: as => accepted id as

def attempts : List (Action ε) → Nat
  | [] => 0
  | .accept _ :: as => attempts as + 1
  | .cloneFailed _ :: as => attempts as + 1
  | _ :: as => attempts as

def rest (conn : UInt64) : Option (Reader ε) → List Posting
  | none => []
  | some r => (readFrames r).1.map (.clientFrame conn) ++ [.clientDown conn]

end

end Threads

def Posting.about (conn : UInt64) : Posting → Bool
  | .clientUp c => c == conn
  | .clientFrame c _ => c == conn
  | .clientDown c => c == conn
  | _ => false

/-! ## Every connection in order -/

namespace Threads

section
variable {ε : Type}

theorem rest_frame {r r' : Reader ε} {f : Frame} (h : readFrame r = (.frame f, r')) (conn : UInt64) :
    rest conn (some r) = .clientFrame conn f :: rest conn (some r') := by
  simp [rest, readFrames_frame h]

theorem rest_none {r r' : Reader ε} (h : readFrame r = (.none, r')) (conn : UInt64) :
    rest conn (some r) = .clientDown conn :: rest conn (none : Option (Reader ε)) := by
  simp [rest, readFrames_none h]

theorem rest_error {r r' : Reader ε} {e : ReadError ε} (h : readFrame r = (.error e, r')) (conn : UInt64) :
    rest conn (some r) = .clientDown conn :: rest conn (none : Option (Reader ε)) := by
  simp [rest, readFrames_error h]

/-- Ids count the attempts. What was posted about a connection and what its reader
has still to post are its coming up, its frames and its going down, in this order. -/
structure Orderly (acc : List (UInt64 × Reader ε)) (posted : List Posting) (n : Nat) (nextId : UInt64)
    (readers : UInt64 → Option (Reader ε)) : Prop where
  nextId : nextId = UInt64.ofNat n
  ids : ∀ x ∈ acc, ∃ j ≤ n, x.1 = UInt64.ofNat j
  nodup : (acc.map (·.1)).Nodup
  script : ∀ x ∈ acc, posted.filter (Posting.about x.1) ++ rest x.1 (readers x.1) =
    .clientUp x.1 :: rest x.1 (some x.2)
  others : ∀ conn, conn ∉ acc.map (·.1) → posted.filter (Posting.about conn) = [] ∧ readers conn = none

namespace Orderly

variable {acc : List (UInt64 × Reader ε)} {posted : List Posting} {n : Nat} {nextId : UInt64}
  {readers : UInt64 → Option (Reader ε)} (h : Orderly acc posted n nextId readers)
include h

theorem stray {x : Posting} (hx : ∀ conn, x.about conn = false) : Orderly acc (posted ++ [x]) n nextId readers := by
  have hsame : ∀ conn, (posted ++ [x]).filter (Posting.about conn) = posted.filter (Posting.about conn) := by
    intro conn
    rw [List.filter_append, List.filter_cons_of_neg (by simp [hx]), List.filter_nil, List.append_nil]
  refine ⟨h.nextId, h.ids, h.nodup, ?_, ?_⟩
  · intro y hy
    rw [hsame]
    exact h.script y hy
  · intro conn hconn
    rw [hsame]
    exact h.others conn hconn

theorem fresh (hn : n + 1 < 2 ^ 64) : UInt64.ofNat (n + 1) ∉ acc.map (·.1) := by
  intro hm
  obtain ⟨x, hx, he⟩ := List.mem_map.mp hm
  obtain ⟨j, hj, hxj⟩ := h.ids x hx
  rw [hxj] at he
  have := ofNat_inj (by omega) hn he
  omega

theorem skip : Orderly acc posted (n + 1) (nextId + 1) readers := by
  refine ⟨?_, ?_, h.nodup, h.script, h.others⟩
  · rw [h.nextId, UInt64.ofNat_add]
    rfl
  · intro x hx
    obtain ⟨j, hj, hxj⟩ := h.ids x hx
    exact ⟨j, by omega, hxj⟩

theorem accept (hn : n + 1 < 2 ^ 64) (stream : Reader ε) :
    Orderly (acc ++ [(nextId + 1, stream)]) (posted ++ [.clientUp (nextId + 1)]) (n + 1) (nextId + 1)
      (Function.update readers (nextId + 1) (some stream)) := by
  have hid : nextId + 1 = UInt64.ofNat (n + 1) := h.skip.nextId
  have hfresh : nextId + 1 ∉ acc.map (·.1) := by
    rw [hid]
    exact h.fresh hn
  have hne : ∀ {conn}, conn ≠ nextId + 1 →
      (posted ++ [Posting.clientUp (nextId + 1)]).filter (Posting.about conn) =
        posted.filter (Posting.about conn) := by
    intro conn hc
    rw [List.filter_append, List.filter_cons_of_neg (by simpa [Posting.about] using hc.symm), List.filter_nil,
      List.append_nil]
  refine ⟨hid, ?_, ?_, ?_, ?_⟩
  · intro x hx
    rcases List.mem_append.mp hx with hx | hx
    · exact h.skip.ids x hx
    · rw [List.mem_singleton.mp hx]
      exact ⟨n + 1, le_rfl, hid⟩
  · rw [List.map_append, List.nodup_append]
    refine ⟨h.nodup, List.nodup_singleton _, ?_⟩
    rintro a ha b hb rfl
    rw [List.mem_singleton.mp hb] at ha
    exact hfresh ha
  · intro x hx
    rcases List.mem_append.mp hx with hx | hx
    · have hxne : x.1 ≠ nextId + 1 := fun he => hfresh (he ▸ List.mem_map_of_mem hx)
      rw [hne hxne, Function.update_of_ne hxne]
      exact h.script x hx
    · rw [List.mem_singleton.mp hx, List.filter_append, (h.others _ hfresh).1, Function.update_self]
      simp [Posting.about]
  · intro conn hconn
    rw [List.map_append, List.mem_append, not_or] at hconn
    have hc : conn ≠ nextId + 1 := fun he => hconn.2 (by simp [he])
    rw [hne hc, Function.update_of_ne hc]
    exact h.others conn hconn.1

theorem read {conn : UInt64} {r : Reader ε} {left : Option (Reader ε)} {x : Posting} (hr : readers conn = some r)
    (hx : ∀ c, x.about c = (conn == c)) (hrest : rest conn (some r) = x :: rest conn left) :
    Orderly acc (posted ++ [x]) n nextId (Function.update readers conn left) := by
  have hne : ∀ {c}, c ≠ conn → (posted ++ [x]).filter (Posting.about c) = posted.filter (Posting.about c) := by
    intro c hc
    rw [List.filter_append, List.filter_cons_of_neg (by simp [hx, hc.symm]), List.filter_nil, List.append_nil]
  have hacc : conn ∈ acc.map (·.1) := by
    by_contra hno
    rw [(h.others conn hno).2] at hr
    cases hr
  refine ⟨h.nextId, h.ids, h.nodup, ?_, ?_⟩
  · intro y hy
    by_cases hc : y.1 = conn
    · have := h.script y hy
      rw [hc, hr, hrest] at this
      rw [hc, Function.update_self, List.filter_append, List.filter_cons_of_pos (by simp [hx]), List.filter_nil,
        List.append_assoc]
      exact this
    · rw [hne hc, Function.update_of_ne hc]
      exact h.script y hy
  · intro c hc
    have hcc : c ≠ conn := fun he => hc (he ▸ hacc)
    rw [hne hcc, Function.update_of_ne hcc]
    exact h.others c hc

end Orderly

variable (display : ReadError ε → Text)

def Holds (acc : List (UInt64 × Reader ε)) (done : List Posting) (n : Nat) (ts : Threads ε) : Prop :=
  Orderly acc (done ++ ts.queue) n ts.nextId ts.readers

theorem read_nextId (ts : Threads ε) (conn : UInt64) : (ts.read display conn).2.nextId = ts.nextId := by
  unfold read
  cases ts.readers conn with
  | none => rfl
  | some r =>
    dsimp only
    split <;> rfl

theorem accepted_cons (ts : Threads ε) (a : Action ε) (as : List (Action ε)) :
    accepted ts.nextId (a :: as) = accepted ts.nextId [a] ++ accepted (ts.step display a).2.nextId as := by
  cases a with
  | read conn =>
    have : (ts.step display (.read conn)).2.nextId = ts.nextId := read_nextId display ts conn
    rw [this]
    rfl
  | recv bytes =>
    have : (ts.step display (.recv bytes)).2.nextId = ts.nextId := by
      unfold Threads.step
      dsimp only
      split <;> rfl
    rw [this]
    rfl
  | recvFailed e =>
    have : (ts.step display (.recvFailed e)).2.nextId = ts.nextId := by
      unfold Threads.step
      dsimp only
      split <;> rfl
    rw [this]
    rfl
  | _ => rfl

theorem attempts_cons (a : Action ε) (as : List (Action ε)) : attempts (a :: as) = attempts [a] + attempts as := by
  cases a <;> simp [attempts, Nat.add_comm]

theorem taken_cons (ts : Threads ε) (a : Action ε) (as : List (Action ε)) :
    taken display ts (a :: as) = taken display ts [a] ++ taken display (ts.step display a).2 as := by
  simp [taken]

variable {acc : List (UInt64 × Reader ε)} {done : List Posting} {n : Nat} {ts : Threads ε} (h : Holds acc done n ts)
include h

theorem Holds.read (conn : UInt64) : Holds acc done n (ts.read display conn).2 := by
  have hpost : ∀ (readers : UInt64 → Option (Reader ε)) (x : Posting),
      Orderly acc (done ++ ts.queue ++ [x]) n ts.nextId readers →
      Holds acc done n ({ ts with readers }.post x) := by
    intro readers x hx
    rw [List.append_assoc] at hx
    exact hx
  unfold Threads.read
  cases hr : ts.readers conn with
  | none => exact h
  | some r =>
    dsimp only
    split
    · rename_i f r' hread
      exact hpost _ _ (Orderly.read h hr (fun c => rfl) (rest_frame hread conn))
    · rename_i r' hread
      exact hpost _ _ (Orderly.read h hr (fun c => rfl) (rest_none hread conn))
    · rename_i e r' hread
      exact hpost _ _ (Orderly.read h hr (fun c => rfl) (rest_error hread conn))

theorem Holds.stray {x : Posting} (hx : ∀ conn, x.about conn = false) : Holds acc done n (ts.post x) := by
  have := Orderly.stray h hx
  rw [List.append_assoc] at this
  exact this

theorem Holds.step (a : Action ε) (hn : n + attempts [a] < 2 ^ 64) :
    Holds (acc ++ accepted ts.nextId [a]) (done ++ taken display ts [a]) (n + attempts [a])
      (ts.step display a).2 := by
  have hsame : ∀ {ts' : Threads ε}, Holds acc done n ts' → Holds (acc ++ []) (done ++ []) (n + 0) ts' := by
    intro ts' h'
    rw [List.append_nil, List.append_nil]
    exact h'
  cases a with
  | accept stream =>
    have := Orderly.accept h hn stream
    rw [List.append_assoc] at this
    show Holds _ (done ++ []) _ _
    rw [List.append_nil]
    exact this
  | acceptFailed e => exact hsame h
  | cloneFailed e =>
    show Holds (acc ++ []) (done ++ []) _ _
    rw [List.append_nil, List.append_nil]
    exact Orderly.skip h
  | read conn => exact hsame (h.read display conn)
  | recv bytes =>
    apply hsame
    unfold Threads.step
    dsimp only
    split
    · exact h.stray fun conn => rfl
    · exact h
  | recvFailed e =>
    apply hsame
    unfold Threads.step
    dsimp only
    split
    · exact h
    · exact h
  | wake => exact hsame (h.stray fun conn => rfl)
  | handle host =>
    have hqueue : done ++ (ts.queue.head?.toList ++ []) ++ ts.queue.tail = done ++ ts.queue := by
      cases hq : ts.queue with
      | nil => simp
      | cons x xs => simp
    show Holds (acc ++ []) (done ++ (ts.queue.head?.toList ++ [])) (n + 0) _
    rw [List.append_nil]
    unfold Holds
    dsimp only [Threads.step]
    rw [hqueue]
    exact h

theorem Holds.run (as : List (Action ε)) (hn : n + attempts as < 2 ^ 64) :
    Holds (acc ++ accepted ts.nextId as) (done ++ taken display ts as) (n + attempts as)
      (Mealy.run (Threads.step display) ts as) := by
  induction as generalizing acc done n ts with
  | nil =>
    rw [accepted, taken, List.append_nil, List.append_nil]
    exact h
  | cons a as ih =>
    rw [attempts_cons] at hn ⊢
    rw [accepted_cons display, taken_cons, ← List.append_assoc, ← List.append_assoc, ← Nat.add_assoc]
    exact ih (h.step display a (by omega)) (by omega)

omit h in
theorem Holds.start : Holds [] [] 0 (.start ε) := by
  refine ⟨rfl, by simp, by simp, by simp, ?_⟩
  intro conn _
  exact ⟨rfl, rfl⟩

end

end Threads

/-! ## What a node writes to -/

namespace Node

/-- Nobody else is registered or written to. -/
def Within (clients : Finset UInt64) (out : List Output) (n' : Node) : Prop :=
  n'.clients ⊆ clients ∧ ∀ c f, .write c f ∈ out → c ∈ clients

theorem Within.append {clients : Finset UInt64} {out out' : List Output} {n : Node}
    (h : ∀ c f, .write c f ∉ out) (h' : Within clients out' n) : Within clients (out ++ out') n := by
  refine ⟨h'.1, fun c f hw => ?_⟩
  rcases List.mem_append.mp hw with hw | hw
  · exact absurd hw (h c f)
  · exact h'.2 c f hw

theorem writeFrame_within {n : Node} {clients : Finset UInt64} (h : n.clients ⊆ clients) (conn : UInt64)
    (frame : Frame) (written : Bool) :
    Within clients (n.writeFrame conn frame written).1 (n.writeFrame conn frame written).2 := by
  obtain ⟨left, hsub, hn⟩ := writeFrame_owed n conn frame written
  rw [hn]
  refine ⟨hsub.trans h, fun c f hw => ?_⟩
  dsimp only at hw
  split at hw
  · rename_i hup
    cases List.mem_singleton.mp hw
    exact h hup
  · cases hw

theorem writeReceipt_within {n : Node} {clients : Finset UInt64} (h : n.clients ⊆ clients) (conn : UInt64)
    (receipt : Option Text) (written : Bool) :
    Within clients (n.writeReceipt conn receipt written).1 (n.writeReceipt conn receipt written).2 := by
  cases receipt with
  | none => exact ⟨h, by simp [writeReceipt]⟩
  | some r => exact writeFrame_within h conn _ written

section
variable (L : Libsodium) (debug : Text → Text)

theorem sendToPeer_writes (n : Node) (m : Peer) (sendTo : Option Text) (t : Trace) (c : UInt64) (f : Frame) :
    .write c f ∉ (n.sendToPeer L m.encode sendTo t).out := by
  rcases sendToPeer_carries n m sendTo t with h | ⟨frame, t', -, h⟩
  · rw [h]
    simp
  · rw [h]
    simp

theorem handleSend_within (n : Node) (conn : UInt64) (receipt : Option Text) (body : Text) (io : Io) (t : Trace) :
    Within n.clients (n.handleSend L debug conn receipt body io t).out
      (n.handleSend L debug conn receipt body io t).node := by
  unfold handleSend
  split
  · exact writeFrame_within subset_rfl _ _ _
  · split
    · exact writeFrame_within subset_rfl _ _ _
    · split
      · exact writeFrame_within subset_rfl _ _ _
      · have hno := sendToPeer_writes L { n with nextCorr := n.nextCorr + 1 }
        unfold forward
        dsimp only
        split
        · exact ⟨subset_rfl, fun c f hw => absurd hw (hno _ _ _ c f)⟩
        · exact .append (hno _ _ _) (writeFrame_within subset_rfl _ _ _)
        · exact ⟨subset_rfl, fun c f hw => absurd hw (hno _ _ _ c f)⟩

theorem handleClientFrame_within (n : Node) (conn : UInt64) (frame : Frame) (io : Io) (t : Trace) :
    Within n.clients (n.handleClientFrame L debug conn frame io t).out
      (n.handleClientFrame L debug conn frame io t).node := by
  unfold handleClientFrame
  dsimp only
  split
  · exact writeFrame_within subset_rfl _ _ _
  · split
    · exact writeReceipt_within subset_rfl _ _ _
    · split
      · obtain ⟨hsub, hw⟩ := writeReceipt_within (n := n) subset_rfl conn (frame.header "receipt".toList) io.written
        exact ⟨(Finset.erase_subset _ _).trans hsub, hw⟩
      · split
        · exact handleSend_within L debug n _ _ _ _ _
        · exact writeFrame_within subset_rfl _ _ _

theorem handleRequest_within (n : Node) (corr : UInt64) (op : Op) (io : Io) (t : Trace) :
    Within n.clients (n.handleRequest L corr op io t).out (n.handleRequest L corr op io t).node := by
  have hsent : ∀ (m : Node) (reply : Reply), m.clients = n.clients →
      Within n.clients (m.sendToPeer L (Peer.response corr reply).encode io.sendTo t).out m := by
    intro m reply hm
    exact ⟨hm ▸ subset_rfl, fun c f hw => absurd hw (sendToPeer_writes L m _ _ _ c f)⟩
  have hlogged : ∀ (m : Node) (reply : Reply), m.clients = n.clients → ∀ line,
      Within n.clients ((m.sendToPeer L (Peer.response corr reply).encode io.sendTo t).out ++ [.log line]) m := by
    intro m reply hm line
    exact .append (sendToPeer_writes L m _ _ _) ⟨hm ▸ subset_rfl, by simp⟩
  unfold handleRequest
  dsimp only
  by_cases hown : n.owns op.key = true
  · rw [if_pos hown]
    dsimp only
    split
    · exact hsent { n with kv := _ } _ rfl
    · exact hlogged { n with kv := _ } _ rfl _
    · exact hsent { n with kv := _ } _ rfl
  · rw [if_neg hown]
    dsimp only
    split
    · exact hsent n _ rfl
    · exact hlogged n _ rfl _
    · exact hsent n _ rfl

theorem handleDatagram_within (n : Node) (bytes : Bytes) (io : Io) (t : Trace) :
    Within n.clients (n.handleDatagram L debug bytes io t).out (n.handleDatagram L debug bytes io t).node := by
  have hquiet : ∀ (m : Node) (out : List Output), m.clients = n.clients → (∀ c f, .write c f ∉ out) →
      Within n.clients out m :=
    fun m out hm ho => ⟨hm ▸ subset_rfl, fun c f hw => absurd hw (ho c f)⟩
  unfold handleDatagram
  generalize Dek.open L n.store bytes n.diag t = r
  dsimp only
  split
  · exact hquiet _ _ rfl (by simp)
  · exact hquiet _ _ rfl (by simp)
  · split
    · exact hquiet _ _ rfl (by simp)
    · split
      · exact hquiet _ _ rfl (by simp)
      · split
        · exact hquiet _ _ rfl (by simp)
        · exact handleRequest_within L { n with diag := r.diag } _ _ _ _
        · unfold handleResponse
          split
          · exact hquiet _ _ rfl (by simp)
          · rename_i corr _ _ _ _ _
            exact writeFrame_within (n := { n with diag := r.diag, pending := n.pending.erase corr })
              subset_rfl _ _ _

omit L debug in
theorem expire_within (n : Node) (cs : List UInt64) (written : UInt64 → Bool) :
    Within n.clients (expire written n cs).1 (expire written n cs).2 := by
  induction cs generalizing n with
  | nil => exact ⟨subset_rfl, by simp [expire]⟩
  | cons corr rest ih =>
    rw [expire]
    split
    · exact ih n
    · rename_i pd _
      obtain ⟨hsub, hw⟩ := writeFrame_within (n := { n with pending := n.pending.erase corr }) subset_rfl pd.conn
        (message pd.receipt n.timedOut) (written corr)
      obtain ⟨hsub', hw'⟩ :=
        ih (replyToClient { n with pending := n.pending.erase corr } pd.conn pd.receipt n.timedOut (written corr)).2
      refine ⟨hsub'.trans hsub, fun c f hf => ?_⟩
      rcases List.mem_append.mp hf with hf | hf
      · exact hw c f hf
      · exact hsub (hw' c f hf)

theorem step_within {n : Node} (hr : n.running = true) (ev : Event) (t : Trace) :
    (∀ c ∈ (n.step L debug ev t).node.clients, ev = .clientUp c ∨ (c ∈ n.clients ∧ ev ≠ .clientDown c)) ∧
      ∀ c f, .write c f ∈ (n.step L debug ev t).out →
        c ∈ n.clients ∧ ∀ conn, ev ≠ .clientUp conn ∧ ev ≠ .clientDown conn := by
  have hkeep : ∀ {r : Turn}, (∀ conn, ev ≠ .clientUp conn ∧ ev ≠ .clientDown conn) → Within n.clients r.out r.node →
      (∀ c ∈ r.node.clients, ev = .clientUp c ∨ (c ∈ n.clients ∧ ev ≠ .clientDown c)) ∧
        ∀ c f, .write c f ∈ r.out → c ∈ n.clients ∧ ∀ conn, ev ≠ .clientUp conn ∧ ev ≠ .clientDown conn := by
    intro r hev ⟨hsub, hw⟩
    exact ⟨fun c hc => Or.inr ⟨hsub hc, (hev c).2⟩, fun c f hf => ⟨hw c f hf, hev⟩⟩
  unfold step
  rw [if_pos hr]
  cases ev with
  | clientUp conn =>
    refine ⟨fun c hc => ?_, by simp⟩
    rcases Finset.mem_insert.mp hc with rfl | hc
    · exact Or.inl rfl
    · exact Or.inr ⟨hc, by simp⟩
  | clientDown conn =>
    refine ⟨fun c hc => ?_, by simp⟩
    obtain ⟨hne, hc⟩ := Finset.mem_erase.mp hc
    exact Or.inr ⟨hc, by simpa using Ne.symm hne⟩
  | clientFrame conn frame io => exact hkeep (by simp) (handleClientFrame_within L debug n conn frame io t)
  | datagram bytes io => exact hkeep (by simp) (handleDatagram_within L debug n bytes io t)
  | tick now rank written => exact hkeep (by simp) (expire_within n _ written)

end

end Node

/-! ## Connections that are up -/

/-- It came up and did not go down. -/
def Connected (log : List Posting) (conn : UInt64) : Prop := .clientUp conn ∈ log ∧ .clientDown conn ∉ log

/-- What was posted about a connection starts with its coming up, and nothing
follows its going down. -/
def InOrder (log : List Posting) : Prop :=
  ∀ conn, ∃ fs : List Frame, log.filter (Posting.about conn) <+:
    .clientUp conn :: (fs.map (.clientFrame conn) ++ [.clientDown conn])

theorem InOrder.of_append {log more : List Posting} (h : InOrder (log ++ more)) : InOrder log := by
  intro conn
  obtain ⟨fs, hfs⟩ := h conn
  rw [List.filter_append] at hfs
  exact ⟨fs, (List.prefix_append _ _).trans hfs⟩

theorem InOrder.up_first {log : List Posting} {conn : UInt64} (h : InOrder (log ++ [.clientUp conn])) {x : Posting}
    (hx : x ∈ log) : x.about conn = false := by
  by_contra hne
  obtain ⟨fs, rest, hfs⟩ := h conn
  have hup : (.clientUp conn : Posting).about conn = true := beq_self_eq_true conn
  rw [List.filter_append, List.filter_cons_of_pos hup, List.filter_nil] at hfs
  cases hlog : log.filter (Posting.about conn) with
  | nil =>
    have := List.mem_filter.mpr ⟨hx, by simpa using hne⟩
    rw [hlog] at this
    cases this
  | cons y ys =>
    rw [hlog, List.cons_append, List.cons_append, List.cons.injEq] at hfs
    have hmem : (.clientUp conn : Posting) ∈ ys ++ [.clientUp conn] ++ rest := by simp
    rw [hfs.2] at hmem
    simp at hmem

theorem InOrder.frame_connected {log : List Posting} {conn : UInt64} {frame : Frame}
    (h : InOrder (log ++ [.clientFrame conn frame])) : Connected log conn := by
  obtain ⟨fs, hfs⟩ := h conn
  have hframe : (.clientFrame conn frame : Posting).about conn = true := beq_self_eq_true conn
  have hmem : ∀ x : Posting, x.about conn = true → (x ∈ log ↔ x ∈ log.filter (Posting.about conn)) := by
    intro x hx
    rw [List.mem_filter, and_iff_left hx]
  rw [List.filter_append, List.filter_cons_of_pos hframe, List.filter_nil, ← List.cons_append,
    List.prefix_concat_iff] at hfs
  rcases hfs with hfs | ⟨rest, hfs⟩
  · have := (List.append_inj' hfs rfl).2
    simp at this
  · have hup := hmem (.clientUp conn) (beq_self_eq_true conn)
    have hdown := hmem (.clientDown conn) (beq_self_eq_true conn)
    unfold Connected
    rw [hup, hdown]
    cases hlog : log.filter (Posting.about conn) with
    | nil =>
      rw [hlog] at hfs
      simp at hfs
    | cons y ys =>
      rw [hlog, List.cons_append, List.cons_append, List.cons.injEq] at hfs
      obtain ⟨rfl, hfs⟩ := hfs
      refine ⟨List.mem_cons_self, fun hd => ?_⟩
      have hall : (.clientDown conn : Posting) ∈ ys ++ [.clientFrame conn frame] ++ rest := by
        simp only [List.mem_append]
        exact Or.inl (Or.inl (by simpa using hd))
      rw [hfs] at hall
      simp at hall

/-! ## The run of the pair -/

def Event.posting : Event → Posting
  | .clientUp conn => .clientUp conn
  | .clientFrame conn frame _ => .clientFrame conn frame
  | .clientDown conn => .clientDown conn
  | .datagram bytes _ => .datagram bytes
  | .tick _ _ _ => .tick

@[simp] theorem Posting.posting_event (x : Posting) (h : Host) : (x.event h).posting = x := by
  cases x <;> rfl

def handled (s : Side) (es : List (Side × Event)) : List Posting :=
  es.filterMap fun x => if x.1 = s then some x.2.posting else none

theorem handled_append (s : Side) (es fs : List (Side × Event)) :
    handled s (es ++ fs) = handled s es ++ handled s fs :=
  List.filterMap_append

theorem handled_snoc (s : Side) (es : List (Side × Event)) (ev : Event) :
    handled s (es ++ [(s, ev)]) = handled s es ++ [ev.posting] := by
  rw [handled_append]
  simp [handled]

theorem handled_other {s s' : Side} (h : s' ≠ s) (es : List (Side × Event)) (ev : Event) :
    handled s' (es ++ [(s, ev)]) = handled s' es := by
  rw [handled_append]
  simp [handled, h.symm]

theorem Connected.snoc {log : List Posting} {conn : UInt64} (h : Connected log conn) {x : Posting}
    (hx : x ≠ .clientDown conn) : Connected (log ++ [x]) conn :=
  ⟨List.mem_append_left _ h.1, by simpa [h.2] using hx.symm⟩

/-- A node registers connections that are up, and forwards for them. -/
structure Node.Serving (n : Node) (log : List Posting) : Prop where
  clients : ∀ c ∈ n.clients, Connected log c
  pending : ∀ (c : UInt64) (pd : Pending), n.pending[c]? = some pd → Connected log pd.conn

theorem Node.Serving.step {L : Libsodium} {debug : Text → Text} {n : Node} {log : List Posting} (h : n.Serving log)
    (hr : n.running = true) (ev : Event) (t : Trace) (hord : InOrder (log ++ [ev.posting])) :
    (n.step L debug ev t).node.Serving (log ++ [ev.posting]) := by
  constructor
  · intro c hc
    rcases (step_within L debug hr ev t).1 c hc with rfl | ⟨hc, hdown⟩
    · refine ⟨by simp [Event.posting], fun hm => ?_⟩
      rcases List.mem_append.mp hm with hm | hm
      · have := hord.up_first hm
        simp [Posting.about] at this
      · simp [Event.posting] at hm
    · apply (h.clients c hc).snoc
      intro he
      cases ev with
      | clientDown conn =>
        cases he
        exact hdown rfl
      | _ => cases he
  · intro c pd hp
    rcases (step_did n ev t).pending_source hp with hold | ⟨frame, io, op, rfl, -⟩
    · apply (h.pending c pd hold).snoc
      intro he
      cases ev with
      | clientDown conn =>
        cases he
        -- the going down clears the entries of the connection
        unfold Node.step at hp
        rw [if_pos hr] at hp
        dsimp only at hp
        rw [Std.TreeMap.getElem?_filter', Option.filter_eq_some_iff] at hp
        simp at hp
      | _ => cases he
    · exact hord.frame_connected.snoc (by simp [Event.posting])

section
variable (L : Libsodium) (debug : Text → Text) {D : Deployment} {p : Pair} (hp : D.Started p)
include hp

theorem run_serving (es : List (Side × Event)) (hord : ∀ s, InOrder (handled s es)) (s : Side) :
    ((Mealy.run (Pair.step L debug) p es).nodes s).Serving (handled s es) := by
  induction es using List.reverseRecOn with
  | nil =>
    constructor
    · intro c hc
      have : c ∈ (p.nodes s).clients := hc
      rw [(hp.blank s).clients] at this
      cases this
    · intro c pd hpd
      have : (p.nodes s).pending[c]? = some pd := hpd
      rw [(hp.blank s).pending] at this
      simp at this
  | append_singleton es x ih =>
    have hord' : ∀ s, InOrder (handled s es) := fun s => (handled_append s es [x] ▸ hord s).of_append
    obtain ⟨s', ev⟩ := x
    rw [Mealy.run_snoc]
    by_cases hs : s = s'
    · subst hs
      have hs' := hord s
      rw [handled_snoc] at hs' ⊢
      rw [Pair.step_same]
      exact (ih hord').step (hp.linked L debug es s).running ev _ hs'
    · rw [handled_other hs, Pair.step_ne L debug _ hs]
      exact ih hord'

end

namespace System

section
variable {ε : Type} (L : Libsodium) (debug : Text → Text) (display : ReadError ε → Text)

def turns (s : Side) (xs : List (Side × Action ε)) : List (Action ε) :=
  xs.filterMap fun x => if x.1 = s then some x.2 else none

def events : System ε → List (Side × Action ε) → List (Side × Event)
  | _, [] => []
  | sys, x :: xs => ((sys.event x).map fun ev => (x.1, ev)).toList ++ events (sys.step L debug display x).2 xs

theorem step_threads (sys : System ε) (x : Side × Action ε) :
    (sys.step L debug display x).2.threads =
      Function.update sys.threads x.1 ((sys.threads x.1).step display x.2).2 := by
  unfold step
  dsimp only
  split <;> rfl

theorem step_pair (sys : System ε) (x : Side × Action ε) :
    (sys.step L debug display x).2.pair =
      (sys.event x).elim sys.pair fun ev => (sys.pair.step L debug (x.1, ev)).2 := by
  unfold step
  dsimp only
  cases sys.event x with
  | none => rfl
  | some ev => rfl

theorem turns_same {x : Side × Action ε} (xs : List (Side × Action ε)) :
    turns x.1 (x :: xs) = x.2 :: turns x.1 xs := by
  simp [turns]

theorem turns_other {s : Side} {x : Side × Action ε} (hs : x.1 ≠ s) (xs : List (Side × Action ε)) :
    turns s (x :: xs) = turns s xs := by
  simp [turns, hs]

theorem run_threads (sys : System ε) (xs : List (Side × Action ε)) (s : Side) :
    (Mealy.run (step L debug display) sys xs).threads s =
      Mealy.run (Threads.step display) (sys.threads s) (turns s xs) := by
  induction xs generalizing sys with
  | nil => rfl
  | cons x xs ih =>
    rw [Mealy.run, ih, step_threads]
    by_cases hs : x.1 = s
    · subst hs
      rw [Function.update_self, turns_same, Mealy.run]
    · rw [Function.update_of_ne (Ne.symm hs), turns_other hs]

theorem run_pair (sys : System ε) (xs : List (Side × Action ε)) :
    (Mealy.run (step L debug display) sys xs).pair =
      Mealy.run (Pair.step L debug) sys.pair (events L debug display sys xs) := by
  induction xs generalizing sys with
  | nil => rfl
  | cons x xs ih =>
    rw [Mealy.run, ih, events, step_pair]
    cases sys.event x with
    | none => rfl
    | some ev => rfl

theorem handled_event (sys : System ε) (s : Side) (a : Action ε) :
    handled s ((sys.event (s, a)).map fun ev => (s, ev)).toList = Threads.taken display (sys.threads s) [a] := by
  cases a with
  | handle host =>
    show handled s (((sys.threads s).queue.head?.map (·.event host)).map fun ev => (s, ev)).toList =
      (sys.threads s).queue.head?.toList ++ []
    cases (sys.threads s).queue with
    | nil => rfl
    | cons y ys => simp [handled]
  | _ => rfl

theorem handled_events (sys : System ε) (xs : List (Side × Action ε)) (s : Side) :
    handled s (events L debug display sys xs) = Threads.taken display (sys.threads s) (turns s xs) := by
  induction xs generalizing sys with
  | nil => rfl
  | cons x xs ih =>
    rw [events, handled_append, ih, step_threads]
    by_cases hs : x.1 = s
    · subst hs
      rw [Function.update_self, turns_same, Threads.taken_cons, ← handled_event display sys x.1 x.2]
    · have hnone : handled s ((sys.event x).map fun ev => (x.1, ev)).toList = [] := by
        cases sys.event x with
        | none => rfl
        | some ev => simp [handled, hs]
      rw [Function.update_of_ne (Ne.symm hs), turns_other hs, hnone, List.nil_append]

theorem run_orderly (p : Pair) (xs : List (Side × Action ε)) (s : Side)
    (hids : Threads.attempts (turns s xs) < 2 ^ 64) :
    Threads.Holds (Threads.accepted 0 (turns s xs)) (handled s (events L debug display (start p) xs))
      (Threads.attempts (turns s xs)) ((Mealy.run (step L debug display) (start p) xs).threads s) := by
  have h := Threads.Holds.run display (Threads.Holds.start (ε := ε)) (turns s xs) (by omega)
  rw [Nat.zero_add] at h
  rw [run_threads, handled_events]
  exact h

/-- Any interleaving of the threads of two processes is a run of the pair. And of
each connection the core thread has handled, and has still to handle, its coming
up, the frames of its stream in order, and its going down. -/
theorem threads_in_order (p : Pair) (xs : List (Side × Action ε))
    (hids : ∀ s, Threads.attempts (turns s xs) < 2 ^ 64) :
    let sys := Mealy.run (step L debug display) (start p) xs
    let es := events L debug display (start p) xs
    sys.pair = Mealy.run (Pair.step L debug) p es ∧
    ∀ s, ((Threads.accepted 0 (turns s xs)).map (·.1)).Nodup ∧
      (∀ x ∈ Threads.accepted 0 (turns s xs), (handled s es ++ (sys.threads s).queue).filter (Posting.about x.1) ++
        Threads.rest x.1 ((sys.threads s).readers x.1) = .clientUp x.1 :: Threads.rest x.1 (some x.2)) ∧
      ∀ conn, conn ∉ (Threads.accepted 0 (turns s xs)).map (·.1) →
        (handled s es ++ (sys.threads s).queue).filter (Posting.about conn) = [] := by
  intro sys es
  refine ⟨run_pair L debug display (start p) xs, fun s => ?_⟩
  have h := run_orderly L debug display p xs s (hids s)
  exact ⟨h.nodup, h.script, fun conn hconn => (h.others conn hconn).1⟩

/-- A client connects, another attempt fails, and a third connects and leaves
before the core thread turns to it. -/
def threeAttempts : List (Side × Action Empty) :=
  let hello : Frame := ⟨"STOMP".toList, [], []⟩
  let host : Host := ⟨⟨0, true, none⟩, fun _ => 0, fun _ => true⟩
  [(.left, .accept ⟨hello.encode, []⟩), (.left, .cloneFailed []), (.left, .read 1), (.left, .handle host),
    (.left, .accept ⟨[], []⟩), (.left, .read 3), (.right, .wake), (.left, .read 1), (.left, .handle host),
    (.left, .handle host)]

theorem threads_in_order_three :
    let L := aesGcm counterBytes
    let debug : Text → Text := fun s => '"' :: s ++ ['"']
    let D := Deployment.ofIds 100 200 (by decide) ⟨List.replicate keyBytes 7, by decide⟩
    let sys := Mealy.run (step L debug fun _ => []) (start D.boot) threeAttempts
    let es := events L debug (fun _ => []) (start D.boot) threeAttempts
    handled .left es = [.clientUp 1, .clientFrame 1 ⟨"STOMP".toList, [], []⟩, .clientUp 3] ∧
      (sys.threads .left).queue = [.clientDown 3, .clientDown 1] ∧
      sys.pair = Mealy.run (Pair.step L debug) D.boot es ∧
      ((Threads.accepted 0 (turns .left threeAttempts)).map (·.1)).Nodup := by
  intro L debug D sys es
  have h := threads_in_order L debug (fun _ => []) D.boot threeAttempts (by intro s; cases s <;> decide)
  exact ⟨by decide +kernel, by decide +kernel, h.1, (h.2 .left).1⟩

theorem events_in_order (p : Pair) (xs : List (Side × Action ε)) (s : Side)
    (hids : Threads.attempts (turns s xs) < 2 ^ 64) :
    InOrder (handled s (events L debug display (start p) xs)) := by
  have h := run_orderly L debug display p xs s hids
  intro conn
  by_cases hacc : conn ∈ (Threads.accepted 0 (turns s xs)).map (·.1)
  · obtain ⟨x, hx, rfl⟩ := List.mem_map.mp hacc
    have := h.script x hx
    rw [List.filter_append, List.append_assoc] at this
    exact ⟨_, _, this⟩
  · have := (h.others conn hacc).1
    rw [List.filter_append, List.append_eq_nil_iff] at this
    rw [this.1]
    exact ⟨[], List.nil_prefix⟩

/-- A frame is only written to a connection that came up and did not go down, and
the node forgets one that went down: it is not registered and no request of it
waits. -/
theorem writes_connected {D : Deployment} {p : Pair} (hp : D.Started p) (xs : List (Side × Action ε))
    (hids : ∀ s, Threads.attempts (turns s xs) < 2 ^ 64) :
    let es := events L debug display (start p) xs
    (∀ (i : Nat) (s : Side) (ev : Event) (c : UInt64) (f : Frame), es[i]? = some (s, ev) →
      .write c f ∈ outAt L debug p es i → Connected (handled s (es.take (i + 1))) c) ∧
    ∀ s, ((Mealy.run (step L debug display) (start p) xs).pair.nodes s).Serving (handled s es) := by
  intro es
  have hord : ∀ s, InOrder (handled s es) := fun s => events_in_order L debug display p xs s (hids s)
  constructor
  · intro i s ev c f hi hw
    have hpre : ∀ s, InOrder (handled s (es.take i)) := by
      intro s
      have := hord s
      rw [← List.take_append_drop i es, handled_append] at this
      exact this.of_append
    have hserve := run_serving L debug hp (es.take i) hpre s
    obtain ⟨t, hout, -⟩ := @nodeAt_step L debug p _ _ _ _ hi
    rw [hout] at hw
    obtain ⟨hc, hev⟩ := (Node.step_within L debug (hp.linked L debug (es.take i) s).running ev t).2 c f hw
    rw [take_succ_of_get hi, handled_snoc]
    apply (hserve.clients c hc).snoc
    intro he
    cases ev with
    | clientDown conn =>
      cases he
      exact (hev c).2 rfl
    | _ => cases he
  · intro s
    rw [run_pair]
    exact run_serving L debug hp es hord s

theorem writes_connected_three :
    let L := aesGcm counterBytes
    let debug : Text → Text := fun s => '"' :: s ++ ['"']
    let D := Deployment.ofIds 100 200 (by decide) ⟨List.replicate keyBytes 7, by decide⟩
    let es := events L debug (fun _ => []) (start D.boot) threeAttempts
    .write 1 Node.connected ∈ outAt L debug D.boot es 1 ∧ Connected (handled .left (es.take 2)) 1 := by
  intro L debug D es
  have hw : .write 1 Node.connected ∈ outAt L debug D.boot es 1 := by decide +kernel
  have hi : es[1]?.map (·.1) = some .left := by decide +kernel
  obtain ⟨⟨s, ev⟩, hev, hs⟩ := Option.map_eq_some_iff.mp hi
  cases hs
  have h := writes_connected L debug (fun _ => []) D.boot_started threeAttempts (by intro s; cases s <;> decide)
  exact ⟨hw, h.1 1 .left ev 1 Node.connected hev hw⟩

end

end System

end Paxe.SixSeven

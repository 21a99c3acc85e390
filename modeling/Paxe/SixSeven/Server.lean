import Paxe.Dek
import Paxe.Lib.Mealy
import Paxe.SixSeven.Peer
import Paxe.SixSeven.Stomp

/-!
# The core loop (`src/bin/six-seven-server/main.rs`)

One node as the state its core thread owns and what one event does to it. The
clock, the sockets and the iteration order of hash maps are inputs of the
event. What goes out is listed in order: frames to clients, datagrams to the
peer, lines on stderr. A pair is two nodes with one history of library calls.
-/

namespace Paxe.SixSeven
open Wire Str

def peerChannel : UInt32 := 6767
def epochBits : UInt8 := 0

theorem epochBits_le : epochBits ≤ maxEpoch := by decide

/-- In nanoseconds, and as `{:?}` prints it. -/
def forwardTimeout : Nat := 5000000000
def forwardTimeoutText : Text := "5s".toList

/-- `parse_args` refuses a node that is its own peer. The peer's address is
kept as it is displayed. -/
structure Config where
  id : UInt16
  peerId : UInt16
  peerAddr : Text
  key : Key
  ids_differ : id ≠ peerId

structure Pending where
  conn : UInt64
  receipt : Option Text
  deadline : Nat
  deriving DecidableEq, Repr

structure Node where
  config : Config
  store : KeyStore
  epoch : Epoch
  kv : Store
  clients : Finset UInt64
  pending : Std.TreeMap UInt64 Pending
  nextCorr : UInt64
  diag : Diag
  running : Bool

/-- What the host answers while one event is handled: the clock, whether a
write to the client goes through, and the error of `send_to`, if any. -/
structure Io where
  now : Nat
  written : Bool
  sendTo : Option Text

/-- A tick visits the expired entries in some order, given by `rank`, and
writes to the client of each. -/
inductive Event where
  | clientUp (conn : UInt64)
  | clientFrame (conn : UInt64) (frame : Frame) (io : Io)
  | clientDown (conn : UInt64)
  | datagram (bytes : Bytes) (io : Io)
  | tick (now : Nat) (rank : UInt64 → Nat) (written : UInt64 → Bool)

inductive Output where
  | write (conn : UInt64) (frame : Frame)
  | datagram (bytes : Bytes)
  | log (line : Text)
  deriving DecidableEq, Repr

structure Turn where
  out : List Output
  node : Node
  trace : Trace

/-! ## Answering a client -/

def Reply.body : Reply → Text
  | .value v => v
  | .ok => "OK".toList
  | .nil => "NIL".toList
  | .err e => "ERR ".toList ++ e

def message (receipt : Option Text) (reply : Reply) : Frame where
  command := "MESSAGE".toList
  headers := [("destination".toList, "/queue/kv".toList), ("content-type".toList, "text/plain".toList),
    ("subscription".toList, "0".toList)] ++ (receipt.map fun r => ("receipt-id".toList, r)).toList
  body := reply.body

@[simp] theorem message_command (receipt : Option Text) (reply : Reply) :
    (message receipt reply).command = "MESSAGE".toList := rfl

namespace Node

/-- A client that vanished mid-write is forgotten. -/
def writeFrame (n : Node) (conn : UInt64) (frame : Frame) (written : Bool) : List Output × Node :=
  if conn ∈ n.clients then
    ([.write conn frame], if written then n else { n with clients := n.clients.erase conn })
  else ([], n)

def replyToClient (n : Node) (conn : UInt64) (receipt : Option Text) (reply : Reply) (written : Bool) :
    List Output × Node :=
  n.writeFrame conn (message receipt reply) written

/-! ## The hop -/

structure SendRet where
  result : Res Text Unit
  out : List Output
  trace : Trace

/-- The datagram counts as sent also when `send_to` reports an error. -/
def sendToPeer (L : Libsodium) (n : Node) (text : Text) (sendTo : Option Text) (t : Trace) : SendRet :=
  let r := Dek.seal L n.store n.config.peerId peerChannel n.epoch (toBytes text) t
  match r.result with
  | .panic => ⟨.panic, [], r.trace⟩
  | .err e =>
    ⟨.err ("sealing for peer ".toList ++ showNat n.config.peerId.toNat ++ ": ".toList ++ e.display.toList),
      [], r.trace⟩
  | .ok frame =>
    match sendTo with
    | none => ⟨.ok (), [.datagram frame], r.trace⟩
    | some e =>
      ⟨.err ("sending to peer ".toList ++ n.config.peerAddr ++ ": ".toList ++ e), [.datagram frame], r.trace⟩

/-- `kv::owner(key, config.id, config.peer_id) == config.id`. -/
def owns (n : Node) (key : UInt64) : Bool := owner key n.config.id n.config.peerId == n.config.id

/-! ## Events -/

section
variable (L : Libsodium) (debug : Text → Text)

def forward (n : Node) (conn : UInt64) (receipt : Option Text) (op : Op) (io : Io) (t : Trace) : Turn :=
  let corr := n.nextCorr + 1
  let n := { n with nextCorr := corr }
  let r := n.sendToPeer L (Peer.request corr op).encode io.sendTo t
  match r.result with
  | .panic => ⟨r.out, { n with running := false }, r.trace⟩
  | .err e =>
    let w := n.replyToClient conn receipt (.err e) io.written
    ⟨r.out ++ w.1, w.2, r.trace⟩
  | .ok _ => ⟨r.out, { n with pending := n.pending.insert corr ⟨conn, receipt, io.now + forwardTimeout⟩ }, r.trace⟩

def isSize (body : Text) : Bool := toAsciiUppercase (trim body) == "SIZE".toList

def sizeReply (n : Node) : Reply :=
  .value (showNat n.kv.len ++ " of ".toList ++ showNat maxKeys ++ " keys on node ".toList ++
    showNat n.config.id.toNat)

/-- The `SEND` arm of `handle_client_frame`. -/
def handleSend (n : Node) (conn : UInt64) (receipt : Option Text) (body : Text) (io : Io) (t : Trace) : Turn :=
  if isSize body then
    let w := n.replyToClient conn receipt n.sizeReply io.written
    ⟨w.1, w.2, t⟩
  else
    match Op.parse debug body with
    | .error e =>
      let w := n.replyToClient conn receipt (.err e) io.written
      ⟨w.1, w.2, t⟩
    | .ok op =>
      if n.owns op.key then
        let r := n.kv.execute op
        let w := { n with kv := r.2 }.replyToClient conn receipt r.1 io.written
        ⟨w.1, w.2, t⟩
      else n.forward L conn receipt op io t

def connected : Frame :=
  ⟨"CONNECTED".toList, [("version".toList, "1.2".toList), ("server".toList, "six-seven-server/0.1".toList)], []⟩

def writeReceipt (n : Node) (conn : UInt64) (receipt : Option Text) (written : Bool) : List Output × Node :=
  match receipt with
  | none => ([], n)
  | some r => n.writeFrame conn ⟨"RECEIPT".toList, [("receipt-id".toList, r)], []⟩ written

def unsupported (command : Text) : Frame :=
  ⟨"ERROR".toList, [("message".toList, "unsupported command".toList)],
    "six-seven-server does not implement ".toList ++ command ++ ['\n']⟩

def handleClientFrame (n : Node) (conn : UInt64) (frame : Frame) (io : Io) (t : Trace) : Turn :=
  let receipt := frame.header "receipt".toList
  let command := toAsciiUppercase frame.command
  if command = "CONNECT".toList ∨ command = "STOMP".toList then
    let w := n.writeFrame conn connected io.written
    ⟨w.1, w.2, t⟩
  else if command = "SUBSCRIBE".toList ∨ command = "UNSUBSCRIBE".toList then
    let w := n.writeReceipt conn receipt io.written
    ⟨w.1, w.2, t⟩
  else if command = "DISCONNECT".toList then
    let w := n.writeReceipt conn receipt io.written
    ⟨w.1, { w.2 with clients := w.2.clients.erase conn }, t⟩
  else if command = "SEND".toList then n.handleSend L debug conn receipt frame.body io t
  else
    let w := n.writeFrame conn (unsupported command) io.written
    ⟨w.1, w.2, t⟩

/-- A request of the peer: the owner is checked again, whoever forwarded it. -/
def handleRequest (n : Node) (corr : UInt64) (op : Op) (io : Io) (t : Trace) : Turn :=
  let (reply, n) :=
    if n.owns op.key then
      let r := n.kv.execute op
      (r.1, { n with kv := r.2 })
    else
      (.err ("key ".toList ++ showU64 op.key ++ " does not belong to node ".toList ++ showNat n.config.id.toNat), n)
  let r := n.sendToPeer L (Peer.response corr reply).encode io.sendTo t
  match r.result with
  | .panic => ⟨r.out, { n with running := false }, r.trace⟩
  | .err e => ⟨r.out ++ [.log ("answering peer request ".toList ++ showU64 corr ++ ": ".toList ++ e)], n, r.trace⟩
  | .ok _ => ⟨r.out, n, r.trace⟩

def handleResponse (n : Node) (corr : UInt64) (reply : Reply) (io : Io) (t : Trace) : Turn :=
  match n.pending[corr]? with
  | none => ⟨[], n, t⟩
  | some p =>
    let w := { n with pending := n.pending.erase corr }.replyToClient p.conn p.receipt reply io.written
    ⟨w.1, w.2, t⟩

def handleDatagram (n : Node) (bytes : Bytes) (io : Io) (t : Trace) : Turn :=
  let r := Dek.open L n.store bytes n.diag t
  let n := { n with diag := r.diag }
  match r.result with
  | .panic => ⟨[], { n with running := false }, r.trace⟩
  | .err _ => ⟨[], n, r.trace⟩
  | .ok (header, _, payload) =>
    if header.fromId ≠ n.config.peerId ∨ header.channel ≠ peerChannel then ⟨[], n, r.trace⟩
    else
      match fromUtf8 payload with
      | none => ⟨[], n, r.trace⟩
      | some text =>
        match Peer.decode debug text with
        | .error e => ⟨[.log ("peer sent an undecodable message: ".toList ++ e)], n, r.trace⟩
        | .ok (.request corr op) => n.handleRequest L corr op io r.trace
        | .ok (.response corr reply) => n.handleResponse corr reply io r.trace

def timedOut (n : Node) : Reply :=
  .err ("peer ".toList ++ showNat n.config.peerId.toNat ++ " did not answer within ".toList ++ forwardTimeoutText)

def expired (n : Node) (now : Nat) (rank : UInt64 → Nat) : List UInt64 :=
  ((n.pending.toList.filter fun e => e.2.deadline ≤ now).map (·.1)).insertionSort fun a b => rank a ≤ rank b

def expire (written : UInt64 → Bool) : Node → List UInt64 → List Output × Node
  | n, [] => ([], n)
  | n, corr :: rest =>
    match n.pending[corr]? with
    | none => expire written n rest
    | some p =>
      let w := { n with pending := n.pending.erase corr }.replyToClient p.conn p.receipt n.timedOut (written corr)
      let r := expire written w.2 rest
      (w.1 ++ r.1, r.2)

/-- One turn of `core_loop`. A process that aborted handles nothing. -/
def step (n : Node) (ev : Event) (t : Trace) : Turn :=
  if n.running then
    match ev with
    | .clientUp conn => ⟨[], { n with clients := insert conn n.clients }, t⟩
    | .clientDown conn =>
      ⟨[], { n with clients := n.clients.erase conn, pending := n.pending.filter fun _ p => p.conn != conn }, t⟩
    | .clientFrame conn frame io => n.handleClientFrame L debug conn frame io t
    | .datagram bytes io => n.handleDatagram L debug bytes io t
    | .tick now rank written =>
      let r := expire written n (n.expired now rank)
      ⟨r.1, r.2, t⟩
  else ⟨[], n, t⟩

end

/-- `run` up to the sockets, on what the library and the host answer. -/
def start (config : Config) (setup : SetupRets) (storeInit : Int) (heap : Heap) : Except Text Node :=
  match sodiumInit setup.sodiumInit with
  | .error e => .error ("libsodium init failed: ".toList ++ e.display.toList)
  | .ok _ =>
    match requireAesGcm setup with
    | .error e => .error ("AES-256-GCM hardware path unavailable: ".toList ++ e.display.toList)
    | .ok _ =>
      match Epoch.new epochBits with
      | .error e => .error e.display.toList
      | .ok epoch =>
        match KeyStore.new config.id storeInit with
        | .error e => .error e.display.toList
        | .ok store =>
          match store.install config.peerId epoch config.key heap with
          | (.error e, _) => .error ("installing the link key failed: ".toList ++ e.display.toList)
          | (.ok _, store) =>
            .ok { config, store, epoch, kv := .empty, clients := ∅, pending := ∅, nextCorr := 0, diag := .init,
                  running := true }

end Node

/-! ## The pair -/

inductive Side where
  | left
  | right
  deriving DecidableEq, Repr

def Side.other : Side → Side
  | .left => .right
  | .right => .left

structure Pair where
  nodes : Side → Node
  trace : Trace

def Pair.step (L : Libsodium) (debug : Text → Text) (p : Pair) (x : Side × Event) : List Output × Pair :=
  let r := (p.nodes x.1).step L debug x.2 p.trace
  (r.out, ⟨Function.update p.nodes x.1 r.node, r.trace⟩)

structure Deployment where
  config : Side → Config
  peers : ∀ s, (config s).peerId = (config s.other).id

def Deployment.Started (D : Deployment) (p : Pair) : Prop :=
  ∀ s, ∃ setup storeInit heap, Node.start (D.config s) setup storeInit heap = .ok (p.nodes s)

end Paxe.SixSeven

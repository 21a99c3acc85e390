import Paxe.Dek

/-!
# The C ABI (`src/ffi.rs`)

One session per process: the store behind the boundary, the last-error buffer
and the diagnostics. Memory the caller passes is a value that comes back as
the call left it; a panic aborts the host.
-/

namespace Paxe
open Wire

def rcOk : Int := 0
def rcOkAbsent : Int := 1
def rcErr : Int := -1
def rcInval : Int := -2
def rcDrop : Int := -3

inductive Exit where
  | rc (code : Int)
  | abort
  deriving DecidableEq, Repr

/-- `STORE`, `LAST_ERROR`, the state of `stats`, the two one-time guards, and
the history of library calls. -/
structure Session where
  store : Option KeyStore
  lastError : String
  diag : Diag
  exitHookRegistered : Bool
  coreWarnEmitted : Bool
  trace : Trace

def Session.start : Session := ⟨none, "", .init, false, false, []⟩

namespace Session

def setLastError (s : Session) (msg : String) : Session := { s with lastError := msg }

def fail (s : Session) (msg : String) : Exit × Session := (.rc rcErr, s.setLastError msg)

def invalid (s : Session) (msg : String) : Exit × Session := (.rc rcInval, s.setLastError msg)

end Session

/-! ## Arguments -/

def checkU16 (v : UInt32) (what : String) : Except String UInt16 :=
  if v.toNat < 65536 then .ok v.toUInt16
  else .error (what ++ " " ++ toString v ++ " out of range: must be 0-65535")

def epochMessage (v : UInt32) : String :=
  "epoch " ++ toString v ++ " out of range: must be 0-" ++ toString maxEpoch

def checkEpoch (v : UInt32) : Except String Epoch :=
  if v.toNat < 256 then
    match Epoch.new v.toUInt8 with
    | .ok e => .ok e
    | .error _ => .error (epochMessage v)
  else .error (epochMessage v)

def checkChannel (v : UInt32) : Except String UInt32 :=
  if 1 ≤ v ∧ v ≤ 99 then
    .error ("channel " ++ toString v ++
      " is reserved: 1-99 are system channels, application channels start at 100")
  else .ok v

inductive InBuf where
  | null (len : Nat)
  | mem (bytes : Bytes)
  deriving DecidableEq, Repr

inductive OutBuf where
  | null (cap : Nat)
  | mem (bytes : Bytes)
  deriving DecidableEq, Repr

def bufIn (b : InBuf) (what : String) : Except String Bytes :=
  match b with
  | .mem bytes => .ok bytes
  | .null len =>
    if len = 0 then .ok []
    else .error (what ++ ": null pointer with non-zero length " ++ toString len)

def bufOut (b : OutBuf) (what : String) : Except String Bytes :=
  match b with
  | .mem bytes => .ok bytes
  | .null cap =>
    if cap = 0 then .ok []
    else .error (what ++ ": null output pointer with capacity " ++ toString cap)

def OutBuf.write : OutBuf → Bytes → OutBuf
  | .mem bytes, src => .mem (overwrite bytes src)
  | .null cap, _ => .null cap

/-! ## Lifecycle -/

structure InitEnv where
  allowCoreDumps : Option String
  coreLimitError : Option String
  setup : SetupRets

def coreDumpsAllowedByEnv (env : InitEnv) : Bool := env.allowCoreDumps == some "1"

def warnCoreDisableFailed (s : Session) (err : String) : Session :=
  if s.coreWarnEmitted then s
  else { s with
    coreWarnEmitted := true
    diag := { s.diag with stderr := s.diag.stderr ++ [
      "[PAXE] WARNING: setrlimit(RLIMIT_CORE, 0) failed (" ++ err ++ "); core dumps are NOT " ++
        "disabled and on macOS a crash can write key material into a core file " ++
        "(see PAXE.md \"Security Considerations\")"] } }

/-- The first act of `lunet_paxe_init`. -/
def suppressCoreDumps (s : Session) (env : InitEnv) : Session :=
  if coreDumpsAllowedByEnv env then s
  else
    match env.coreLimitError with
    | some err => warnCoreDisableFailed s err
    | none => s

def lunetPaxeInit (s : Session) (env : InitEnv) : Exit × Session :=
  let s := suppressCoreDumps s env
  match sodiumInit env.setup.sodiumInit with
  | .error e => s.fail ("libsodium initialisation failed: " ++ e.display)
  | .ok _ =>
    match checkSizes env.setup with
    | .error e => s.fail ("libsodium ABI check failed: " ++ e.display)
    | .ok _ =>
      match requireAesGcm env.setup with
      | .error e => s.fail ("AES-256-GCM hardware path unavailable (libsodium " ++ env.setup.version ++
          "); PAXE cannot operate on this host: " ++ e.display)
      | .ok _ => (.rc rcOk, { s with exitHookRegistered := true })

def lunetPaxeSetLocalId (s : Session) (nodeId : UInt32) (initRc : Int) : Exit × Session :=
  match checkU16 nodeId "node id" with
  | .error m => s.invalid m
  | .ok id =>
    if s.store.isSome then
      s.invalid "local node id already configured; call shutdown() before reconfiguring"
    else
      match KeyStore.new id initRc with
      | .ok store => (.rc rcOk, { s with store := some store })
      | .error e => s.fail ("could not create keystore: " ++ e.display)

def shutdownState (s : Session) : Session :=
  { s with store := none, lastError := "", diag := s.diag.resetLogOnceMemo }

/-! ## Keys -/

def notConfigured : String := "local node id not configured: call set_local_id() first"

def lunetPaxeKeystoreSet (s : Session) (peer epoch : UInt32) (key : InBuf) (heap : Heap) : Exit × Session :=
  match checkU16 peer "peer node id" with
  | .error m => s.invalid m
  | .ok peer =>
    match checkEpoch epoch with
    | .error m => s.invalid m
    | .ok epoch =>
      match bufIn key "key" with
      | .error m => s.invalid m
      | .ok key =>
        if key.length ≠ keyBytes then
          s.invalid ("key must be exactly " ++ toString keyBytes ++ " bytes, got " ++ toString key.length)
        else
          match tryInto keyBytes key with
          | none => s.invalid ("key must be exactly " ++ toString keyBytes ++ " bytes")
          | some material =>
            match s.store with
            | none => s.fail notConfigured
            | some store =>
              match store.install peer epoch material heap with
              | (.ok (), store) => (.rc rcOk, { s with store := some store })
              | (.error e, store) => { s with store := some store }.fail ("could not install key: " ++ e.display)

def lunetPaxeKeystoreRetire (s : Session) (peer epoch : UInt32) : Exit × Session :=
  match checkU16 peer "peer node id" with
  | .error m => s.invalid m
  | .ok peer =>
    match checkEpoch epoch with
    | .error m => s.invalid m
    | .ok epoch =>
      match s.store with
      | none => s.fail notConfigured
      | some store =>
        let (existed, store) := store.retire peer epoch
        (.rc (if existed then rcOk else rcOkAbsent), { s with store := some store })

def lunetPaxeKeystoreClear (s : Session) : Exit × Session :=
  match s.store with
  | none => (.rc rcOk, s)
  | some store => (.rc rcOk, { s with store := some store.clear })

/-! ## Seal and open -/

structure SealOut where
  out : OutBuf
  outLen : Option Nat
  deriving DecidableEq, Repr

structure SealCall where
  payload : InBuf
  toId : UInt32
  channel : UInt32
  mem : SealOut

def lunetPaxeSeal (L : Libsodium) (s : Session) (a : SealCall) : Exit × SealOut × Session :=
  match checkU16 a.toId "destination node id" with
  | .error m => let (x, s) := s.invalid m; (x, a.mem, s)
  | .ok toId =>
    match checkChannel a.channel with
    | .error m => let (x, s) := s.invalid m; (x, a.mem, s)
    | .ok channel =>
      match bufIn a.payload "payload" with
      | .error m => let (x, s) := s.invalid m; (x, a.mem, s)
      | .ok payload =>
        if a.mem.outLen.isNone then
          let (x, s) := s.invalid "frame length output pointer must not be null"; (x, a.mem, s)
        else
          match bufOut a.mem.out "frame output" with
          | .error m => let (x, s) := s.invalid m; (x, a.mem, s)
          | .ok out =>
            if payload.length > Standard.maxPayload then
              let s := { s with diag := s.diag.recordTxOversize }
              let (x, s) := s.fail ("payload too large: " ++ toString payload.length ++
                " bytes exceeds the standard-mode maximum of " ++ toString Standard.maxPayload)
              (x, a.mem, s)
            else
              match s.store with
              | none => let (x, s) := s.fail notConfigured; (x, a.mem, s)
              | some store =>
                match store.keyForSendCurrent toId with
                | none =>
                  let (x, s) := s.fail ("no key installed for peer " ++ toString toId ++ " under any epoch")
                  (x, a.mem, s)
                | some (epoch, _) =>
                  let r := Dek.seal L store toId channel epoch payload s.trace
                  let s := { s with trace := r.trace }
                  match r.result with
                  | .panic => (.abort, a.mem, s)
                  | .err e => let (x, s) := s.fail ("seal failed: " ++ e.display); (x, a.mem, s)
                  | .ok frame =>
                    if frame.length > out.length then
                      let (x, s) := s.invalid ("frame output buffer too small: need " ++ toString frame.length ++
                        ", have " ++ toString out.length)
                      (x, a.mem, s)
                    else
                      (.rc rcOk, ⟨a.mem.out.write frame, some frame.length⟩,
                        { s with diag := s.diag.recordTxSealed .standard })

structure OpenOut where
  out : OutBuf
  outLen : Option Nat
  fromId : Option UInt32
  channel : Option UInt32
  mode : Option UInt32
  deriving DecidableEq, Repr

structure OpenCall where
  frame : InBuf
  mem : OpenOut

def modeCode : Mode → UInt32
  | .standard => 0
  | .dek => 1

def lunetPaxeOpen (L : Libsodium) (s : Session) (a : OpenCall) : Exit × OpenOut × Session :=
  match bufIn a.frame "frame" with
  | .error m => let (x, s) := s.invalid m; (x, a.mem, s)
  | .ok frame =>
    if a.mem.outLen.isNone || a.mem.fromId.isNone || a.mem.channel.isNone || a.mem.mode.isNone then
      let (x, s) := s.invalid "open: output pointers must not be null"; (x, a.mem, s)
    else
      match bufOut a.mem.out "payload output" with
      | .error m => let (x, s) := s.invalid m; (x, a.mem, s)
      | .ok out =>
        match s.store with
        | none => (.rc rcDrop, a.mem, s)
        | some store =>
          let r := Dek.open L store frame s.diag s.trace
          let s := { s with diag := r.diag, trace := r.trace }
          match r.result with
          | .panic => (.abort, a.mem, s)
          | .ok (h, f, plain) =>
            if plain.length > out.length then
              let (x, s) := s.invalid ("payload output buffer too small: need " ++ toString plain.length ++
                ", have " ++ toString out.length)
              (x, a.mem, s)
            else
              (.rc rcOk, ⟨a.mem.out.write plain, some plain.length, some h.fromId.toUInt32, some h.channel,
                some (modeCode f.mode)⟩, { s with diag := s.diag.recordRxOk })
          -- A broken library, not a wire condition: uncounted.
          | .err (.sodium _) => (.rc rcDrop, a.mem, s)
          | .err _ => (.rc rcDrop, a.mem, { s with diag := s.diag.recordRxDrop })

/-! ## The gate of a protected socket -/

/-- The gate's own reading of `toId`, with 0 where there are no such bytes. -/
def gateToId (frame : Bytes) : UInt16 :=
  match (slice frame 2 4).bind (tryInto 2) with
  | some t => u16FromBeBytes t
  | none => 0

def lunetPaxeFrameForUs (s : Session) (frame : InBuf) : Exit × Session :=
  match bufIn frame "frame" with
  | .error m => s.invalid m
  | .ok frame =>
    match s.store with
    | none => (.rc 0, s)
    | some store =>
      if prefixLen ≤ frame.length ∧ gateToId frame = store.localId then (.rc 1, s)
      else (.rc 0, { s with diag := s.diag.recordRxDrop.recordReject .plaintext })

/-! ## Diagnostics -/

/-- The snapshot copied into the caller's counters, and the number of fields. -/
def lunetPaxeStats (s : Session) (out : Option (List Nat)) : Nat × Option (List Nat) :=
  let fields := s.diag.stats.fields
  (fields.length, out.map fun buf => fields.take buf.length ++ buf.drop fields.length)

def lunetPaxeFailPolicySet (s : Session) (name : InBuf) : Exit × Session :=
  match bufIn name "policy name" with
  | .error m => s.invalid m
  | .ok name =>
    match String.fromUTF8? ⟨name.toArray⟩ with
    | none => s.invalid "policy name must be UTF-8"
    | some name =>
      match FailPolicy.fromName name with
      | some p => (.rc rcOk, { s with diag := s.diag.setPolicy p })
      | none => s.invalid ("unknown failure policy '" ++ name ++ "': must be silent, log_once or verbose")

/-! ## Calls -/

inductive Call where
  | init (env : InitEnv)
  | setLocalId (nodeId : UInt32) (initRc : Int)
  | shutdown
  | keystoreSet (peer epoch : UInt32) (key : InBuf) (heap : Heap)
  | keystoreRetire (peer epoch : UInt32)
  | keystoreClear
  | seal (a : SealCall)
  | open (a : OpenCall)
  | frameForUs (frame : InBuf)
  | stats (out : Option (List Nat))
  | failPolicySet (name : InBuf)

inductive Ret where
  | void
  | code (x : Exit)
  | sealed (x : Exit) (mem : SealOut)
  | opened (x : Exit) (mem : OpenOut)
  | fields (n : Nat) (out : Option (List Nat))
  deriving DecidableEq, Repr

def Session.step (L : Libsodium) (s : Session) : Call → Ret × Session
  | .init env => let (x, s) := lunetPaxeInit s env; (.code x, s)
  | .setLocalId nodeId initRc => let (x, s) := lunetPaxeSetLocalId s nodeId initRc; (.code x, s)
  | .shutdown => (.void, shutdownState s)
  | .keystoreSet peer epoch key heap => let (x, s) := lunetPaxeKeystoreSet s peer epoch key heap; (.code x, s)
  | .keystoreRetire peer epoch => let (x, s) := lunetPaxeKeystoreRetire s peer epoch; (.code x, s)
  | .keystoreClear => let (x, s) := lunetPaxeKeystoreClear s; (.code x, s)
  | .seal a => let (x, mem, s) := lunetPaxeSeal L s a; (.sealed x mem, s)
  | .open a => let (x, mem, s) := lunetPaxeOpen L s a; (.opened x mem, s)
  | .frameForUs frame => let (x, s) := lunetPaxeFrameForUs s frame; (.code x, s)
  | .stats out => let (n, out) := lunetPaxeStats s out; (.fields n out, s)
  | .failPolicySet name => let (x, s) := lunetPaxeFailPolicySet s name; (.code x, s)

end Paxe

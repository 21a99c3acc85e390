import Paxe.Codec

/-! # Counters and the failure policy (`src/stats.rs`) -/

namespace Paxe

inductive RejectReason where
  | plaintext
  | tooShort
  | badFlags
  | lenMismatch
  | noPeer
  | noEpoch
  | authFailed
  deriving DecidableEq, Repr

namespace RejectReason

abbrev count : Nat := 7

def all : List RejectReason := [plaintext, tooShort, badFlags, lenMismatch, noPeer, noEpoch, authFailed]

def index : RejectReason → Fin count
  | plaintext => 0
  | tooShort => 1
  | badFlags => 2
  | lenMismatch => 3
  | noPeer => 4
  | noEpoch => 5
  | authFailed => 6

def line : RejectReason → String
  | plaintext => "[PAXE] drop: plaintext on a protected socket"
  | tooShort => "[PAXE] drop: frame too short"
  | badFlags => "[PAXE] drop: flags constant-bit violation"
  | lenMismatch => "[PAXE] drop: declared length inconsistent with frame size"
  | noPeer => "[PAXE] drop: unknown peer"
  | noEpoch => "[PAXE] drop: unknown epoch for known peer"
  | authFailed => "[PAXE] drop: authentication failure"

def fromCodec : CodecError → RejectReason
  | .tooShort _ => tooShort
  | .invalidFlags _ => badFlags

end RejectReason

inductive FailPolicy where
  | silent
  | logOnce
  | verbose
  deriving DecidableEq, Repr

def FailPolicy.fromName : String → Option FailPolicy
  | "silent" => some .silent
  | "log_once" => some .logOnce
  | "verbose" => some .verbose
  | _ => none

def u64Max : Nat := 2 ^ 64 - 1

/-- `u64::saturating_add`. -/
def saturatingAdd (a b : Nat) : Nat := min (a + b) u64Max

structure Stats where
  rxTotal : Nat
  rxOk : Nat
  rxRejects : Vector Nat RejectReason.count
  txTotal : Nat
  txStandard : Nat
  txDek : Nat
  txOversize : Nat
  deriving DecidableEq, Repr

namespace Stats

def zero : Stats := ⟨0, 0, Vector.replicate _ 0, 0, 0, 0, 0⟩

def reject (s : Stats) (r : RejectReason) : Nat := s.rxRejects[r.index]

def bumpReject (s : Stats) (r : RejectReason) : Stats :=
  { s with rxRejects := s.rxRejects.set r.index (saturatingAdd (s.reject r) 1) }

def fields (s : Stats) : List Nat :=
  [s.rxTotal, s.rxOk, s.reject .plaintext, s.reject .tooShort, s.reject .badFlags, s.reject .lenMismatch,
    s.reject .noPeer, s.reject .noEpoch, s.reject .authFailed, s.txTotal, s.txStandard, s.txDek, s.txOversize]

end Stats

/-- The thread-locals of the module, and the lines written to stderr. -/
structure Diag where
  stats : Stats
  policy : FailPolicy
  logged : UInt64
  stderr : List String
  deriving DecidableEq, Repr

namespace Diag

def init : Diag := ⟨Stats.zero, .silent, 0, []⟩

def recordRxOk (d : Diag) : Diag :=
  { d with stats := { d.stats with
      rxTotal := saturatingAdd d.stats.rxTotal 1
      rxOk := saturatingAdd d.stats.rxOk 1 } }

def recordRxDrop (d : Diag) : Diag :=
  { d with stats := { d.stats with rxTotal := saturatingAdd d.stats.rxTotal 1 } }

def recordTxSealed (d : Diag) (mode : Mode) : Diag :=
  let s := { d.stats with txTotal := saturatingAdd d.stats.txTotal 1 }
  { d with stats := match mode with
      | .standard => { s with txStandard := saturatingAdd s.txStandard 1 }
      | .dek => { s with txDek := saturatingAdd s.txDek 1 } }

def recordTxOversize (d : Diag) : Diag :=
  { d with stats := { d.stats with txOversize := saturatingAdd d.stats.txOversize 1 } }

def resetLogOnceMemo (d : Diag) : Diag := { d with logged := 0 }

def setPolicy (d : Diag) (p : FailPolicy) : Diag :=
  let d := { d with policy := p }
  if p = .logOnce then d.resetLogOnceMemo else d

/-- The policy decision, with the memo it leaves. -/
def shouldLog (d : Diag) (r : RejectReason) : Bool × Diag :=
  match d.policy with
  | .silent => (false, d)
  | .verbose => (true, d)
  | .logOnce =>
    let bit := (1 : UInt64) <<< UInt64.ofNat r.index
    if d.logged &&& bit ≠ 0 then (false, d) else (true, { d with logged := d.logged ||| bit })

def emit (d : Diag) (r : RejectReason) : Diag := { d with stderr := d.stderr ++ [r.line] }

def recordReject (d : Diag) (r : RejectReason) : Diag :=
  let d := { d with stats := d.stats.bumpReject r }
  match d.shouldLog r with
  | (true, d) => d.emit r
  | (false, d) => d

end Diag

end Paxe

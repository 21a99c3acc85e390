import Paxe.Lib.Text
import Paxe.Lib.Stream

/-!
# STOMP frames (`src/bin/six-seven-server/stomp.rs`)

The frame as the server handles it, how it is written to a client, and how it
is read back from a stream.
-/

namespace Paxe.SixSeven
open Wire Str

structure Frame where
  command : Text
  headers : List (Text × Text)
  body : Text
  deriving DecidableEq, Repr

def escape (s : Text) : Text :=
  s.flatMap fun c =>
    if c = '\\' then ['\\', '\\']
    else if c = '\r' then ['\\', 'r']
    else if c = '\n' then ['\\', 'n']
    else if c = ':' then ['\\', 'c']
    else [c]

namespace Frame

def header (f : Frame) (name : Text) : Option Text := (f.headers.find? fun h => h.1 == name).map (·.2)

def encode (f : Frame) : Bytes :=
  toBytes (f.command ++ ['\n'] ++ f.headers.flatMap (fun h => escape h.1 ++ [':'] ++ escape h.2 ++ ['\n']) ++
    ['\n'] ++ f.body) ++ [0]

end Frame

/-! ## Reading -/

def maxFrameBytes : Nat := 8 * 1024

def unescape : Text → Text
  | [] => []
  | [c] => [c]
  | c :: d :: s =>
    if c ≠ '\\' then c :: unescape (d :: s)
    else if d = 'r' then '\r' :: unescape s
    else if d = 'n' then '\n' :: unescape s
    else if d = 'c' then ':' :: unescape s
    else if d = '\\' then '\\' :: unescape s
    else '\\' :: d :: unescape s

def isFiller (c : Char) : Bool := c == '\n' || c == '\r'

/-- The text before and after the first empty line. -/
def splitBlank : Text → Option (Text × Text)
  | [] => none
  | c :: t =>
    if c = '\n' ∧ t.head? = some '\n' then some ([], t.tail) else (splitBlank t).map fun x => (c :: x.1, x.2)

def trimCr (line : Text) : Text := trimEndMatches (· == '\r') line

def headerOf (line : Text) : Option (Text × Text) :=
  let line := trimCr line
  if line = [] then none else (splitOnce (· == ':') line).map fun x => (unescape x.1, unescape x.2)

/-- The frame in a text that starts with no filler. -/
def parseFrame (text : Text) : Frame :=
  let (head, body) := (splitBlank text).getD (text, [])
  match head.splitOn '\n' with
  | [] => ⟨[], [], body⟩
  | command :: lines => ⟨trimCr command, lines.filterMap headerOf, body⟩

inductive ReadError (ε : Type)
  | host (e : ε)
  | invalidData (message : Text)
  | notUtf8
  deriving DecidableEq, Repr

def ReadError.of {ε : Type} : Stream.Fault ε → ReadError ε
  | .host e => .host e
  | .ended => .invalidData "stream ended mid-frame: no terminating NUL".toList
  | .exceeded => .invalidData ("frame exceeded ".toList ++ showNat maxFrameBytes ++ " bytes".toList)

inductive Read (ε : Type)
  | frame (f : Frame)
  | none
  | error (e : ReadError ε)
  deriving DecidableEq, Repr

theorem segment_shrinks {ε : Type} {r r' : Stream.Reader ε} {raw : Bytes}
    (h : Stream.collect 0 maxFrameBytes r.fills [] r.bytes = (.segment raw, r')) :
    r'.bytes.length < r.bytes.length := by
  rw [(Stream.collect_segment h).1, List.length_append, List.length_cons]
  omega

def readFrame {ε : Type} (r : Stream.Reader ε) : Read ε × Stream.Reader ε :=
  match _h : Stream.collect 0 maxFrameBytes r.fills [] r.bytes with
  | (.eof, r') => (.none, r')
  | (.fault e, r') => (.error (.of e), r')
  | (.segment raw, r') =>
    match fromUtf8 raw with
    | none => (.error .notUtf8, r')
    | some text =>
      let text := trimStartMatches isFiller text
      -- Heart-beat filler only.
      if text = [] then readFrame r' else (.frame (parseFrame text), r')
termination_by r.bytes.length
decreasing_by exact segment_shrinks _h

end Paxe.SixSeven

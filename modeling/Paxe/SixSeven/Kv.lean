import Paxe.Lib.Table
import Paxe.Lib.Text

/-!
# The six-seven store (`src/bin/six-seven-server/kv.rs`)

The placement rule, the operations as clients write them, and one node's half
of the keyset under its two caps. How the host prints a string for debugging
(`{s:?}`) is a parameter.
-/

namespace Paxe.SixSeven
open Str

def maxPutBytes : Nat := 1024
def maxKeys : Nat := 1000000

/-- Odd keys live on the lower-numbered node of the pair, even keys on the
higher. -/
def owner (key : UInt64) (a b : UInt16) : UInt16 :=
  let (lower, higher) := if a ≤ b then (a, b) else (b, a)
  if key % 2 = 1 then lower else higher

inductive Op where
  | get (key : UInt64)
  | put (key : UInt64) (value : Text)
  | rm (key : UInt64)
  deriving DecidableEq, Repr

inductive Reply where
  | value (v : Text)
  | ok
  | nil
  | err (e : Text)
  deriving DecidableEq, Repr

namespace Op

def key : Op → UInt64
  | get k => k
  | rm k => k
  | put k _ => k

def parseKey (debug : Text → Text) (s : Text) : Except Text UInt64 :=
  let s := trim s
  if s.isEmpty then .error "missing key".toList
  else
    match parseU64 s with
    | some k => .ok k
    | none => .error ("key must be a u64, got ".toList ++ debug s)

/-- The `match` on the verb; `size` is the length of the whole request. -/
def parseVerb (debug : Text → Text) (size : Nat) (verb rest : Text) : Except Text Op :=
  let verb := toAsciiUppercase verb
  if verb = "GET".toList then (parseKey debug rest).map .get
  else if verb = "RM".toList ∨ verb = "DEL".toList then (parseKey debug rest).map .rm
  else if verb = "PUT".toList ∨ verb = "SET".toList then
    if size > maxPutBytes then
      .error ("put of ".toList ++ showNat size ++ " bytes exceeds the ".toList ++ showNat maxPutBytes ++
        "-byte limit".toList)
    else
      match splitOnce isWhitespace rest with
      | none => .error "PUT needs a key and a value".toList
      | some (k, v) => (parseKey debug k).map (.put · v)
  else if verb.isEmpty then .error "empty request".toList
  else .error ("unknown verb ".toList ++ debug verb ++ "; want GET, PUT or RM".toList)

def parse (debug : Text → Text) (body : Text) : Except Text Op :=
  let body := trimStart body
  match splitOnce isWhitespace body with
  | some (v, r) => parseVerb debug (len body) v (trimStart r)
  | none => parseVerb debug (len body) body []

end Op

def ceiling : Reply :=
  .err ("keyset estimate at the ".toList ++ showNat maxKeys ++ "-key ceiling; refusing new keys".toList)

structure Store where
  entries : Std.TreeMap UInt64 Text
  len_le : entries.size ≤ maxKeys

namespace Store

theorem empty_len_le : (∅ : Std.TreeMap UInt64 Text).size ≤ maxKeys := Nat.zero_le _

def empty : Store := ⟨∅, empty_len_le⟩

def len (s : Store) : Nat := s.entries.size

/-- The cap admits overwrites unconditionally. -/
def execute (s : Store) : Op → Reply × Store
  | .get k =>
    match s.entries[k]? with
    | some v => (.value v, s)
    | none => (.nil, s)
  | .rm k =>
    match s.entries[k]? with
    | some _ => (.ok, ⟨s.entries.erase k, Nat.le_trans Std.TreeMap.size_erase_le s.len_le⟩)
    | none => (.nil, s)
  | .put k v =>
    if h : !s.entries.contains k && decide (maxKeys ≤ s.entries.size) then (ceiling, s)
    else (.ok, ⟨s.entries.insert k v, Table.size_insert_le v s.len_le h⟩)

end Store

end Paxe.SixSeven

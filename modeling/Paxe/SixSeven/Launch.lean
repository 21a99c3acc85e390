import Paxe.SixSeven.LinkKey
import Paxe.SixSeven.Server

/-!
# The command line (`parse_args` in `src/bin/six-seven-server/main.rs`)

Flags with their values, in any order. Each value is checked when it is read, and a
flag given again counts with its last value. The key alone is checked at the end.
-/

namespace Paxe.SixSeven
open Str

/-- `u16::from_str`. -/
def u16FromStr (t : Text) : Option UInt16 :=
  (parseU64 t).bind fun n => if n.toNat < 2 ^ 16 then some (UInt16.ofNat n.toNat) else none

/-- What the flags have set so far. -/
structure Given (α : Type) where
  id : Option UInt16
  stomp : Option α
  paxe : Option α
  peerId : Option UInt16
  peerAddr : Option α
  keyHex : Option Text

structure Launch (α : Type) where
  config : Config
  stomp : α
  paxe : α
  peer : α

inductive Parsed (α : Type) where
  | config (c : Launch α)
  | help
  | error (message : Text)
  | panic

def required {β : Type} (name : Text) : Option β → Except Text β
  | some v => .ok v
  | none => .error (name ++ " is required".toList)

/-- An address is what `SocketAddr` reads, and is displayed as it displays it. -/
structure Addresses (α : Type) where
  read : Text → Option α
  display : α → Text

section
variable {α : Type} (A : Addresses α) (debug : Text → Text)

def parseU16 (value flag : Text) : Except Text UInt16 :=
  match u16FromStr value with
  | some n => .ok n
  | none => .error (flag ++ " must be 0-65535, got ".toList ++ debug value)

def parseAddr (value flag : Text) : Except Text α :=
  match A.read value with
  | some a => .ok a
  | none => .error (flag ++ " must be host:port, got ".toList ++ debug value)

namespace Given

def start : Given α := ⟨none, none, none, none, none, none⟩

def set (g : Given α) (flag value : Text) : Except Text (Given α) :=
  if flag = "--id".toList then (parseU16 debug value "--id".toList).map fun n => { g with id := some n }
  else if flag = "--peer-id".toList then (parseU16 debug value "--peer-id".toList).map fun n =>
    { g with peerId := some n }
  else if flag = "--stomp".toList then (parseAddr A debug value "--stomp".toList).map fun a =>
    { g with stomp := some a }
  else if flag = "--paxe".toList then (parseAddr A debug value "--paxe".toList).map fun a =>
    { g with paxe := some a }
  else if flag = "--peer".toList then (parseAddr A debug value "--peer".toList).map fun a =>
    { g with peerAddr := some a }
  else if flag = "--key".toList then .ok { g with keyHex := some value }
  else .error ("unknown flag ".toList ++ debug flag)

/-- What follows the loop. -/
def finish (g : Given α) : Parsed α :=
  match required "--id".toList g.id with
  | .error m => .error m
  | .ok id =>
    match required "--peer-id".toList g.peerId with
    | .error m => .error m
    | .ok peerId =>
      if h : id = peerId then .error "--id and --peer-id must differ: a pair needs two nodes".toList
      else
        match required "--stomp".toList g.stomp with
        | .error m => .error m
        | .ok stomp =>
          match required "--paxe".toList g.paxe with
          | .error m => .error m
          | .ok paxe =>
            match required "--peer".toList g.peerAddr with
            | .error m => .error m
            | .ok peer =>
              match required "--key".toList g.keyHex with
              | .error m => .error m
              | .ok hex =>
                match parseKey hex with
                | .panic => .panic
                | .err m => .error m
                | .ok key => .config ⟨⟨id, peerId, A.display peer, key, h⟩, stomp, paxe, peer⟩

end Given

def isHelp (flag : Text) : Bool := flag == "-h".toList || flag == "--help".toList

def parseFrom : Given α → List Text → Parsed α
  | g, [] => g.finish A
  | g, flag :: rest =>
    if isHelp flag then .help
    else
      match rest with
      | [] => .error (flag ++ " needs a value".toList)
      | value :: rest =>
        match g.set A debug flag value with
        | .error m => .error m
        | .ok g => parseFrom g rest

def parseArgs (args : List Text) : Parsed α := parseFrom A debug .start args

end

/-! ## What the flags give -/

section
variable {α : Type} (A : Addresses α)

def argsOf (pairs : List (Text × Text)) : List Text := pairs.flatMap fun p => [p.1, p.2]

def lastValue (flag : Text) (pairs : List (Text × Text)) : Option Text :=
  (pairs.filter fun p => p.1 == flag).getLast?.map (·.2)

/-- The flag is known and takes that value. -/
def Admits (flag value : Text) : Prop :=
  (flag = "--id".toList ∨ flag = "--peer-id".toList) ∧ (u16FromStr value).isSome ∨
  (flag = "--stomp".toList ∨ flag = "--paxe".toList ∨ flag = "--peer".toList) ∧ (A.read value).isSome ∨
  flag = "--key".toList

def Given.of (pairs : List (Text × Text)) : Given α where
  id := (lastValue "--id".toList pairs).bind u16FromStr
  stomp := (lastValue "--stomp".toList pairs).bind A.read
  paxe := (lastValue "--paxe".toList pairs).bind A.read
  peerId := (lastValue "--peer-id".toList pairs).bind u16FromStr
  peerAddr := (lastValue "--peer".toList pairs).bind A.read
  keyHex := lastValue "--key".toList pairs

structure Given.Complete (g : Given α) (i j : UInt16) (s p a : α) (hex : Text) : Prop where
  id : g.id = some i
  peerId : g.peerId = some j
  ids_differ : i ≠ j
  stomp : g.stomp = some s
  paxe : g.paxe = some p
  peerAddr : g.peerAddr = some a
  keyHex : g.keyHex = some hex

theorem lastValue_snoc (flag : Text) (pairs : List (Text × Text)) (p : Text × Text) :
    lastValue flag (pairs ++ [p]) = if p.1 = flag then some p.2 else lastValue flag pairs := by
  unfold lastValue
  rw [List.filter_append]
  by_cases h : p.1 = flag
  · simp [h]
  · simp [h]

variable {A} (debug : Text → Text)

/-- Once nothing is missing, the key decides. -/
theorem Given.Complete.finish {g : Given α} {i j : UInt16} {s p a : α} {hex : Text} (h : g.Complete i j s p a hex) :
    g.finish A =
      match parseKey hex with
      | .panic => .panic
      | .err m => .error m
      | .ok key => .config ⟨⟨i, j, A.display a, key, h.ids_differ⟩, s, p, a⟩ := by
  unfold Given.finish
  rw [h.id, h.peerId, h.stomp, h.paxe, h.peerAddr, h.keyHex]
  simp only [required, dif_neg h.ids_differ]

theorem complete_or_error (A : Addresses α) (g : Given α) :
    (∃ i j s p a hex, g.Complete i j s p a hex) ∨ ∃ m, g.finish A = .error m := by
  obtain ⟨id, stomp, paxe, peerId, peerAddr, keyHex⟩ := g
  unfold Given.finish
  cases id with
  | none => exact Or.inr ⟨_, rfl⟩
  | some i =>
    cases peerId with
    | none => exact Or.inr ⟨_, rfl⟩
    | some j =>
      by_cases hij : i = j
      · exact Or.inr ⟨_, dif_pos hij⟩
      · simp only [required, dif_neg hij]
        cases stomp with
        | none => exact Or.inr ⟨_, rfl⟩
        | some s =>
          cases paxe with
          | none => exact Or.inr ⟨_, rfl⟩
          | some p =>
            cases peerAddr with
            | none => exact Or.inr ⟨_, rfl⟩
            | some a =>
              cases keyHex with
              | none => exact Or.inr ⟨_, rfl⟩
              | some hex => exact Or.inl ⟨i, j, s, p, a, hex, rfl, rfl, hij, rfl, rfl, rfl, rfl⟩

theorem finish_config {g : Given α} {c : Launch α} :
    g.finish A = .config c ↔ ∃ hex, g.Complete c.config.id c.config.peerId c.stomp c.paxe c.peer hex ∧
      parseKey hex = .ok c.config.key ∧ c.config.peerAddr = A.display c.peer := by
  constructor
  · intro h
    rcases complete_or_error A g with ⟨i, j, s, p, a, hex, hc⟩ | ⟨m, hm⟩
    · rw [hc.finish] at h
      cases hk : parseKey hex with
      | panic => rw [hk] at h; cases h
      | err m => rw [hk] at h; cases h
      | ok key =>
        rw [hk] at h
        cases h
        exact ⟨hex, hc, hk, rfl⟩
    · rw [hm] at h
      cases h
  · rintro ⟨hex, hc, hk, ha⟩
    rw [hc.finish, hk]
    obtain ⟨⟨i, j, addr, key, hne⟩, s, p, a⟩ := c
    obtain rfl : addr = A.display a := ha
    rfl

theorem finish_panic {g : Given α} :
    g.finish A = .panic ↔ ∃ i j s p a hex, g.Complete i j s p a hex ∧ parseKey hex = .panic := by
  constructor
  · intro h
    rcases complete_or_error A g with ⟨i, j, s, p, a, hex, hc⟩ | ⟨m, hm⟩
    · rw [hc.finish] at h
      cases hk : parseKey hex with
      | panic => exact ⟨i, j, s, p, a, hex, hc, hk⟩
      | err m => rw [hk] at h; cases h
      | ok key => rw [hk] at h; cases h
    · rw [hm] at h
      cases h
  · rintro ⟨i, j, s, p, a, hex, hc, hk⟩
    rw [hc.finish, hk]

theorem finish_not_help (g : Given α) : g.finish A ≠ .help := by
  intro h
  rcases complete_or_error A g with ⟨i, j, s, p, a, hex, hc⟩ | ⟨m, hm⟩
  · rw [hc.finish] at h
    split at h <;> cases h
  · rw [hm] at h
    cases h

theorem of_snoc (pairs : List (Text × Text)) (flag value : Text) :
    Given.of A (pairs ++ [(flag, value)]) = {
      id := if flag = "--id".toList then u16FromStr value else (Given.of A pairs).id
      stomp := if flag = "--stomp".toList then A.read value else (Given.of A pairs).stomp
      paxe := if flag = "--paxe".toList then A.read value else (Given.of A pairs).paxe
      peerId := if flag = "--peer-id".toList then u16FromStr value else (Given.of A pairs).peerId
      peerAddr := if flag = "--peer".toList then A.read value else (Given.of A pairs).peerAddr
      keyHex := if flag = "--key".toList then some value else (Given.of A pairs).keyHex } := by
  unfold Given.of
  simp only [lastValue_snoc, apply_ite (Option.bind · u16FromStr), apply_ite (Option.bind · A.read),
    Option.bind_some]

theorem set_admits {flag value : Text} (h : Admits A flag value) (pairs : List (Text × Text)) :
    (Given.of A pairs).set A debug flag value = .ok (Given.of A (pairs ++ [(flag, value)])) := by
  rw [of_snoc]
  generalize Given.of A pairs = g
  unfold Given.set
  rcases h with ⟨hf, hv⟩ | ⟨hf, hv⟩ | hf
  · obtain ⟨n, hn⟩ := Option.isSome_iff_exists.mp hv
    have hset : ∀ {name : Text}, parseU16 debug value name = .ok n := by
      intro name
      unfold parseU16
      rw [hn]
    rw [hn]
    rcases hf with hf | hf
    · rw [hf]
      simp [hset, Except.map]
    · rw [hf]
      simp [hset, Except.map]
  · obtain ⟨a, ha⟩ := Option.isSome_iff_exists.mp hv
    have hset : ∀ {name : Text}, parseAddr A debug value name = .ok a := by
      intro name
      unfold parseAddr
      rw [ha]
    rw [ha]
    rcases hf with hf | hf | hf
    · rw [hf]
      simp [hset, Except.map]
    · rw [hf]
      simp [hset, Except.map]
    · rw [hf]
      simp [hset, Except.map]
  · rw [hf]
    simp

theorem set_refuses {flag value : Text} (h : ¬ Admits A flag value) (g : Given α) :
    ∃ m, g.set A debug flag value = .error m := by
  unfold Given.set
  have hnum : ∀ {name : Text} (f : UInt16 → Given α), (u16FromStr value).isSome = false →
      ∃ m, (parseU16 debug value name).map f = .error m := by
    intro name f hv
    unfold parseU16
    rw [Option.isSome_eq_false_iff, Option.isNone_iff_eq_none] at hv
    rw [hv]
    exact ⟨_, rfl⟩
  have haddr : ∀ {name : Text} (f : α → Given α), (A.read value).isSome = false →
      ∃ m, (parseAddr A debug value name).map f = .error m := by
    intro name f hv
    unfold parseAddr
    rw [Option.isSome_eq_false_iff, Option.isNone_iff_eq_none] at hv
    rw [hv]
    exact ⟨_, rfl⟩
  unfold Admits at h
  split
  · exact hnum _ (by simp_all)
  · split
    · exact hnum _ (by simp_all)
    · split
      · exact haddr _ (by simp_all)
      · split
        · exact haddr _ (by simp_all)
        · split
          · exact haddr _ (by simp_all)
          · split
            · simp_all
            · exact ⟨_, rfl⟩

/-! ## Where the loop ends -/

theorem not_isHelp {flag value : Text} (h : Admits A flag value) : isHelp flag = false := by
  rcases h with ⟨rfl | rfl, -⟩ | ⟨rfl | rfl | rfl, -⟩ | rfl <;> rfl

inductive Leftover (A : Addresses α) : List Text → Prop
  | done : Leftover A []
  | help {flag : Text} {rest : List Text} : isHelp flag = true → Leftover A (flag :: rest)
  | bare {flag : Text} : isHelp flag = false → Leftover A [flag]
  | refused {flag value : Text} {rest : List Text} : isHelp flag = false → ¬ Admits A flag value →
      Leftover A (flag :: value :: rest)

theorem exists_leftover (A : Addresses α) : ∀ args : List Text,
    ∃ pairs rest, args = argsOf pairs ++ rest ∧ (∀ p ∈ pairs, Admits A p.1 p.2) ∧ Leftover A rest
  | [] => ⟨[], [], rfl, by simp, .done⟩
  | flag :: rest => by
    by_cases hh : isHelp flag = true
    · exact ⟨[], flag :: rest, rfl, by simp, .help hh⟩
    · rw [Bool.not_eq_true] at hh
      cases rest with
      | nil => exact ⟨[], [flag], rfl, by simp, .bare hh⟩
      | cons value rest =>
        by_cases ha : Admits A flag value
        · obtain ⟨pairs, rest', rfl, hp, hs⟩ := exists_leftover A rest
          refine ⟨(flag, value) :: pairs, rest', rfl, ?_, hs⟩
          intro p hmem
          rcases List.mem_cons.mp hmem with rfl | hmem
          · exact ha
          · exact hp p hmem
        · exact ⟨[], flag :: value :: rest, rfl, by simp, .refused hh ha⟩

theorem parseFrom_help {flag : Text} (hh : isHelp flag = true) (g : Given α) (rest : List Text) :
    parseFrom A debug g (flag :: rest) = .help := by
  cases rest with
  | nil => rw [parseFrom, if_pos hh]
  | cons value rest => rw [parseFrom, if_pos hh]

theorem parseFrom_pairs {pairs : List (Text × Text)} (hp : ∀ p ∈ pairs, Admits A p.1 p.2)
    (before : List (Text × Text)) (rest : List Text) :
    parseFrom A debug (Given.of A before) (argsOf pairs ++ rest) =
      parseFrom A debug (Given.of A (before ++ pairs)) rest := by
  induction pairs generalizing before with
  | nil => rw [List.append_nil]; rfl
  | cons p pairs ih =>
    have ha := hp p List.mem_cons_self
    have hstep : argsOf (p :: pairs) ++ rest = p.1 :: p.2 :: (argsOf pairs ++ rest) := rfl
    rw [hstep, parseFrom, not_isHelp ha, if_neg Bool.false_ne_true]
    rw [set_admits debug ha]
    dsimp only
    rw [ih (fun q hq => hp q (List.mem_cons_of_mem _ hq)), List.append_assoc]
    rfl

theorem parseArgs_pairs {pairs : List (Text × Text)} (hp : ∀ p ∈ pairs, Admits A p.1 p.2) (rest : List Text) :
    parseArgs A debug (argsOf pairs ++ rest) = parseFrom A debug (Given.of A pairs) rest :=
  parseFrom_pairs debug hp [] rest

/-- How a parse ends is settled by what stops the loop. -/
inductive ParseEnds (A : Addresses α) (debug : Text → Text) (args : List Text) : Parsed α → Prop
  | finished {pairs : List (Text × Text)} : args = argsOf pairs → (∀ p ∈ pairs, Admits A p.1 p.2) →
      ParseEnds A debug args ((Given.of A pairs).finish A)
  | help {pairs : List (Text × Text)} {flag : Text} {rest : List Text} : args = argsOf pairs ++ flag :: rest →
      (∀ p ∈ pairs, Admits A p.1 p.2) → isHelp flag = true → ParseEnds A debug args .help
  | stopped (m : Text) : ParseEnds A debug args (.error m)

theorem parseArgs_ends (args : List Text) : ParseEnds A debug args (parseArgs A debug args) := by
  obtain ⟨pairs, rest, rfl, hp, hs⟩ := exists_leftover A args
  rw [parseArgs_pairs debug hp]
  cases hs with
  | done => exact .finished (List.append_nil _) hp
  | help hh =>
    rw [parseFrom_help debug hh]
    exact .help rfl hp hh
  | bare hh =>
    rw [parseFrom, hh, if_neg Bool.false_ne_true]
    exact .stopped _
  | refused hh ha =>
    rw [parseFrom, hh, if_neg Bool.false_ne_true]
    obtain ⟨m, hm⟩ := set_refuses debug ha (Given.of A pairs)
    rw [hm]
    exact .stopped m

/-- A command line starts a node exactly when it is a list of known flags with
values that they take, each flag is there, the ids differ and the last key is
readable; and each flag counts with its last value. It asks for help exactly when a
help flag comes where a flag is expected, after nothing wrong. And the process
aborts exactly when the key is all that is wrong, and the first of its pairs that
is refused ends inside a character. -/
theorem command_line (A : Addresses α) (debug : Text → Text) (args : List Text) :
    (∀ c, parseArgs A debug args = .config c ↔ ∃ pairs hex, args = argsOf pairs ∧ (∀ p ∈ pairs, Admits A p.1 p.2) ∧
      (Given.of A pairs).Complete c.config.id c.config.peerId c.stomp c.paxe c.peer hex ∧
      parseKey hex = .ok c.config.key ∧ c.config.peerAddr = A.display c.peer) ∧
    (parseArgs A debug args = .help ↔ ∃ pairs flag rest, args = argsOf pairs ++ flag :: rest ∧
      (∀ p ∈ pairs, Admits A p.1 p.2) ∧ isHelp flag = true) ∧
    (parseArgs A debug args = .panic ↔ ∃ pairs i j s p a hex, args = argsOf pairs ∧
      (∀ p ∈ pairs, Admits A p.1 p.2) ∧
      (Given.of A pairs).Complete i j s p a hex ∧ len (trim hex) = 64 ∧ Cut (trim hex)) := by
  have hends := parseArgs_ends (A := A) debug args
  have hfinished : ∀ {pairs}, args = argsOf pairs → (∀ p ∈ pairs, Admits A p.1 p.2) →
      parseArgs A debug args = (Given.of A pairs).finish A := by
    rintro pairs rfl hp
    have h := parseArgs_pairs debug hp []
    rw [List.append_nil] at h
    exact h
  refine ⟨fun c => ⟨?_, ?_⟩, ⟨?_, ?_⟩, ⟨?_, ?_⟩⟩
  · intro h
    rw [h] at hends
    generalize hr : Parsed.config c = r at hends
    cases hends with
    | finished hargs hp =>
      obtain ⟨hex, hc, hk, ha⟩ := finish_config.mp hr.symm
      exact ⟨_, hex, hargs, hp, hc, hk, ha⟩
    | help _ _ _ => cases hr
    | stopped m => cases hr
  · rintro ⟨pairs, hex, hargs, hp, hc, hk, ha⟩
    rw [hfinished hargs hp]
    exact finish_config.mpr ⟨hex, hc, hk, ha⟩
  · intro h
    rw [h] at hends
    generalize hr : Parsed.help = r at hends
    cases hends with
    | finished hargs hp => exact absurd hr.symm (finish_not_help _)
    | help hargs hp hh => exact ⟨_, _, _, hargs, hp, hh⟩
    | stopped m => cases hr
  · rintro ⟨pairs, flag, rest, rfl, hp, hh⟩
    rw [parseArgs_pairs debug hp, parseFrom_help debug hh]
  · intro h
    rw [h] at hends
    generalize hr : Parsed.panic = r at hends
    cases hends with
    | finished hargs hp =>
      obtain ⟨i, j, s, p, a, hex, hc, hk⟩ := finish_panic.mp hr.symm
      obtain ⟨hl, hcut⟩ := parseKey_panic_iff.mp hk
      exact ⟨_, i, j, s, p, a, hex, hargs, hp, hc, hl, hcut⟩
    | help _ _ _ => cases hr
    | stopped m => cases hr
  · rintro ⟨pairs, i, j, s, p, a, hex, hargs, hp, hc, hl, hcut⟩
    rw [hfinished hargs hp]
    exact finish_panic.mpr ⟨i, j, s, p, a, hex, hc, parseKey_panic_iff.mpr ⟨hl, hcut⟩⟩

end

end Paxe.SixSeven

import Paxe.Lib.Text
import Paxe.Sodium

/-!
# The link key on the command line (`parse_key` of `src/bin/six-seven-server/main.rs`)

A key is written as 64 hexadecimal digits. The parser measures the argument in
bytes, cuts it into pairs of bytes, and reads each pair with a parser of
integers. That takes a sign for a digit, and cuts characters that are longer
than one byte.
-/

namespace Paxe.SixSeven
open Wire Str

/-- The pairs from the `i`-th on. A cut inside a character panics. -/
def parsePairs (hex : Text) (i : Nat) : (n : Nat) → Res Text (Fixed n)
  | 0 => .ok ⟨[], rfl⟩
  | n + 1 =>
    match sliceBytes hex (i * 2) (i * 2 + 2) with
    | none => .panic
    | some pair =>
      match parseHexU8 pair with
      | none => .err ("--key is not hexadecimal at offset ".toList ++ showNat (i * 2))
      | some byte =>
        match parsePairs hex (i + 1) n with
        | .ok out => .ok ⟨byte :: out.val, by rw [List.length_cons, out.property]⟩
        | .err e => .err e
        | .panic => .panic

def parseKey (hex : Text) : Res Text Key :=
  let hex := trim hex
  if len hex ≠ 64 then
    .err ("--key must be exactly 64 hex characters (32 bytes), got ".toList ++ showNat (len hex))
  else parsePairs hex 0 32

/-! ## Pairs -/

/-- What the parser takes for a pair of digits. -/
def lenient (a b : Char) : Bool := (a == '+' || (hexDigit a).isSome) && (hexDigit b).isSome

def allLenient : Text → Bool
  | [] => true
  | [_] => false
  | a :: b :: t => lenient a b && allLenient t

def aligned (t : Text) : Bool := (splitAtByte t 2).isSome

def pairValue (a b : Char) : UInt8 := UInt8.ofNat ((hexDigit a).getD 0 * 16 + (hexDigit b).getD 0)

def pairValues : Text → Bytes
  | a :: b :: t => pairValue a b :: pairValues t
  | _ => []

theorem hexDigit_plus : hexDigit '+' = none := by decide

theorem hexDigit_ne_plus {c : Char} {d : Nat} (h : hexDigit c = some d) : c ≠ '+' := by
  intro he
  subst he
  rw [hexDigit_plus] at h
  cases h

theorem lenient_iff {a b : Char} : lenient a b = true ↔ (a = '+' ∨ ∃ d, hexDigit a = some d) ∧
    ∃ d, hexDigit b = some d := by
  simp [lenient, Option.isSome_iff_exists]

theorem parseHexU8_pair (a b : Char) : parseHexU8 [a, b] = if lenient a b then some (pairValue a b) else none := by
  by_cases ha : a = '+'
  · subst ha
    cases hb : hexDigit b with
    | none => simp [parseHexU8, dropPlus, lenient, hb]
    | some d =>
      have hd := (hexDigit_ascii hb).2
      simp [parseHexU8, dropPlus, lenient, pairValue, hb, hexDigit_plus]
      omega
  · have hm : dropPlus [a, b] = [a, b] := if_neg ha
    cases hx : hexDigit a with
    | none => simp [parseHexU8, hm, lenient, ha, hx]
    | some c =>
      have hc := (hexDigit_ascii hx).2
      cases hb : hexDigit b with
      | none => simp [parseHexU8, hm, lenient, hx, hb]
      | some d =>
        have hd := (hexDigit_ascii hb).2
        simp [parseHexU8, hm, lenient, pairValue, hx, hb]
        omega

theorem lenient_size {a b : Char} (h : lenient a b = true) : a.utf8Size = 1 ∧ b.utf8Size = 1 := by
  obtain ⟨ha, d, hb⟩ := lenient_iff.mp h
  refine ⟨?_, hexDigit_utf8Size hb⟩
  rcases ha with rfl | ⟨c, ha⟩
  · rfl
  · exact hexDigit_utf8Size ha

theorem splitAtByte_pair {a b : Char} (ha : a.utf8Size = 1) (hb : b.utf8Size = 1) (t : Text) :
    splitAtByte (a :: b :: t) 2 = some ([a, b], t) := by
  have := splitAtByte_append [a, b] t
  rwa [len_cons, len_cons, ha, hb] at this

/-- The pairs before a place read as digits, and the next one is cut inside a
character. -/
def Cut (t : Text) : Prop := ∃ p r, t = p ++ r ∧ allLenient p = true ∧ r ≠ [] ∧ aligned r = false

theorem cut_cons {a b : Char} (h : lenient a b = true) (t : Text) : Cut (a :: b :: t) ↔ Cut t := by
  obtain ⟨ha, hb⟩ := lenient_size h
  constructor
  · intro hcut
    obtain ⟨p, r, ht, hp, hr, hal⟩ := hcut
    match p with
    | [] =>
      rw [List.nil_append] at ht
      rw [← ht, aligned, splitAtByte_pair ha hb] at hal
      cases hal
    | [x] => cases hp
    | x :: y :: p =>
      cases ht
      rw [allLenient, Bool.and_eq_true] at hp
      exact ⟨p, r, rfl, hp.2, hr, hal⟩
  · intro hcut
    obtain ⟨p, r, rfl, hp, hr, hal⟩ := hcut
    refine ⟨a :: b :: p, r, rfl, ?_, hr, hal⟩
    rw [allLenient, h, hp]
    rfl

theorem allLenient_head {t : Text} (ht : t ≠ []) (hno : ∀ a b r, t = a :: b :: r → lenient a b = false) :
    allLenient t = false := by
  match t with
  | [] => contradiction
  | [a] => rfl
  | a :: b :: r => rw [allLenient, hno a b r rfl, Bool.false_and]

theorem cut_head {t : Text} (ht : t ≠ []) (hno : ∀ a b r, t = a :: b :: r → lenient a b = false) :
    Cut t ↔ aligned t = false := by
  constructor
  · intro hcut
    obtain ⟨p, r, rfl, hp, hr, hal⟩ := hcut
    match p with
    | [] => exact hal
    | [x] => cases hp
    | x :: y :: p =>
      rw [allLenient, hno x y (p ++ r) rfl] at hp
      cases hp
  · intro h
    exact ⟨[], t, rfl, rfl, ht, h⟩

theorem cut_not_lenient {t : Text} (h : Cut t) : allLenient t = false := by
  obtain ⟨p, r, rfl, hp, hr, hal⟩ := h
  induction p using allLenient.induct with
  | case1 =>
    match r with
    | [] => contradiction
    | [a] => rfl
    | a :: b :: r =>
      rw [List.nil_append, allLenient, Bool.and_eq_false_iff]
      refine Or.inl (Bool.eq_false_iff.mpr fun h => ?_)
      obtain ⟨ha, hb⟩ := lenient_size h
      rw [aligned, splitAtByte_pair ha hb] at hal
      cases hal
  | case2 a => cases hp
  | case3 a b t ih =>
    rw [allLenient, Bool.and_eq_true] at hp
    rw [List.cons_append, List.cons_append, allLenient, ih hp.2, Bool.and_false]

/-! ## The loop -/

inductive Gives (t : Text) {n : Nat} : Res Text (Fixed n) → Prop
  | ok {out : Fixed n} : allLenient t = true → out.val = pairValues t → Gives t (.ok out)
  | err {e : Text} : allLenient t = false → ¬ Cut t → Gives t (.err e)
  | panic : allLenient t = false → Cut t → Gives t .panic

theorem Gives.err_head {t : Text} {n : Nat} {e : Text} (ht : t ≠ [])
    (hno : ∀ a b r, t = a :: b :: r → lenient a b = false) (hal : aligned t = true) : @Gives t n (.err e) := by
  refine .err (allLenient_head ht hno) ?_
  rw [cut_head ht hno, hal]
  simp

theorem two_bytes {pair : Text} (h : len pair = 2) :
    (∃ a b, pair = [a, b] ∧ a.utf8Size = 1 ∧ b.utf8Size = 1) ∨ ∃ a, pair = [a] ∧ a.utf8Size = 2 := by
  match pair with
  | [] => cases h
  | [a] =>
    rw [len_cons] at h
    exact Or.inr ⟨a, rfl, h⟩
  | [a, b] =>
    have ha := a.utf8Size_pos
    have hb := b.utf8Size_pos
    have hl : len ([] : Text) = 0 := rfl
    rw [len_cons, len_cons, hl] at h
    exact Or.inl ⟨a, b, rfl, by omega, by omega⟩
  | a :: b :: c :: t =>
    have ha := a.utf8Size_pos
    have hb := b.utf8Size_pos
    have hc := c.utf8Size_pos
    rw [len_cons, len_cons, len_cons] at h
    omega

theorem not_lenient_wide {a : Char} (ha : a.utf8Size = 2) (b : Char) : lenient a b = false := by
  rw [Bool.eq_false_iff]
  intro h
  have := (lenient_size h).1
  omega

theorem parseHexU8_wide {a : Char} (ha : a.utf8Size = 2) : parseHexU8 [a] = none := by
  have hne : a ≠ '+' := by
    intro he
    subst he
    cases ha
  have hx : hexDigit a = none := by
    cases h : hexDigit a with
    | none => rfl
    | some d =>
      have := hexDigit_utf8Size h
      omega
  have hm : dropPlus [a] = [a] := if_neg hne
  simp [parseHexU8, hm, hx]

theorem parsePairs_gives {n i : Nat} {done t : Text} (hd : len done = i * 2) (ht : len t = n * 2) :
    Gives t (parsePairs (done ++ t) i n) := by
  induction n generalizing i done t with
  | zero =>
    have hnil : t = [] := by
      cases t with
      | nil => rfl
      | cons c t =>
        have := c.utf8Size_pos
        rw [len_cons] at ht
        omega
    subst hnil
    exact .ok rfl rfl
  | succ n ih =>
    have hne : t ≠ [] := by
      intro he
      subst he
      have hl : len ([] : Text) = 0 := rfl
      omega
    have hslice : sliceBytes (done ++ t) (i * 2) (i * 2 + 2) = (splitAtByte t 2).map (·.1) := by
      rw [← hd]
      exact sliceBytes_append done t 2
    rw [parsePairs, hslice]
    cases hs : splitAtByte t 2 with
    | none =>
      have hno : ∀ a b r, t = a :: b :: r → lenient a b = false := by
        intro a b r he
        subst he
        rw [Bool.eq_false_iff]
        intro h
        obtain ⟨ha, hb⟩ := lenient_size h
        rw [splitAtByte_pair ha hb] at hs
        cases hs
      refine .panic (allLenient_head hne hno) ((cut_head hne hno).mpr ?_)
      rw [aligned, hs]
      rfl
    | some x =>
      obtain ⟨pair, r⟩ := x
      obtain ⟨rfl, hpair⟩ := splitAtByte_some hs
      have hal : aligned (pair ++ r) = true := by
        rw [aligned, hs]
        rfl
      dsimp only [Option.map_some]
      rcases two_bytes hpair with ⟨a, b, rfl, ha, hb⟩ | ⟨a, rfl, ha⟩
      · rw [parseHexU8_pair]
        by_cases hl : lenient a b = true
        · rw [if_pos hl]
          have hrec : Gives r (parsePairs ((done ++ [a, b]) ++ r) (i + 1) n) := by
            apply ih
            · rw [len_append, hd, hpair]
              omega
            · rw [len_append, hpair] at ht
              omega
          have hall : allLenient ([a, b] ++ r) = allLenient r := by
            show (lenient a b && allLenient r) = allLenient r
            rw [hl, Bool.true_and]
          have hcut : Cut ([a, b] ++ r) ↔ Cut r := cut_cons hl r
          rw [List.append_assoc] at hrec
          generalize parsePairs (done ++ ([a, b] ++ r)) (i + 1) n = res at hrec
          cases hrec with
          | ok h hv => exact .ok (hall.trans h) (congrArg (pairValue a b :: ·) hv)
          | err h hc => exact .err (hall.trans h) fun hx => hc (hcut.mp hx)
          | panic h hc => exact .panic (hall.trans h) (hcut.mpr hc)
        · have hl : lenient a b = false := by simpa using hl
          have hno : ∀ x y q, [a, b] ++ r = x :: y :: q → lenient x y = false := by
            intro x y q hq
            cases hq
            exact hl
          rw [if_neg (by simp [hl])]
          exact .err_head hne hno hal
      · have hno : ∀ x y q, [a] ++ r = x :: y :: q → lenient x y = false := by
          intro x y q hq
          cases hq
          exact not_lenient_wide ha y
        rw [parseHexU8_wide ha]
        exact .err_head hne hno hal

/-! ## Keys -/

/-- `t` is the 64 digits of `key`, two to a byte. -/
def Writes (t : Text) (key : Key) : Prop :=
  t.length = 64 ∧ ∀ i, i < 32 → ∃ a b x y, t[2 * i]? = some a ∧ t[2 * i + 1]? = some b ∧ hexDigit a = some x ∧
    hexDigit b = some y ∧ key.val[i]? = some (UInt8.ofNat (x * 16 + y))

theorem allLenient_len : ∀ {t : Text}, allLenient t = true → len t = t.length
  | [], _ => rfl
  | a :: b :: t, h => by
    rw [allLenient, Bool.and_eq_true] at h
    obtain ⟨ha, hb⟩ := lenient_size h.1
    rw [len_cons, len_cons, ha, hb, allLenient_len h.2, List.length_cons, List.length_cons]
    omega

theorem strict_pair {a b : Char} {v : UInt8} :
    (∃ x y, hexDigit a = some x ∧ hexDigit b = some y ∧ v = UInt8.ofNat (x * 16 + y)) ↔
      lenient a b = true ∧ a ≠ '+' ∧ b ≠ '+' ∧ v = pairValue a b := by
  constructor
  · intro hd
    obtain ⟨x, y, hx, hy, rfl⟩ := hd
    refine ⟨lenient_iff.mpr ⟨Or.inr ⟨x, hx⟩, y, hy⟩, hexDigit_ne_plus hx, hexDigit_ne_plus hy, ?_⟩
    rw [pairValue, hx, hy]
    rfl
  · intro hd
    obtain ⟨hl, ha, -, rfl⟩ := hd
    obtain ⟨hx, y, hy⟩ := lenient_iff.mp hl
    obtain ⟨x, hx⟩ := hx.resolve_left ha
    refine ⟨x, y, hx, hy, ?_⟩
    rw [pairValue, hx, hy]
    rfl

theorem digits_iff {n : Nat} {t : Text} {l : Bytes} (ht : t.length = 2 * n) (hl : l.length = n) :
    (∀ i, i < n → ∃ a b x y, t[2 * i]? = some a ∧ t[2 * i + 1]? = some b ∧ hexDigit a = some x ∧
      hexDigit b = some y ∧ l[i]? = some (UInt8.ofNat (x * 16 + y))) ↔
    allLenient t = true ∧ '+' ∉ t ∧ l = pairValues t := by
  induction n generalizing t l with
  | zero =>
    rw [List.length_eq_zero_iff] at hl
    rw [Nat.mul_zero, List.length_eq_zero_iff] at ht
    subst hl ht
    simp [allLenient, pairValues]
  | succ n ih =>
    match t, l with
    | a :: b :: t, v :: l =>
      have hrec := @ih t l (by simp at ht; omega) (by simpa using hl)
      have hsplit := @strict_pair a b v
      rw [Nat.forall_lt_succ_left]
      have hshift : ∀ i, (a :: b :: t)[2 * (i + 1)]? = t[2 * i]? ∧
          (a :: b :: t)[2 * (i + 1) + 1]? = t[2 * i + 1]? := by
        intro i
        rw [Nat.mul_add]
        exact ⟨rfl, rfl⟩
      simp only [hshift, List.getElem?_cons_succ]
      rw [hrec]
      simp only [Nat.mul_zero, List.getElem?_cons_zero, Option.some.injEq]
      rw [allLenient, pairValues, Bool.and_eq_true, List.mem_cons, List.mem_cons, List.cons.injEq]
      constructor
      · intro hd
        obtain ⟨⟨_, _, x, y, rfl, rfl, hx, hy, hv⟩, hall, hplus, hval⟩ := hd
        obtain ⟨h1, h2, h3, h4⟩ := hsplit.mp ⟨x, y, hx, hy, hv⟩
        refine ⟨⟨h1, hall⟩, ?_, h4, hval⟩
        intro hmem
        rcases hmem with h | h | h
        · exact h2 h.symm
        · exact h3 h.symm
        · exact hplus h
      · intro hd
        obtain ⟨⟨h1, hall⟩, hplus, h4, hval⟩ := hd
        obtain ⟨x, y, hx, hy, hv⟩ :=
          hsplit.mpr ⟨h1, fun h => hplus (Or.inl h.symm), fun h => hplus (Or.inr (Or.inl h.symm)), h4⟩
        exact ⟨⟨a, b, x, y, rfl, rfl, hx, hy, hv⟩, hall, fun h => hplus (Or.inr (Or.inr h)), hval⟩

theorem writes_iff {t : Text} {key : Key} :
    Writes t key ↔ len t = 64 ∧ allLenient t = true ∧ '+' ∉ t ∧ key.val = pairValues t := by
  constructor
  · intro hd
    obtain ⟨hlen, h⟩ := hd
    obtain ⟨hall, hplus, hval⟩ := (digits_iff hlen key.property).mp h
    exact ⟨(allLenient_len hall).trans hlen, hall, hplus, hval⟩
  · intro hd
    obtain ⟨hlen, h⟩ := hd
    have hlen : t.length = 64 := (allLenient_len h.1).symm.trans hlen
    exact ⟨hlen, (digits_iff hlen key.property).mpr h⟩

/-- Nothing of an argument of the right length is read in a way of its own. -/
def Plain (t : Text) : Prop := len t = 64 → ¬ Cut t ∧ (allLenient t = true → '+' ∉ t)

theorem parseKey_gives {hex : Text} (h : len (trim hex) = 64) : Gives (trim hex) (parseKey hex) := by
  have hp : parseKey hex = parsePairs (trim hex) 0 32 := if_neg (not_not.mpr h)
  rw [hp]
  exact @parsePairs_gives 32 0 [] (trim hex) rfl h

theorem parseKey_ok_iff {hex : Text} {key : Key} :
    parseKey hex = .ok key ↔ len (trim hex) = 64 ∧ allLenient (trim hex) = true ∧
    key.val = pairValues (trim hex) := by
  by_cases h : len (trim hex) = 64
  · have hg := parseKey_gives h
    generalize parseKey hex = res at hg
    cases hg with
    | ok hall hval => simp [h, hall, ← hval, Subtype.ext_iff, eq_comm]
    | err hall hcut => simp [hall]
    | panic hall hcut => simp [hall]
  · simp [parseKey, h]

theorem parseKey_panic_iff {hex : Text} : parseKey hex = .panic ↔ len (trim hex) = 64 ∧ Cut (trim hex) := by
  by_cases h : len (trim hex) = 64
  · have hg := parseKey_gives h
    generalize parseKey hex = res at hg
    cases hg with
    | ok hall hval =>
      have hcut : ¬ Cut (trim hex) := fun hc => by
        rw [cut_not_lenient hc] at hall
        cases hall
      simp [hcut]
    | err hall hcut => simp [hcut]
    | panic hall hcut => simp [h, hcut]
  · simp [parseKey, h]

/-- What a key parser owes its caller. -/
structure ReadsKey (hex : Text) : Prop where
  returns : parseKey hex ≠ .panic
  accepts : ∀ key, parseKey hex = .ok key ↔ Writes (trim hex) key
  refuses : (∀ key, ¬ Writes (trim hex) key) → ∃ e, parseKey hex = .err e

theorem readsKey_iff (hex : Text) : ReadsKey hex ↔ Plain (trim hex) := by
  constructor
  · intro hreads hlen
    obtain ⟨hret, hacc, -⟩ := hreads
    refine ⟨fun hcut => hret (parseKey_panic_iff.mpr ⟨hlen, hcut⟩), fun hall => ?_⟩
    have hg := parseKey_gives hlen
    cases hr : parseKey hex with
    | ok key => exact (writes_iff.mp ((hacc key).mp hr)).2.2.1
    | err e =>
      rw [hr] at hg
      cases hg with
      | err h _ =>
        rw [hall] at h
        cases h
    | panic => exact absurd hr hret
  · intro hplain
    have hacc : ∀ key, parseKey hex = .ok key ↔ Writes (trim hex) key := by
      intro key
      rw [parseKey_ok_iff, writes_iff]
      constructor
      · intro hd
        obtain ⟨hlen, hall, hval⟩ := hd
        exact ⟨hlen, hall, (hplain hlen).2 hall, hval⟩
      · intro hd
        obtain ⟨hlen, hall, -, hval⟩ := hd
        exact ⟨hlen, hall, hval⟩
    have hret : parseKey hex ≠ .panic := by
      intro hp
      obtain ⟨hlen, hcut⟩ := parseKey_panic_iff.mp hp
      exact (hplain hlen).1 hcut
    refine ⟨hret, hacc, fun hno => ?_⟩
    cases hr : parseKey hex with
    | ok key => exact absurd ((hacc key).mp hr) (hno key)
    | err e => exact ⟨e, rfl⟩
    | panic => exact absurd hr hret

theorem writes_lower {t t' : Text} {key : Key} (h : Writes t key) (h' : Writes t' key) :
    t.map Char.toLower = t'.map Char.toLower := by
  obtain ⟨hlen, hd⟩ := h
  obtain ⟨hlen', hd'⟩ := h'
  apply List.ext_getElem?
  intro j
  rw [List.getElem?_map, List.getElem?_map]
  by_cases hj : j < 64
  · obtain ⟨a, b, x, y, ha, hb, hx, hy, hk⟩ := hd (j / 2) (by omega)
    obtain ⟨a', b', x', y', ha', hb', hx', hy', hk'⟩ := hd' (j / 2) (by omega)
    have hbx := (hexDigit_ascii hx).2
    have hby := (hexDigit_ascii hy).2
    have hbx' := (hexDigit_ascii hx').2
    have hby' := (hexDigit_ascii hy').2
    have hv : x * 16 + y = x' * 16 + y' := by
      have := congrArg UInt8.toNat (Option.some.inj (hk.symm.trans hk'))
      simpa [UInt8.toNat_ofNat', Nat.mod_eq_of_lt, show x * 16 + y < 256 by omega,
        show x' * 16 + y' < 256 by omega] using this
    obtain ⟨rfl, rfl⟩ : x = x' ∧ y = y' := by omega
    rcases Nat.mod_two_eq_zero_or_one j with hm | hm
    · have hj2 : j = 2 * (j / 2) := by omega
      rw [hj2, ha, ha', Option.map_some, Option.map_some, hexDigit_toLower hx, hexDigit_toLower hx']
    · have hj2 : j = 2 * (j / 2) + 1 := by omega
      rw [hj2, hb, hb', Option.map_some, Option.map_some, hexDigit_toLower hy, hexDigit_toLower hy']
  · rw [List.getElem?_eq_none (by omega), List.getElem?_eq_none (by omega)]

/-- The parser does what it should for exactly the plain arguments, and among
those a key is its digits. -/
theorem link_key (hex : Text) :
    (ReadsKey hex ↔ Plain (trim hex)) ∧
    ∀ hex' key, Plain (trim hex) → Plain (trim hex') → parseKey hex = .ok key → parseKey hex' = .ok key →
      (trim hex).map Char.toLower = (trim hex').map Char.toLower := by
  refine ⟨readsKey_iff hex, fun hex' key h h' hk hk' => ?_⟩
  have hw := (((readsKey_iff hex).mpr h).accepts key).mp hk
  have hw' := (((readsKey_iff hex').mpr h').accepts key).mp hk'
  exact writes_lower hw hw'

theorem link_key_digits : ReadsKey (List.replicate 64 'a') := by
  apply (link_key _).1.mpr
  have hall : allLenient (trim (List.replicate 64 'a')) = true := by decide +kernel
  refine fun _ => ⟨fun hcut => ?_, fun _ => by decide +kernel⟩
  rw [cut_not_lenient hcut] at hall
  cases hall

theorem link_key_signed :
    (∃ key, parseKey (List.replicate 32 ['+', 'a']).flatten = .ok key ∧
      ¬ Writes (trim (List.replicate 32 ['+', 'a']).flatten) key) ∧
    parseKey ('a' :: 'é' :: List.replicate 61 'a') = .panic := by
  refine ⟨⟨⟨List.replicate 32 10, rfl⟩, ?_, fun hw => ?_⟩, ?_⟩
  · exact parseKey_ok_iff.mpr ⟨by decide +kernel, by decide +kernel, by decide +kernel⟩
  · exact (writes_iff.mp hw).2.2.1 (by decide +kernel)
  · refine parseKey_panic_iff.mpr ⟨by decide +kernel, [], _, rfl, rfl, by decide +kernel, by decide +kernel⟩

end Paxe.SixSeven

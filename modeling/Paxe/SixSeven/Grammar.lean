import Paxe.SixSeven.KvSound

/-!
# The request grammar

Which texts are a request, and for which operation. The grammar says it with
concatenations of words and gaps; `Op.parse` cuts a text with splits and trims
of different sides, and gives an operation exactly where the grammar does.
-/

namespace Paxe.SixSeven
open Str

def Solid (t : Text) : Prop := ∀ c ∈ t, isWhitespace c = false

def Blank (t : Text) : Prop := ∀ c ∈ t, isWhitespace c = true

def Ends (rest : Text) : Prop := ∀ c ∈ rest.head?, isWhitespace c = true

/-- The text `b`, which does not start with white space, asks for the operation. -/
inductive Op.Written (b : Text) : Op → Prop
  | put {verb gap key v : Text} {c : Char} {k : UInt64} : b = verb ++ gap ++ key ++ c :: v →
      Solid verb → Blank gap → gap ≠ [] → Solid key → isWhitespace c = true →
      (toAsciiUppercase verb = "PUT".toList ∨ toAsciiUppercase verb = "SET".toList) → len b ≤ 1024 →
      parseU64 key = some k → Written b (.put k v)
  | get {verb rest : Text} {k : UInt64} : b = verb ++ rest → Solid verb → Ends rest →
      toAsciiUppercase verb = "GET".toList → parseU64 (trim rest) = some k → Written b (.get k)
  | rm {verb rest : Text} {k : UInt64} : b = verb ++ rest → Solid verb → Ends rest →
      (toAsciiUppercase verb = "RM".toList ∨ toAsciiUppercase verb = "DEL".toList) → parseU64 (trim rest) = some k →
      Written b (.rm k)

/-! ## Words -/

theorem split_word {t verb rest : Text} (ht : t = verb ++ rest) (hv : Solid verb) (hr : Ends rest) :
    (splitOnce isWhitespace t = none ∧ verb = t ∧ rest = []) ∨
      ∃ c r, rest = c :: r ∧ isWhitespace c = true ∧ splitOnce isWhitespace t = some (verb, r) := by
  subst ht
  cases rest with
  | nil =>
    left
    rw [List.append_nil]
    exact ⟨splitOnce_none hv, rfl, rfl⟩
  | cons c r =>
    right
    have hc : isWhitespace c = true := hr c rfl
    exact ⟨c, r, rfl, hc, splitOnce_append hv hc r⟩

theorem exists_word (t : Text) : ∃ verb rest, t = verb ++ rest ∧ Solid verb ∧ Ends rest := by
  refine ⟨t.takeWhile (!isWhitespace ·), t.dropWhile (!isWhitespace ·), List.takeWhile_append_dropWhile.symm,
    ?_, ?_⟩
  · intro c hc
    have := List.mem_takeWhile_imp hc
    simpa using this
  · intro c hc
    have := List.head?_dropWhile_not (fun x => !isWhitespace x) t
    rw [Option.mem_def] at hc
    rw [hc] at this
    simpa using this

theorem trimStart_blank {gap : Text} (hg : Blank gap) (t : Text) : trimStart (gap ++ t) = trimStart t := by
  induction gap with
  | nil => rfl
  | cons c gap ih =>
    have hc : isWhitespace c = true := hg c (by simp)
    have := ih fun d hd => hg d (by simp [hd])
    rw [← this]
    simp [trimStart, hc]

theorem trimStart_solid {key : Text} (hk : Solid key) (hne : key ≠ []) (t : Text) :
    trimStart (key ++ t) = key ++ t := by
  cases key with
  | nil => exact absurd rfl hne
  | cons c key =>
    have hc : isWhitespace c = false := hk c (by simp)
    simp [trimStart, hc]

theorem exists_gap (t : Text) : ∃ gap, Blank gap ∧ t = gap ++ trimStart t := by
  refine ⟨t.takeWhile isWhitespace, ?_, List.takeWhile_append_dropWhile.symm⟩
  intro c hc
  exact List.mem_takeWhile_imp hc

theorem trim_trimStart (t : Text) : trim (trimStart t) = trim t := by
  unfold trim trimStart
  rw [List.dropWhile_idempotent]

/-! ## The parser -/

theorem parseU64_nil : parseU64 [] = none := rfl

theorem Op.parseKey_iff {debug : Text → Text} {s : Text} {k : UInt64} :
    Op.parseKey debug s = .ok k ↔ parseU64 (trim s) = some k := by
  unfold Op.parseKey
  dsimp only
  cases hs : trim s with
  | nil => simp [parseU64_nil]
  | cons c t =>
    simp only [List.isEmpty_cons, Bool.false_eq_true, if_false]
    cases parseU64 (c :: t) with
    | none => simp
    | some j => simp

theorem splitOnce_solid {t a v : Text} (h : splitOnce isWhitespace t = some (a, v)) :
    ∃ c, isWhitespace c = true ∧ Solid a ∧ t = a ++ c :: v := by
  obtain ⟨verb, rest, rfl, hv, hr⟩ := exists_word t
  rcases split_word rfl hv hr with ⟨hs, -, -⟩ | ⟨c, r, rfl, hc, hs⟩
  · rw [hs] at h
    cases h
  · rw [hs] at h
    cases h
    exact ⟨c, hc, hv, rfl⟩

section
variable {debug : Text → Text} {size : Nat} {verb rest : Text} {op : Op}

/-- What a verb accepts, of the text after it. -/
inductive Op.Accepts (size : Nat) (verb rest : Text) : Op → Prop
  | put {key v : Text} {c : Char} {k : UInt64} : rest = key ++ c :: v → Solid key → isWhitespace c = true →
      (toAsciiUppercase verb = "PUT".toList ∨ toAsciiUppercase verb = "SET".toList) → size ≤ 1024 →
      parseU64 key = some k → Accepts size verb rest (.put k v)
  | get {k : UInt64} : toAsciiUppercase verb = "GET".toList → parseU64 (trim rest) = some k →
      Accepts size verb rest (.get k)
  | rm {k : UInt64} : (toAsciiUppercase verb = "RM".toList ∨ toAsciiUppercase verb = "DEL".toList) →
      parseU64 (trim rest) = some k → Accepts size verb rest (.rm k)

theorem Op.parseVerb_ok (h : parseVerb debug size verb rest = .ok op) : Accepts size verb rest op := by
  unfold parseVerb at h
  dsimp only at h
  split at h
  · rename_i hv
    obtain ⟨k, hk, rfl⟩ := Except.map_eq_ok h
    exact .get hv (parseKey_iff.mp hk)
  · split at h
    · rename_i hv
      obtain ⟨k, hk, rfl⟩ := Except.map_eq_ok h
      exact .rm hv (parseKey_iff.mp hk)
    · split at h
      · rename_i hv
        split at h
        · cases h
        · rename_i hsize
          split at h
          · cases h
          · rename_i key v hs
            obtain ⟨k, hk, rfl⟩ := Except.map_eq_ok h
            obtain ⟨c, hc, hsolid, hrest⟩ := splitOnce_solid hs
            rw [parseKey_iff, trim_eq hsolid] at hk
            exact .put hrest hsolid hc hv (Nat.le_of_not_lt hsize) hk
      · split at h
        · cases h
        · cases h

theorem Op.parseVerb_accepts (h : Accepts size verb rest op) : parseVerb debug size verb rest = .ok op := by
  have hlit : "PUT".toList ≠ "GET".toList ∧ "SET".toList ≠ "GET".toList ∧ "RM".toList ≠ "GET".toList ∧
      "DEL".toList ≠ "GET".toList ∧ "PUT".toList ≠ "RM".toList ∧ "PUT".toList ≠ "DEL".toList ∧
      "SET".toList ≠ "RM".toList ∧ "SET".toList ≠ "DEL".toList := by decide
  obtain ⟨h1, h2, h3, h4, h5, h6, h7, h8⟩ := hlit
  unfold parseVerb
  cases h with
  | @put key v c k hrest hk hc hv hsize hnum =>
    have hs : splitOnce isWhitespace rest = some (key, v) := by
      rw [hrest]
      exact splitOnce_append hk hc v
    have hkey : parseKey debug key = .ok k := by
      rw [parseKey_iff, trim_eq hk]
      exact hnum
    have hle : ¬ maxPutBytes < size := Nat.not_lt.mpr hsize
    rcases hv with hv | hv
    · simp only [hv, h1, h5, h6, or_self, if_false, true_or, if_true, gt_iff_lt, hle, hs, hkey]
      rfl
    · simp only [hv, h2, h7, h8, or_self, if_false, or_true, if_true, gt_iff_lt, hle, hs, hkey]
      rfl
  | @get k hv hnum =>
    have hkey : parseKey debug rest = .ok k := parseKey_iff.mpr hnum
    simp only [hv, if_true, hkey]
    rfl
  | @rm k hv hnum =>
    have hkey : parseKey debug rest = .ok k := parseKey_iff.mpr hnum
    rcases hv with hv | hv
    · simp only [hv, h3, if_false, true_or, if_true, hkey]
      rfl
    · simp only [hv, h4, if_false, or_true, if_true, hkey]
      rfl

end

theorem Op.parse_word (debug : Text → Text) {body verb rest : Text} (hb : trimStart body = verb ++ rest)
    (hv : Solid verb) (hr : Ends rest) :
    parse debug body = parseVerb debug (len (trimStart body)) verb (trimStart rest) := by
  unfold parse
  dsimp only
  rcases split_word hb hv hr with ⟨hs, hverb, rfl⟩ | ⟨c, r, rfl, hc, hs⟩
  · rw [hs, ← hverb]
    rfl
  · rw [hs]
    dsimp only
    rw [show c :: r = [c] ++ r from rfl, trimStart_blank (by simpa [Blank] using hc)]

/-- A request is accepted exactly for the operation it is written for, and every
other text is refused. A value is what follows the one white space after the key. -/
theorem request_grammar (debug : Text → Text) :
    (∀ (body : Text) (op : Op), Op.parse debug body = .ok op ↔ Op.Written (trimStart body) op) ∧
    (∀ body : Text, (∀ op, ¬ Op.Written (trimStart body) op) → ∃ e, Op.parse debug body = .error e) ∧
    (∀ (k : UInt64) (v : Text), len ("PUT ".toList ++ showU64 k ++ " ".toList ++ v) ≤ 1024 →
      Op.parse debug ("PUT ".toList ++ showU64 k ++ " ".toList ++ v) = .ok (.put k v)) := by
  have hiff : ∀ (body : Text) (op : Op), Op.parse debug body = .ok op ↔ Op.Written (trimStart body) op := by
    intro body op
    constructor
    · intro h
      obtain ⟨verb, rest, hb, hv, hr⟩ := exists_word (trimStart body)
      obtain ⟨gap, hg, hgap⟩ := exists_gap rest
      rw [Op.parse_word debug hb hv hr] at h
      cases Op.parseVerb_ok h with
      | @put key v c k hrest hk hc hverb hsize hnum =>
        rw [hrest] at hgap
        refine .put ?_ hv hg ?_ hk hc hverb hsize hnum
        · rw [hb, hgap]
          simp
        · -- Without a gap the key would be part of the verb.
          intro he
          subst he
          cases key with
          | nil => cases hnum
          | cons d key =>
            have hd : isWhitespace d = true := hr d (by rw [hgap]; rfl)
            rw [hk d (by simp)] at hd
            cases hd
      | @get k hverb hnum =>
        rw [trim_trimStart] at hnum
        exact .get hb hv hr hverb hnum
      | @rm k hverb hnum =>
        rw [trim_trimStart] at hnum
        exact .rm hb hv hr hverb hnum
    · intro h
      cases h with
      | @put verb gap key v c k hb hv hg hne hk hc hverb hsize hnum =>
        have hkey : key ≠ [] := by
          intro he
          subst he
          cases hnum
        have hrest : trimStart (gap ++ (key ++ c :: v)) = key ++ c :: v := by
          rw [trimStart_blank hg, trimStart_solid hk hkey]
        have hr : Ends (gap ++ (key ++ c :: v)) := by
          cases gap with
          | nil => exact absurd rfl hne
          | cons d gap =>
            intro x hx
            cases hx
            exact hg d (by simp)
        have hb' : trimStart body = verb ++ (gap ++ (key ++ c :: v)) := by
          rw [hb]
          simp
        rw [Op.parse_word debug hb' hv hr, hrest]
        exact Op.parseVerb_accepts (.put rfl hk hc hverb hsize hnum)
      | @get verb rest k hb hv hr hverb hnum =>
        rw [Op.parse_word debug hb hv hr]
        rw [← trim_trimStart] at hnum
        exact Op.parseVerb_accepts (.get hverb hnum)
      | @rm verb rest k hb hv hr hverb hnum =>
        rw [Op.parse_word debug hb hv hr]
        rw [← trim_trimStart] at hnum
        exact Op.parseVerb_accepts (.rm hverb hnum)
  refine ⟨hiff, ?_, ?_⟩
  · intro body hno
    cases h : Op.parse debug body with
    | ok op => exact absurd ((hiff body op).mp h) (hno op)
    | error e => exact ⟨e, rfl⟩
  · intro k v hlen
    have hstart : trimStart ("PUT ".toList ++ showU64 k ++ " ".toList ++ v) =
        "PUT ".toList ++ showU64 k ++ " ".toList ++ v := by
      rw [List.append_assoc, List.append_assoc]
      rfl
    rw [hiff, hstart]
    refine @Op.Written.put _ "PUT".toList " ".toList (showU64 k) v ' ' k ?_ ?_ ?_ ?_ ?_ rfl (Or.inl rfl) hlen
      (parseU64_showU64 k)
    · simp
    · simp [Solid, isWhitespace]
    · simp [Blank, isWhitespace]
    · simp
    · exact fun c hc => isDigit_not_whitespace (showU64_digit hc)

end Paxe.SixSeven

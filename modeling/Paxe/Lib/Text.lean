import Paxe.Lib.Wire

/-!
# Text

A string is the list of its characters; its bytes are their UTF-8 encoding.
Splitting at the first match, trimming white space, and decimal 64-bit
integers, as string libraries have them.
-/

namespace Str

open Wire

abbrev Text := List Char

/-! ## UTF-8 -/

def toBytes (t : Text) : Bytes := t.flatMap String.utf8EncodeChar

def fromUtf8 (b : Bytes) : Option Text := (ByteArray.utf8Decode? ⟨b.toArray⟩).map Array.toList

/-- The length in bytes. -/
def len (t : Text) : Nat := (toBytes t).length

@[simp] theorem fromUtf8_toBytes (t : Text) : fromUtf8 (toBytes t) = some t := by
  have h : (⟨(toBytes t).toArray⟩ : ByteArray) = t.utf8Encode := by
    apply ByteArray.ext
    simp [toBytes, List.utf8Encode]
  rw [fromUtf8, h, List.utf8Decode?_utf8Encode]
  simp

theorem toBytes_of_fromUtf8 {b : Bytes} {t : Text} (h : fromUtf8 b = some t) : toBytes t = b := by
  obtain ⟨chars, hd, rfl⟩ := Option.map_eq_some_iff.mp h
  have hs : (ByteArray.utf8Decode? ⟨b.toArray⟩).isSome = true := by rw [hd]; rfl
  have henc := @ByteArray.utf8Encode_get_utf8Decode? ⟨b.toArray⟩ hs
  simp only [hd, Option.get_some] at henc
  have := congrArg (fun a : ByteArray => a.data.toList) henc
  simpa [toBytes, List.utf8Encode] using this

theorem toBytes_injective {a b : Text} (h : toBytes a = toBytes b) : a = b := by
  have := fromUtf8_toBytes a
  rw [h, fromUtf8_toBytes] at this
  exact (Option.some.inj this).symm

theorem zero_mem_utf8EncodeChar {c : Char} (h : (0 : UInt8) ∈ String.utf8EncodeChar c) : c = '\x00' := by
  have hz : ∀ n : Nat, n < 256 → n ≠ 0 → (0 : UInt8) ≠ UInt8.ofNat n := by
    intro n hn hne he
    have := congrArg UInt8.toNat he
    rw [UInt8.toNat_ofNat', Nat.mod_eq_of_lt hn] at this
    exact hne this.symm
  unfold String.utf8EncodeChar at h
  dsimp only at h
  by_cases h1 : c.val.toNat ≤ 127
  · rw [if_pos h1, List.mem_singleton] at h
    by_cases hc : c.val.toNat = 0
    · apply Char.ext
      apply UInt32.toNat_inj.mp
      exact hc
    · exact absurd h (hz _ (by omega) hc)
  · exfalso
    rw [if_neg h1] at h
    split at h
    · simp only [List.mem_cons, List.not_mem_nil, or_false] at h
      rcases h with h | h
      · exact hz _ (by omega) (by omega) h
      · exact hz _ (by omega) (by omega) h
    · split at h
      · simp only [List.mem_cons, List.not_mem_nil, or_false] at h
        rcases h with h | h | h
        · exact hz _ (by omega) (by omega) h
        · exact hz _ (by omega) (by omega) h
        · exact hz _ (by omega) (by omega) h
      · simp only [List.mem_cons, List.not_mem_nil, or_false] at h
        rcases h with h | h | h | h
        · exact hz _ (by omega) (by omega) h
        · exact hz _ (by omega) (by omega) h
        · exact hz _ (by omega) (by omega) h
        · exact hz _ (by omega) (by omega) h

theorem zero_mem_toBytes {t : Text} : (0 : UInt8) ∈ toBytes t ↔ '\x00' ∈ t := by
  unfold toBytes
  rw [List.mem_flatMap]
  constructor
  · rintro ⟨c, hc, h⟩
    exact zero_mem_utf8EncodeChar h ▸ hc
  · intro h
    exact ⟨'\x00', h, by decide⟩

theorem toBytes_append (a b : Text) : toBytes (a ++ b) = toBytes a ++ toBytes b := by
  simp [toBytes]

@[simp] theorem len_append (a b : Text) : len (a ++ b) = len a + len b := by
  simp [len, toBytes_append]

theorem len_cons (c : Char) (t : Text) : len (c :: t) = c.utf8Size + len t := by
  simp [len, toBytes]

theorem len_eq_length {t : Text} (h : ∀ c ∈ t, c.utf8Size = 1) : len t = t.length := by
  induction t with
  | nil => rfl
  | cons c t ih =>
    rw [len_cons, h c (by simp), ih fun d hd => h d (by simp [hd]), List.length_cons]
    omega

theorem len_le_of_suffix {a b : Text} (h : a <:+ b) : len a ≤ len b := by
  obtain ⟨pre, rfl⟩ := h
  rw [len_append]
  exact Nat.le_add_left _ _

/-! ## White space -/

/-- The `White_Space` property of Unicode. -/
def isWhitespace (c : Char) : Bool :=
  let n := c.toNat
  (0x09 ≤ n ∧ n ≤ 0x0d) ∨ n = 0x20 ∨ n = 0x85 ∨ n = 0xa0 ∨ n = 0x1680 ∨ (0x2000 ≤ n ∧ n ≤ 0x200a) ∨ n = 0x2028 ∨
    n = 0x2029 ∨ n = 0x202f ∨ n = 0x205f ∨ n = 0x3000

def trimStart (t : Text) : Text := t.dropWhile isWhitespace

def trimEnd (t : Text) : Text := (t.reverse.dropWhile isWhitespace).reverse

def trim (t : Text) : Text := trimEnd (trimStart t)

def trimStartMatches (p : Char → Bool) (t : Text) : Text := t.dropWhile p

def trimEndMatches (p : Char → Bool) (t : Text) : Text := (t.reverse.dropWhile p).reverse

theorem trimStart_suffix (t : Text) : trimStart t <:+ t := List.dropWhile_suffix _

theorem trimStartMatches_subset (p : Char → Bool) (t : Text) : trimStartMatches p t ⊆ t :=
  (List.dropWhile_suffix p).subset

theorem trimEndMatches_subset (p : Char → Bool) (t : Text) : trimEndMatches p t ⊆ t := by
  intro c hc
  exact List.mem_reverse.mp ((List.dropWhile_suffix p).subset (List.mem_reverse.mp hc))

theorem trim_subset (t : Text) : trim t ⊆ t := by
  intro c hc
  exact trimStartMatches_subset isWhitespace t (trimEndMatches_subset isWhitespace _ hc)

theorem trim_eq {t : Text} (h : ∀ c ∈ t, isWhitespace c = false) : trim t = t := by
  have hd : ∀ u : Text, (∀ c ∈ u, isWhitespace c = false) → u.dropWhile isWhitespace = u := by
    intro u hu
    cases u with
    | nil => rfl
    | cons c u => rw [List.dropWhile_cons, hu c (by simp)]; rfl
  rw [trim, trimStart, hd t h, trimEnd, hd t.reverse (by simpa using h), List.reverse_reverse]

/-! ## Case -/

def toAsciiUppercase (t : Text) : Text := t.map Char.toUpper

theorem toUpper_eq_nul {c : Char} (h : c.toUpper = '\x00') : c = '\x00' := by
  unfold Char.toUpper at h
  split at h
  · rename_i hc
    obtain ⟨hlo, hhi⟩ := hc
    have hn := congrArg (fun d : Char => d.val.toNat) h
    have hlo := UInt32.le_iff_toNat_le.mp hlo
    have hhi := UInt32.le_iff_toNat_le.mp hhi
    simp at hn hlo hhi
    omega
  · exact h

theorem nul_toAsciiUppercase {t : Text} (h : '\x00' ∉ t) : '\x00' ∉ toAsciiUppercase t := by
  intro hm
  obtain ⟨c, hc, hu⟩ := List.mem_map.mp hm
  exact h (toUpper_eq_nul hu ▸ hc)

/-! ## Splitting -/

/-- The text before and after the first character that `p` accepts. -/
def splitOnce (p : Char → Bool) : Text → Option (Text × Text)
  | [] => none
  | c :: t => if p c then some ([], t) else (splitOnce p t).map fun x => (c :: x.1, x.2)

theorem splitOnce_append {p : Char → Bool} {a : Text} {c : Char} (ha : ∀ x ∈ a, p x = false) (hc : p c = true)
    (b : Text) : splitOnce p (a ++ c :: b) = some (a, b) := by
  induction a with
  | nil => simp [splitOnce, hc]
  | cons x a ih =>
    rw [List.cons_append, splitOnce, ha x (by simp), ih fun y hy => ha y (by simp [hy])]
    rfl

theorem splitOnce_none {p : Char → Bool} {a : Text} (ha : ∀ x ∈ a, p x = false) : splitOnce p a = none := by
  induction a with
  | nil => rfl
  | cons x a ih =>
    rw [splitOnce, ha x (by simp), ih fun y hy => ha y (by simp [hy])]
    rfl

theorem splitOnce_some {p : Char → Bool} {t a b : Text} (h : splitOnce p t = some (a, b)) :
    ∃ c, p c = true ∧ t = a ++ c :: b := by
  induction t generalizing a with
  | nil => cases h
  | cons x t ih =>
    rw [splitOnce] at h
    by_cases hx : p x = true
    · rw [if_pos hx] at h
      cases h
      exact ⟨x, hx, rfl⟩
    · rw [if_neg hx] at h
      obtain ⟨⟨u, v⟩, hs, he⟩ := Option.map_eq_some_iff.mp h
      cases he
      obtain ⟨c, hc, rfl⟩ := ih hs
      exact ⟨c, hc, rfl⟩

theorem splitOnce_subset {p : Char → Bool} {t a b : Text} (h : splitOnce p t = some (a, b)) : a ⊆ t ∧ b ⊆ t := by
  obtain ⟨c, -, rfl⟩ := splitOnce_some h
  exact ⟨fun x hx => by simp [hx], fun x hx => by simp [hx]⟩

theorem subset_of_mem_splitOn {x : Char} {t l : Text} (h : l ∈ t.splitOn x) : l ⊆ t := by
  have hsub : ∀ ls : List Text, l ∈ ls → l ⊆ [x].intercalate ls := by
    intro ls
    induction ls with
    | nil => simp
    | cons m ls ih =>
      intro hl c hc
      cases ls with
      | nil => simpa [List.mem_singleton.mp hl] using hc
      | cons k ls =>
        rw [List.intercalate_cons_cons]
        rcases List.mem_cons.mp hl with rfl | hl
        · simp [hc]
        · exact List.mem_append_right _ (ih hl hc)
  have := hsub _ h
  rwa [List.intercalate_splitOn] at this

/-! ## Decimal integers -/

def showNat (n : Nat) : Text := Nat.toDigits 10 n

def showU64 (k : UInt64) : Text := showNat k.toNat

/-- One optional sign, then digits, in range. -/
def parseU64 (t : Text) : Option UInt64 :=
  let digits := match t with
    | '+' :: rest => rest
    | t => t
  if digits.isEmpty ∨ ¬ digits.all Char.isDigit then none
  else
    let n := Nat.ofDigitChars 10 digits 0
    if n < 2 ^ 64 then some (UInt64.ofNat n) else none

theorem showNat_digit {n : Nat} {c : Char} (h : c ∈ showNat n) : c.isDigit = true :=
  Nat.isDigit_of_mem_toDigits (by decide) (by decide) h

theorem showU64_digit {k : UInt64} {c : Char} (h : c ∈ showU64 k) : c.isDigit = true :=
  Nat.isDigit_of_mem_toDigits (by decide) (by decide) h

theorem isDigit_toNat {c : Char} (h : c.isDigit = true) : 48 ≤ c.toNat ∧ c.toNat ≤ 57 := by
  simp only [Char.isDigit, Bool.and_eq_true, decide_eq_true_eq] at h
  exact ⟨UInt32.le_iff_toNat_le.mp h.1, UInt32.le_iff_toNat_le.mp h.2⟩

theorem isDigit_not_whitespace {c : Char} (h : c.isDigit = true) : isWhitespace c = false := by
  have := isDigit_toNat h
  unfold isWhitespace
  simp only [decide_eq_false_iff_not]
  omega

theorem isDigit_utf8Size {c : Char} (h : c.isDigit = true) : c.utf8Size = 1 := by
  have := (isDigit_toNat h).2
  rw [Char.utf8Size_eq_one_iff]
  exact UInt32.le_iff_toNat_le.mpr (Nat.le_trans this (by decide))

theorem showU64_len_le (k : UInt64) : len (showU64 k) ≤ 20 := by
  rw [len_eq_length fun c hc => isDigit_utf8Size (showU64_digit hc)]
  apply (Nat.length_toDigits_le_iff (by decide) (by decide)).mpr
  exact Nat.lt_of_lt_of_le k.toNat_lt (by decide)

@[simp] theorem parseU64_showU64 (k : UInt64) : parseU64 (showU64 k) = some k := by
  have hne : showU64 k ≠ [] := Nat.toDigits_ne_nil
  have hall : (showU64 k).all Char.isDigit = true := List.all_eq_true.mpr fun c hc => showU64_digit hc
  have hsign : (match showU64 k with | '+' :: rest => rest | t => t) = showU64 k := by
    split
    · rename_i rest hs
      have := @showU64_digit k '+' (by rw [hs]; simp)
      cases this
    · rfl
  have hval : Nat.ofDigitChars 10 (showU64 k) 0 = k.toNat := Nat.ofDigitChars_ten_toDigits
  simp only [parseU64, hsign, List.isEmpty_iff, hne, hall, not_true_eq_false, or_self, if_false, hval,
    if_pos k.toNat_lt, UInt64.ofNat_toNat]

/-! ## Slices by byte offset -/

/-- The text before and after a byte offset, when it is between characters. -/
def splitAtByte : Text → Nat → Option (Text × Text)
  | t, 0 => some ([], t)
  | [], _ + 1 => none
  | c :: t, n + 1 =>
    if c.utf8Size ≤ n + 1 then (splitAtByte t (n + 1 - c.utf8Size)).map fun x => (c :: x.1, x.2) else none

/-- The bytes `lo..hi` as a text, when both are between characters. -/
def sliceBytes (t : Text) (lo hi : Nat) : Option Text :=
  if lo ≤ hi then (splitAtByte t lo).bind fun x => (splitAtByte x.2 (hi - lo)).map (·.1) else none

theorem splitAtByte_zero (t : Text) : splitAtByte t 0 = some ([], t) := by
  cases t <;> rfl

theorem splitAtByte_cons {c : Char} {t : Text} {n : Nat} (h : c.utf8Size ≤ n) :
    splitAtByte (c :: t) n = (splitAtByte t (n - c.utf8Size)).map fun x => (c :: x.1, x.2) := by
  have hc := c.utf8Size_pos
  cases n with
  | zero => omega
  | succ n =>
    rw [splitAtByte]
    exact if_pos h

theorem splitAtByte_append (a b : Text) : splitAtByte (a ++ b) (len a) = some (a, b) := by
  induction a with
  | nil => exact splitAtByte_zero b
  | cons c a ih =>
    rw [List.cons_append, len_cons, splitAtByte_cons (Nat.le_add_right _ _), Nat.add_sub_cancel_left, ih]
    rfl

theorem splitAtByte_some {t a b : Text} {n : Nat} (h : splitAtByte t n = some (a, b)) : t = a ++ b ∧ len a = n := by
  induction t generalizing n a with
  | nil =>
    cases n with
    | zero =>
      cases h
      exact ⟨rfl, rfl⟩
    | succ n => cases h
  | cons c t ih =>
    cases n with
    | zero =>
      cases h
      exact ⟨rfl, rfl⟩
    | succ n =>
      rw [splitAtByte] at h
      by_cases hc : c.utf8Size ≤ n + 1
      · rw [if_pos hc] at h
        obtain ⟨⟨u, v⟩, hs, he⟩ := Option.map_eq_some_iff.mp h
        cases he
        obtain ⟨rfl, hu⟩ := ih hs
        refine ⟨rfl, ?_⟩
        rw [len_cons, hu]
        omega
      · rw [if_neg hc] at h
        cases h

theorem sliceBytes_append (a b : Text) (n : Nat) :
    sliceBytes (a ++ b) (len a) (len a + n) = (splitAtByte b n).map (·.1) := by
  unfold sliceBytes
  rw [if_pos (Nat.le_add_right _ _), splitAtByte_append, Nat.add_sub_cancel_left]
  rfl

/-! ## Hexadecimal -/

def hexDigit (c : Char) : Option Nat :=
  if '0' ≤ c ∧ c ≤ '9' then some (c.toNat - 48)
  else if 'a' ≤ c ∧ c ≤ 'f' then some (c.toNat - 87)
  else if 'A' ≤ c ∧ c ≤ 'F' then some (c.toNat - 55)
  else none

def dropPlus : Text → Text
  | [] => []
  | c :: t => if c = '+' then t else c :: t

/-- One optional sign, then digits of base 16, in range. -/
def parseHexU8 (t : Text) : Option UInt8 :=
  let digits := dropPlus t
  if digits.isEmpty then none
  else
    match digits.mapM hexDigit with
    | none => none
    | some ds =>
      let n := ds.foldl (fun acc d => acc * 16 + d) 0
      if n < 256 then some (UInt8.ofNat n) else none

theorem hexDigit_ascii {c : Char} {d : Nat} (h : hexDigit c = some d) : c.toNat < 128 ∧ d < 16 := by
  unfold hexDigit at h
  simp only [Char.le_def, UInt32.le_iff_toNat_le] at h
  have hc : c.val.toNat = c.toNat := rfl
  simp only [hc] at h
  have h0 : ('0' : Char).val.toNat = 48 := rfl
  have h9 : ('9' : Char).val.toNat = 57 := rfl
  have ha : ('a' : Char).val.toNat = 97 := rfl
  have hf : ('f' : Char).val.toNat = 102 := rfl
  have hA : ('A' : Char).val.toNat = 65 := rfl
  have hF : ('F' : Char).val.toNat = 70 := rfl
  rw [h0, h9, ha, hf, hA, hF] at h
  split at h
  · cases h
    omega
  · split at h
    · cases h
      omega
    · split at h
      · cases h
        omega
      · cases h

theorem hexDigit_utf8Size {c : Char} {d : Nat} (h : hexDigit c = some d) : c.utf8Size = 1 := by
  have := (hexDigit_ascii h).1
  rw [Char.utf8Size_eq_one_iff]
  exact UInt32.le_iff_toNat_le.mpr (Nat.le_of_lt_succ this)

theorem hex_table : ∀ (n : Fin 128) (d : Fin 16), hexDigit (Char.ofNat n) = some d.val →
    (Char.ofNat n).toLower = Nat.digitChar d := by
  decide +kernel

/-- A digit is its value, up to case. -/
theorem hexDigit_toLower {c : Char} {d : Nat} (h : hexDigit c = some d) : c.toLower = Nat.digitChar d := by
  obtain ⟨hc, hd⟩ := hexDigit_ascii h
  have := hex_table ⟨c.toNat, hc⟩ ⟨d, hd⟩
  simp only [Char.ofNat_toNat] at this
  exact this h

end Str

import Paxe.SixSeven.Stomp

/-!
# What the text of a frame says

The lines of a head, the empty line that ends it, and the body: where the
parser cuts a text, and that it reads back what `encode` wrote.
-/

namespace Paxe.SixSeven
open Wire Str

/-! ## Escapes -/

theorem escape_cons (c : Char) (s : Text) : escape (c :: s) = escape [c] ++ escape s := by
  simp [escape]

theorem escape_one (c : Char) :
    (c = '\\' ∧ escape [c] = ['\\', '\\']) ∨ (c = '\r' ∧ escape [c] = ['\\', 'r']) ∨
      (c = '\n' ∧ escape [c] = ['\\', 'n']) ∨ (c = ':' ∧ escape [c] = ['\\', 'c']) ∨
      (escape [c] = [c] ∧ c ≠ '\\' ∧ c ≠ '\r' ∧ c ≠ '\n' ∧ c ≠ ':') := by
  by_cases h1 : c = '\\'
  · exact Or.inl ⟨h1, by simp [escape, h1]⟩
  by_cases h2 : c = '\r'
  · exact Or.inr (Or.inl ⟨h2, by simp [escape, h2]⟩)
  by_cases h3 : c = '\n'
  · exact Or.inr (Or.inr (Or.inl ⟨h3, by simp [escape, h3]⟩))
  by_cases h4 : c = ':'
  · exact Or.inr (Or.inr (Or.inr (Or.inl ⟨h4, by simp [escape, h4]⟩)))
  · exact Or.inr (Or.inr (Or.inr (Or.inr ⟨by simp [escape, h1, h2, h3, h4], h1, h2, h3, h4⟩)))

theorem escape_clean (s : Text) : ':' ∉ escape s ∧ '\n' ∉ escape s ∧ '\r' ∉ escape s := by
  induction s with
  | nil => simp [escape]
  | cons c s ih =>
    rw [escape_cons]
    rcases escape_one c with ⟨-, h⟩ | ⟨-, h⟩ | ⟨-, h⟩ | ⟨-, h⟩ | ⟨h, hc⟩
    · simp [h, ih]
    · simp [h, ih]
    · simp [h, ih]
    · simp [h, ih]
    · simp [h, ih, hc.2.1.symm, hc.2.2.1.symm, hc.2.2.2.symm]

theorem escape_nul {s : Text} (hs : '\x00' ∉ s) : '\x00' ∉ escape s := by
  induction s with
  | nil => exact hs
  | cons c s ih =>
    rw [List.mem_cons, not_or] at hs
    rw [escape_cons]
    rcases escape_one c with ⟨-, h⟩ | ⟨-, h⟩ | ⟨-, h⟩ | ⟨-, h⟩ | ⟨h, -⟩
    · simp [h, ih hs.2]
    · simp [h, ih hs.2]
    · simp [h, ih hs.2]
    · simp [h, ih hs.2]
    · simp [h, ih hs.2, hs.1]

theorem unescape_cons {c : Char} (h : c ≠ '\\') (s : Text) : unescape (c :: s) = c :: unescape s := by
  cases s with
  | nil => rfl
  | cons d s => rw [unescape, if_pos h]

@[simp] theorem unescape_escape (s : Text) : unescape (escape s) = s := by
  induction s with
  | nil => rfl
  | cons c s ih =>
    rw [escape_cons]
    rcases escape_one c with ⟨rfl, h⟩ | ⟨rfl, h⟩ | ⟨rfl, h⟩ | ⟨rfl, h⟩ | ⟨h, hc, -⟩
    · simp [h, unescape, ih]
    · simp [h, unescape, ih]
    · simp [h, unescape, ih]
    · simp [h, unescape, ih]
    · rw [h, List.singleton_append, unescape_cons hc, ih]

/-! ## Lines -/

def linesText (lines : List Text) : Text := lines.flatMap (· ++ ['\n'])

theorem linesText_cons (l : Text) (ls : List Text) : linesText (l :: ls) = l ++ '\n' :: linesText ls := by
  simp [linesText]

theorem linesText_append (a b : List Text) : linesText (a ++ b) = linesText a ++ linesText b := by
  simp [linesText]

theorem linesText_nul {ls : List Text} (h : ∀ l ∈ ls, '\x00' ∉ l) : '\x00' ∉ linesText ls := by
  intro hm
  obtain ⟨l, hl, hmem⟩ := List.mem_flatMap.mp hm
  have := h l hl
  simp [this] at hmem

theorem splitBlank_cons {c : Char} (h : c ≠ '\n') (t : Text) :
    splitBlank (c :: t) = (splitBlank t).map fun x => (c :: x.1, x.2) := by
  rw [splitBlank, if_neg fun hc => h hc.1]

theorem splitBlank_line {l : Text} (hl : '\n' ∉ l) (t : Text) :
    splitBlank (l ++ '\n' :: t) =
      if t.head? = some '\n' then some (l, t.tail) else (splitBlank t).map fun x => (l ++ '\n' :: x.1, x.2) := by
  induction l with
  | nil => simp [splitBlank]
  | cons c l ih =>
    have hc : c ≠ '\n' := fun h => hl (h ▸ List.mem_cons_self)
    rw [List.cons_append, splitBlank_cons hc, ih fun h => hl (List.mem_cons_of_mem _ h)]
    split
    · rfl
    · rw [Option.map_map]
      rfl

theorem splitBlank_lines {l : Text} {ls : List Text} (hl : '\n' ∉ l) (hls : ∀ x ∈ ls, x ≠ [] ∧ '\n' ∉ x)
    (t : Text) :
    splitBlank (linesText (l :: ls) ++ t) =
      if t.head? = some '\n' then some (['\n'].intercalate (l :: ls), t.tail)
      else (splitBlank t).map fun x => (linesText (l :: ls) ++ x.1, x.2) := by
  induction ls generalizing l with
  | nil =>
    have hone : linesText [l] = l ++ ['\n'] := by simp [linesText]
    rw [hone, List.append_assoc, List.singleton_append, splitBlank_line hl]
    simp
  | cons m ls ih =>
    obtain ⟨hm, hmn⟩ := hls m List.mem_cons_self
    have hhead : (linesText (m :: ls) ++ t).head? ≠ some '\n' := by
      cases m with
      | nil => exact absurd rfl hm
      | cons c m =>
        rw [linesText_cons]
        intro h
        exact hmn (Option.some.inj h ▸ List.mem_cons_self)
    rw [linesText_cons, List.append_assoc, List.cons_append, splitBlank_line hl, if_neg hhead,
      ih hmn fun x hx => hls x (List.mem_cons_of_mem _ hx)]
    split
    · simp
    · rw [Option.map_map]
      simp [Function.comp_def]

theorem splitBlank_shorter {t a b : Text} (h : splitBlank t = some (a, b)) : b.length < t.length := by
  induction t generalizing a with
  | nil => cases h
  | cons c t ih =>
    rw [splitBlank] at h
    split at h
    · cases h
      have := t.length_tail
      rw [List.length_cons]
      omega
    · obtain ⟨⟨u, v⟩, hs, he⟩ := Option.map_eq_some_iff.mp h
      cases he
      have := ih hs
      rw [List.length_cons]
      omega

/-! ## Line ends -/

theorem trimCr_eq {l : Text} (h : '\r' ∉ l) : trimCr l = l := by
  unfold trimCr trimEndMatches
  cases hr : l.reverse with
  | nil => exact (List.reverse_eq_nil_iff.mp hr).symm
  | cons c r =>
    have hc : c ≠ '\r' := by
      intro he
      subst he
      apply h
      rw [← List.mem_reverse, hr]
      exact List.mem_cons_self
    rw [List.dropWhile_cons_of_neg (by simpa using hc), ← hr, List.reverse_reverse]

@[simp] theorem trimCr_append_cr (l : Text) : trimCr (l ++ ['\r']) = trimCr l := by
  simp [trimCr, trimEndMatches]

theorem headerOf_append_cr (l : Text) : headerOf (l ++ ['\r']) = headerOf l := by
  rw [headerOf, headerOf, trimCr_append_cr]

/-! ## Texts -/

def headerLine (h : Text × Text) : Text := escape h.1 ++ [':'] ++ escape h.2

theorem headerLine_solid (h : Text × Text) : headerLine h ≠ [] ∧ '\n' ∉ headerLine h ∧ '\r' ∉ headerLine h := by
  have h1 := escape_clean h.1
  have h2 := escape_clean h.2
  simp [headerLine, h1, h2]

theorem headerLines_solid (hs : List (Text × Text)) : ∀ x ∈ hs.map headerLine, x ≠ [] ∧ '\n' ∉ x := by
  intro x hx
  obtain ⟨h, -, rfl⟩ := List.mem_map.mp hx
  obtain ⟨hne, hlf, -⟩ := headerLine_solid h
  exact ⟨hne, hlf⟩

@[simp] theorem splitOnce_headerLine (h : Text × Text) :
    splitOnce (· == ':') (headerLine h) = some (escape h.1, escape h.2) := by
  have hcolon : ∀ x ∈ escape h.1, (x == ':') = false := by
    intro x hx
    simpa using ne_of_mem_of_not_mem hx (escape_clean h.1).1
  rw [headerLine, List.append_assoc, List.singleton_append]
  exact splitOnce_append hcolon rfl _

@[simp] theorem headerOf_headerLine (h : Text × Text) : headerOf (headerLine h) = some h := by
  obtain ⟨hne, -, hcr⟩ := headerLine_solid h
  unfold headerOf
  rw [trimCr_eq hcr]
  simp [hne]

section
variable {command : Text} {lines : List Text} (hc : '\n' ∉ command) (hl : ∀ x ∈ lines, x ≠ [] ∧ '\n' ∉ x)
include hc hl

theorem splitBlank_head (body : Text) :
    splitBlank (linesText (command :: lines) ++ '\n' :: body) =
      some (['\n'].intercalate (command :: lines), body) := by
  rw [splitBlank_lines hc hl]
  rfl

theorem splitOn_head : (['\n'].intercalate (command :: lines)).splitOn '\n' = command :: lines := by
  apply List.splitOn_intercalate
  · exact List.forall_mem_cons.mpr ⟨hc, fun l h => (hl l h).2⟩
  · simp

/-- Where the head of a text with an empty line is cut, and how it is read. -/
theorem parseFrame_lines (body : Text) :
    parseFrame (linesText (command :: lines) ++ '\n' :: body) =
      ⟨trimCr command, lines.filterMap headerOf, body⟩ := by
  unfold parseFrame
  rw [splitBlank_head hc hl]
  simp [splitOn_head hc hl]

end

namespace Frame

/-- What `encode` writes before the final NUL. -/
def text (f : Frame) : Text := linesText (f.command :: f.headers.map headerLine) ++ '\n' :: f.body

theorem encode_eq (f : Frame) : f.encode = toBytes f.text ++ [0] := by
  have hheads : f.headers.flatMap (fun h => escape h.1 ++ [':'] ++ escape h.2 ++ ['\n']) =
      linesText (f.headers.map headerLine) := by
    simp [linesText, headerLine, List.flatMap_map]
  unfold encode text
  rw [hheads, linesText_cons]
  simp

/-- A frame of text that can be written and read back. -/
structure Clean (f : Frame) : Prop where
  command : f.command ≠ []
  lineEnds : '\n' ∉ f.command ∧ '\r' ∉ f.command
  nul : '\x00' ∉ f.command
  headers : ∀ h ∈ f.headers, '\x00' ∉ h.1 ∧ '\x00' ∉ h.2
  body : '\x00' ∉ f.body

variable {f : Frame}

theorem parseFrame_text (h : f.Clean) : parseFrame f.text = f := by
  rw [text, parseFrame_lines h.lineEnds.1 (headerLines_solid f.headers), trimCr_eq h.lineEnds.2, List.filterMap_map]
  have : (headerOf ∘ headerLine) = some := funext headerOf_headerLine
  rw [this, List.filterMap_some]

theorem trimStartMatches_text (h : f.Clean) : trimStartMatches isFiller f.text = f.text := by
  cases hc : f.command with
  | nil => exact absurd hc h.command
  | cons c r =>
    have hmem : c ∈ f.command := by rw [hc]; exact List.mem_cons_self
    have hn := ne_of_mem_of_not_mem hmem h.lineEnds.1
    have hr := ne_of_mem_of_not_mem hmem h.lineEnds.2
    rw [text, hc, linesText_cons]
    apply List.dropWhile_cons_of_neg
    simp [isFiller, hn, hr]

theorem text_ne_nil (f : Frame) : f.text ≠ [] := by
  simp [text]

theorem text_nul (h : f.Clean) : '\x00' ∉ f.text := by
  have hl : '\x00' ∉ linesText (f.headers.map headerLine) := by
    apply linesText_nul
    intro l hl
    obtain ⟨y, hy, rfl⟩ := List.mem_map.mp hl
    obtain ⟨h1, h2⟩ := h.headers y hy
    simp [headerLine, escape_nul h1, escape_nul h2]
  rw [text, linesText_cons]
  simp [h.nul, hl, h.body]

end Frame

end Paxe.SixSeven

import Paxe.SixSeven.FrameStream

/-!
# Line ends

`read_frame` takes carriage returns off the ends of lines, but looks for the
empty line in the text as it came. With carriage returns it finds none, or one
inside the body.
-/

namespace Paxe.SixSeven
open Wire Str Stream

variable {ε : Type}

def lfText (command : Text) (lines : List Text) (body : Text) : Text := linesText (command :: lines) ++ '\n' :: body

/-- The same text with each line of its head ended by a carriage return and a
line feed. -/
def crlfText (command : Text) (lines : List Text) (body : Text) : Text :=
  linesText ((command :: lines).map (· ++ ['\r'])) ++ '\r' :: '\n' :: body

/-- A command line that is not blank, header lines that are not empty, and no
NUL. -/
structure WellFormed (command : Text) (lines : List Text) (body : Text) : Prop where
  command : '\n' ∉ command ∧ '\x00' ∉ command ∧ trimStartMatches isFiller command ≠ []
  lines : ∀ l ∈ lines, '\n' ∉ l ∧ '\x00' ∉ l ∧ l ≠ []
  body : '\x00' ∉ body

section
variable {command : Text} {lines : List Text} {body : Text}

theorem dropWhile_append_line {l : Text} (h : trimStartMatches isFiller l ≠ []) (t : Text) :
    trimStartMatches isFiller (l ++ t) = trimStartMatches isFiller l ++ t := by
  induction l with
  | nil => exact absurd rfl h
  | cons c l ih =>
    unfold trimStartMatches at h ih ⊢
    by_cases hc : isFiller c = true
    · rw [List.dropWhile_cons_of_pos hc] at h
      rw [List.cons_append, List.dropWhile_cons_of_pos hc, List.dropWhile_cons_of_pos hc]
      exact ih h
    · rw [List.cons_append, List.dropWhile_cons_of_neg hc, List.dropWhile_cons_of_neg hc]
      rfl

theorem WellFormed.trimmed (h : WellFormed command lines body) : '\n' ∉ trimStartMatches isFiller command :=
  fun hm => h.command.1 (trimStartMatches_subset _ _ hm)

theorem frameOf_lf (h : WellFormed command lines body) :
    frameOf (lfText command lines body) =
      ⟨trimCr (trimStartMatches isFiller command), lines.filterMap headerOf, body⟩ := by
  have htext : trimStartMatches isFiller (lfText command lines body) =
      lfText (trimStartMatches isFiller command) lines body := by
    rw [lfText, lfText, linesText_cons, linesText_cons, List.append_assoc, List.append_assoc,
      dropWhile_append_line h.command.2.2]
  rw [frameOf, htext, lfText, parseFrame_lines h.trimmed fun l hl => ⟨(h.lines l hl).2.2, (h.lines l hl).1⟩]

theorem splitOn_linesText {ls : List Text} (h : ∀ l ∈ ls, '\n' ∉ l) : (linesText ls).splitOn '\n' = ls ++ [[]] := by
  have hjoin : linesText ls = ['\n'].intercalate (ls ++ [[]]) := by
    induction ls with
    | nil => rfl
    | cons l ls ih =>
      rw [linesText_cons, ih fun x hx => h x (List.mem_cons_of_mem _ hx)]
      cases ls with
      | nil => simp
      | cons m ls => simp [List.intercalate_cons_cons]
  rw [hjoin]
  apply List.splitOn_intercalate
  · intro l hl
    rcases List.mem_append.mp hl with hl | hl
    · exact h l hl
    · cases List.mem_singleton.mp hl
      exact List.not_mem_nil
  · simp

theorem headerOf_nil : headerOf [] = none := rfl

theorem parseFrame_body (t : Text) : (parseFrame t).body = ((splitBlank t).getD (t, [])).2 := by
  unfold parseFrame
  cases h : (((splitBlank t).getD (t, [])).1).splitOn '\n' with
  | nil => simp [h]
  | cons c ls => simp [h]

theorem parseFrame_open {command : Text} {lines : List Text} (hc : '\n' ∉ command)
    (hl : ∀ x ∈ lines, x ≠ [] ∧ '\n' ∉ x) :
    parseFrame (linesText (command :: lines)) = ⟨trimCr command, lines.filterMap headerOf, []⟩ := by
  have hblank : splitBlank (linesText (command :: lines)) = none := by
    have := splitBlank_lines hc hl []
    rw [List.append_nil] at this
    rw [this]
    rfl
  have hlines : ∀ l ∈ command :: lines, '\n' ∉ l := List.forall_mem_cons.mpr ⟨hc, fun l h => (hl l h).2⟩
  unfold parseFrame
  rw [hblank]
  simp [splitOn_linesText hlines, headerOf_nil]

def crLines (lines : List Text) : List Text := lines.map (· ++ ['\r']) ++ [['\r']]

theorem crLines_solid (h : WellFormed command lines body) : ∀ x ∈ crLines lines, x ≠ [] ∧ '\n' ∉ x := by
  intro x hx
  rcases List.mem_append.mp hx with hx | hx
  · obtain ⟨l, hl, rfl⟩ := List.mem_map.mp hx
    refine ⟨by simp, ?_⟩
    have := (h.lines l hl).1
    simp [this]
  · cases List.mem_singleton.mp hx
    simp

theorem filterMap_crLines (lines : List Text) : (crLines lines).filterMap headerOf = lines.filterMap headerOf := by
  have hcr : headerOf ['\r'] = none := rfl
  rw [crLines, List.filterMap_append, List.filterMap_map]
  simp [headerOf_append_cr, hcr]

/-- The frame that the other form is: with a body, part of it is taken for the
head. -/
theorem frameOf_crlf (h : WellFormed command lines body) :
    (body = [] → frameOf (crlfText command lines body) =
      ⟨trimCr (trimStartMatches isFiller command), lines.filterMap headerOf, []⟩) ∧
    (body ≠ [] → (frameOf (crlfText command lines body)).body ≠ body) := by
  have hc : '\n' ∉ trimStartMatches isFiller command ++ ['\r'] := by
    have := h.trimmed
    simp [this]
  have htext : trimStartMatches isFiller (crlfText command lines body) =
      linesText ((trimStartMatches isFiller command ++ ['\r']) :: crLines lines) ++ body := by
    rw [crlfText, List.map_cons, linesText_cons, List.append_assoc, List.append_assoc,
      dropWhile_append_line h.command.2.2, crLines, linesText_cons, linesText_append]
    simp [linesText]
  rw [frameOf, htext]
  constructor
  · intro he
    subst he
    rw [List.append_nil, parseFrame_open hc (crLines_solid h), trimCr_append_cr, filterMap_crLines]
  · intro hne heq
    have hlen := congrArg List.length heq
    rw [parseFrame_body, splitBlank_lines hc (crLines_solid h)] at hlen
    by_cases hhead : body.head? = some '\n'
    · rw [if_pos hhead] at hlen
      have hpos := List.length_pos_iff.mpr hne
      have : body.tail.length = body.length := hlen
      rw [List.length_tail] at this
      omega
    · rw [if_neg hhead] at hlen
      cases hs : splitBlank body with
      | none =>
        rw [hs] at hlen
        exact hne (List.length_eq_zero_iff.mp hlen.symm)
      | some x =>
        rw [hs] at hlen
        have := splitBlank_shorter hs
        have hx : x.2.length = body.length := hlen
        omega

theorem lfText_sound (h : WellFormed command lines body) :
    '\x00' ∉ lfText command lines body ∧ trimStartMatches isFiller (lfText command lines body) ≠ [] := by
  constructor
  · have hl : '\x00' ∉ linesText lines := linesText_nul fun l hl => (h.lines l hl).2.1
    rw [lfText, linesText_cons]
    simp [h.command.2.1, hl, h.body]
  · rw [lfText, linesText_cons, List.append_assoc, dropWhile_append_line h.command.2.2]
    simp

theorem crlfText_sound (h : WellFormed command lines body) :
    '\x00' ∉ crlfText command lines body ∧ trimStartMatches isFiller (crlfText command lines body) ≠ [] := by
  constructor
  · have hl : '\x00' ∉ linesText (lines.map (· ++ ['\r'])) := by
      apply linesText_nul
      intro l hl
      obtain ⟨m, hm, rfl⟩ := List.mem_map.mp hl
      have := (h.lines m hm).2.1
      simp [this]
    rw [crlfText, List.map_cons, linesText_cons]
    simp [h.command.2.1, hl, h.body]
  · rw [crlfText, List.map_cons, linesText_cons, List.append_assoc, List.append_assoc,
      dropWhile_append_line h.command.2.2]
    simp

end

/-- Whatever frame the first reader gives, the second gives it too. -/
def SameFrame (r r' : Reader ε) : Prop :=
  ∀ f, (∃ x, readFrame r = (.frame f, x)) → ∃ x, readFrame r' = (.frame f, x)

theorem readFrame_frame_iff {text : Text} (hnul : '\x00' ∉ text) (ht : trimStartMatches isFiller text ≠ [])
    (fills : List (Fill ε)) (rest : Bytes) (f : Frame) :
    (∃ x, readFrame ⟨toBytes text ++ 0 :: rest, fills⟩ = (.frame f, x)) ↔
      ¬ Stops fills (len text) ∧ f = frameOf text := by
  by_cases hs : Stops fills (len text)
  · obtain ⟨e, r', he⟩ := readFrame_stops (mt zero_mem_toBytes.mp hnul) hs rest
    rw [he]
    simp [hs]
  · obtain ⟨s, left, hcut, hle⟩ := not_stops_iff.mp hs
    rw [readFrame_text hnul hcut hle ht rest]
    simp [hs, frameOf, eq_comm]

/-- The two forms of a text give the same frame exactly when there is no body
to lose, or no frame to give. -/
theorem line_ends (ε : Type) (command : Text) (lines : List Text) (body : Text) (h : WellFormed command lines body)
    (rest : Bytes) (fills fills' : List (Fill ε)) :
    SameFrame (⟨toBytes (lfText command lines body) ++ 0 :: rest, fills⟩ : Reader ε)
        ⟨toBytes (crlfText command lines body) ++ 0 :: rest, fills'⟩ ↔
      Stops fills (len (lfText command lines body)) ∨
        ¬ Stops fills' (len (crlfText command lines body)) ∧ body = [] := by
  obtain ⟨hn, ht⟩ := lfText_sound h
  obtain ⟨hn', ht'⟩ := crlfText_sound h
  obtain ⟨hempty, hbody⟩ := frameOf_crlf h
  unfold SameFrame
  simp only [readFrame_frame_iff hn ht, readFrame_frame_iff hn' ht']
  constructor
  · intro hsame
    by_cases hs : Stops fills (len (lfText command lines body))
    · exact Or.inl hs
    · obtain ⟨hs', heq⟩ := hsame _ ⟨hs, rfl⟩
      refine Or.inr ⟨hs', by_contra fun hne => hbody hne ?_⟩
      rw [← heq, frameOf_lf h]
  · intro hcond f hf
    obtain ⟨hs, rfl⟩ := hf
    rcases hcond with hstop | ⟨hs', hnil⟩
    · exact absurd hstop hs
    · refine ⟨hs', ?_⟩
      subst hnil
      rw [frameOf_lf h, hempty rfl]

theorem wellFormed_send (body : Text) (h : '\x00' ∉ body) : WellFormed "SEND".toList ["receipt:1".toList] body :=
  ⟨by decide, by decide, h⟩

theorem line_ends_bodyless :
    SameFrame (⟨toBytes (lfText "SEND".toList ["receipt:1".toList] []) ++ [0], []⟩ : Reader Empty)
      ⟨toBytes (crlfText "SEND".toList ["receipt:1".toList] []) ++ [0], []⟩ := by
  apply (line_ends Empty _ _ _ (wellFormed_send [] List.not_mem_nil) [] [] []).mpr
  refine Or.inr ⟨fun hs => ?_, rfl⟩
  exact absurd (hs 0 [] rfl) (by simp)

theorem line_ends_body :
    ¬ SameFrame (⟨toBytes (lfText "SEND".toList ["receipt:1".toList] "GET 1".toList) ++ [0], []⟩ : Reader Empty)
      ⟨toBytes (crlfText "SEND".toList ["receipt:1".toList] "GET 1".toList) ++ [0], []⟩ := by
  have h := wellFormed_send "GET 1".toList (by decide)
  obtain ⟨hn, ht⟩ := lfText_sound h
  obtain ⟨hn', ht'⟩ := crlfText_sound h
  have hs : ∀ p, ¬ Stops ([] : List (Fill Empty)) p := fun p hs => absurd (hs 0 [] rfl) (by simp)
  intro hsame
  obtain ⟨-, heq⟩ := (readFrame_frame_iff hn' ht' [] [] _).mp
    (hsame _ ((readFrame_frame_iff hn ht [] [] _).mpr ⟨hs _, rfl⟩))
  refine (frameOf_crlf h).2 (by decide) ?_
  rw [← heq, frameOf_lf h]

end Paxe.SixSeven

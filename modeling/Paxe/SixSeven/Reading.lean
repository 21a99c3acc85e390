import Paxe.SixSeven.StompSound

/-!
# Frames from a stream

What one call of `read_frame` gives for the first segment of a stream, however
the host hands the bytes out, and what the calls of a client's thread give in a
row.
-/

namespace Paxe.SixSeven
open Wire Str Stream

variable {ε : Type}

/-! ## One call -/

section
variable {r r' : Reader ε}

theorem readFrame_eof (h : collect 0 maxFrameBytes r.fills [] r.bytes = (.eof, r')) :
    readFrame r = (.none, r') := by
  rw [readFrame]
  split <;> rename_i h' <;> rw [h] at h' <;> cases h'
  rfl

theorem readFrame_fault {e : Fault ε} (h : collect 0 maxFrameBytes r.fills [] r.bytes = (.fault e, r')) :
    readFrame r = (.error (.of e), r') := by
  rw [readFrame]
  split <;> rename_i h' <;> rw [h] at h' <;> cases h'
  rfl

theorem readFrame_collected {raw : Bytes} (h : collect 0 maxFrameBytes r.fills [] r.bytes = (.segment raw, r')) :
    (fromUtf8 raw = none → readFrame r = (.error .notUtf8, r')) ∧
    ∀ text, fromUtf8 raw = some text →
      (trimStartMatches isFiller text = [] → readFrame r = readFrame r') ∧
      (trimStartMatches isFiller text ≠ [] →
        readFrame r = (.frame (parseFrame (trimStartMatches isFiller text)), r')) := by
  rw [readFrame]
  split <;> rename_i h' <;> rw [h] at h' <;> cases h'
  refine ⟨fun hu => ?_, fun text hu => ⟨fun ht => ?_, fun ht => ?_⟩⟩
  · rw [hu]
  · rw [hu]
    exact if_pos ht
  · rw [hu]
    exact if_neg ht

end

/-! ## The first segment -/

section
variable {seg : Bytes} {fills left : List (Fill ε)} {s : Nat}

theorem collect_whole (hseg : 0 ∉ seg) (hcut : cut fills seg.length = some (s, left)) (hs : s ≤ maxFrameBytes)
    (rest : Bytes) : collect 0 maxFrameBytes fills [] (seg ++ 0 :: rest) = (.segment seg, ⟨rest, left⟩) := by
  have hl := @collect_lands ε 0 maxFrameBytes seg [] hseg (Nat.zero_le _) rest fills
  rw [hcut] at hl
  generalize collect 0 maxFrameBytes fills [] (seg ++ 0 :: rest) = out at hl
  cases hl with
  | whole _ => rfl
  | exceeded h =>
    rw [List.length_nil, Nat.zero_add] at h
    omega

theorem readFrame_text {text : Text} (hnul : '\x00' ∉ text) (hcut : cut fills (len text) = some (s, left))
    (hs : s ≤ maxFrameBytes) (ht : trimStartMatches isFiller text ≠ []) (rest : Bytes) :
    readFrame ⟨toBytes text ++ 0 :: rest, fills⟩ =
      (.frame (parseFrame (trimStartMatches isFiller text)), ⟨rest, left⟩) := by
  have hc := collect_whole (mt zero_mem_toBytes.mp hnul) hcut hs rest
  exact ((@readFrame_collected ε ⟨_, fills⟩ _ _ hc).2 text (fromUtf8_toBytes text)).2 ht

theorem readFrame_filler {text : Text} (hnul : '\x00' ∉ text) (hcut : cut fills (len text) = some (s, left))
    (hs : s ≤ maxFrameBytes) (ht : trimStartMatches isFiller text = []) (rest : Bytes) :
    readFrame ⟨toBytes text ++ 0 :: rest, fills⟩ = readFrame ⟨rest, left⟩ := by
  have hc := collect_whole (mt zero_mem_toBytes.mp hnul) hcut hs rest
  exact ((@readFrame_collected ε ⟨_, fills⟩ _ _ hc).2 text (fromUtf8_toBytes text)).1 ht

theorem readFrame_notUtf8 (hseg : 0 ∉ seg) (hcut : cut fills seg.length = some (s, left)) (hs : s ≤ maxFrameBytes)
    (hu : fromUtf8 seg = none) (rest : Bytes) :
    readFrame ⟨seg ++ 0 :: rest, fills⟩ = (.error .notUtf8, ⟨rest, left⟩) := by
  have hc := collect_whole hseg hcut hs rest
  exact (@readFrame_collected ε ⟨_, fills⟩ _ _ hc).1 hu

/-- The reader stops before it sees the end of a segment of `p` bytes: the host
fails, or too much was collected. -/
def Stops (fills : List (Fill ε)) (p : Nat) : Prop := ∀ s left, cut fills p = some (s, left) → maxFrameBytes < s

theorem readFrame_stops (hseg : 0 ∉ seg) (h : Stops fills seg.length) (rest : Bytes) :
    ∃ e r', readFrame ⟨seg ++ 0 :: rest, fills⟩ = (.error e, r') := by
  have hl := @collect_lands ε 0 maxFrameBytes seg [] hseg (Nat.zero_le _) rest fills
  cases hcut : cut fills seg.length with
  | none =>
    rw [hcut] at hl
    generalize hc : collect 0 maxFrameBytes fills [] (seg ++ 0 :: rest) = out at hl
    cases hl with
    | failed => exact ⟨_, _, @readFrame_fault ε ⟨_, fills⟩ _ _ hc⟩
  | some x =>
    obtain ⟨s, left⟩ := x
    have hs := h s left hcut
    rw [hcut] at hl
    generalize hc : collect 0 maxFrameBytes fills [] (seg ++ 0 :: rest) = out at hl
    cases hl with
    | whole hle =>
      rw [List.length_nil, Nat.zero_add] at hle
      omega
    | exceeded _ => exact ⟨_, _, @readFrame_fault ε ⟨_, fills⟩ _ _ hc⟩

theorem not_stops_iff {p : Nat} : ¬ Stops fills p ↔ ∃ s left, cut fills p = some (s, left) ∧ s ≤ maxFrameBytes := by
  simp [Stops]

theorem flows_not_stops (h : Flows fills) {p : Nat} (hp : p ≤ maxFrameBytes) :
    ∃ s left, cut fills p = some (s, left) ∧ s ≤ maxFrameBytes ∧ Flows left := by
  obtain ⟨s, left, hcut, hs, hl⟩ := cut_flows h p
  exact ⟨s, left, hcut, Nat.le_trans hs hp, hl⟩

end

theorem readFrame_open {bytes : Bytes} (h : 0 ∉ bytes) (hne : bytes ≠ []) (fills : List (Fill ε)) :
    ∃ e r', readFrame ⟨bytes, fills⟩ = (.error e, r') := by
  obtain ⟨e, r', hc⟩ := @collect_open ε 0 maxFrameBytes [] bytes h hne fills
  exact ⟨_, r', @readFrame_fault ε ⟨bytes, fills⟩ _ _ hc⟩

theorem readFrame_nil (fills : List (Fill ε)) :
    (∃ left, readFrame ⟨[], fills⟩ = (.none, ⟨[], left⟩)) ∨
      ¬ Flows fills ∧ ∃ e r', readFrame ⟨[], fills⟩ = (.error e, r') := by
  rcases @collect_nil ε 0 maxFrameBytes fills with ⟨left, hc⟩ | ⟨hf, e, r', hc⟩
  · exact Or.inl ⟨left, @readFrame_eof ε ⟨[], fills⟩ _ hc⟩
  · exact Or.inr ⟨hf, _, r', @readFrame_fault ε ⟨[], fills⟩ _ _ hc⟩

/-! ## Frames in a row -/

/-- A frame that comes out was a segment, after segments of filler. -/
theorem readFrame_frame {r r' : Reader ε} {f : Frame} (h : readFrame r = (.frame f, r')) :
    ∃ (fillers : List Text) (text : Text),
      r.bytes = fillers.flatMap (toBytes · ++ [0]) ++ toBytes text ++ 0 :: r'.bytes ∧
      (∀ g ∈ fillers, '\x00' ∉ g ∧ trimStartMatches isFiller g = []) ∧ '\x00' ∉ text ∧
      trimStartMatches isFiller text ≠ [] ∧ f = parseFrame (trimStartMatches isFiller text) := by
  induction r using readFrame.induct with
  | case1 r r₁ hc =>
    rw [readFrame_eof hc] at h
    cases h
  | case2 r e r₁ hc =>
    rw [readFrame_fault hc] at h
    cases h
  | case3 r raw r₁ hc hu =>
    rw [(readFrame_collected hc).1 hu] at h
    cases h
  | case4 r raw r₁ hc text hu trimmed ht ih =>
    rw [((readFrame_collected hc).2 text hu).1 ht] at h
    obtain ⟨fillers, text', hb, hf, ht', hx⟩ := ih h
    obtain ⟨hbytes, hnul⟩ := collect_segment hc
    rw [← toBytes_of_fromUtf8 hu] at hbytes hnul
    refine ⟨text :: fillers, text', ?_, ?_, ht', hx⟩
    · rw [hbytes, hb]
      simp
    · intro g hg
      rcases List.mem_cons.mp hg with rfl | hg
      · exact ⟨mt zero_mem_toBytes.mpr hnul, ht⟩
      · exact hf g hg
  | case5 r raw r₁ hc text hu trimmed ht =>
    rw [((readFrame_collected hc).2 text hu).2 ht] at h
    cases h
    obtain ⟨hbytes, hnul⟩ := collect_segment hc
    rw [← toBytes_of_fromUtf8 hu] at hbytes hnul
    exact ⟨[], text, hbytes, by simp, mt zero_mem_toBytes.mpr hnul, ht, rfl⟩

theorem readFrame_shrinks {r r' : Reader ε} {f : Frame} (h : readFrame r = (.frame f, r')) :
    r'.bytes.length < r.bytes.length := by
  obtain ⟨fillers, text, hb, -⟩ := readFrame_frame h
  rw [hb, List.length_append, List.length_cons]
  omega

/-- The loop of a client's thread: the frames it passes on, and the error it
ends with, if it does not end cleanly. -/
def readFrames (r : Reader ε) : List Frame × Option (ReadError ε) :=
  match _h : readFrame r with
  | (.frame f, r') => (f :: (readFrames r').1, (readFrames r').2)
  | (.none, _) => ([], none)
  | (.error e, _) => ([], some e)
termination_by r.bytes.length
decreasing_by exact readFrame_shrinks _h

section
variable {r r' : Reader ε}

theorem readFrames_frame {f : Frame} (h : readFrame r = (.frame f, r')) :
    readFrames r = (f :: (readFrames r').1, (readFrames r').2) := by
  rw [readFrames]
  split <;> rename_i h' <;> rw [h] at h' <;> cases h'
  rfl

theorem readFrames_none (h : readFrame r = (.none, r')) : readFrames r = ([], none) := by
  rw [readFrames]
  split <;> rename_i h' <;> rw [h] at h' <;> cases h'

theorem readFrames_error {e : ReadError ε} (h : readFrame r = (.error e, r')) : readFrames r = ([], some e) := by
  rw [readFrames]
  split <;> rename_i h' <;> rw [h] at h' <;> cases h'
  rfl

end

end Paxe.SixSeven

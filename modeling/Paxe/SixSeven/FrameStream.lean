import Paxe.SixSeven.Reading

/-!
# Streams of frames

What a client's thread reads of frames that were written one after the other:
as `encode` writes them, and with heart-beat filler between them.
-/

namespace Paxe.SixSeven
open Wire Str Stream

variable {ε : Type}

/-! ## Texts in a row -/

def stream (texts : List Text) : Bytes := texts.flatMap (toBytes · ++ [0])

/-- A text that is a frame, whatever filler it starts with. -/
structure Valid (text : Text) : Prop where
  nul : '\x00' ∉ text
  frame : trimStartMatches isFiller text ≠ []
  fits : len text ≤ maxFrameBytes

def frameOf (text : Text) : Frame := parseFrame (trimStartMatches isFiller text)

theorem readFrame_valid {text : Text} (h : Valid text) {fills : List (Fill ε)} (hf : Flows fills) (rest : Bytes) :
    ∃ left, readFrame ⟨toBytes text ++ 0 :: rest, fills⟩ = (.frame (frameOf text), ⟨rest, left⟩) ∧ Flows left := by
  obtain ⟨s, left, hcut, hs, hl⟩ := flows_not_stops hf h.fits
  exact ⟨left, readFrame_text h.nul hcut hs h.frame rest, hl⟩

theorem readFrames_valid {texts : List Text} (h : ∀ t ∈ texts, Valid t) {fills : List (Fill ε)} (hf : Flows fills)
    (rest : Bytes) :
    ∃ left, Flows left ∧ readFrames (⟨stream texts ++ rest, fills⟩ : Reader ε) =
      (texts.map frameOf ++ (readFrames (⟨rest, left⟩ : Reader ε)).1,
        (readFrames (⟨rest, left⟩ : Reader ε)).2) := by
  induction texts generalizing fills with
  | nil => exact ⟨fills, hf, rfl⟩
  | cons t texts ih =>
    have hb : stream (t :: texts) ++ rest = toBytes t ++ 0 :: (stream texts ++ rest) := by simp [stream]
    obtain ⟨left, hr, hl⟩ := readFrame_valid (h t List.mem_cons_self) hf (stream texts ++ rest)
    obtain ⟨left', hl', hrest⟩ := ih (fun x hx => h x (List.mem_cons_of_mem _ hx)) hl
    refine ⟨left', hl', ?_⟩
    rw [hb, readFrames_frame hr, hrest]
    rfl

theorem readFrames_end {fills : List (Fill ε)} (hf : Flows fills) :
    readFrames (⟨[], fills⟩ : Reader ε) = ([], none) := by
  rcases readFrame_nil fills with ⟨left, h⟩ | ⟨hn, -⟩
  · exact readFrames_none h
  · exact absurd hf hn

theorem readFrames_stream {texts : List Text} (h : ∀ t ∈ texts, Valid t) {fills : List (Fill ε)}
    (hf : Flows fills) :
    readFrames (⟨stream texts, fills⟩ : Reader ε) = (texts.map frameOf, none) := by
  obtain ⟨left, hl, hr⟩ := readFrames_valid h hf []
  rw [List.append_nil, readFrames_end hl, List.append_nil] at hr
  exact hr

/-! ## Frames as they are written -/

namespace Frame

/-- A frame that can be written and fits the limit. -/
structure Sendable (f : Frame) : Prop extends f.Clean where
  fits : f.encode.length ≤ maxFrameBytes + 1

variable {f : Frame}

theorem Sendable.valid (h : f.Sendable) : Valid f.text where
  nul := text_nul h.toClean
  frame := by
    rw [trimStartMatches_text h.toClean]
    exact f.text_ne_nil
  fits := by
    have := h.fits
    rw [encode_eq, List.length_append, List.length_singleton] at this
    exact Nat.le_of_succ_le_succ this

theorem frameOf_text (h : f.Clean) : frameOf f.text = f := by
  rw [frameOf, trimStartMatches_text h, parseFrame_text h]

end Frame

theorem stream_texts (frames : List Frame) : stream (frames.map Frame.text) = frames.flatMap Frame.encode := by
  simp only [stream, List.flatMap_map]
  congr
  funext f
  exact f.encode_eq.symm

theorem readFrame_encode {f : Frame} (h : f.Sendable) {fills : List (Fill ε)} (hf : Flows fills) (rest : Bytes) :
    ∃ left, Flows left ∧ readFrame ⟨f.encode ++ rest, fills⟩ = (.frame f, ⟨rest, left⟩) := by
  obtain ⟨left, hr, hl⟩ := readFrame_valid h.valid hf rest
  rw [Frame.frameOf_text h.toClean] at hr
  refine ⟨left, hl, ?_⟩
  rw [f.encode_eq, List.append_assoc]
  exact hr

/-- Frames written one after the other are read back, one a call, however the
bytes arrive. -/
theorem encode_read (ε : Type) :
    (∀ frames : List Frame, (∀ f ∈ frames, f.Sendable) → ∀ fills : List (Fill ε), Flows fills →
      readFrames ⟨frames.flatMap Frame.encode, fills⟩ = (frames, none)) ∧
    ∀ f : Frame, f.Sendable → ∀ (rest : Bytes) (fills : List (Fill ε)), Flows fills →
      ∃ left, Flows left ∧ readFrame ⟨f.encode ++ rest, fills⟩ = (.frame f, ⟨rest, left⟩) := by
  refine ⟨fun frames h fills hf => ?_, fun f h rest fills hf => readFrame_encode h hf rest⟩
  have hv : ∀ t ∈ frames.map Frame.text, Valid t := by
    intro t ht
    obtain ⟨f, hm, rfl⟩ := List.mem_map.mp ht
    exact (h f hm).valid
  have hid : (frames.map Frame.text).map frameOf = frames := by
    rw [List.map_map]
    calc frames.map (frameOf ∘ Frame.text) = frames.map id :=
          List.map_congr_left fun f hm => Frame.frameOf_text (h f hm).toClean
      _ = frames := List.map_id frames
  rw [← stream_texts, readFrames_stream hv hf, hid]

theorem encode_read_one :
    readFrames (⟨(⟨"SEND".toList, [([], "a:b".toList)], "x".toList⟩ : Frame).encode,
      [.ready 0, .interrupted]⟩ : Reader Empty) =
      ([⟨"SEND".toList, [([], "a:b".toList)], "x".toList⟩], none) := by
  have h := (encode_read Empty).1 [⟨"SEND".toList, [([], "a:b".toList)], "x".toList⟩]
  rw [List.flatMap_singleton] at h
  apply h
  · intro f hf
    cases List.mem_singleton.mp hf
    exact ⟨⟨by decide, by decide, by decide, by decide, by decide⟩, by decide⟩
  · intro e
    simp

/-! ## Heart-beats -/

theorem trimStartMatches_filler {g : Text} (hg : ∀ c ∈ g, isFiller c = true) (t : Text) :
    trimStartMatches isFiller (g ++ t) = trimStartMatches isFiller t :=
  List.dropWhile_append_of_pos hg

theorem filler_nul {g : Text} (hg : ∀ c ∈ g, isFiller c = true) : '\x00' ∉ g := by
  intro h
  cases hg _ h

structure Beat (x : Text × Text) : Prop where
  filler : ∀ c ∈ x.1, isFiller c = true
  valid : Valid (x.1 ++ x.2)

theorem Beat.alone {x : Text × Text} (h : Beat x) : Valid x.2 ∧ frameOf (x.1 ++ x.2) = frameOf x.2 := by
  have htrim := trimStartMatches_filler h.filler x.2
  obtain ⟨hnul, hframe, hfits⟩ := h.valid
  refine ⟨⟨fun hm => hnul (List.mem_append_right _ hm), ?_, ?_⟩, ?_⟩
  · rwa [htrim] at hframe
  · rw [len_append] at hfits
    exact Nat.le_trans (Nat.le_add_left _ _) hfits
  · rw [frameOf, frameOf, htrim]

theorem readFrames_beats {beats : List (Text × Text)} (h : ∀ x ∈ beats, Beat x) {last : Text}
    (hlast : ∀ c ∈ last, isFiller c = true) {fills : List (Fill ε)} (hf : Flows fills) :
    ∃ e, readFrames (⟨stream (beats.map fun x => x.1 ++ x.2) ++ toBytes last, fills⟩ : Reader ε) =
      (beats.map fun x => frameOf x.2, e) ∧ (e = none ↔ last = []) := by
  have hv : ∀ t ∈ beats.map (fun x => x.1 ++ x.2), Valid t := by
    intro t ht
    obtain ⟨x, hx, rfl⟩ := List.mem_map.mp ht
    exact (h x hx).valid
  have hmap : (beats.map fun x => x.1 ++ x.2).map frameOf = beats.map fun x => frameOf x.2 := by
    rw [List.map_map]
    exact List.map_congr_left fun x hx => (h x hx).alone.2
  obtain ⟨left, hl, hr⟩ := readFrames_valid hv hf (toBytes last)
  rw [hr, hmap]
  by_cases hnil : last = []
  · subst hnil
    refine ⟨none, ?_, by simp⟩
    rw [show toBytes [] = [] from rfl, readFrames_end hl, List.append_nil]
  · have hne : toBytes last ≠ [] := fun hb => hnil (toBytes_injective hb)
    obtain ⟨e, r', he⟩ := readFrame_open (mt zero_mem_toBytes.mp (filler_nul hlast)) hne left
    refine ⟨some e, ?_, by simp [hnil]⟩
    rw [readFrames_error he, List.append_nil]

/-- Filler before and between frames changes nothing, and filler after the last
one only the end. -/
theorem heartbeats (ε : Type) (beats : List (Text × Text)) (h : ∀ x ∈ beats, Beat x) (last : Text)
    (hlast : ∀ c ∈ last, isFiller c = true) (fills fills' : List (Fill ε)) (hf : Flows fills) (hf' : Flows fills') :
    readFrames (⟨stream (beats.map (·.2)), fills'⟩ : Reader ε) = (beats.map fun x => frameOf x.2, none) ∧
    (readFrames (⟨stream (beats.map fun x => x.1 ++ x.2) ++ toBytes last, fills⟩ : Reader ε)).1 =
      beats.map (fun x => frameOf x.2) ∧
    (readFrames (⟨stream (beats.map fun x => x.1 ++ x.2) ++ toBytes last, fills⟩ : Reader ε) =
      readFrames (⟨stream (beats.map (·.2)), fills'⟩ : Reader ε) ↔ last = []) := by
  have hv : ∀ t ∈ beats.map (·.2), Valid t := by
    intro t ht
    obtain ⟨x, hx, rfl⟩ := List.mem_map.mp ht
    exact (h x hx).alone.1
  have halone : readFrames (⟨stream (beats.map (·.2)), fills'⟩ : Reader ε) =
      (beats.map fun x => frameOf x.2, none) := by
    rw [readFrames_stream hv hf', List.map_map]
    rfl
  obtain ⟨e, hr, he⟩ := readFrames_beats h hlast hf
  refine ⟨halone, ?_, ?_⟩
  · rw [hr]
  · rw [hr, halone, Prod.mk.injEq, he]
    simp

def getOne : Text := "SEND\n\nGET 1".toList

theorem beat_getOne : Beat ("\n\r\n".toList, getOne) :=
  ⟨by simp [isFiller], by decide +kernel, by decide +kernel, by decide +kernel⟩

theorem heartbeats_before :
    readFrames (⟨stream ["\n\r\n".toList ++ getOne], [.ready 4, .interrupted]⟩ : Reader Empty) =
      readFrames ⟨stream [getOne], []⟩ := by
  have h := heartbeats Empty [("\n\r\n".toList, getOne)] (by simpa using beat_getOne) [] (by simp)
      [.ready 4, .interrupted] [] (by simp [Flows]) flows_nil
  have hsame := h.2.2.mpr rfl
  rwa [show toBytes [] = [] from rfl, List.append_nil] at hsame

theorem heartbeats_last :
    readFrames (⟨stream [getOne] ++ [10], []⟩ : Reader Empty) ≠ readFrames ⟨stream [getOne], []⟩ := by
  have hone := beat_getOne.alone.1
  have hb : ∀ x ∈ [(([] : Text), getOne)], Beat x := by
    intro x hx
    cases List.mem_singleton.mp hx
    exact ⟨by simp, hone⟩
  obtain ⟨e, hr, he⟩ := @readFrames_beats Empty _ hb ['\n'] (by simp [isFiller]) [] flows_nil
  have halone := @readFrames_stream Empty [getOne] (by simpa using hone) [] flows_nil
  intro heq
  have hnone : e = none := (congrArg Prod.snd (hr.symm.trans heq)).trans (congrArg Prod.snd halone)
  cases he.mp hnone

end Paxe.SixSeven

import Paxe.SixSeven.Reading

/-!
# The size limit on frames

`read_frame` measures what it has collected after each chunk that does not end
the segment, and never the chunk that does. So a frame is refused for its size
exactly when the chunk with its NUL starts too late.
-/

namespace Paxe.SixSeven
open Wire Str Stream

variable {ε : Type}

/-- The stream starts with a frame, after segments of filler. -/
structure Begins (bytes : Bytes) (fillers : List Text) (seg rest : Bytes) : Prop where
  eq : bytes = fillers.flatMap (toBytes · ++ [0]) ++ seg ++ 0 :: rest
  fillers : ∀ g ∈ fillers, '\x00' ∉ g ∧ trimStartMatches isFiller g = []
  nul : 0 ∉ seg
  frame : ∀ text, fromUtf8 seg = some text → trimStartMatches isFiller text ≠ []

/-- The reader stops inside one of the segments of these lengths. -/
def Refused : List (Fill ε) → List Nat → Prop
  | _, [] => False
  | fills, p :: ps => Stops fills p ∨ ∃ s left, cut fills p = some (s, left) ∧ Refused left ps

def sizes (fillers : List Text) (seg : Bytes) : List Nat := fillers.map len ++ [seg.length]

def Accepts (r : Reader ε) : Prop := ∃ f r', readFrame r = (.frame f, r')

def Errs (r : Reader ε) : Prop := ∃ e r', readFrame r = (.error e, r')

theorem errs_not_accepts {r : Reader ε} (h : Errs r) : ¬ Accepts r := by
  obtain ⟨e, r₁, he⟩ := h
  intro hacc
  obtain ⟨f, r₂, hf⟩ := hacc
  rw [he] at hf
  cases hf

section
variable {fillers : List Text} {seg rest : Bytes}

theorem Begins.tail {bytes : Bytes} {g : Text} (h : Begins bytes (g :: fillers) seg rest) :
    Begins (fillers.flatMap (toBytes · ++ [0]) ++ seg ++ 0 :: rest) fillers seg rest :=
  ⟨rfl, fun x hx => h.fillers x (List.mem_cons_of_mem _ hx), h.nul, h.frame⟩

theorem begins_outcome {bytes : Bytes} (h : Begins bytes fillers seg rest) (fills : List (Fill ε)) :
    (Refused fills (sizes fillers seg) ∨ fromUtf8 seg = none → Errs (⟨bytes, fills⟩ : Reader ε)) ∧
    (¬ Refused fills (sizes fillers seg) → fromUtf8 seg ≠ none → Accepts (⟨bytes, fills⟩ : Reader ε)) := by
  induction fillers generalizing bytes fills with
  | nil =>
    have hb : bytes = seg ++ 0 :: rest := h.eq
    subst hb
    have href : Refused fills (sizes [] seg) ↔ Stops fills seg.length := by simp [sizes, Refused]
    rw [href]
    by_cases hs : Stops fills seg.length
    · exact ⟨fun _ => readFrame_stops h.nul hs rest, fun hn => absurd hs hn⟩
    · obtain ⟨s, left, hcut, hle⟩ := not_stops_iff.mp hs
      cases hu : fromUtf8 seg with
      | none =>
        exact ⟨fun _ => ⟨_, _, readFrame_notUtf8 h.nul hcut hle hu rest⟩, fun _ hn => absurd rfl hn⟩
      | some text =>
        refine ⟨fun hor => ?_, fun _ _ => ?_⟩
        · rcases hor with hx | hx
          · exact absurd hx hs
          · cases hx
        · have ht := toBytes_of_fromUtf8 hu
          subst ht
          exact ⟨_, _, readFrame_text (mt zero_mem_toBytes.mpr h.nul) hcut hle (h.frame text hu) rest⟩
  | cons g fillers ih =>
    obtain ⟨hnul, hfill⟩ := h.fillers g List.mem_cons_self
    have hb : bytes = toBytes g ++ 0 :: (fillers.flatMap (toBytes · ++ [0]) ++ seg ++ 0 :: rest) := by
      rw [h.eq]
      simp
    subst hb
    have href : Refused fills (sizes (g :: fillers) seg) ↔
        Stops fills (len g) ∨
          ∃ s left, cut fills (len g) = some (s, left) ∧ Refused left (sizes fillers seg) := Iff.rfl
    rw [href]
    by_cases hs : Stops fills (len g)
    · exact ⟨fun _ => readFrame_stops (mt zero_mem_toBytes.mp hnul) hs _, fun hn => absurd (Or.inl hs) hn⟩
    · obtain ⟨s, left, hcut, hle⟩ := not_stops_iff.mp hs
      have hskip := readFrame_filler hnul hcut hle hfill (fillers.flatMap (toBytes · ++ [0]) ++ seg ++ 0 :: rest)
      obtain ⟨ih1, ih2⟩ := ih h.tail left
      simp only [Errs, Accepts] at ih1 ih2 ⊢
      rw [hskip]
      refine ⟨fun hor => ih1 ?_, fun hn => ih2 fun hr => hn (Or.inr ⟨s, left, hcut, hr⟩)⟩
      rcases hor with (hx | ⟨s', left', hcut', hr⟩) | hx
      · exact absurd hx hs
      · rw [hcut] at hcut'
        cases hcut'
        exact Or.inl hr
      · exact Or.inr hx

theorem accepts_iff {bytes : Bytes} (h : Begins bytes fillers seg rest) (fills : List (Fill ε)) :
    Accepts (⟨bytes, fills⟩ : Reader ε) ↔ ¬ Refused fills (sizes fillers seg) ∧ fromUtf8 seg ≠ none := by
  obtain ⟨h1, h2⟩ := begins_outcome h fills
  constructor
  · intro hacc
    exact ⟨fun hr => errs_not_accepts (h1 (Or.inl hr)) hacc, fun hu => errs_not_accepts (h1 (Or.inr hu)) hacc⟩
  · intro hread
    obtain ⟨hr, hu⟩ := hread
    exact h2 hr hu

end

/-! ## Chunkings -/

theorem flows_not_refused {fills : List (Fill ε)} {ps : List Nat} (h : Flows fills)
    (hps : ∀ p ∈ ps, p ≤ maxFrameBytes) :
    ¬ Refused fills ps := by
  induction ps generalizing fills with
  | nil => exact id
  | cons p ps ih =>
    obtain ⟨s, left, hcut, hs, hl⟩ := flows_not_stops h (hps p List.mem_cons_self)
    intro href
    rcases href with hst | ⟨s', left', hcut', hr⟩
    · exact not_stops_iff.mpr ⟨s, left, hcut, hs⟩ hst
    · rw [hcut] at hcut'
      cases hcut'
      exact ih hl (fun q hq => hps q (List.mem_cons_of_mem _ hq)) hr

theorem nil_not_refused (ps : List Nat) : ¬ Refused ([] : List (Fill ε)) ps := by
  induction ps with
  | nil => exact id
  | cons p ps ih =>
    intro href
    rcases href with hst | ⟨s, left, hcut, hr⟩
    · exact absurd (hst 0 [] rfl) (by simp)
    · cases hcut
      exact ih hr

theorem cut_bytewise (p k : Nat) :
    cut (List.replicate (p + 1 + k) (.ready 0 : Fill ε)) p = some (p, List.replicate k (.ready 0)) := by
  induction p with
  | zero =>
    rw [Nat.zero_add, Nat.add_comm, List.replicate_succ]
    rfl
  | succ p ih =>
    rw [show p + 1 + 1 + k = p + 1 + k + 1 by omega, List.replicate_succ, cut, if_pos (Nat.succ_pos p),
      Nat.zero_add, Nat.add_sub_cancel, ih]
    simp [Nat.add_comm]

theorem bytewise_refused {ps : List Nat} {p : Nat} (hp : p ∈ ps) (hlong : maxFrameBytes < p) :
    ∃ n, Refused (List.replicate n (.ready 0 : Fill ε)) ps := by
  induction ps with
  | nil => cases hp
  | cons q ps ih =>
    rcases List.mem_cons.mp hp with rfl | hp
    · refine ⟨p + 1 + 0, Or.inl fun s left hcut => ?_⟩
      rw [cut_bytewise] at hcut
      cases hcut
      exact hlong
    · obtain ⟨n, hn⟩ := ih hp
      exact ⟨q + 1 + n, Or.inr ⟨q, _, cut_bytewise q n, hn⟩⟩

theorem flows_bytewise (n : Nat) : Flows (List.replicate n (.ready 0 : Fill ε)) := by
  intro e h
  cases List.eq_of_mem_replicate h

/-! ## The limit -/

theorem readFrame_begins {r r' : Reader ε} {f : Frame} (h : readFrame r = (.frame f, r')) :
    ∃ fillers seg, Begins r.bytes fillers seg r'.bytes := by
  obtain ⟨fillers, text, hb, hf, hn, ht, -⟩ := readFrame_frame h
  refine ⟨fillers, toBytes text, hb, hf, mt zero_mem_toBytes.mp hn, fun t hu => ?_⟩
  rw [fromUtf8_toBytes] at hu
  cases hu
  exact ht

/-- The size limit holds for a frame and the way it arrives: it is read only if
it is short enough, and is an error if it is not. -/
def Limited (r : Reader ε) (seg : Bytes) : Prop :=
  (Accepts r → seg.length ≤ maxFrameBytes) ∧ (maxFrameBytes < seg.length → Errs r)

/-- Whether the frame is read does not depend on the chunks. -/
def ChunkFree (ε : Type) (bytes : Bytes) : Prop :=
  ∀ fills fills' : List (Fill ε), Flows fills → Flows fills' →
    (Accepts (⟨bytes, fills⟩ : Reader ε) ↔ Accepts (⟨bytes, fills'⟩ : Reader ε))

theorem limited_iff {bytes : Bytes} {fillers : List Text} {seg rest : Bytes} (h : Begins bytes fillers seg rest)
    (fills : List (Fill ε)) :
    Limited ⟨bytes, fills⟩ seg ↔
      seg.length ≤ maxFrameBytes ∨ Refused fills (sizes fillers seg) ∨ fromUtf8 seg = none := by
  obtain ⟨herr, hacc⟩ := begins_outcome h fills
  constructor
  · intro hlim
    obtain ⟨hle, -⟩ := hlim
    by_cases hr : Refused fills (sizes fillers seg)
    · exact Or.inr (Or.inl hr)
    · by_cases hu : fromUtf8 seg = none
      · exact Or.inr (Or.inr hu)
      · exact Or.inl (hle (hacc hr hu))
  · intro hcond
    rcases hcond with hle | hor
    · exact ⟨fun _ => hle, fun hlt => absurd hle (Nat.not_le.mpr hlt)⟩
    · have he := herr hor
      exact ⟨fun ha => absurd ha (errs_not_accepts he), fun _ => he⟩

theorem chunkFree_iff {bytes : Bytes} {fillers : List Text} {seg rest : Bytes} (h : Begins bytes fillers seg rest) :
    ChunkFree ε bytes ↔ (∀ p ∈ sizes fillers seg, p ≤ maxFrameBytes) ∨ fromUtf8 seg = none := by
  constructor
  · intro hfree
    by_cases hu : fromUtf8 seg = none
    · exact Or.inr hu
    · refine Or.inl fun p hp => Nat.not_lt.mp fun hlong => ?_
      obtain ⟨n, hn⟩ := @bytewise_refused ε _ p hp hlong
      have hall := (accepts_iff h ([] : List (Fill ε))).mpr ⟨nil_not_refused _, hu⟩
      have := (hfree [] (List.replicate n (.ready 0)) flows_nil (flows_bytewise n)).mp hall
      exact ((accepts_iff h _).mp this).1 hn
  · intro hcond fills fills' hf hf'
    rcases hcond with hle | hu
    · rw [accepts_iff h, accepts_iff h]
      simp only [flows_not_refused hf hle, flows_not_refused hf' hle]
    · rw [accepts_iff h, accepts_iff h]
      simp only [hu, ne_eq, not_true_eq_false, and_false]

/-- The limit holds exactly for the frames that fit it, the ones that overrun
it before their last chunk, and the ones that are not text. -/
theorem frame_limit (ε : Type) :
    (∀ (r r' : Reader ε) f, readFrame r = (.frame f, r') → ∃ fillers seg, Begins r.bytes fillers seg r'.bytes) ∧
    ∀ bytes fillers seg rest, Begins bytes fillers seg rest →
      (∀ fills : List (Fill ε), Limited ⟨bytes, fills⟩ seg ↔
        seg.length ≤ maxFrameBytes ∨ Refused fills (sizes fillers seg) ∨ fromUtf8 seg = none) ∧
      (ChunkFree ε bytes ↔ (∀ p ∈ sizes fillers seg, p ≤ maxFrameBytes) ∨ fromUtf8 seg = none) :=
  ⟨fun _ _ _ h => readFrame_begins h, fun _ _ _ _ h => ⟨limited_iff h, chunkFree_iff h⟩⟩

def longRun (n : Nat) : Bytes := toBytes (List.replicate n 'A')

theorem longRun_length (n : Nat) : (longRun n).length = n := by
  have : len (List.replicate n 'A') = (List.replicate n 'A').length := by
    apply len_eq_length
    intro c hc
    rw [List.eq_of_mem_replicate hc]
    rfl
  rw [List.length_replicate] at this
  exact this

theorem longRun_text (n : Nat) : fromUtf8 (longRun n) = some (List.replicate n 'A') := fromUtf8_toBytes _

theorem longRun_begins {n : Nat} (hn : 0 < n) (rest : Bytes) :
    Begins (longRun n ++ 0 :: rest) [] (longRun n) rest where
  eq := rfl
  fillers := by simp
  nul := by
    rw [longRun, zero_mem_toBytes]
    intro h
    cases List.eq_of_mem_replicate h
  frame := by
    intro text hu
    rw [longRun_text] at hu
    cases hu
    obtain ⟨m, rfl⟩ := Nat.exists_eq_add_of_lt hn
    rw [Nat.zero_add, List.replicate_succ]
    simp [trimStartMatches, isFiller]

theorem frame_limit_fits : Limited (⟨longRun 8192 ++ [0], [.ready 0]⟩ : Reader Empty) (longRun 8192) := by
  have h := ((frame_limit Empty).2 _ _ _ _ (@longRun_begins 8192 (by decide) [])).1 [.ready 0]
  exact h.mpr (Or.inl (Nat.le_of_eq (longRun_length 8192)))

theorem frame_limit_overrun :
    ¬ Limited (⟨longRun 8193 ++ [0], []⟩ : Reader Empty) (longRun 8193) ∧
    ¬ ChunkFree Empty (longRun 8193 ++ [0]) := by
  have hb := longRun_begins (show 0 < 8193 by decide) []
  have hu : fromUtf8 (longRun 8193) ≠ none := by
    rw [longRun_text]
    exact Option.some_ne_none _
  have hlen := longRun_length 8193
  refine ⟨fun h => ?_, fun h => ?_⟩
  · rcases (limited_iff hb []).mp h with hle | hr | hn
    · rw [hlen] at hle
      exact absurd hle (by decide)
    · exact nil_not_refused _ hr
    · exact hu hn
  · rcases (chunkFree_iff hb).mp h with hle | hn
    · have := hle (longRun 8193).length (by simp [sizes])
      rw [hlen] at this
      exact absurd this (by decide)
    · exact hu hn

end Paxe.SixSeven

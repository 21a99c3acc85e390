import Paxe.Lib.Wire

/-!
# Buffered streams

A reader is the bytes that are still to come and how the host will hand them
out: each call to fill the buffer shows a non-empty part of what is left, is
interrupted, or fails, and nothing at all is the end of the stream. Segments
are read up to a stop byte, and the bytes collected before it are limited.
-/

namespace Stream

open Wire

/-- How one call to fill the buffer ends. `ready n` shows the next `n + 1`
bytes, or as many as there are. -/
inductive Fill (ε : Type)
  | ready (n : Nat)
  | interrupted
  | failed (e : ε)
  deriving DecidableEq, Repr

/-- When `fills` is used up, all that is left is shown at once. -/
structure Reader (ε : Type) where
  bytes : Bytes
  fills : List (Fill ε)
  deriving DecidableEq, Repr

inductive Fault (ε : Type)
  | host (e : ε)
  | ended
  | exceeded
  deriving DecidableEq, Repr

inductive Collected (ε : Type)
  | segment (raw : Bytes)
  | eof
  | fault (e : Fault ε)
  deriving DecidableEq, Repr

variable {ε : Type}

inductive Turn (ε : Type)
  | stop (out : Collected ε) (bytes : Bytes)
  | more (raw bytes : Bytes)

def ended (raw : Bytes) : Collected ε := if raw = [] then .eof else .fault .ended

def turn (stop : UInt8) (limit : Nat) (available raw bytes : Bytes) : Turn ε :=
  if available = [] then .stop (ended raw) bytes
  else
    match available.findIdx? (· == stop) with
    | some i => .stop (.segment (raw ++ available.take i)) (bytes.drop (i + 1))
    | none =>
      let raw := raw ++ available
      let bytes := bytes.drop available.length
      if raw.length > limit then .stop (.fault .exceeded) bytes else .more raw bytes

def collect (stop : UInt8) (limit : Nat) : List (Fill ε) → Bytes → Bytes → Collected ε × Reader ε
  | .ready n :: fills, raw, bytes =>
    match turn stop limit (bytes.take (n + 1)) raw bytes with
    | .stop out bytes => (out, ⟨bytes, fills⟩)
    | .more raw bytes => collect stop limit fills raw bytes
  | .interrupted :: fills, raw, bytes => collect stop limit fills raw bytes
  | .failed e :: fills, _, bytes => (.fault (.host e), ⟨bytes, fills⟩)
  | [], raw, bytes =>
    match turn stop limit bytes raw bytes with
    | .stop out bytes => (out, ⟨bytes, []⟩)
    -- Everything was shown, so the next turn sees the end of the stream.
    | .more raw bytes => (ended raw, ⟨bytes, []⟩)

/-! ## Turns -/

section
variable {stop : UInt8} {limit : Nat} {available raw bytes : Bytes}

theorem turn_found {a b : Bytes} (h : stop ∉ a) :
    (turn stop limit (a ++ stop :: b) raw bytes : Turn ε) = .stop (.segment (raw ++ a))
      (bytes.drop (a.length + 1)) := by
  have hidx : (a ++ stop :: b).findIdx? (· == stop) = some a.length := by
    rw [List.findIdx?_append, List.findIdx?_eq_none_iff.mpr, List.findIdx?_cons]
    · simp
    · intro x hx
      simpa using ne_of_mem_of_not_mem hx h
  rw [turn, if_neg (by simp), hidx]
  simp

theorem turn_none (ha : available ≠ []) (h : stop ∉ available) :
    (turn stop limit available raw bytes : Turn ε) =
      if (raw ++ available).length > limit then .stop (.fault .exceeded) (bytes.drop available.length)
      else .more (raw ++ available) (bytes.drop available.length) := by
  have hidx : available.findIdx? (· == stop) = none := by
    rw [List.findIdx?_eq_none_iff]
    intro x hx
    simpa using ne_of_mem_of_not_mem hx h
  rw [turn, if_neg ha, hidx]

end

/-! ## Where the chunks fall -/

/-- Where the chunk that shows offset `p` starts, and what the host does after
it; nothing when the host fails first. -/
def cut : List (Fill ε) → Nat → Option (Nat × List (Fill ε))
  | [], _ => some (0, [])
  | .ready n :: fills, p =>
    if n < p then (cut fills (p - (n + 1))).map fun x => (n + 1 + x.1, x.2) else some (0, fills)
  | .interrupted :: fills, p => cut fills p
  | .failed _ :: _, _ => none

def Flows (fills : List (Fill ε)) : Prop := ∀ e, .failed e ∉ fills

theorem flows_nil : Flows ([] : List (Fill ε)) := fun _ => List.not_mem_nil

theorem flows_cons {f : Fill ε} {fills : List (Fill ε)} (h : Flows (f :: fills)) : Flows fills :=
  fun e he => h e (List.mem_cons_of_mem _ he)

theorem cut_flows {fills : List (Fill ε)} (h : Flows fills) (p : Nat) :
    ∃ s rest, cut fills p = some (s, rest) ∧ s ≤ p ∧ Flows rest := by
  induction fills generalizing p with
  | nil => exact ⟨0, [], rfl, Nat.zero_le _, flows_nil⟩
  | cons f fills ih =>
    cases f with
    | ready n =>
      by_cases hn : n < p
      · obtain ⟨s, rest, hc, hs, hr⟩ := ih (flows_cons h) (p - (n + 1))
        refine ⟨n + 1 + s, rest, ?_, by omega, hr⟩
        rw [cut, if_pos hn, hc]
        rfl
      · exact ⟨0, fills, if_neg hn, Nat.zero_le _, flows_cons h⟩
    | interrupted => exact ih (flows_cons h) p
    | failed e => exact absurd List.mem_cons_self (h e)

/-! ## Segments -/

/-- What the loop gives for a segment, by where the chunk with its stop byte
starts. -/
inductive Lands (limit : Nat) (raw seg rest : Bytes) : Option (Nat × List (Fill ε)) → Collected ε × Reader ε → Prop
  | whole {s : Nat} {fills : List (Fill ε)} : raw.length + s ≤ limit →
      Lands limit raw seg rest (some (s, fills)) (.segment (raw ++ seg), ⟨rest, fills⟩)
  | exceeded {s : Nat} {fills : List (Fill ε)} {r : Reader ε} : limit < raw.length + s →
      Lands limit raw seg rest (some (s, fills)) (.fault .exceeded, r)
  | failed {e : Fault ε} {r : Reader ε} : Lands limit raw seg rest none (.fault e, r)

section
variable {stop : UInt8} {limit : Nat}

theorem collect_lands {seg raw : Bytes} (hseg : stop ∉ seg) (hraw : raw.length ≤ limit) (rest : Bytes)
    (fills : List (Fill ε)) :
    Lands limit raw seg rest (cut fills seg.length) (collect stop limit fills raw (seg ++ stop :: rest)) := by
  induction fills generalizing raw seg with
  | nil =>
    rw [collect, turn_found hseg]
    have := @Lands.whole ε limit raw seg rest 0 [] hraw
    simpa [cut] using this
  | cons f fills ih =>
    cases f with
    | ready n =>
      rw [collect, cut]
      by_cases hn : n < seg.length
      · -- The chunk ends inside the segment.
        have htake : (seg ++ stop :: rest).take (n + 1) = seg.take (n + 1) := List.take_append_of_le_length hn
        have hlen : (seg.take (n + 1)).length = n + 1 := by
          rw [List.length_take]
          omega
        have hdrop : (seg ++ stop :: rest).drop (n + 1) = seg.drop (n + 1) ++ stop :: rest :=
          List.drop_append_of_le_length hn
        have hne : seg.take (n + 1) ≠ [] := by
          intro h
          rw [h] at hlen
          cases hlen
        rw [htake, turn_none hne fun h => hseg (List.mem_of_mem_take h), if_pos hn, hlen, hdrop,
          List.length_append, hlen]
        by_cases hover : raw.length + (n + 1) > limit
        · rw [if_pos hover]
          cases hc : cut fills (seg.length - (n + 1)) with
          | none => exact .failed
          | some x => exact .exceeded (by omega)
        · rw [if_neg hover]
          have hrec := @ih (seg.drop (n + 1)) (raw ++ seg.take (n + 1)) (fun h => hseg (List.mem_of_mem_drop h))
            (by rw [List.length_append, hlen]; omega)
          rw [List.length_drop] at hrec
          dsimp only
          generalize collect stop limit fills (raw ++ seg.take (n + 1)) (seg.drop (n + 1) ++ stop :: rest) =
            out at hrec ⊢
          generalize cut fills (seg.length - (n + 1)) = c at hrec ⊢
          cases hrec with
          | whole h =>
            rw [List.length_append, hlen] at h
            rw [List.append_assoc, List.take_append_drop]
            exact .whole (by omega)
          | exceeded h =>
            rw [List.length_append, hlen] at h
            exact .exceeded (by omega)
          | failed => exact .failed
      · -- The chunk shows the stop byte.
        obtain ⟨tail, htail⟩ : ∃ tail, (seg ++ stop :: rest).take (n + 1) = seg ++ stop :: tail := by
          refine ⟨rest.take (n - seg.length), ?_⟩
          rw [List.take_append, List.take_of_length_le (by omega),
            show n + 1 - seg.length = n - seg.length + 1 by omega, List.take_succ_cons]
        rw [htail, turn_found hseg, if_neg hn]
        have := @Lands.whole ε limit raw seg rest 0 fills hraw
        simpa using this
    | interrupted => exact ih hseg hraw
    | failed e => exact .failed

theorem ended_fault {raw : Bytes} (h : raw ≠ []) : (ended raw : Collected ε) = .fault .ended := if_neg h

theorem collect_open {raw bytes : Bytes} (h : stop ∉ bytes) (hne : raw ++ bytes ≠ []) (fills : List (Fill ε)) :
    ∃ e r, collect stop limit fills raw bytes = (.fault e, r) := by
  induction fills generalizing raw bytes with
  | nil =>
    rw [collect]
    by_cases hb : bytes = []
    · subst hb
      rw [List.append_nil] at hne
      exact ⟨_, _, congrArg (·, _) (ended_fault hne)⟩
    · rw [turn_none hb h]
      by_cases hover : (raw ++ bytes).length > limit
      · rw [if_pos hover]
        exact ⟨_, _, rfl⟩
      · rw [if_neg hover]
        exact ⟨_, _, congrArg (·, _) (ended_fault hne)⟩
  | cons f fills ih =>
    cases f with
    | ready n =>
      rw [collect]
      by_cases hb : bytes = []
      · subst hb
        rw [List.append_nil] at hne
        exact ⟨_, _, congrArg (·, _) (ended_fault hne)⟩
      · have hav : bytes.take (n + 1) ≠ [] := by simpa using hb
        have hlen : bytes.drop (bytes.take (n + 1)).length = bytes.drop (n + 1) := by
          rw [List.length_take, ← List.drop_eq_drop_min]
        rw [turn_none hav fun hx => h (List.mem_of_mem_take hx), hlen]
        by_cases hover : (raw ++ bytes.take (n + 1)).length > limit
        · rw [if_pos hover]
          exact ⟨_, _, rfl⟩
        · rw [if_neg hover]
          apply ih
          · exact fun hx => h (List.mem_of_mem_drop hx)
          · rwa [List.append_assoc, List.take_append_drop]
    | interrupted => exact ih h hne
    | failed e => exact ⟨_, _, rfl⟩

theorem collect_nil (fills : List (Fill ε)) :
    (∃ rest, collect stop limit fills [] [] = (.eof, ⟨[], rest⟩)) ∨
      ¬ Flows fills ∧ ∃ e r, collect stop limit fills [] [] = (.fault e, r) := by
  induction fills with
  | nil => exact Or.inl ⟨[], rfl⟩
  | cons f fills ih =>
    cases f with
    | ready n => exact Or.inl ⟨fills, rfl⟩
    | interrupted => exact ih.imp id fun h => ⟨fun hf => h.1 (flows_cons hf), h.2⟩
    | failed e => exact Or.inr ⟨fun hf => hf e List.mem_cons_self, _, _, rfl⟩

/-- A stream is open, or its first segment is before its first stop byte. -/
theorem first_segment (stop : UInt8) (bytes : Bytes) :
    stop ∉ bytes ∨ ∃ seg rest, bytes = seg ++ stop :: rest ∧ stop ∉ seg := by
  by_cases h : stop ∈ bytes
  · obtain ⟨seg, rest, heq, hseg⟩ := List.eq_append_cons_of_mem h
    exact Or.inr ⟨seg, rest, heq, hseg⟩
  · exact Or.inl h

theorem collect_segment {fills : List (Fill ε)} {bytes raw : Bytes} {r : Reader ε}
    (h : collect stop limit fills [] bytes = (.segment raw, r)) :
    bytes = raw ++ stop :: r.bytes ∧ stop ∉ raw := by
  rcases first_segment stop bytes with hopen | ⟨seg, rest, rfl, hseg⟩
  · by_cases hb : bytes = []
    · subst hb
      rcases collect_nil fills with ⟨rest, hc⟩ | ⟨-, e, r', hc⟩
      · rw [h] at hc
        cases hc
      · rw [h] at hc
        cases hc
    · obtain ⟨e, r', hc⟩ := @collect_open ε stop limit [] bytes hopen hb fills
      rw [h] at hc
      cases hc
  · have hl := @collect_lands ε stop limit seg [] hseg (Nat.zero_le limit) rest fills
    rw [h] at hl
    generalize cut fills seg.length = c at hl
    cases hl with
    | whole => exact ⟨rfl, hseg⟩

end

end Stream

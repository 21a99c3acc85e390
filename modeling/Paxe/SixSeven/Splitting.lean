import Paxe.SixSeven.Correlation
import Paxe.SixSeven.FrameStream
import Paxe.SixSeven.NulFree

/-!
# No response splitting

Over any run of the pair the stores, the receipts that wait and the messages in
flight stay free of NULs, so each frame that a client is sent ends where the
server ended it, and says what the server meant.
-/

namespace Paxe.SixSeven
open Wire Str Stream

/-! ## A frame on the wire -/

/-- The bytes of a frame end with their only NUL. Cut at the first empty line
and unescaped line by line, they are the frame. -/
def Frame.Intact (f : Frame) : Prop :=
  ∃ text head lines, f.encode = toBytes text ++ [0] ∧ (0 : UInt8) ∉ toBytes text ∧
    splitBlank text = some (head, f.body) ∧ head.splitOn '\n' = f.command :: lines ∧
    lines.map (fun l => (splitOnce (· == ':') l).map fun x => (unescape x.1, unescape x.2)) = f.headers.map some

theorem Frame.Clean.intact {f : Frame} (h : f.Clean) : f.Intact := by
  have hl := headerLines_solid f.headers
  refine ⟨f.text, ['\n'].intercalate (f.command :: f.headers.map headerLine), f.headers.map headerLine, f.encode_eq,
    mt zero_mem_toBytes.mp (text_nul h), ?_, ?_, ?_⟩
  · rw [text, splitBlank_head h.lineEnds.1 hl]
  · exact splitOn_head h.lineEnds.1 hl
  · rw [List.map_map]
    apply List.map_congr_left
    intro y hy
    simp

/-! ## Runs -/

/-- What holds of the pair and its log while nothing has a NUL. -/
structure Unsplit (L : Libsodium) (D : Deployment) (log : List ((Side × Event) × List Output)) (q : Pair) :
    Prop where
  nodes : ∀ s, (q.nodes s).NulFree
  inFlight : ∀ s, ∀ b ∈ sentBy s log, ∃ m, Sealed L D s m b ∧ m.NulFree
  written : ∀ x ∈ log, ∀ conn f, .write conn f ∈ x.2 → f.Clean

section
variable {L : Libsodium} {debug : Text → Text} {p : Pair} {D : Deployment} (hL : L.Correct) (hD : D.Shares)
  (hp : D.Started p) (hdebug : Prints debug) (haddr : ∀ s, '\x00' ∉ (D.config s).peerAddr)
include hL hD hp

theorem heard_nulFree {es : List (Side × Event)}
    (h : Unsplit L D (Mealy.log (Pair.step L debug) p es) (Mealy.run (Pair.step L debug) p es)) {s : Side}
    {bytes : Bytes} {io : Io} (hnet : Authentic L debug p (es ++ [(s, .datagram bytes io)])) {m : Peer}
    (hh : Node.Hears L debug ((Mealy.run (Pair.step L debug) p es).nodes s) bytes m) : m.NulFree := by
  rw [← nodeAt_length] at hh
  exact (heard_sent (Q := fun _ m => m.NulFree) hL hD hp h.inFlight hnet hh).2

include hdebug haddr

theorem Unsplit.step {es : List (Side × Event)}
    (h : Unsplit L D (Mealy.log (Pair.step L debug) p es) (Mealy.run (Pair.step L debug) p es)) {x : Side × Event}
    (hfed : x.2.Fed) (hnet : Authentic L debug p (es ++ [x])) :
    Unsplit L D (Mealy.log (Pair.step L debug) p (es ++ [x])) (Mealy.run (Pair.step L debug) p (es ++ [x])) := by
  obtain ⟨s, ev⟩ := x
  have hlink : Node.Linked (D.config s) ((Mealy.run (Pair.step L debug) p es).nodes s) := hp.linked L debug es s
  have hkeeps := Node.step_keeps hL.toContract hdebug (h.nodes s) (by rw [hlink.config]; exact haddr s) hfed
    (fun bytes io m he hm => by
      subst he
      exact heard_nulFree hL hD hp h hnet hm) (Mealy.run (Pair.step L debug) p es).trace
  rw [Mealy.log_snoc, Mealy.run_snoc]
  refine ⟨Pair.step_each (P := fun _ n => n.NulFree) L debug h.nodes (s, ev) hkeeps.node, fun s' b hb => ?_,
    fun y hy conn f hf => ?_⟩
  · rw [sentBy_snoc, List.mem_append] at hb
    rcases hb with hb | hb
    · exact h.inFlight s' b hb
    · split at hb
      · rename_i hs
        obtain rfl : s = s' := hs
        obtain ⟨o, ho, hob⟩ := List.mem_filterMap.mp hb
        cases o with
        | write conn f => cases hob
        | log line => cases hob
        | datagram frame =>
          cases hob
          obtain ⟨m, t, hm, hsealed⟩ := hkeeps.out _ ho
          rcases hlink.carries hL.toContract (Or.inr ⟨b, t, hsealed, rfl⟩ : Node.Carries L _ m [.datagram b]) with
            hnil | ⟨frame, hs, heq⟩
          · cases hnil
          · cases heq
            exact ⟨m, hs, hm⟩
      · cases hb
  · rcases List.mem_append.mp hy with hy | hy
    · exact h.written y hy conn f hf
    · cases List.mem_singleton.mp hy
      exact hkeeps.out _ hf

theorem run_unsplit (es : List (Side × Event)) (hfed : ∀ x ∈ es, x.2.Fed) (hnet : Authentic L debug p es) :
    Unsplit L D (Mealy.log (Pair.step L debug) p es) (Mealy.run (Pair.step L debug) p es) := by
  induction es using List.reverseRecOn with
  | nil =>
    refine ⟨fun s => ?_, fun s b hb => (by cases hb), fun x hx => (by cases hx)⟩
    have hb := hp.blank s
    constructor
    · intro k v hv
      rw [show (Mealy.run (Pair.step L debug) p []).nodes s = p.nodes s from rfl, hb.kv] at hv
      simp [Store.empty] at hv
    · intro c pd hpd
      rw [show (Mealy.run (Pair.step L debug) p []).nodes s = p.nodes s from rfl, hb.pending] at hpd
      simp at hpd
  | append_singleton es x ih =>
    have ih := ih (fun y hy => hfed y (List.mem_append_left _ hy)) hnet.of_append
    exact ih.step hL hD hp hdebug haddr (hfed x (by simp)) hnet

/-- Whatever clients write, no value, receipt or message has a NUL in it, and
every frame a client is sent can be taken apart in one way, the one meant. -/
theorem no_response_splitting (es : List (Side × Event)) (hfed : ∀ x ∈ es, x.2.Fed)
    (hnet : Authentic L debug p es) :
    (∀ s (k : UInt64) v, ((Mealy.run (Pair.step L debug) p es).nodes s).kv.entries[k]? = some v → '\x00' ∉ v) ∧
    (∀ s (c : UInt64) pd, ((Mealy.run (Pair.step L debug) p es).nodes s).pending[c]? = some pd →
      ∀ r ∈ pd.receipt, '\x00' ∉ r) ∧
    (∀ s, ∀ b ∈ sentBy s (Mealy.log (Pair.step L debug) p es), ∃ m, Sealed L D s m b ∧ '\x00' ∉ m.encode) ∧
    ∀ x ∈ Mealy.log (Pair.step L debug) p es, ∀ conn f, .write conn f ∈ x.2 → f.Intact := by
  have h := run_unsplit hL hD hp hdebug haddr es hfed hnet
  refine ⟨fun s => (h.nodes s).kv, fun s => (h.nodes s).pending, fun s b hb => ?_, fun x hx conn f hf => ?_⟩
  · obtain ⟨m, hs, hm⟩ := h.inFlight s b hb
    exact ⟨m, hs, hm.encode⟩
  · exact (h.written x hx conn f hf).intact

end

theorem no_response_splitting_receipt :
    let L := aesGcm counterBytes
    let D := Deployment.ofIds 100 200 (by decide) ⟨List.replicate keyBytes 7, by decide⟩
    let debug : Text → Text := fun s => '"' :: s ++ ['"']
    let frame : Frame := ⟨"SEND".toList, [("receipt".toList, "1\n\nx:y".toList)], "PUT 1 a\nb".toList⟩
    let es : List (Side × Event) := [(.left, .clientUp 1), (.left, .clientFrame 1 frame ⟨0, true, none⟩)]
    let answer := message (some "1\n\nx:y".toList) .ok
    (∃ x ∈ Mealy.log (Pair.step L debug) D.boot es, .write 1 answer ∈ x.2) ∧ answer.Intact := by
  intro L D debug frame es answer
  have hD : D.Shares := by
    intro s
    cases s <;> rfl
  have haddr : ∀ s, '\x00' ∉ (D.config s).peerAddr := by
    intro s
    cases s <;> exact List.not_mem_nil
  have hdebug : Prints debug := by
    intro s hs
    simp [debug, hs]
  have hframe : frame.Sendable := ⟨⟨by decide, by decide, by decide, by decide, by decide⟩, by decide +kernel⟩
  have hfed : ∀ x ∈ es, x.2.Fed := by
    intro x hx
    rcases List.mem_cons.mp hx with rfl | hx
    · trivial
    · cases List.mem_singleton.mp hx
      obtain ⟨left, -, hr⟩ := readFrame_encode hframe (@flows_nil Text) []
      exact ⟨⟨_, _, hr⟩, fun e he => (by cases he)⟩
  have hnet : Authentic L debug D.boot es := by
    intro i s bytes io hi
    rcases i with _ | _ | i <;> cases hi
  have hout : ∃ x ∈ Mealy.log (Pair.step L debug) D.boot es, .write 1 answer ∈ x.2 := by decide +kernel
  obtain ⟨x, hx, hw⟩ := hout
  exact ⟨⟨x, hx, hw⟩, (no_response_splitting (aesGcm_correct counterBytes) hD D.boot_started hdebug haddr es hfed
    hnet).2.2.2 x hx 1 answer hw⟩

end Paxe.SixSeven

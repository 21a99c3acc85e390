import Paxe.Rotation
import Paxe.SixSeven.History

/-!
# The link below the pair

Every datagram of a node seals its message under the key of its link, with its own
id as the source. So a library without forgeries gives the network that the runs of
a pair assume, whoever delivers the datagrams; and two nodes that were given
different keys hear nothing of each other.
-/

namespace Paxe.SixSeven
open Wire Str

/-! ## What a node seals -/

def linkEpoch : Epoch := ⟨epochBits, epochBits_le⟩

def Config.header (c : Config) : Header := ⟨c.id, c.peerId, peerChannel⟩

/-- Every encryption of a turn went into a datagram that it sent. -/
def Spoke (L : Libsodium) (c : Config) (out : List Output) (seg : Trace) : Prop :=
  ∀ e ∈ Aead.encs seg, ∃ n m, e = Standard.frameEnc L c.key c.header linkEpoch n m ∧
    .datagram (Standard.frame L c.key c.header linkEpoch n m) ∈ out

section
variable {L : Libsodium} {c : Config} {out out' : List Output} {seg : Trace}

theorem Spoke.quiet (h : Aead.encs seg = []) : Spoke L c out seg := by
  intro e he
  rw [h] at he
  cases he

theorem Spoke.mono (h : Spoke L c out seg) (hsub : out ⊆ out') : Spoke L c out' seg := by
  intro e he
  obtain ⟨n, m, heq, hout⟩ := h e he
  exact ⟨n, m, heq, hsub hout⟩

theorem Spoke.after (h : Spoke L c out seg) {before : Trace} (hb : Aead.encs before = []) :
    Spoke L c out (before ++ seg) := by
  intro e he
  rw [Aead.encs_append, hb] at he
  exact h e he

end

def Turn.Spoke (L : Libsodium) (c : Config) (t : Trace) (r : Turn) : Prop :=
  ∃ seg, r.trace = t ++ seg ∧ Aead.decs seg = [] ∧ SixSeven.Spoke L c r.out seg

namespace Node

theorem Linked.link {c : Config} {n : Node} (hn : Linked c n) :
    n.store.slots (n.config.peerId, n.epoch) = some c.key ∧
      (⟨n.store.localId, n.config.peerId, peerChannel⟩ : Header) = c.header := by
  constructor
  · rw [hn.config]
    exact hn.key
  · rw [hn.localId, hn.config]
    rfl

section
variable {L : Libsodium} (hL : L.Contract) {debug : Text → Text} {c : Config} {n : Node} (hn : Linked c n)
include hL hn

variable (debug)

end

end Node

namespace Node

variable {L : Libsodium} {c : Config} {n : Node}

end Node

/-! ## Runs -/

section
variable {L : Libsodium} (hL : L.Correct) {debug : Text → Text} {D : Deployment} {p : Pair} (hp : D.Started p)

include hp

omit hp in
theorem run_store (es : List (Side × Event)) (s : Side) :
    ((Mealy.run (Pair.step L debug) p es).nodes s).store = (p.nodes s).store := by
  refine Mealy.run_inv (Pair.step L debug) (I := fun q => ∀ s, (q.nodes s).store = (p.nodes s).store)
    (fun _ => rfl) ?_ es s
  intro q x hq
  exact Pair.step_each (P := fun s n => n.store = (p.nodes s).store) L debug hq x
    ((Node.step_did _ _ _).static.2.1.trans (hq x.1))

variable (debug)
include hL

end

/-! ## A request that arrives -/

end Paxe.SixSeven

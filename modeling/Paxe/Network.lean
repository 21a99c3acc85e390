import Paxe.AesGcm
import Paxe.OpenSound
import Paxe.Sealing

/-!
# Networks

Any number of nodes, each with its own store, share one history of library
calls. Between the nodes there is no channel: whoever delivers may present any
bytes to any node at any time, so an event is a call at one node and nothing
links what is received to what was sent.
-/

namespace Paxe
open Wire

structure Node where
  store : KeyStore
  diag : Diag

structure Network (ν : Type) where
  nodes : ν → Node
  trace : Trace

inductive Event (ν : Type) where
  | keys (v : ν) (op : KeyOp)
  | standardSeal (v : ν) (toId : UInt16) (channel : UInt32) (epoch : Epoch) (payload out : Bytes)
  | dekSeal (v : ν) (toId : UInt16) (channel : UInt32) (epoch : Epoch) (payload : Bytes)
  | fanout (v : ν) (recipients : List UInt16) (channel : UInt32) (payload : Bytes)
  | receive (v : ν) (frame : Bytes)

inductive Reply where
  | keys (r : KeyRet)
  | standardSeal (r : Res Standard.SealError Nat) (out : Bytes)
  | dekSeal (r : Res Dek.SealError Bytes)
  | fanout (r : Res Dek.SealError (List FanoutFrame))
  | receive (r : Res Dek.OpenError (Header × Flags × Bytes))

structure Emission (ν : Type) where
  sender : ν
  toId : UInt16
  channel : UInt32
  epoch : Epoch
  mode : Mode
  payload : Bytes
  frame : Bytes

section
variable {ν : Type} [DecidableEq ν]

def Network.step (L : Libsodium) (net : Network ν) : Event ν → Reply × Network ν
  | .keys v op =>
    let r := (net.nodes v).store.step op
    (.keys r.1, { net with nodes := Function.update net.nodes v { net.nodes v with store := r.2 } })
  | .standardSeal v toId channel epoch payload out =>
    let r := Standard.seal L (net.nodes v).store toId channel epoch payload out net.trace
    (.standardSeal r.result r.out, { net with trace := r.trace })
  | .dekSeal v toId channel epoch payload =>
    let r := Dek.seal L (net.nodes v).store toId channel epoch payload net.trace
    (.dekSeal r.result, { net with trace := r.trace })
  | .fanout v recipients channel payload =>
    let r := Dek.sealFanout L (net.nodes v).store recipients channel payload net.trace
    (.fanout r.result, { net with trace := r.trace })
  | .receive v frame =>
    let r := Dek.open L (net.nodes v).store frame (net.nodes v).diag net.trace
    (.receive r.result, ⟨Function.update net.nodes v { net.nodes v with diag := r.diag }, r.trace⟩)

omit [DecidableEq ν] in
def emissions : Event ν × Reply → List (Emission ν)
  | (.standardSeal v toId channel epoch payload _, .standardSeal (.ok n) out) =>
    [⟨v, toId, channel, epoch, .standard, payload, out.take n⟩]
  | (.dekSeal v toId channel epoch payload, .dekSeal (.ok frame)) =>
    [⟨v, toId, channel, epoch, .standard, payload, frame⟩]
  | (.fanout v _ channel payload, .fanout (.ok frames)) =>
    frames.map fun f => ⟨v, f.toId, channel, f.epoch, .dek, payload, f.frame⟩
  | _ => []

def Network.emitted (L : Libsodium) (net : Network ν) (events : List (Event ν)) : List (Emission ν) :=
  (Mealy.log (Network.step L) net events).flatMap emissions

/-! ## Nonces -/

theorem step_fresh (L : Libsodium) (net : Network ν) (ev : Event ν) :
    ∃ seg, (net.step L ev).2.trace = net.trace ++ seg ∧ Aead.Fresh seg := by
  cases ev with
  | keys v op => exact ⟨[], (List.append_nil _).symm, Aead.fresh_nil⟩
  | standardSeal v toId channel epoch payload out =>
    exact standardSeal_fresh L (net.nodes v).store toId channel epoch payload out net.trace
  | dekSeal v toId channel epoch payload =>
    exact dekSeal_fresh L (net.nodes v).store toId channel epoch payload net.trace
  | fanout v recipients channel payload =>
    exact sealFanout_fresh L (net.nodes v).store recipients channel payload net.trace
  | receive v frame =>
    obtain ⟨ds, ht⟩ := open_trace L (net.nodes v).store frame (net.nodes v).diag net.trace
    exact ⟨_, ht, Aead.fresh_of_encs_nil (Aead.encs_decrypt ds)⟩

theorem run_fresh (L : Libsodium) {net : Network ν} (h0 : net.trace = []) (events : List (Event ν)) :
    Aead.Fresh (Mealy.run (Network.step L) net events).trace := by
  refine Mealy.run_inv (Network.step L) (I := fun s => Aead.Fresh s.trace) ?_ (fun s ev h => ?_) events
  · rw [h0]
    exact Aead.fresh_nil
  · obtain ⟨seg, ht, hf⟩ := step_fresh L s ev
    rw [ht]
    exact h.append hf

/-! ## What a step hands out -/

def Network.id (net : Network ν) (v : ν) : UInt16 := (net.nodes v).store.localId

inductive Did (L : Libsodium) (id : ν → UInt16) : List (Emission ν) → Trace → Prop
  | quiet {seg : Trace} : Aead.encs seg = [] → Aead.keys seg = [] → Did L id [] seg
  | standard (v : ν) (toId : UInt16) (channel : UInt32) (e : Epoch) (p : Bytes) (n : Nonce) (k : Key) :
      Did L id [⟨v, toId, channel, e, .standard, p, Standard.frame L k ⟨id v, toId, channel⟩ e n p⟩]
        [.drawNonce n, .encrypt (Standard.frameEnc L k ⟨id v, toId, channel⟩ e n p)]
  | fanout (v : ν) (channel : UInt32) (p : Bytes) (dek : Key) (bn : Nonce) (ens : List Nonce)
      (xs : List (Selected × Nonce)) :
      Did L id (xs.map fun x => ⟨v, x.1.1, channel, x.1.2.1, .dek, p,
        (Dek.emitted L (id v) channel dek bn p x).frame⟩)
        (Dek.draws dek bn ens ++ (Dek.fanoutEncs L (id v) channel dek bn p xs).map .encrypt)

theorem step_did {L : Libsodium} (hL : L.Contract) (net : Network ν) (ev : Event ν) :
    ∃ seg, (net.step L ev).2.trace = net.trace ++ seg ∧ Did L net.id (emissions (ev, (net.step L ev).1)) seg := by
  cases ev with
  | keys v op => exact ⟨[], (List.append_nil _).symm, .quiet rfl rfl⟩
  | standardSeal v toId channel epoch payload out =>
    simp only [Network.step]
    rcases standardSeal_cases hL (net.nodes v).store toId channel epoch payload out net.trace with
      ⟨n, err, hs⟩ | ⟨n, k, -, -, -, hs⟩
    · rw [hs]
      exact ⟨_, rfl, .quiet rfl rfl⟩
    · rw [hs]
      refine ⟨_, rfl, ?_⟩
      simp only [emissions]
      rw [List.take_left' (Standard.frame_length hL ..)]
      exact .standard v toId channel epoch payload n k
  | dekSeal v toId channel epoch payload =>
    simp only [Network.step]
    rcases dekSeal_cases hL (net.nodes v).store toId channel epoch payload net.trace with
      ⟨err, hs⟩ | ⟨n, err, hs⟩ | ⟨n, k, -, -, hs⟩
    · rw [hs]
      exact ⟨[], (List.append_nil _).symm, .quiet rfl rfl⟩
    · rw [hs]
      exact ⟨_, rfl, .quiet rfl rfl⟩
    · rw [hs]
      exact ⟨_, rfl, .standard v toId channel epoch payload n k⟩
  | fanout v recipients channel payload =>
    simp only [Network.step]
    rcases sealFanout_cases hL (net.nodes v).store recipients channel payload net.trace with
      ⟨err, -, hs⟩ | ⟨-, -, -, dek, bn, ens, -, hs⟩
    · rw [hs]
      exact ⟨[], (List.append_nil _).symm, .quiet rfl rfl⟩
    · rw [hs]
      refine ⟨_, rfl, ?_⟩
      simp only [emissions, List.map_map]
      exact .fanout v channel payload dek bn ens _
  | receive v frame =>
    obtain ⟨ds, ht⟩ := open_trace L (net.nodes v).store frame (net.nodes v).diag net.trace
    exact ⟨_, ht, .quiet (Aead.encs_decrypt ds) (Aead.keys_decrypt ds)⟩

theorem Dek.fanout_encs (L : Libsodium) (localId : UInt16) (channel : UInt32) (dek : Key) (bn : Nonce) (p : Bytes)
    (ens : List Nonce) (xs : List (Selected × Nonce)) :
    Aead.encs (Dek.draws dek bn ens ++ (Dek.fanoutEncs L localId channel dek bn p xs).map .encrypt) =
      Dek.fanoutEncs L localId channel dek bn p xs := by
  simp [Dek.draws, Aead.encs]

/-- The nonce fields of a frame hold the nonces of the encryptions whose
outputs follow them. -/
def NonceFields (t : Trace) (frame : Bytes) : Mode → Prop
  | .standard => ∃ e ∈ Aead.encs t, slice frame 9 21 = some e.nonce.val ∧
      slice frame 21 frame.length = some e.output
  | .dek => ∃ env ∈ Aead.encs t, ∃ body ∈ Aead.encs t, slice frame 9 21 = some env.nonce.val ∧
      slice frame 21 69 = some env.output ∧ slice frame 69 81 = some body.nonce.val ∧
      slice frame 81 frame.length = some body.output

theorem NonceFields.mono {t u : Trace} {frame : Bytes} {m : Mode} (h : NonceFields t frame m)
    (hsub : ∀ e ∈ Aead.encs t, e ∈ Aead.encs u) : NonceFields u frame m := by
  cases m with
  | standard =>
    obtain ⟨e, he, hf⟩ := h
    exact ⟨e, hsub e he, hf⟩
  | dek =>
    obtain ⟨env, he, body, hb, hf⟩ := h
    exact ⟨env, hsub env he, body, hsub body hb, hf⟩

omit [DecidableEq ν] in
theorem Did.nonceFields {L : Libsodium} (hL : L.Contract) {id : ν → UInt16} {ems : List (Emission ν)} {seg : Trace}
    (h : Did L id ems seg) : ∀ em ∈ ems, NonceFields seg em.frame em.mode := by
  intro em hem
  cases h with
  | quiet _ _ => cases hem
  | standard v toId channel e p n k =>
    obtain rfl := List.mem_singleton.mp hem
    have hpre := serializePrefix_length ⟨id v, toId, channel⟩ ⟨.standard, e⟩
    refine ⟨Standard.frameEnc L k ⟨id v, toId, channel⟩ e n p, by simp [Aead.encs], ?_, ?_⟩
    · exact slice_mid _ hpre (by rw [n.property]; rfl)
    · simp only [Standard.frame]
      rw [← List.append_assoc]
      exact slice_tail (by rw [List.length_append, hpre, n.property]; rfl) (by
        simp only [List.length_append, hpre, n.property]; rfl)
  | fanout v channel p dek bn ens xs =>
    obtain ⟨x, hx, rfl⟩ := List.mem_map.mp hem
    have hw := Dek.frame_wire hL x.1.2.2.mem ⟨id v, x.1.1, channel⟩ x.1.2.1 x.2 dek bn p
    refine ⟨Dek.envelopeEnc L (id v) channel dek bn p x, ?_, Dek.bodyEnc L (id v) channel dek bn p, ?_, ?_⟩
    · rw [Dek.fanout_encs]
      exact List.mem_cons_of_mem _ (List.mem_map_of_mem hx)
    · rw [Dek.fanout_encs]
      exact List.mem_cons_self
    · simp only [Dek.emitted, hw]
      refine ⟨Dek.wire_envelopeNonce .., Dek.wire_envelope .., Dek.wire_bodyNonce .., ?_⟩
      rw [show (81 : Nat) = Layout.body from rfl, Dek.wire_body]
      simp [Dek.bodyTag, Dek.bodyEnc]

/-- Every drawn nonce serves at most one encryption in any run of any network;
so with distinct draws no key and nonce meet twice. The nonces on the wire
are those the frame's ciphertexts were made with. -/
theorem no_nonce_reuse (L : Libsodium) {net : Network ν} (h0 : net.trace = []) (events : List (Event ν)) :
    let t := (Mealy.run (Network.step L) net events).trace
    Aead.Fresh t ∧ ((Aead.nonces t).Nodup → ((Aead.encs t).map fun e => (e.key, e.nonce)).Nodup) ∧
      (L.Contract → ∀ em ∈ net.emitted L events, NonceFields t em.frame em.mode) := by
  intro t
  have hf : Aead.Fresh t := run_fresh L h0 events
  refine ⟨hf, hf.pairs_nodup, fun hL => ?_⟩
  refine Mealy.log_inv (Network.step L)
    (I := fun log s => ∀ em ∈ log.flatMap emissions, NonceFields s.trace em.frame em.mode) (by simp) ?_ events
  intro log s ev ih em hem
  obtain ⟨seg, ht, hd⟩ := step_did hL s ev
  rw [ht]
  rw [List.flatMap_append, List.mem_append] at hem
  rcases hem with hem | hem
  · exact (ih em hem).mono fun e he => by simp [he]
  · exact (hd.nonceFields hL em (by simpa using hem)).mono fun e he => by simp [he]

end

/-- Two nodes under one shared key: a fanout at one, a standard frame at the
other. -/
theorem no_nonce_reuse_two :
    let e : Epoch := ⟨3, by decide⟩
    let key : Key := ⟨List.replicate keyBytes 7, by decide⟩
    let net : Network Bool := ⟨fun
      | true => ⟨KeyStore.ofLinks 1 [((2, e), key), ((3, e), key)], .init⟩
      | false => ⟨KeyStore.ofLinks 2 [((1, e), key)], .init⟩, []⟩
    let events : List (Event Bool) := [.fanout true [2, 3] 100 [104, 105], .dekSeal false 1 100 e [1]]
    let t := (Mealy.run (Network.step (aesGcm counterBytes)) net events).trace
    (Aead.nonces t).length = 4 ∧ ((Aead.encs t).map fun x => (x.key, x.nonce)).Nodup ∧
      ∀ em ∈ net.emitted (aesGcm counterBytes) events, NonceFields t em.frame em.mode := by
  intro e key net events t
  have hn : (Aead.nonces t).Nodup ∧ (Aead.nonces t).length = 4 := by decide +kernel
  obtain ⟨-, hp, hf⟩ := no_nonce_reuse (aesGcm counterBytes) (show net.trace = [] from rfl) events
  exact ⟨hn.2, hp hn.1, hf (aesGcm_contract counterBytes)⟩

end Paxe

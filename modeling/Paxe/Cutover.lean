import Paxe.Fleet
import Paxe.Rotation

/-!
# Rotations between running processes

Both ends of a link install a new epoch and later retire the old one, each in its
own time, among any other calls of any processes. A sender moves to the new epoch
at its own install. So a frame is lost exactly when its sender had moved and its
receiver has not, or when its receiver has retired the epoch that it left under.
-/

namespace Paxe
open Wire

/-! ## One end -/

/-- The process is configured as `id`, and these are its keys for `peer`. -/
def Session.Holds (s : Session) (id peer : UInt16) (keys : Epoch → Option Key) : Prop :=
  ∃ store, s.store = some store ∧ store.localId = id ∧ ∀ e, store.slots (peer, e) = keys e

/-- The call leaves the keys for that peer alone. -/
def Call.Spares (peer : UInt16) : Call → Prop
  | .shutdown => False
  | .keystoreClear => False
  | .keystoreSet p _ _ _ => p.toNat ≠ peer.toNat
  | .keystoreRetire p _ => p.toNat ≠ peer.toNat
  | _ => True

namespace Session.Holds

variable {s : Session} {i peer : UInt16} {keys : Epoch → Option Key} (h : s.Holds i peer keys)
include h

theorem of_store {s' : Session} (hs : s'.store = s.store) : s'.Holds i peer keys := by
  obtain ⟨store, hst, hrest⟩ := h
  exact ⟨store, hs.trans hst, hrest⟩

theorem setLocalId (nodeId : UInt32) (initRc : Int) :
    (lunetPaxeSetLocalId s nodeId initRc).2.Holds i peer keys := by
  obtain ⟨store, hs, -⟩ := id h
  have hd := setLocalId_did s nodeId initRc
  generalize lunetPaxeSetLocalId s nodeId initRc = r at hd ⊢
  cases hd with
  | refused m _ => exact h
  | failed m _ => exact h
  | configured _ hnone _ =>
    rw [hs] at hnone
    cases hnone

theorem keystoreSet_other {p : UInt32} (hp : p.toNat ≠ peer.toNat) (epoch : UInt32) (key : InBuf) (heap : Heap) :
    (lunetPaxeKeystoreSet s p epoch key heap).2.Holds i peer keys := by
  obtain ⟨store, hs, hid, hkeys⟩ := id h
  have hd := keystoreSet_did s p epoch key heap
  generalize lunetPaxeKeystoreSet s p epoch key heap = r at hd ⊢
  cases hd with
  | refused m _ => exact h
  | unconfigured m _ => exact h
  | failed m _ _ _ _ => exact h
  | @installed store' slot k ha _ hs' hi =>
    obtain rfl : store = store' := Option.some.inj (hs.symm.trans hs')
    refine ⟨_, rfl, (install_localId store ..).trans hid, fun e => ?_⟩
    have hne : ((peer, e) : Slot) ≠ (slot.1, slot.2) := by
      rintro heq
      apply hp
      rw [ha.1, (Prod.mk.inj heq).1]
    rw [install_slots store hi, Function.update_of_ne hne]
    exact hkeys e

theorem keystoreRetire_other {p : UInt32} (hp : p.toNat ≠ peer.toNat) (epoch : UInt32) :
    (lunetPaxeKeystoreRetire s p epoch).2.Holds i peer keys := by
  obtain ⟨store, hs, hid, hkeys⟩ := id h
  have hd := keystoreRetire_did s p epoch
  generalize lunetPaxeKeystoreRetire s p epoch = r at hd ⊢
  cases hd with
  | refused m _ => exact h
  | unconfigured m _ => exact h
  | @retired store' slot ha hs' =>
    obtain rfl : store = store' := Option.some.inj (hs.symm.trans hs')
    refine ⟨_, rfl, hid, fun e => ?_⟩
    have hne : ((peer, e) : Slot) ≠ (slot.1, slot.2) := by
      rintro heq
      apply hp
      rw [ha.1, (Prod.mk.inj heq).1]
    rw [retire_slots, Function.update_of_ne hne]
    exact hkeys e

theorem step (L : Libsodium) {c : Call} (hc : c.Spares peer) : (s.step L c).2.Holds i peer keys := by
  cases c with
  | init env => exact h.of_store (init_did s env).1
  | setLocalId nodeId initRc => exact h.setLocalId nodeId initRc
  | shutdown => exact hc.elim
  | keystoreSet p epoch key heap => exact h.keystoreSet_other hc epoch key heap
  | keystoreRetire p epoch => exact h.keystoreRetire_other hc epoch
  | keystoreClear => exact hc.elim
  | «seal» a => exact h.of_store (seal_store L s a)
  | «open» a => exact h.of_store (open_store L s a)
  | frameForUs b => exact h.of_store (gate_store s b)
  | stats out => exact h
  | failPolicySet name => exact h.of_store (failPolicySet_did s name).1

theorem install {p epoch : UInt32} {e : Epoch} {k : Key} {heap : Heap} (ha : SlotArgs p epoch (peer, e))
    (hok : (lunetPaxeKeystoreSet s p epoch (.mem k.val) heap).1 = .rc rcOk) :
    (lunetPaxeKeystoreSet s p epoch (.mem k.val) heap).2.Holds i peer (Function.update keys e (some k)) := by
  obtain ⟨store, hs, hid, hkeys⟩ := h
  have hd := keystoreSet_did s p epoch (.mem k.val) heap
  generalize lunetPaxeKeystoreSet s p epoch (.mem k.val) heap = r at hd hok ⊢
  cases hd with
  | refused m _ => cases hok
  | unconfigured m _ => cases hok
  | failed m _ _ _ _ => cases hok
  | @installed store' slot k' ha' hk hs' hi =>
    obtain rfl : store = store' := Option.some.inj (hs.symm.trans hs')
    obtain rfl : slot = (peer, e) := ha'.unique ha
    obtain rfl : k = k' := Subtype.ext (InBuf.mem.inj hk)
    refine ⟨_, rfl, (install_localId store ..).trans hid, fun e' => ?_⟩
    rw [install_slots store hi]
    by_cases he : e' = e
    · subst he
      rw [Function.update_self, Function.update_self]
    · have hne : ((peer, e') : Slot) ≠ (peer, e) := fun heq => he (Prod.mk.inj heq).2
      rw [Function.update_of_ne he, Function.update_of_ne hne]
      exact hkeys e'

theorem retire {p epoch : UInt32} {e : Epoch} (ha : SlotArgs p epoch (peer, e)) :
    (lunetPaxeKeystoreRetire s p epoch).2.Holds i peer (Function.update keys e none) := by
  obtain ⟨store, hs, hid, hkeys⟩ := h
  have hd := keystoreRetire_did s p epoch
  generalize lunetPaxeKeystoreRetire s p epoch = r at hd ⊢
  cases hd with
  | refused m hno => exact absurd ha (hno _)
  | unconfigured m hnone =>
    rw [hs] at hnone
    cases hnone
  | @retired store' slot ha' hs' =>
    obtain rfl : store = store' := Option.some.inj (hs.symm.trans hs')
    obtain rfl : slot = (peer, e) := ha'.unique ha
    refine ⟨_, rfl, hid, fun e' => ?_⟩
    rw [retire_slots]
    by_cases he : e' = e
    · subst he
      rw [Function.update_self, Function.update_self]
    · have hne : ((peer, e') : Slot) ≠ (peer, e) := fun heq => he (Prod.mk.inj heq).2
      rw [Function.update_of_ne he, Function.update_of_ne hne]
      exact hkeys e'

end Session.Holds

/-! ## Both ends -/

namespace Fleet

variable {ν : Type} [DecidableEq ν]

/-- The rotation of a link in a run. Both ends hold the old epoch alone at first.
Each installs the new one and later retires the old one, at positions of its own;
a position past the end of the run never comes. -/
structure Rotation (L : Libsodium) (fl : Fleet ν) (events : List (ν × Call)) where
  proc : Bool → ν
  id : Bool → UInt16
  old : Epoch
  new : Epoch
  oldKey : Key
  newKey : Key
  install : Bool → Nat
  retire : Bool → Nat
  newer : old.bits < new.bits
  later : ∀ s, install s < retire s
  start : ∀ s, (fl.sessions (proc s)).Holds (id s) (id !s) fun e => if e = old then some oldKey else none
  installs : ∀ s x, events[install s]? = some x →
    ∃ p e heap, x = (proc s, .keystoreSet p e (.mem newKey.val) heap) ∧
    SlotArgs p e (id !s, new) ∧ (step L (Mealy.run (step L) fl (events.take (install s))) x).1 = .code (.rc rcOk)
  retires : ∀ s x, events[retire s]? = some x → ∃ p e, x = (proc s, .keystoreRetire p e) ∧ SlotArgs p e (id !s, old)
  spares : ∀ s n c, events[n]? = some (proc s, c) → n ≠ install s → n ≠ retire s → c.Spares (id !s)

namespace Rotation

variable {L : Libsodium} {fl : Fleet ν} {events : List (ν × Call)} (R : Rotation L fl events)

def keys (s : Bool) (n : Nat) (e : Epoch) : Option Key :=
  if e = R.new then if R.install s < n then some R.newKey else none
  else if e = R.old ∧ n ≤ R.retire s then some R.oldKey else none

theorem new_ne_old : R.new ≠ R.old := by
  intro h
  have := R.newer
  rw [h] at this
  exact (UInt8.lt_irrefl _) this

theorem keys_zero (s : Bool) : R.keys s 0 = fun e => if e = R.old then some R.oldKey else none := by
  funext e
  unfold keys
  by_cases he : e = R.new
  · rw [if_pos he, if_neg (Nat.not_lt_zero _), if_neg (he ▸ R.new_ne_old)]
  · rw [if_neg he]
    by_cases ho : e = R.old
    · rw [if_pos ⟨ho, Nat.zero_le _⟩, if_pos ho]
    · rw [if_neg (fun h => ho h.1), if_neg ho]

theorem keys_install (s : Bool) :
    R.keys s (R.install s + 1) = Function.update (R.keys s (R.install s)) R.new (some R.newKey) := by
  funext e
  have hlater := R.later s
  rw [Function.update_apply]
  unfold keys
  by_cases he : e = R.new
  · rw [if_pos he, if_pos he, if_pos (Nat.lt_succ_self _)]
  · rw [if_neg he, if_neg he, if_neg he]
    simp only [show R.install s + 1 ≤ R.retire s from hlater, hlater.le]

theorem keys_retire (s : Bool) :
    R.keys s (R.retire s + 1) = Function.update (R.keys s (R.retire s)) R.old none := by
  funext e
  have hlater := R.later s
  rw [Function.update_apply]
  unfold keys
  by_cases he : e = R.new
  · have hold : e ≠ R.old := fun ho => R.new_ne_old (he.symm.trans ho)
    rw [if_pos he, if_neg hold, if_pos he, if_pos (Nat.lt_succ_of_lt hlater), if_pos hlater]
  · rw [if_neg he, if_neg he, if_neg (fun h => absurd h.2 (Nat.not_succ_le_self _))]
    by_cases ho : e = R.old
    · rw [if_pos ho]
    · rw [if_neg ho, if_neg (fun h => ho h.1)]

theorem keys_other {s : Bool} {n : Nat} (hi : n ≠ R.install s) (hr : n ≠ R.retire s) :
    R.keys s (n + 1) = R.keys s n := by
  funext e
  unfold keys
  have h₁ : R.install s < n + 1 ↔ R.install s < n := by omega
  have h₂ : n + 1 ≤ R.retire s ↔ n ≤ R.retire s := by omega
  simp only [h₁, h₂]

theorem holds (s : Bool) {n : Nat} (hn : n ≤ events.length) :
    ((Mealy.run (step L) fl (events.take n)).sessions (R.proc s)).Holds (R.id s) (R.id !s) (R.keys s n) := by
  induction n with
  | zero =>
    rw [R.keys_zero]
    exact R.start s
  | succ n ih =>
    have h := ih (Nat.le_of_succ_le hn)
    obtain ⟨⟨v, c⟩, hc⟩ : ∃ x, events[n]? = some x := ⟨_, List.getElem?_eq_getElem hn⟩
    rw [List.take_add_one, hc, Option.toList_some, Mealy.run_snoc]
    by_cases hv : v = R.proc s
    · subst hv
      have h' : ((Mealy.run (step L) fl (events.take n)).session (R.proc s)).Holds (R.id s) (R.id !s)
          (R.keys s n) := h.of_store rfl
      apply Session.Holds.of_store
        (s := (((Mealy.run (step L) fl (events.take n)).session (R.proc s)).step L c).2) _
        (congrArg Session.store (Function.update_self _ _ _))
      by_cases hi : n = R.install s
      · obtain ⟨p, e, heap, hx, ha, hok⟩ := R.installs s _ (hi ▸ hc)
        obtain ⟨-, rfl⟩ := Prod.mk.inj hx
        rw [← hi] at hok
        rw [hi, R.keys_install, ← hi]
        exact h'.install ha (Ret.code.inj hok)
      · by_cases hr : n = R.retire s
        · obtain ⟨p, e, hx, ha⟩ := R.retires s _ (hr ▸ hc)
          obtain ⟨-, rfl⟩ := Prod.mk.inj hx
          rw [hr, R.keys_retire, ← hr]
          exact h'.retire ha
        · rw [R.keys_other hi hr]
          exact h'.step L (R.spares s n c hc hi hr)
    · have hi : n ≠ R.install s := by
        rintro rfl
        obtain ⟨p, e, heap, hx, -⟩ := R.installs s _ hc
        exact hv (Prod.mk.inj hx).1
      have hr : n ≠ R.retire s := by
        rintro rfl
        obtain ⟨p, e, hx, -⟩ := R.retires s _ hc
        exact hv (Prod.mk.inj hx).1
      rw [R.keys_other hi hr]
      exact h.of_store (congrArg Session.store (Function.update_of_ne (Ne.symm hv) _ _))

/-- A frame that an end seals is under the old epoch before its install, and under
the new one after it. -/
theorem sealed (hL : L.Contract) {s : Bool} {m : Nat} {a : SealCall} {em : Emission UInt16}
    (hm : events[m]? = some (R.proc s, .seal a))
    (hs : Seals L ((Mealy.run (step L) fl (events.take m)).session (R.proc s)) a em) (hto : em.toId = R.id !s) :
    (m < R.install s ∧ ∃ n, em.frame = Standard.frame L R.oldKey ⟨R.id s, R.id !s, em.channel⟩ R.old n em.payload) ∨
    (R.install s < m ∧ ∃ n, em.frame =
      Standard.frame L R.newKey ⟨R.id s, R.id !s, em.channel⟩ R.new n em.payload) := by
  obtain ⟨store, key, hst, hid, hcur, hres⟩ := hs.configured
  have hlen : m < events.length := (List.getElem?_eq_some_iff.mp hm).1
  obtain ⟨store', hst', hid', hkeys⟩ := R.holds s hlen.le
  obtain rfl : store = store' := Option.some.inj (hst.symm.trans hst')
  obtain ⟨hslot, hmax⟩ := (keyForSendCurrent_slots store).mp hcur
  rw [hto] at hslot hmax hres
  have hne : m ≠ R.install s := by
    intro heq
    obtain ⟨p, e, heap, hx, -⟩ := R.installs s _ (heq ▸ hm)
    cases (Prod.mk.inj hx).2
  have hframe : ∀ {k}, store.slots (R.id !s, em.epoch) = some k →
      ∃ n, em.frame = Standard.frame L k ⟨R.id s, R.id !s, em.channel⟩ em.epoch n em.payload := by
    intro k hk
    rcases dekSeal_cases hL store (R.id !s) em.channel em.epoch em.payload
      ((Mealy.run (step L) fl (events.take m)).session (R.proc s)).trace with ⟨err, hr⟩ | ⟨n, err, hr⟩ |
        ⟨n, k', hk', -, hr⟩
    · rw [hr] at hres
      cases hres
    · rw [hr] at hres
      cases hres
    · rw [hr, hid'] at hres
      obtain rfl : k = k' := Option.some.inj (hk.symm.trans hk')
      exact ⟨n, (Res.ok.inj hres).symm⟩
  rw [hkeys] at hslot
  unfold keys at hslot
  by_cases he : em.epoch = R.new
  · rw [if_pos he] at hslot
    split at hslot
    · rename_i hlt
      refine Or.inr ⟨hlt, ?_⟩
      rw [← he]
      apply hframe
      rw [hkeys, keys, if_pos he, if_pos hlt]
    · cases hslot
  · rw [if_neg he] at hslot
    split at hslot
    · rename_i ho
      rcases Nat.lt_or_gt_of_ne hne with hlt | hlt
      · refine Or.inl ⟨hlt, ?_⟩
        rw [← ho.1]
        apply hframe
        rw [hkeys, keys, if_neg he, if_pos ho]
      · -- the new epoch is there, and higher
        have hnew : (store.slots (R.id !s, R.new)).isSome := by
          rw [hkeys, keys, if_pos rfl, if_pos hlt]
          rfl
        have := hmax R.new hnew
        rw [ho.1] at this
        exact absurd R.newer (UInt8.not_lt.mpr this)
    · cases hslot

end Rotation

/-! ## What arrives -/

section
variable {L : Libsodium} {s : Session} {B : KeyStore} (hst : s.store = some B) {o : OpenCall} {out p : Bytes}
  {k : Key} {fromId : UInt16} {channel : UInt32} {e : Epoch} {n : Nonce}
  (hv : o.Valid (Standard.frame L k ⟨fromId, B.localId, channel⟩ e n p) out)
include hst hv

theorem open_keyed (hL : L.Correct) (hk : B.slots (fromId, e) = some k) (hroom : p.length ≤ out.length) :
    (s.step L (.open o)).1 = .opened (.rc rcOk)
      ⟨o.mem.out.write p, some p.length, some fromId.toUInt32, some channel,
      some (modeCode .standard)⟩ := by
  have hopen := open_own_frame hL channel n p s.diag s.trace hk
  show Ret.opened (lunetPaxeOpen L s o).1 (lunetPaxeOpen L s o).2.1 = _
  unfold lunetPaxeOpen
  rw [hv.frame_eq]
  dsimp only
  rw [hv.pointers, if_neg Bool.false_ne_true, hv.out_eq]
  dsimp only
  rw [hst]
  dsimp only
  rw [hopen]
  dsimp only
  rw [if_neg (Nat.not_lt.mpr hroom)]

theorem open_unkeyed (hL : L.Contract) (hk : B.slots (fromId, e) = none)
    (hknown : ∃ e', (B.slots (fromId, e')).isSome) :
    (s.step L (.open o)).1 = .opened (.rc rcDrop) o.mem ∧
      (s.step L (.open o)).2.diag = (s.diag.recordReject .noEpoch).recordRxDrop := by
  have hmiss : missReason B fromId = .noEpoch := (missReason_noEpoch B fromId).mpr hknown
  have g := Dek.Gate.standardMiss (Standard.frame_parse L k ⟨fromId, B.localId, channel⟩ e n p) rfl rfl
    ((Standard.frame_length hL k ⟨fromId, B.localId, channel⟩ e n p) ▸ Nat.le_add_left _ _)
      (Option.map_eq_none_iff.mp hk)
  have hopen := open_gate L s.diag s.trace g
  rw [hmiss] at hopen
  show Ret.opened (lunetPaxeOpen L s o).1 (lunetPaxeOpen L s o).2.1 = _ ∧ (lunetPaxeOpen L s o).2.2.diag = _
  unfold lunetPaxeOpen
  rw [hv.frame_eq]
  dsimp only
  rw [hv.pointers, if_neg Bool.false_ne_true, hv.out_eq]
  dsimp only
  rw [hst]
  dsimp only
  rw [hopen]
  exact ⟨rfl, rfl⟩

end

/-- What one end seals for the other arrives exactly when both had the same epoch of
it, at the sealing and at the opening. Otherwise it is dropped, and counted as an
unknown epoch. -/
theorem rotation_crossing {L : Libsodium} (hL : L.Correct) {fl : Fleet ν} {events : List (ν × Call)}
    (R : Rotation L fl events) {s : Bool} {m n : Nat} {a : SealCall} {em : Emission UInt16} {o : OpenCall}
    {out : Bytes} (hm : events[m]? = some (R.proc s, .seal a))
    (hs : Seals L ((Mealy.run (step L) fl (events.take m)).session (R.proc s)) a em) (hto : em.toId = R.id !s)
    (hn : events[n]? = some (R.proc !s, .open o)) (hv : o.Valid em.frame out)
    (hroom : em.payload.length ≤ out.length) :
    let g := Mealy.run (step L) fl (events.take n)
    let r := step L g (R.proc !s, .open o)
    if m < R.install s ∧ n < R.retire !s ∨ R.install s < m ∧ R.install (!s) < n then
      r.1 = .opened (.rc rcOk) ⟨o.mem.out.write em.payload, some em.payload.length, some (R.id s).toUInt32,
        some em.channel, some (modeCode .standard)⟩
    else
      r.1 = .opened (.rc rcDrop) o.mem ∧
        (r.2.sessions (R.proc !s)).diag = ((g.sessions (R.proc !s)).diag.recordReject .noEpoch).recordRxDrop := by
  intro g r
  have hlen : n < events.length := (List.getElem?_eq_some_iff.mp hn).1
  obtain ⟨B, hst, hid, hkeys⟩ := R.holds (!s) hlen.le
  rw [Bool.not_not] at hkeys
  have hst : (g.session (R.proc !s)).store = some B := hst
  have hne : n ≠ R.install !s ∧ n ≠ R.retire !s := by
    constructor
    · intro heq
      obtain ⟨p, e, heap, hx, -⟩ := R.installs _ _ (heq ▸ hn)
      cases (Prod.mk.inj hx).2
    · intro heq
      obtain ⟨p, e, hx, -⟩ := R.retires _ _ (heq ▸ hn)
      cases (Prod.mk.inj hx).2
  have hlater := R.later !s
  have hknown : ∃ e', (B.slots (R.id s, e')).isSome := by
    by_cases hlt : R.install (!s) < n
    · refine ⟨R.new, ?_⟩
      rw [hkeys, Rotation.keys, if_pos rfl, if_pos hlt]
      rfl
    · refine ⟨R.old, ?_⟩
      rw [hkeys, Rotation.keys, if_neg R.new_ne_old.symm, if_pos ⟨rfl, by omega⟩]
      rfl
  have hdiag : (r.2.sessions (R.proc !s)).diag = ((g.session (R.proc !s)).step L (.open o)).2.diag :=
    congrArg Session.diag (Function.update_self _ _ _)
  rw [hdiag]
  rcases R.sealed hL.toContract hm hs hto with ⟨hlt, nonce, hf⟩ | ⟨hlt, nonce, hf⟩
  · rw [hf, ← hid] at hv
    have hslot : B.slots (R.id s, R.old) = if n < R.retire !s then some R.oldKey else none := by
      rw [hkeys, Rotation.keys, if_neg R.new_ne_old.symm]
      simp only [true_and, show n ≤ R.retire (!s) ↔ n < R.retire !s from ⟨fun h => by omega, le_of_lt⟩]
    by_cases hc : n < R.retire !s
    · rw [if_pos (Or.inl ⟨hlt, hc⟩)]
      rw [if_pos hc] at hslot
      exact open_keyed hst hv hL hslot hroom
    · rw [if_neg (by omega)]
      rw [if_neg hc] at hslot
      exact open_unkeyed hst hv hL.toContract hslot hknown
  · rw [hf, ← hid] at hv
    have hslot : B.slots (R.id s, R.new) = if R.install (!s) < n then some R.newKey else none := by
      rw [hkeys, Rotation.keys, if_pos rfl]
    by_cases hc : R.install (!s) < n
    · rw [if_pos (Or.inr ⟨hlt, hc⟩)]
      rw [if_pos hc] at hslot
      exact open_keyed hst hv hL hslot hroom
    · rw [if_neg (by omega)]
      rw [if_neg hc] at hslot
      exact open_unkeyed hst hv hL.toContract hslot hknown

theorem sealHi_seals {L : Libsodium} (hL : L.Contract) {s : Session} {store : KeyStore} (hst : s.store = some store)
    {e : Epoch} {k : StoredKey} (hcur : store.keyForSendCurrent 2 = some (e, k)) :
    Seals L s sealHi ⟨store.localId, 2, 100, e, .standard, [104, 105],
      Standard.frame L k.mem ⟨store.localId, 2, 100⟩ e (randomNonce L s.trace).1 [104, 105]⟩ where
  configured := ⟨store, k, hst, rfl, hcur,
    current_seals hL hcur 100 s.trace (show [104, 105].length ≤ 65470 by decide)⟩
  dest := rfl
  channel := rfl
  payload := rfl
  mode := rfl
  returned := by
    have hlen := Standard.frame_length hL k.mem ⟨store.localId, 2, 100⟩ e (randomNonce L s.trace).1 [104, 105]
    have hto : checkU16 2 "destination node id" = .ok 2 := rfl
    have hch : checkChannel 100 = .ok 100 := rfl
    have hseal := current_seals hL hcur 100 s.trace (show [104, 105].length ≤ 65470 by decide)
    left
    simp only [lunetPaxeSeal, sealHi, hto, hch, bufIn, bufOut, hst, hcur, hseal, hlen, Option.isNone_some,
      Bool.false_eq_true, if_false]
    rw [if_neg (by decide), if_neg (by decide)]
    exact ⟨rfl, rfl⟩

def nextKey : Key := ⟨List.replicate keyBytes 8, by decide⟩

def installNext (peer : UInt32) : Call := .keystoreSet peer 4 (.mem nextKey.val) ⟨true, true⟩

theorem linkStore_slots (id peer : UInt16) (e : Epoch) :
    (linkStore id peer).slots (peer, e) = if e = ⟨3, by decide⟩ then some linkKey else none := by
  simp [linkStore, KeyStore.ofLinks, KeyStore.install, StoredKey.new, KeyStore.slots, maxEntries,
    Table.lookup_insert]

def nextStore (id peer : UInt16) : KeyStore :=
    ((linkStore id peer).install peer ⟨4, by decide⟩ nextKey ⟨true, true⟩).2

theorem installNext_ok {L : Libsodium} {g : Fleet Bool} {v : Bool} (id peer : UInt16)
    (hst : (g.sessions v).store = some (linkStore id peer))
    (hok : ((linkStore id peer).install peer ⟨4, by decide⟩ nextKey ⟨true, true⟩).1 = .ok ()) :
    (step L g (v, installNext peer.toUInt32)).1 = .code (.rc rcOk) ∧
      ((step L g (v, installNext peer.toUInt32)).2.sessions v).store = some (nextStore id peer) := by
  have ha : SlotArgs peer.toUInt32 4 (peer, ⟨4, by decide⟩) := ⟨UInt16.toNat_toUInt32 peer, rfl⟩
  have hst : (g.session v).store = some (linkStore id peer) := hst
  have hsess : (step L g (v, installNext peer.toUInt32)).2.sessions v =
      (lunetPaxeKeystoreSet (g.session v) peer.toUInt32 4 (.mem nextKey.val) ⟨true, true⟩).2 :=
        Function.update_self _ _ _
  rw [hsess]
  have hd := keystoreSet_did (g.session v) peer.toUInt32 4 (.mem nextKey.val) ⟨true, true⟩
  show Ret.code (lunetPaxeKeystoreSet (g.session v) peer.toUInt32 4 (.mem nextKey.val) ⟨true, true⟩).1 = _ ∧ _
  generalize lunetPaxeKeystoreSet (g.session v) peer.toUInt32 4 (.mem nextKey.val) ⟨true, true⟩ = r at hd ⊢
  cases hd with
  | refused m hno => exact absurd ⟨ha, rfl⟩ (hno _ nextKey)
  | unconfigured m hnone =>
    rw [hst] at hnone
    cases hnone
  | @failed store slot k e m ha' hk hs he =>
    obtain rfl : linkStore id peer = store := Option.some.inj (hst.symm.trans hs)
    obtain rfl : slot = (peer, ⟨4, by decide⟩) := ha'.unique ha
    obtain rfl : nextKey = k := Subtype.ext (InBuf.mem.inj hk)
    rw [hok] at he
    cases he
  | @installed store slot k ha' hk hs hi =>
    obtain rfl : linkStore id peer = store := Option.some.inj (hst.symm.trans hs)
    obtain rfl : slot = (peer, ⟨4, by decide⟩) := ha'.unique ha
    obtain rfl : nextKey = k := Subtype.ext (InBuf.mem.inj hk)
    exact ⟨rfl, rfl⟩

theorem three_le : (3 : UInt8) ≤ maxEpoch := by decide

section
variable (L : Libsodium) (frame : Bytes)

/-- The sender moves first, and what it seals is opened before and after the
receiver's install. -/
def senderFirst : List (Bool × Call) :=
  [(true, installNext 2), (true, .seal sealHi), (false, .open (openIn frame)), (false, installNext 1),
    (false, .open (openIn frame))]

def senderFirstRotation : Rotation L linked (senderFirst frame) where
  proc := id
  id s := bif s then 1 else 2
  old := ⟨3, three_le⟩
  new := ⟨4, by decide⟩
  oldKey := linkKey
  newKey := nextKey
  install s := bif s then 0 else 3
  retire _ := 5
  newer := by decide
  later s := by cases s <;> decide
  start s := by
    cases s with
    | false => exact ⟨linkStore 2 1, rfl, rfl, linkStore_slots 2 1⟩
    | true => exact ⟨linkStore 1 2, rfl, rfl, linkStore_slots 1 2⟩
  installs s x hx := by
    cases s with
    | false =>
      cases hx
      refine ⟨_, _, _, rfl, ⟨rfl, rfl⟩, (installNext_ok 2 1 ?_ (by decide +kernel)).1⟩
      have h := open_store L ((Mealy.run (step L) linked ((senderFirst frame).take 2)).session false) (openIn frame)
      exact h
    | true =>
      cases hx
      exact ⟨_, _, _, rfl, ⟨rfl, rfl⟩, (installNext_ok 1 2 rfl (by decide +kernel)).1⟩
  retires s x hx := by cases hx
  spares s n c hc hi hr := by
    rcases n with _ | _ | _ | _ | _ | n <;> cases hc
    · exact absurd rfl hi
    · exact trivial
    · exact trivial
    · exact absurd rfl hi
    · exact trivial

end

theorem rotation_crossing_linked :
    let L := aesGcm counterBytes
    ∃ frame,
      (step L (Mealy.run (step L) linked ((senderFirst frame).take 2)) (false, .open (openIn frame))).1 =
          .opened (.rc rcDrop) (openIn frame).mem ∧
        (step L (Mealy.run (step L) linked ((senderFirst frame).take 4)) (false, .open (openIn frame))).1 =
          .opened (.rc rcOk) ⟨.mem [104, 105], some 2, some 1, some 100, some (modeCode .standard)⟩ := by
  intro L
  have hL : L.Correct := aesGcm_correct counterBytes
  clear_value L
  let s := (Mealy.run (step L) linked [(true, installNext 2)]).session true
  have hst : s.store = some (nextStore 1 2) := (installNext_ok 1 2 rfl (by decide +kernel)).2
  have hcur : (nextStore 1 2).keyForSendCurrent 2 = some (⟨4, by decide⟩, ⟨nextKey⟩) := by decide +kernel
  let frame := Standard.frame L nextKey ⟨1, 2, 100⟩ ⟨4, by decide⟩ (randomNonce L s.trace).1 [104, 105]
  have hseals : Seals L s sealHi ⟨1, 2, 100, ⟨4, by decide⟩, .standard, [104, 105], frame⟩ :=
    sealHi_seals hL.toContract hst hcur
  let R := senderFirstRotation L frame
  refine ⟨frame, ?_, ?_⟩
  · have h := rotation_crossing hL R (s := true) (m := 1) (n := 2) rfl hseals rfl rfl ⟨rfl, rfl, rfl⟩
        (Nat.le_refl 2)
    have hlost : ¬ (1 < R.install true ∧ 2 < R.retire (!true) ∨ R.install true < 1 ∧ R.install (!true) < 2) := by
      rintro (⟨h, -⟩ | ⟨-, h⟩)
      · exact absurd h (show ¬ 1 < 0 by decide)
      · exact absurd h (show ¬ 3 < 2 by decide)
    rw [if_neg hlost] at h
    exact h.1
  · have h := rotation_crossing hL R (s := true) (m := 1) (n := 4) rfl hseals rfl rfl ⟨rfl, rfl, rfl⟩
        (Nat.le_refl 2)
    rw [if_pos (Or.inr ⟨Nat.zero_lt_one, Nat.lt_succ_self 3⟩)] at h
    exact h

end Fleet

end Paxe

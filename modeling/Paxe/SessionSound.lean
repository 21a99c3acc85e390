import Paxe.AesGcm
import Paxe.FfiSound
import Paxe.Lib.Mealy

/-!
# The session as a state machine

Behind the exports there is one thing: no configuration, or a node id with the
keys of its links. Each call is one step of that machine, whatever the library
and the allocator answer, so what a sealed frame says about its sender follows
from the history of the calls.
-/

namespace Paxe
open Wire

/-! ## The machine -/

structure Config where
  id : UInt16
  keys : Slot → Option Key

def Session.abs (s : Session) : Option Config := s.store.map fun st => ⟨st.localId, st.slots⟩

def Ret.exit : Ret → Option Exit
  | .code x => some x
  | .sealed x _ => some x
  | .opened x _ => some x
  | _ => none

def Ret.Refusal (r : Ret) : Prop := r.exit = some (.rc rcErr) ∨ r.exit = some (.rc rcInval)

def Call.Observes : Call → Prop
  | .init _ | .seal _ | .open _ | .frameForUs _ | .stats _ | .failPolicySet _ => True
  | _ => False

def Call.Admissible (a : Option Config) : Call → Prop
  | .setLocalId v rc => a = none ∧ v.toNat < 65536 ∧ (rc = 0 ∨ rc = 1)
  | .keystoreSet p e key heap => ∃ c slot, ∃ k : Key, a = some c ∧ SlotArgs p e slot ∧ key = .mem k.val ∧
      (heap.malloc ∧ heap.mlock) ∧ ((c.keys slot).isSome ∨ {s | (c.keys s).isSome}.ncard < maxEntries)
  | .keystoreRetire p e => a.isSome ∧ ∃ slot, SlotArgs p e slot
  | _ => True

inductive Config.Step : Option Config → Call → Ret → Option Config → Prop
  | configure {v : UInt32} {rc : Int} {id : UInt16} : v.toNat = id.toNat →
      Step none (.setLocalId v rc) (.code (.rc rcOk)) (some ⟨id, fun _ => none⟩)
  | install {p e : UInt32} {slot : Slot} (c : Config) (k : Key) (heap : Heap) : SlotArgs p e slot →
      Step (some c) (.keystoreSet p e (.mem k.val) heap) (.code (.rc rcOk))
        (some { c with keys := Function.update c.keys slot (some k) })
  | retire {p e : UInt32} {slot : Slot} (c : Config) : SlotArgs p e slot →
      Step (some c) (.keystoreRetire p e) (.code (.rc (if (c.keys slot).isSome then rcOk else rcOkAbsent)))
        (some { c with keys := Function.update c.keys slot none })
  | clear (a : Option Config) :
      Step a .keystoreClear (.code (.rc rcOk)) (a.map fun c => { c with keys := fun _ => none })
  | shutdown (a : Option Config) : Step a .shutdown .void none
  | refused {c : Call} {r : Ret} (a : Option Config) : ¬ c.Admissible a → r.Refusal → Step a c r a
  | observed {c : Call} {r : Ret} (a : Option Config) : c.Observes → Step a c r a

theorem Config.Step.refusal {a a' : Option Config} {c : Call} {r : Ret} (h : Config.Step a c r a')
    (hr : r.Refusal) : a' = a := by
  cases h with
  | configure _ => rcases hr with h | h <;> cases h
  | install _ _ _ _ => rcases hr with h | h <;> cases h
  | retire c _ =>
    exfalso
    rcases hr with h | h <;> simp only [Ret.exit] at h <;> split at h <;> cases h
  | clear _ => rcases hr with h | h <;> cases h
  | shutdown _ => rcases hr with h | h <;> cases h
  | refused _ _ _ => rfl
  | observed _ _ => rfl

/-! ## The exports are steps -/

section
variable (L : Libsodium) (s : Session)

theorem abs_of_store {s s' : Session} (h : s'.store = s.store) : s'.abs = s.abs := by
  rw [Session.abs, Session.abs, h]

theorem open_store (a : OpenCall) : (lunetPaxeOpen L s a).2.2.store = s.store := by
  have hd := open_did L s a
  generalize lunetPaxeOpen L s a = r at hd
  cases hd <;> rfl

theorem seal_store (a : SealCall) : (lunetPaxeSeal L s a).2.2.store = s.store := by
  have hd := seal_did L s a
  generalize lunetPaxeSeal L s a = r at hd
  cases hd <;> rfl

theorem gate_store (b : InBuf) : (lunetPaxeFrameForUs s b).2.store = s.store := by
  have hd := gate_did s b
  generalize lunetPaxeFrameForUs s b = r at hd
  cases hd <;> rfl

theorem setLocalId_step (v : UInt32) (rc : Int) :
    Config.Step s.abs (.setLocalId v rc) (s.step L (.setLocalId v rc)).1 (s.step L (.setLocalId v rc)).2.abs := by
  have hd := setLocalId_did s v rc
  simp only [Session.step]
  generalize lunetPaxeSetLocalId s v rc = r at hd
  cases hd with
  | refused m hno =>
    refine .refused _ (fun ⟨ha, hv, _⟩ => ?_) (Or.inr rfl)
    rcases hno with hno | hno
    · omega
    · rw [Session.abs, Option.map_eq_none_iff] at ha
      rw [ha] at hno
      cases hno
  | failed m hnew =>
    refine .refused _ (fun ⟨_, _, hrc⟩ => ?_) (Or.inl rfl)
    rcases hrc with rfl | rfl <;> cases hnew
  | configured hid hs hnew =>
    obtain ⟨hl, hk⟩ := slots_new hnew
    rw [show s.abs = none by rw [Session.abs, hs]; rfl]
    have := @Config.Step.configure v rc _ hid
    simpa only [Session.abs, Option.map_some, hl, hk] using this

theorem keystoreSet_step (p e : UInt32) (key : InBuf) (heap : Heap) :
    Config.Step s.abs (.keystoreSet p e key heap) (s.step L (.keystoreSet p e key heap)).1
      (s.step L (.keystoreSet p e key heap)).2.abs := by
  have hd := keystoreSet_did s p e key heap
  simp only [Session.step]
  generalize lunetPaxeKeystoreSet s p e key heap = r at hd
  cases hd with
  | refused m hno => exact .refused _ (fun ⟨_, slot, k, _, ha, hk, _⟩ => hno slot k ⟨ha, hk⟩) (Or.inr rfl)
  | unconfigured m hs =>
    refine .refused _ (fun ⟨c, _, _, ha, _⟩ => ?_) (Or.inl rfl)
    rw [Session.abs, hs] at ha
    cases ha
  | @failed store slot k err m hargs hkey hs hi =>
    refine .refused _ ?_ (Or.inl rfl)
    intro hx
    obtain ⟨c, slot', k', ha, hargs', hkey', hheap, hroom⟩ := hx
    rw [Session.abs, hs] at ha
    obtain rfl := Option.some.inj ha
    obtain rfl := hargs.unique hargs'
    have hok := (install_ok_iff store (k := k)).mpr ⟨hheap, hroom.imp_right (slots_card store ▸ ·)⟩
    rw [hi] at hok
    cases hok
  | @installed store slot k hargs hkey hs hi =>
    subst hkey
    rw [show s.abs = some ⟨store.localId, store.slots⟩ by rw [Session.abs, hs]; rfl]
    have := Config.Step.install ⟨store.localId, store.slots⟩ k heap hargs
    simpa only [Session.abs, Option.map_some, install_localId, install_slots store hi] using this

theorem keystoreRetire_step (p e : UInt32) :
    Config.Step s.abs (.keystoreRetire p e) (s.step L (.keystoreRetire p e)).1
      (s.step L (.keystoreRetire p e)).2.abs := by
  have hd := keystoreRetire_did s p e
  simp only [Session.step]
  generalize lunetPaxeKeystoreRetire s p e = r at hd
  cases hd with
  | refused m hno => exact .refused _ (fun ⟨_, slot, ha⟩ => hno slot ha) (Or.inr rfl)
  | unconfigured m hs =>
    refine .refused _ (fun ⟨ha, _⟩ => ?_) (Or.inl rfl)
    rw [Session.abs, hs] at ha
    cases ha
  | @retired store slot hargs hs =>
    rw [show s.abs = some ⟨store.localId, store.slots⟩ by rw [Session.abs, hs]; rfl]
    have := Config.Step.retire ⟨store.localId, store.slots⟩ hargs
    simpa only [Session.abs, Option.map_some, retire_localId, retire_slots] using this

theorem step_refines (c : Call) : Config.Step s.abs c (s.step L c).1 (s.step L c).2.abs := by
  have keep {c : Call} {r : Ret} {s' : Session} (hc : c.Observes) (hs : s'.store = s.store) :
      Config.Step s.abs c r s'.abs := abs_of_store hs ▸ .observed _ hc
  cases c with
  | init env => exact keep trivial (init_did s env).1
  | setLocalId v rc => exact setLocalId_step L s v rc
  | shutdown => exact .shutdown _
  | keystoreSet p e key heap => exact keystoreSet_step L s p e key heap
  | keystoreRetire p e => exact keystoreRetire_step L s p e
  | keystoreClear =>
    have := Config.Step.clear s.abs
    simp only [Session.step, lunetPaxeKeystoreClear]
    cases hs : s.store with
    | none => simpa [Session.abs, hs] using this
    | some store => simpa [Session.abs, hs, clear_slots] using this
  | «seal» a => exact keep trivial (seal_store L s a)
  | «open» a => exact keep trivial (open_store L s a)
  | frameForUs b => exact keep trivial (gate_store s b)
  | stats out => exact keep trivial rfl
  | failPolicySet name => exact keep trivial (failPolicySet_did s name).1

end

/-! ## History -/

def Configures (id : UInt16) (x : Call × Ret) : Prop :=
  ∃ v rc, x = (.setLocalId v rc, .code (.rc rcOk)) ∧ v.toNat = id.toNat

def Installs (slot : Slot) (x : Call × Ret) : Prop :=
  ∃ p e key heap, x = (.keystoreSet p e key heap, .code (.rc rcOk)) ∧ SlotArgs p e slot

def Empties (slot : Slot) (x : Call × Ret) : Prop :=
  (∃ p e, x.1 = .keystoreRetire p e ∧ SlotArgs p e slot) ∨ x.1 = .keystoreClear ∨ x.1 = .shutdown

/-- The id of the last successful `set_local_id`, with no shutdown after it. -/
def LastId (log : List (Call × Ret)) (id : UInt16) : Prop :=
  Mealy.Since (Configures id) (fun x => x.1 = .shutdown ∨ ∃ id', Configures id' x) log

/-- A key was installed under the slot and nothing emptied it afterwards. -/
def Installed (log : List (Call × Ret)) (slot : Slot) : Prop := Mealy.Since (Installs slot) (Empties slot) log

def HasId (a : Option Config) (id : UInt16) : Prop := ∃ c, a = some c ∧ c.id = id

def HasKey (a : Option Config) (slot : Slot) : Prop := ∃ c, a = some c ∧ (c.keys slot).isSome

theorem not_hasId_none (id : UInt16) : ¬ HasId none id := nofun

theorem not_hasKey_none (slot : Slot) : ¬ HasKey none slot := nofun

@[simp] theorem hasId_some {c : Config} {id : UInt16} : HasId (some c) id ↔ c.id = id := by
  simp [HasId]

@[simp] theorem hasKey_some {c : Config} {slot : Slot} : HasKey (some c) slot ↔ (c.keys slot).isSome := by
  simp [HasKey]

theorem not_configures {id : UInt16} {c : Call} {r : Ret} (h : ∀ v rc, c ≠ .setLocalId v rc) :
    ¬ Configures id (c, r) := by
  intro hx
  obtain ⟨v, rc, hx, -⟩ := hx
  exact h v rc (Prod.mk.inj hx).1

theorem not_installs {slot : Slot} {c : Call} {r : Ret} (h : ∀ p e k heap, c ≠ .keystoreSet p e k heap) :
    ¬ Installs slot (c, r) := by
  intro hx
  obtain ⟨p, e, k, heap, hx, -⟩ := hx
  exact h p e k heap (Prod.mk.inj hx).1

theorem refusal_ne_ok {r : Ret} (h : r.Refusal) : r ≠ .code (.rc rcOk) := by
  rintro rfl
  rcases h with h | h <;> cases h

theorem Config.Step.hasId {a a' : Option Config} {c : Call} {r : Ret} (h : Config.Step a c r a') (id : UInt16) :
    HasId a' id ↔ Configures id (c, r) ∨ (HasId a id ∧ ¬ (c = .shutdown ∨ ∃ id', Configures id' (c, r))) := by
  cases h with
  | @configure v rc i hi =>
    have hall : ∃ id', Configures id' (.setLocalId v rc, .code (.rc rcOk)) := ⟨i, v, rc, rfl, hi⟩
    simp only [hasId_some, hall, or_true, not_true, and_false, or_false]
    constructor
    · rintro rfl
      exact ⟨v, rc, rfl, hi⟩
    · intro hx
      obtain ⟨v', rc', hx, hv⟩ := hx
      cases hx
      exact UInt16.toNat_inj.mp (hi.symm.trans hv)
  | install c k heap _ => simp [not_configures]
  | retire c _ => simp [not_configures]
  | clear a => cases a <;> simp [not_configures, not_hasId_none]
  | shutdown a => simp [not_configures, not_hasId_none]
  | refused _ hadm hr =>
    have hne : c ≠ .shutdown := fun hc => hadm (hc ▸ trivial)
    have hnc : ∀ id', ¬ Configures id' (c, r) := fun id' ⟨_, _, hx, _⟩ => refusal_ne_ok hr (Prod.mk.inj hx).2
    simp [hne, hnc]
  | observed _ hc =>
    have hne : c ≠ .shutdown := fun h => by subst h; exact hc
    have hnc : ∀ id', ¬ Configures id' (c, r) := fun id' => not_configures fun v rc h => by subst h; exact hc
    simp [hne, hnc]

theorem Config.Step.hasKey {a a' : Option Config} {c : Call} {r : Ret} (h : Config.Step a c r a') (slot : Slot) :
    HasKey a' slot ↔ Installs slot (c, r) ∨ (HasKey a slot ∧ ¬ Empties slot (c, r)) := by
  cases h with
  | configure _ => simp [not_installs, not_hasKey_none]
  | @install p e s c k heap hargs =>
    have hne : ¬ Empties slot (.keystoreSet p e (.mem k.val) heap, .code (.rc rcOk)) := by simp [Empties]
    simp only [hasKey_some, hne, not_false_eq_true, and_true]
    by_cases hs : slot = s
    · subst hs
      have hi : Installs slot (.keystoreSet p e (.mem k.val) heap, .code (.rc rcOk)) := ⟨_, _, _, _, rfl, hargs⟩
      simp [hi]
    · have hi : ¬ Installs slot (.keystoreSet p e (.mem k.val) heap, .code (.rc rcOk)) := by
        intro hx
        obtain ⟨p', e', _, _, hx, ha⟩ := hx
        cases hx
        exact hs (ha.unique hargs)
      simp [hi, Function.update_of_ne hs]
  | @retire p e s c hargs =>
    have he : ∀ r, Empties slot (.keystoreRetire p e, r) ↔ slot = s := by
      intro r
      constructor
      · rintro (⟨_, _, hx, ha⟩ | hx | hx) <;> cases hx
        exact ha.unique hargs
      · rintro rfl
        exact Or.inl ⟨p, e, rfl, hargs⟩
    simp only [hasKey_some, he]
    by_cases hs : slot = s
    · simp [hs, not_installs]
    · simp [hs, not_installs]
  | clear a =>
    have he : ∀ r, Empties slot (.keystoreClear, r) := fun _ => Or.inr (Or.inl rfl)
    cases a <;> simp [he, not_installs, not_hasKey_none]
  | shutdown a =>
    have he : ∀ r, Empties slot (.shutdown, r) := fun _ => Or.inr (Or.inr rfl)
    simp [he, not_installs, not_hasKey_none]
  | refused _ hadm hr =>
    have hni : ¬ Installs slot (c, r) := fun ⟨_, _, _, _, hx, _⟩ => refusal_ne_ok hr (Prod.mk.inj hx).2
    simp only [hni, false_or, iff_self_and]
    rintro ⟨cfg, rfl, -⟩ (⟨p, e, hx, ha⟩ | hx | hx)
    · obtain rfl : c = _ := hx
      exact hadm ⟨rfl, slot, ha⟩
    · obtain rfl : c = _ := hx
      exact hadm trivial
    · obtain rfl : c = _ := hx
      exact hadm trivial
  | observed _ hc =>
    have hni : ¬ Installs slot (c, r) := not_installs fun _ _ _ _ h => by subst h; exact hc
    have hne : ¬ Empties slot (c, r) := by
      rintro (⟨_, _, hx, -⟩ | hx | hx) <;> (obtain rfl : c = _ := hx; exact hc)
    simp [hni, hne]

theorem run_history (L : Libsodium) (calls : List Call) :
    let log := Mealy.log (Session.step L) Session.start calls
    let s := Mealy.run (Session.step L) Session.start calls
    (∀ id, HasId s.abs id ↔ LastId log id) ∧ ∀ slot, HasKey s.abs slot ↔ Installed log slot := by
  refine Mealy.log_inv (Session.step L)
    (I := fun h s => (∀ id, HasId s.abs id ↔ LastId h id) ∧ ∀ slot, HasKey s.abs slot ↔ Installed h slot)
    ?_ ?_ calls
  · exact ⟨fun id => iff_of_false (not_hasId_none id) (Mealy.not_since_nil _ _),
      fun slot => iff_of_false (not_hasKey_none slot) (Mealy.not_since_nil _ _)⟩
  · rintro h s c ⟨hid, hkey⟩
    have hstep := step_refines L s c
    refine ⟨fun id => ?_, fun slot => ?_⟩
    · rw [LastId, Mealy.since_snoc, hstep.hasId, hid, LastId]
    · rw [Installed, Mealy.since_snoc, hstep.hasKey, hkey, Installed]

/-! ## Sealed frames -/

theorem checkChannel_ok {v w : UInt32} (h : checkChannel v = .ok w) : ¬ (1 ≤ v ∧ v ≤ 99) := by
  unfold checkChannel at h
  split at h
  · cases h
  · assumption

/-- The caller's buffer holds, up to the reported length, this frame. -/
def SealOut.Holds (m : SealOut) (frame : Bytes) : Prop :=
  ∃ buf n, m = ⟨.mem buf, some n⟩ ∧ buf.take n = frame

theorem write_holds {b : OutBuf} {out frame : Bytes} (ho : bufOut b "frame output" = .ok out)
    (hl : frame.length ≤ out.length) (hne : frame.length ≠ 0) :
    SealOut.Holds ⟨b.write frame, some frame.length⟩ frame := by
  cases b with
  | null cap =>
    simp only [bufOut] at ho
    split at ho
    · cases ho
      exact absurd (Nat.le_zero.mp hl) hne
    · cases ho
  | mem bytes =>
    cases ho
    exact ⟨_, _, rfl, by rw [overwrite_eq hl, List.take_left]⟩

theorem seal_frame (L : Libsodium) (s : Session) (a : SealCall) (h : (lunetPaxeSeal L s a).1 = .rc rcOk) :
    ∃ frame h f, (lunetPaxeSeal L s a).2.1.Holds frame ∧ parsePrefix frame = .ok (h, f) ∧ f.mode = .standard ∧
      HasId s.abs h.fromId ∧ a.toId.toNat = h.toId.toNat ∧ h.channel = a.channel ∧
      ¬ (1 ≤ h.channel ∧ h.channel ≤ 99) ∧ HasKey s.abs (h.toId, f.epoch) ∧
      ∀ e, HasKey s.abs (h.toId, e) → e.bits ≤ f.epoch.bits := by
  have hd := seal_did L s a
  generalize lunetPaxeSeal L s a = r at hd h
  cases hd with
  | refused m => cases h
  | failed m => cases h
  | oversize m => cases h
  | unsealed t m => cases h
  | short t m => cases h
  | @sealed store toId e k frame out t hto hch ho hs hk hl hp =>
    have habs : s.abs = some ⟨store.localId, store.slots⟩ := by rw [Session.abs, hs]; rfl
    obtain ⟨hkey, hmax⟩ := keyForSendCurrent_spec store hk
    have hne : frame.length ≠ 0 := by
      intro h0
      rw [List.length_eq_zero_iff.mp h0] at hp
      cases hp
    refine ⟨frame, _, _, write_holds ho hl hne, hp, rfl, ?_, checkU16_ok hto, rfl, checkChannel_ok hch, ?_, ?_⟩
    · rw [habs, hasId_some]
    · rw [habs, hasKey_some]
      exact Option.isSome_map.trans (Option.isSome_of_eq_some hkey)
    · intro e' he'
      rw [habs, hasKey_some] at he'
      exact hmax e' he'

/-- A session is the machine of its configuration over every run, and the
frames it seals carry the id last configured and the highest epoch installed
for the destination and not emptied since. -/
theorem session_refines (L : Libsodium) (calls : List Call) :
    let log := Mealy.log (Session.step L) Session.start calls
    let s := Mealy.run (Session.step L) Session.start calls
    (∀ c, Config.Step s.abs c (s.step L c).1 (s.step L c).2.abs) ∧
    (∀ c, (s.step L c).1.Refusal → (s.step L c).2.abs = s.abs) ∧
    (∀ cfg, s.abs = some cfg → {slot | (cfg.keys slot).isSome}.ncard ≤ maxEntries) ∧
    ∀ a, (lunetPaxeSeal L s a).1 = .rc rcOk →
      ∃ frame h f, (lunetPaxeSeal L s a).2.1.Holds frame ∧ parsePrefix frame = .ok (h, f) ∧ f.mode = .standard ∧
        LastId log h.fromId ∧ a.toId.toNat = h.toId.toNat ∧ h.channel = a.channel ∧
        ¬ (1 ≤ h.channel ∧ h.channel ≤ 99) ∧ Installed log (h.toId, f.epoch) ∧
        ∀ e, Installed log (h.toId, e) → e.bits ≤ f.epoch.bits := by
  intro log s
  obtain ⟨hid, hkey⟩ := run_history L calls
  refine ⟨step_refines L s, fun c => (step_refines L s c).refusal, fun cfg hcfg => ?_, fun a ha => ?_⟩
  · obtain ⟨store, -, rfl⟩ := Option.map_eq_some_iff.mp hcfg
    exact slots_card store ▸ store.len_le
  · obtain ⟨frame, h, f, hm, hp, hmode, hfrom, hto, hch, hres, hk, hmax⟩ := seal_frame L s a ha
    exact ⟨frame, h, f, hm, hp, hmode, (hid _).mp hfrom, hto, hch, hres, (hkey _).mp hk,
      fun e he => hmax e ((hkey _).mpr he)⟩

theorem session_refines_retired :
    let L := aesGcm counterBytes
    let key : Key := ⟨List.replicate 32 7, rfl⟩
    let calls : List Call := [.setLocalId 2 0, .keystoreSet 9 3 (.mem key.val) ⟨true, true⟩,
      .keystoreSet 9 5 (.mem key.val) ⟨true, true⟩, .keystoreRetire 9 5]
    let a : SealCall := ⟨.mem [1, 2, 3], 9, 100, ⟨.mem (List.replicate 40 0), some 0⟩⟩
    (lunetPaxeSeal L (Mealy.run (Session.step L) Session.start calls) a).1 = .rc rcOk ∧
      ∃ (h : Header) (f : Flags), LastId (Mealy.log (Session.step L) Session.start calls) h.fromId ∧
        a.toId.toNat = h.toId.toNat ∧
        Installed (Mealy.log (Session.step L) Session.start calls) (h.toId, f.epoch) := by
  intro L key calls a
  have hok : (lunetPaxeSeal L (Mealy.run (Session.step L) Session.start calls) a).1 = .rc rcOk := by decide +kernel
  obtain ⟨frame, h, f, -, -, -, hid, hto, -, -, hi, -⟩ := (session_refines L calls).2.2.2 a hok
  exact ⟨hok, h, f, hid, hto, hi⟩

end Paxe

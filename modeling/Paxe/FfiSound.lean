import Paxe.Ffi
import Paxe.OpenSound
import Paxe.Sealing

/-!
# What the exports can do

One inductive per export lists its outcomes with the session each leaves; the
results about whole sessions go through these and never unfold an export.
-/

namespace Paxe
open Wire

/-! ## Arguments -/

theorem checkU16_ok {v : UInt32} {what : String} {id : UInt16} (h : checkU16 v what = .ok id) :
    v.toNat = id.toNat := by
  unfold checkU16 at h
  split at h
  · rename_i hv
    cases h
    rw [UInt32.toNat_toUInt16, Nat.mod_eq_of_lt hv]
  · cases h

theorem checkU16_error {v : UInt32} {what m : String} (h : checkU16 v what = .error m) : 65536 ≤ v.toNat := by
  unfold checkU16 at h
  split at h
  · cases h
  · exact Nat.not_lt.mp ‹_›

theorem checkU16_ne_error {v : UInt32} {what m : String} {id : UInt16} (h : v.toNat = id.toNat) :
    checkU16 v what ≠ .error m := by
  intro he
  have := checkU16_error he
  have := id.toNat_lt
  omega

theorem checkEpoch_ok {v : UInt32} {e : Epoch} (h : checkEpoch v = .ok e) : v.toNat = e.bits.toNat := by
  unfold checkEpoch Epoch.new at h
  split at h
  · rename_i hv
    split at h
    · rename_i he
      split at he
      · cases he
      · cases h
        cases he
        rw [UInt32.toNat_toUInt8, Nat.mod_eq_of_lt hv]
    · cases h
  · cases h

theorem checkEpoch_ne_error {v : UInt32} {m : String} {e : Epoch} (h : v.toNat = e.bits.toNat) :
    checkEpoch v ≠ .error m := by
  have hlt : v.toNat < 256 := h ▸ e.bits.toNat_lt
  have hbits : v.toUInt8 = e.bits := by
    apply UInt8.toNat_inj.mp
    rw [UInt32.toNat_toUInt8, h, Nat.mod_eq_of_lt e.bits.toNat_lt]
  have hle : ¬ e.bits > maxEpoch := UInt8.not_lt.mpr e.bits_le
  unfold checkEpoch Epoch.new
  rw [if_pos hlt, hbits, dif_neg hle]
  nofun

theorem bufIn_mem {b : InBuf} {what : String} {bytes : Bytes} (h : bufIn b what = .ok bytes)
    (hl : bytes.length ≠ 0) : b = .mem bytes := by
  unfold bufIn at h
  split at h
  · cases h; rfl
  · split at h
    · cases h; exact absurd rfl hl
    · cases h

/-! ## Open -/

/-- The arguments pass the checks at the boundary, as these slices. -/
structure OpenCall.Valid (a : OpenCall) (frame out : Bytes) : Prop where
  frame_eq : bufIn a.frame "frame" = .ok frame
  out_eq : bufOut a.mem.out "payload output" = .ok out
  pointers : (a.mem.outLen.isNone || a.mem.fromId.isNone || a.mem.channel.isNone || a.mem.mode.isNone) = false

inductive OpenDid (L : Libsodium) (s : Session) (a : OpenCall) : Exit × OpenOut × Session → Prop
  | refused (m : String) : (∀ frame out, ¬ a.Valid frame out) →
      OpenDid L s a (.rc rcInval, a.mem, s.setLastError m)
  | unconfigured : s.store = none → OpenDid L s a (.rc rcDrop, a.mem, s)
  | short {store : KeyStore} {frame out : Bytes} {h : Header} {f : Flags} {p : Bytes} {d : Diag} {t : Trace}
      (m : String) : s.store = some store → a.Valid frame out →
      Dek.open L store frame s.diag s.trace = ⟨.ok (h, f, p), d, t⟩ → out.length < p.length →
      OpenDid L s a (.rc rcInval, a.mem, { s with diag := d, trace := t }.setLastError m)
  | accepted {store : KeyStore} {frame out : Bytes} {h : Header} {f : Flags} {p : Bytes} {d : Diag} {t : Trace} :
      s.store = some store → a.Valid frame out →
      Dek.open L store frame s.diag s.trace = ⟨.ok (h, f, p), d, t⟩ → p.length ≤ out.length →
      OpenDid L s a (.rc rcOk, ⟨a.mem.out.write p, some p.length, some h.fromId.toUInt32, some h.channel,
        some (modeCode f.mode)⟩, { s with diag := d.recordRxOk, trace := t })
  | broken {store : KeyStore} {frame out : Bytes} {e : SodiumError} {d : Diag} {t : Trace} : s.store = some store →
      a.Valid frame out → Dek.open L store frame s.diag s.trace = ⟨.err (.sodium e), d, t⟩ →
      OpenDid L s a (.rc rcDrop, a.mem, { s with diag := d, trace := t })
  | dropped {store : KeyStore} {frame out : Bytes} {e : Dek.OpenError} {d : Diag} {t : Trace} :
      s.store = some store → a.Valid frame out → Dek.open L store frame s.diag s.trace = ⟨.err e, d, t⟩ →
      (∀ x, e ≠ .sodium x) → OpenDid L s a (.rc rcDrop, a.mem, { s with diag := d.recordRxDrop, trace := t })

theorem open_did (L : Libsodium) (s : Session) (a : OpenCall) : OpenDid L s a (lunetPaxeOpen L s a) := by
  unfold lunetPaxeOpen
  cases hf : bufIn a.frame "frame" with
  | error m => exact .refused m fun _ _ v => by rw [v.frame_eq] at hf; cases hf
  | ok frame =>
    dsimp only
    split
    · rename_i hp
      exact .refused _ fun _ _ v => by rw [v.pointers] at hp; cases hp
    · rename_i hp
      cases ho : bufOut a.mem.out "payload output" with
      | error m => exact .refused m fun _ _ v => by rw [v.out_eq] at ho; cases ho
      | ok out =>
        have hv : a.Valid frame out := ⟨hf, ho, Bool.eq_false_iff.mpr hp⟩
        obtain ⟨st, err, d₀, hook, warned, t₀⟩ := s
        cases st with
        | none => exact .unconfigured rfl
        | some store =>
          rcases hr : Dek.open L store frame d₀ t₀ with ⟨result, d, t⟩
          have hany := open_any L store frame d₀ t₀
          rw [hr] at hany
          have hst : Session.store ⟨some store, err, d₀, hook, warned, t₀⟩ = some store := rfl
          simp only [hr]
          rcases hany with ⟨h, f, p, rfl, -⟩ | ⟨e, rfl⟩
          · dsimp only
            split
            · exact .short _ hst hv hr ‹_›
            · exact .accepted hst hv hr (Nat.not_lt.mp ‹_›)
          · cases e with
            | sodium x => exact .broken hst hv hr
            | badPrefix x => exact .dropped hst hv hr nofun
            | tooShort x => exact .dropped hst hv hr nofun
            | lengthMismatch => exact .dropped hst hv hr nofun
            | noKey => exact .dropped hst hv hr nofun
            | authFailed => exact .dropped hst hv hr nofun
            | wrongDestination => exact .dropped hst hv hr nofun
            | standardRejected => exact .dropped hst hv hr nofun

/-! ## Seal -/

inductive SealDid (L : Libsodium) (s : Session) (a : SealCall) : Exit × SealOut × Session → Prop
  | refused (m : String) : SealDid L s a (.rc rcInval, a.mem, s.setLastError m)
  | failed (m : String) : SealDid L s a (.rc rcErr, a.mem, s.setLastError m)
  | oversize (m : String) :
      SealDid L s a (.rc rcErr, a.mem, { s with diag := s.diag.recordTxOversize }.setLastError m)
  | unsealed (t : Trace) (m : String) : SealDid L s a (.rc rcErr, a.mem, { s with trace := t }.setLastError m)
  | short (t : Trace) (m : String) : SealDid L s a (.rc rcInval, a.mem, { s with trace := t }.setLastError m)
  | sealed {store : KeyStore} {toId : UInt16} {e : Epoch} {k : StoredKey} {frame out : Bytes} (t : Trace) :
      checkU16 a.toId "destination node id" = .ok toId → checkChannel a.channel = .ok a.channel →
      bufOut a.mem.out "frame output" = .ok out → s.store = some store →
      store.keyForSendCurrent toId = some (e, k) → frame.length ≤ out.length →
      parsePrefix frame = .ok (⟨store.localId, toId, a.channel⟩, ⟨.standard, e⟩) →
      SealDid L s a (.rc rcOk, ⟨a.mem.out.write frame, some frame.length⟩,
        { s with trace := t, diag := s.diag.recordTxSealed .standard })

theorem seal_did (L : Libsodium) (s : Session) (a : SealCall) : SealDid L s a (lunetPaxeSeal L s a) := by
  unfold lunetPaxeSeal
  cases hto : checkU16 a.toId "destination node id" with
  | error m => exact .refused m
  | ok toId =>
    dsimp only
    cases hch : checkChannel a.channel with
    | error m => exact .refused m
    | ok channel =>
      have hc : channel = a.channel := by
        unfold checkChannel at hch
        split at hch
        · cases hch
        · exact (Except.ok.inj hch).symm
      subst hc
      dsimp only
      cases hp : bufIn a.payload "payload" with
      | error m => exact .refused m
      | ok payload =>
        dsimp only
        split
        · exact .refused _
        · cases ho : bufOut a.mem.out "frame output" with
          | error m => exact .refused m
          | ok out =>
            dsimp only
            split
            · exact .oversize _
            · obtain ⟨st, err, d₀, hook, warned, t₀⟩ := s
              cases st with
              | none => exact .failed _
              | some store =>
                have hst : Session.store ⟨some store, err, d₀, hook, warned, t₀⟩ = some store := rfl
                dsimp only
                cases hk : store.keyForSendCurrent toId with
                | none => exact .failed _
                | some ek =>
                  obtain ⟨e, k⟩ := ek
                  rcases dekSeal_any L store toId a.channel e payload t₀ with ⟨err, hr⟩ | ⟨frame, hr, hf⟩
                  · simp only [hr]
                    exact .unsealed _ _
                  · simp only [hr]
                    split
                    · exact .short _ _
                    · exact .sealed _ hto hch ho hst hk (Nat.not_lt.mp ‹_›) hf

/-! ## The gate -/

inductive GateDid (s : Session) (b : InBuf) : Exit × Session → Prop
  | refused (m : String) : (∀ frame, bufIn b "frame" ≠ .ok frame) → GateDid s b (.rc rcInval, s.setLastError m)
  | unconfigured : s.store = none → GateDid s b (.rc 0, s)
  | pass {store : KeyStore} {frame : Bytes} : s.store = some store → bufIn b "frame" = .ok frame →
      prefixLen ≤ frame.length → gateToId frame = store.localId → GateDid s b (.rc 1, s)
  | drop {store : KeyStore} {frame : Bytes} : s.store = some store → bufIn b "frame" = .ok frame →
      ¬ (prefixLen ≤ frame.length ∧ gateToId frame = store.localId) →
      GateDid s b (.rc 0, { s with diag := s.diag.recordRxDrop.recordReject .plaintext })

theorem gate_did (s : Session) (b : InBuf) : GateDid s b (lunetPaxeFrameForUs s b) := by
  unfold lunetPaxeFrameForUs
  cases hf : bufIn b "frame" with
  | error m => exact .refused m fun _ h => by rw [hf] at h; cases h
  | ok frame =>
    obtain ⟨st, err, d₀, hook, warned, t₀⟩ := s
    cases st with
    | none => exact .unconfigured rfl
    | some store =>
      have hst : Session.store ⟨some store, err, d₀, hook, warned, t₀⟩ = some store := rfl
      dsimp only
      split
      · rename_i h
        exact .pass hst hf h.1 h.2
      · exact .drop hst hf ‹_›

/-! ## Lifecycle and keys -/

theorem suppressCoreDumps_keeps (s : Session) (env : InitEnv) :
    (suppressCoreDumps s env).store = s.store ∧ (suppressCoreDumps s env).diag.stats = s.diag.stats := by
  unfold suppressCoreDumps
  split
  · exact ⟨rfl, rfl⟩
  · split
    · unfold warnCoreDisableFailed
      split <;> exact ⟨rfl, rfl⟩
    · exact ⟨rfl, rfl⟩

theorem init_did (s : Session) (env : InitEnv) :
    (lunetPaxeInit s env).2.store = s.store ∧ (lunetPaxeInit s env).2.diag.stats = s.diag.stats := by
  have hs := suppressCoreDumps_keeps s env
  unfold lunetPaxeInit
  dsimp only
  split
  · exact hs
  · split
    · exact hs
    · split <;> exact hs

theorem failPolicySet_did (s : Session) (name : InBuf) :
    (lunetPaxeFailPolicySet s name).2.store = s.store ∧
      (lunetPaxeFailPolicySet s name).2.diag.stats = s.diag.stats := by
  unfold lunetPaxeFailPolicySet
  split
  · exact ⟨rfl, rfl⟩
  · split
    · exact ⟨rfl, rfl⟩
    · split
      · refine ⟨rfl, ?_⟩
        unfold Diag.setPolicy
        split <;> rfl
      · exact ⟨rfl, rfl⟩

inductive SetLocalIdDid (s : Session) (nodeId : UInt32) (initRc : Int) : Exit × Session → Prop
  | refused (m : String) : 65536 ≤ nodeId.toNat ∨ s.store.isSome →
      SetLocalIdDid s nodeId initRc (.rc rcInval, s.setLastError m)
  | failed {id : UInt16} {e : KeystoreError} (m : String) : KeyStore.new id initRc = .error e →
      SetLocalIdDid s nodeId initRc (.rc rcErr, s.setLastError m)
  | configured {id : UInt16} {store : KeyStore} : nodeId.toNat = id.toNat → s.store = none →
      KeyStore.new id initRc = .ok store → SetLocalIdDid s nodeId initRc (.rc rcOk, { s with store := some store })

theorem setLocalId_did (s : Session) (nodeId : UInt32) (initRc : Int) :
    SetLocalIdDid s nodeId initRc (lunetPaxeSetLocalId s nodeId initRc) := by
  unfold lunetPaxeSetLocalId
  cases hid : checkU16 nodeId "node id" with
  | error m => exact .refused m (Or.inl (checkU16_error hid))
  | ok id =>
    dsimp only
    split
    · exact .refused _ (Or.inr ‹_›)
    · rename_i hs
      cases hn : KeyStore.new id initRc with
      | error e => exact .failed _ hn
      | ok store => exact .configured (checkU16_ok hid) (by simpa using hs) hn

def SlotArgs (peer epoch : UInt32) (s : Slot) : Prop := peer.toNat = s.1.toNat ∧ epoch.toNat = s.2.bits.toNat

theorem SlotArgs.unique {p e : UInt32} {a b : Slot} (ha : SlotArgs p e a) (hb : SlotArgs p e b) : a = b :=
  Prod.ext (UInt16.toNat_inj.mp (ha.1.symm.trans hb.1)) (Epoch.ext (UInt8.toNat_inj.mp (ha.2.symm.trans hb.2)))

inductive KeystoreSetDid (s : Session) (peer epoch : UInt32) (key : InBuf) (heap : Heap) : Exit × Session → Prop
  | refused (m : String) : (∀ slot (k : Key), ¬ (SlotArgs peer epoch slot ∧ key = .mem k.val)) →
      KeystoreSetDid s peer epoch key heap (.rc rcInval, s.setLastError m)
  | unconfigured (m : String) : s.store = none → KeystoreSetDid s peer epoch key heap (.rc rcErr, s.setLastError m)
  | failed {store : KeyStore} {slot : Slot} {k : Key} {e : KeystoreError} (m : String) : SlotArgs peer epoch slot →
      key = .mem k.val → s.store = some store → (store.install slot.1 slot.2 k heap).1 = .error e →
      KeystoreSetDid s peer epoch key heap (.rc rcErr, s.setLastError m)
  | installed {store : KeyStore} {slot : Slot} {k : Key} : SlotArgs peer epoch slot → key = .mem k.val →
      s.store = some store → (store.install slot.1 slot.2 k heap).1 = .ok () →
      KeystoreSetDid s peer epoch key heap
        (.rc rcOk, { s with store := some (store.install slot.1 slot.2 k heap).2 })

theorem keystoreSet_did (s : Session) (peer epoch : UInt32) (key : InBuf) (heap : Heap) :
    KeystoreSetDid s peer epoch key heap (lunetPaxeKeystoreSet s peer epoch key heap) := by
  unfold lunetPaxeKeystoreSet
  cases hp : checkU16 peer "peer node id" with
  | error m => exact .refused m fun slot _ h => checkU16_ne_error h.1.1 hp
  | ok p =>
    dsimp only
    cases he : checkEpoch epoch with
    | error m => exact .refused m fun slot _ h => checkEpoch_ne_error h.1.2 he
    | ok e =>
      dsimp only
      cases hk : bufIn key "key" with
      | error m => exact .refused m fun _ _ h => by rw [h.2] at hk; cases hk
      | ok bytes =>
        dsimp only
        split
        · rename_i hl
          refine .refused _ fun _ k h => hl ?_
          rw [h.2] at hk
          exact Except.ok.inj hk ▸ k.property
        · rename_i hl
          have hl : bytes.length = keyBytes := Decidable.not_not.mp hl
          obtain rfl := bufIn_mem hk (by rw [hl]; decide)
          obtain ⟨k, rfl⟩ : ∃ k : Key, bytes = k.val := ⟨⟨bytes, hl⟩, rfl⟩
          have ha : SlotArgs peer epoch (p, e) := ⟨checkU16_ok hp, checkEpoch_ok he⟩
          simp only [tryInto_val]
          obtain ⟨st, err, d₀, hook, warned, t₀⟩ := s
          cases st with
          | none => exact .unconfigured _ rfl
          | some store =>
            have hst : Session.store ⟨some store, err, d₀, hook, warned, t₀⟩ = some store := rfl
            dsimp only
            rcases hi : store.install p e k heap with ⟨r, store'⟩
            have hfst : (store.install p e k heap).1 = r := by rw [hi]
            have hsnd : (store.install p e k heap).2 = store' := by rw [hi]
            cases r with
            | error x =>
              obtain rfl : store = store' := (install_error store hfst).symm.trans hsnd
              exact .failed _ ha rfl hst hfst
            | ok u =>
              subst hsnd
              exact .installed ha rfl hst hfst

inductive KeystoreRetireDid (s : Session) (peer epoch : UInt32) : Exit × Session → Prop
  | refused (m : String) : (∀ slot, ¬ SlotArgs peer epoch slot) →
      KeystoreRetireDid s peer epoch (.rc rcInval, s.setLastError m)
  | unconfigured (m : String) : s.store = none → KeystoreRetireDid s peer epoch (.rc rcErr, s.setLastError m)
  | retired {store : KeyStore} {slot : Slot} : SlotArgs peer epoch slot → s.store = some store →
      KeystoreRetireDid s peer epoch (.rc (if (store.slots slot).isSome then rcOk else rcOkAbsent),
        { s with store := some (store.retire slot.1 slot.2).2 })

theorem keystoreRetire_did (s : Session) (peer epoch : UInt32) :
    KeystoreRetireDid s peer epoch (lunetPaxeKeystoreRetire s peer epoch) := by
  unfold lunetPaxeKeystoreRetire
  cases hp : checkU16 peer "peer node id" with
  | error m => exact .refused m fun slot h => checkU16_ne_error h.1 hp
  | ok p =>
    dsimp only
    cases he : checkEpoch epoch with
    | error m => exact .refused m fun slot h => checkEpoch_ne_error h.2 he
    | ok e =>
      obtain ⟨st, err, d₀, hook, warned, t₀⟩ := s
      cases st with
      | none => exact .unconfigured _ rfl
      | some store =>
        have ha : SlotArgs peer epoch (p, e) := ⟨checkU16_ok hp, checkEpoch_ok he⟩
        have hst : Session.store ⟨some store, err, d₀, hook, warned, t₀⟩ = some store := rfl
        dsimp only
        rw [retire_fst]
        exact .retired ha hst

end Paxe

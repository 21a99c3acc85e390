import Paxe.Arrival
import Paxe.SealCall

/-!
# What the boundary shows of the keys

Keys go in through `lunet_paxe_keystore_set`, and nothing brings them out. Two
sessions with the same links but other keys in them differ, for whoever calls
the exports, in what was encrypted alone, as long as no frame opens.
-/

namespace Paxe
open Wire

/-! ## Stores with the same links -/

/-- The same id and the same occupied slots; the keys may differ. -/
structure SameLinks (A B : KeyStore) : Prop where
  localId : A.localId = B.localId
  occupied : ∀ s, (A.slots s).isSome = (B.slots s).isSome

namespace SameLinks
variable {A B : KeyStore} (h : SameLinks A B)
include h

theorem len : A.len = B.len := by
  have hset : {s | (A.slots s).isSome} = {s | (B.slots s).isSome} := by
    ext s
    rw [Set.mem_ofPred_eq, Set.mem_ofPred_eq, h.occupied s]
  rw [← slots_card, ← slots_card, hset]

theorem none_iff (s : Slot) : A.slots s = none ↔ B.slots s = none := by
  rw [← Option.isNone_iff_eq_none, ← Option.isNone_iff_eq_none, ← Option.not_isSome, ← Option.not_isSome,
    h.occupied s]

theorem current (p : UInt16) :
    (A.keyForSendCurrent p = none ∧ B.keyForSendCurrent p = none) ∨
      ∃ e k k', A.keyForSendCurrent p = some (e, k) ∧ B.keyForSendCurrent p = some (e, k') := by
  cases ha : A.keyForSendCurrent p with
  | none =>
    refine Or.inl ⟨rfl, (keyForSendCurrent_eq_none B).mpr fun e => ?_⟩
    exact (h.none_iff _).mp ((keyForSendCurrent_eq_none A).mp ha e)
  | some ek =>
    obtain ⟨e, k⟩ := ek
    obtain ⟨hk, hmax⟩ := (keyForSendCurrent_slots A).mp ha
    obtain ⟨m, hm⟩ : ∃ m, B.slots (p, e) = some m := by
      rw [← Option.isSome_iff_exists, ← h.occupied, hk]
      rfl
    refine Or.inr ⟨e, k, ⟨m⟩, rfl, (keyForSendCurrent_slots B).mpr ⟨hm, fun e' he' => ?_⟩⟩
    exact hmax e' (by rw [h.occupied]; exact he')

theorem new_fits (p : UInt16) (e : Epoch) :
    (!A.entries.contains (p, e) && decide (maxEntries ≤ A.entries.size)) =
      (!B.entries.contains (p, e) && decide (maxEntries ≤ B.entries.size)) := by
  have hs : ∀ C : KeyStore, C.entries.contains (p, e) = (C.slots (p, e)).isSome := fun C => retire_fst C p e
  have hl : A.entries.size = B.entries.size := h.len
  rw [hs, hs, h.occupied, hl]

theorem update {m m' : Option Key} {p : UInt16} {e : Epoch} {C D : KeyStore} (hA : C.localId = A.localId)
    (hB : D.localId = B.localId) (hC : C.slots = Function.update A.slots (p, e) m)
    (hD : D.slots = Function.update B.slots (p, e) m') (hm : m.isSome = m'.isSome) : SameLinks C D where
  localId := hA.trans (h.localId.trans hB.symm)
  occupied s := by
    rw [hC, hD, Function.update_apply, Function.update_apply]
    split
    · exact hm
    · exact h.occupied s

theorem install (p : UInt16) (e : Epoch) (k k' : Key) (heap : Heap) :
    (A.install p e k heap).1 = (B.install p e k' heap).1 ∧
      SameLinks (A.install p e k heap).2 (B.install p e k' heap).2 := by
  have hres : (A.install p e k heap).1 = (B.install p e k' heap).1 := by
    have hf := h.new_fits p e
    unfold KeyStore.install
    split
    · rename_i hA
      rw [dif_pos (hf ▸ hA)]
    · rename_i hA
      rw [dif_neg (hf ▸ hA)]
      unfold StoredKey.new
      cases heap.malloc with
      | false => rfl
      | true =>
        cases heap.mlock with
        | false => rfl
        | true => rfl
  refine ⟨hres, ?_⟩
  cases hr : (A.install p e k heap).1 with
  | error err =>
    rw [install_error A hr, install_error B (hres.symm.trans hr)]
    exact h
  | ok u =>
    obtain rfl : u = () := rfl
    exact h.update (install_localId A p e k heap) (install_localId B p e k' heap) (install_slots A hr)
      (install_slots B (hres.symm.trans hr)) rfl

theorem retire (p : UInt16) (e : Epoch) :
    (A.retire p e).1 = (B.retire p e).1 ∧ SameLinks (A.retire p e).2 (B.retire p e).2 := by
  refine ⟨?_, h.update (retire_localId A p e) (retire_localId B p e) (retire_slots A p e) (retire_slots B p e) rfl⟩
  rw [retire_fst, retire_fst, h.occupied]

theorem clear : SameLinks A.clear B.clear where
  localId := h.localId
  occupied s := by rw [clear_slots, clear_slots]

theorem unlock (frame : Bytes) (f : Key → Option Bytes) :
    Paxe.unlock A frame f = Paxe.unlock B frame f ∨ (∃ p, Paxe.unlock A frame f = .ok p) ∨
      ∃ p, Paxe.unlock B frame f = .ok p := by
  unfold Paxe.unlock
  cases ha : A.slots (Field.fromId frame, Field.epoch frame) with
  | none =>
    have hknown : (∃ e, (A.slots (Field.fromId frame, e)).isSome) ↔
        ∃ e, (B.slots (Field.fromId frame, e)).isSome := by
      simp only [h.occupied]
    rw [(h.none_iff _).mp ha]
    refine Or.inl ?_
    by_cases hB : ∃ e, (B.slots (Field.fromId frame, e)).isSome
    · rw [if_pos (hknown.mpr hB), if_pos hB]
    · rw [if_neg (fun hA => hB (hknown.mp hA)), if_neg hB]
  | some k =>
    cases hb : B.slots (Field.fromId frame, Field.epoch frame) with
    | none =>
      rw [(h.none_iff _).mpr hb] at ha
      cases ha
    | some k' =>
      dsimp only
      cases f k with
      | some p => exact Or.inr (Or.inl ⟨p, rfl⟩)
      | none =>
        cases f k' with
        | some p => exact Or.inr (Or.inr ⟨p, rfl⟩)
        | none => exact Or.inl rfl

theorem verdict (L : Libsodium) (frame : Bytes) :
    Paxe.verdict L A frame = Paxe.verdict L B frame ∨ (∃ p, Paxe.verdict L A frame = .ok p) ∨
      ∃ p, Paxe.verdict L B frame = .ok p := by
  unfold Paxe.verdict
  rw [h.localId]
  split
  · exact Or.inl rfl
  · split
    · exact Or.inl rfl
    · split
      · split
        · exact Or.inl rfl
        · split
          · exact Or.inl rfl
          · exact h.unlock frame _
      · split
        · exact Or.inl rfl
        · split
          · exact Or.inl rfl
          · exact h.unlock frame _

theorem reason {L : Libsodium} {frame : Bytes} {r r' : RejectReason} (hr : Paxe.verdict L A frame = .error r)
    (hr' : Paxe.verdict L B frame = .error r') : r = r' := by
  rcases h.verdict L frame with he | ⟨p, hp⟩ | ⟨p, hp⟩
  · exact Except.error.inj (hr.symm.trans (he.trans hr'))
  · rw [hr] at hp
    cases hp
  · rw [hr'] at hp
    cases hp

end SameLinks

/-! ## Sessions -/

/-- The sessions hold the same links, and nothing else that a caller could ever
see tells them apart. -/
structure Blind (s t : Session) : Prop where
  links : Option.Rel SameLinks s.store t.store
  lastError : s.lastError = t.lastError
  diag : s.diag = t.diag
  exitHookRegistered : s.exitHookRegistered = t.exitHookRegistered
  coreWarnEmitted : s.coreWarnEmitted = t.coreWarnEmitted

theorem Blind.stores {s t : Session} (h : Blind s t) :
    (s.store = none ∧ t.store = none) ∨ ∃ A B, s.store = some A ∧ t.store = some B ∧ SameLinks A B := by
  have hl := h.links
  generalize s.store = a, t.store = b at hl
  cases hl with
  | none => exact Or.inl ⟨rfl, rfl⟩
  | some hAB => exact Or.inr ⟨_, _, rfl, rfl, hAB⟩

theorem Blind.setLastError {s t : Session} (h : Blind s t) (m : String) :
    Blind (s.setLastError m) (t.setLastError m) :=
  ⟨h.links, rfl, h.diag, h.exitHookRegistered, h.coreWarnEmitted⟩

/-- Only what was encrypted differs: from the ninth byte on, up to the length of
the frame. -/
inductive SealOut.Alike : SealOut → SealOut → Prop
  | same (m : SealOut) : Alike m m
  | sealed {n : Nat} {b c : Bytes} : b.length = c.length → b.take prefixLen = c.take prefixLen →
      b.drop n = c.drop n → Alike ⟨.mem b, some n⟩ ⟨.mem c, some n⟩

inductive Ret.Alike : Ret → Ret → Prop
  | same (r : Ret) : Alike r r
  | sealed (x : Exit) {m m' : SealOut} : m.Alike m' → Alike (.sealed x m) (.sealed x m')

/-- The same call, or one that installs another key of the same length. -/
inductive Call.Twin : Call → Call → Prop
  | same (c : Call) : Twin c c
  | keystoreSet (peer epoch : UInt32) {k k' : Bytes} (heap : Heap) : k.length = k'.length →
      Twin (.keystoreSet peer epoch (.mem k) heap) (.keystoreSet peer epoch (.mem k') heap)

def Refuses (L : Libsodium) (s : Session) : Call → Prop
  | .open a => ∀ store frame, s.store = some store → bufIn a.frame "frame" = .ok frame →
      ∃ e, (Dek.open L store frame s.diag s.trace).result = .err e
  | _ => True

section
variable {L : Libsodium} {s t : Session} (h : Blind s t)
include h

theorem init_blind (env : InitEnv) :
    (lunetPaxeInit s env).1 = (lunetPaxeInit t env).1 ∧ Blind (lunetPaxeInit s env).2 (lunetPaxeInit t env).2 := by
  have hcore : Blind (suppressCoreDumps s env) (suppressCoreDumps t env) := by
    unfold suppressCoreDumps warnCoreDisableFailed
    rw [← h.coreWarnEmitted]
    split
    · exact h
    · split
      · split
        · exact h
        · exact ⟨h.links, h.lastError, by rw [h.diag], h.exitHookRegistered, rfl⟩
      · exact h
  unfold lunetPaxeInit
  dsimp only
  split
  · exact ⟨rfl, hcore.setLastError _⟩
  · split
    · exact ⟨rfl, hcore.setLastError _⟩
    · split
      · exact ⟨rfl, hcore.setLastError _⟩
      · exact ⟨rfl, hcore.links, hcore.lastError, hcore.diag, rfl, hcore.coreWarnEmitted⟩

theorem setLocalId_blind (nodeId : UInt32) (initRc : Int) :
    (lunetPaxeSetLocalId s nodeId initRc).1 = (lunetPaxeSetLocalId t nodeId initRc).1 ∧
      Blind (lunetPaxeSetLocalId s nodeId initRc).2 (lunetPaxeSetLocalId t nodeId initRc).2 := by
  have hsome : s.store.isSome = t.store.isSome := by
    rcases h.stores with ⟨hs, ht⟩ | ⟨_, _, hs, ht, -⟩
    · rw [hs, ht]
    · rw [hs, ht]
      rfl
  unfold lunetPaxeSetLocalId
  rw [hsome]
  split
  · exact ⟨rfl, h.setLastError _⟩
  · split
    · exact ⟨rfl, h.setLastError _⟩
    · split
      · exact ⟨rfl, .some ⟨rfl, fun _ => rfl⟩, h.lastError, h.diag, h.exitHookRegistered, h.coreWarnEmitted⟩
      · exact ⟨rfl, h.setLastError _⟩

theorem shutdown_blind : Blind (shutdownState s) (shutdownState t) :=
  ⟨.none, rfl, by rw [shutdownState, shutdownState, h.diag], h.exitHookRegistered, h.coreWarnEmitted⟩

theorem keystoreSet_blind (peer epoch : UInt32) {key key' : InBuf}
    (hk : (bufIn key "key").map List.length = (bufIn key' "key").map List.length) (heap : Heap) :
    (lunetPaxeKeystoreSet s peer epoch key heap).1 = (lunetPaxeKeystoreSet t peer epoch key' heap).1 ∧
      Blind (lunetPaxeKeystoreSet s peer epoch key heap).2 (lunetPaxeKeystoreSet t peer epoch key' heap).2 := by
  unfold lunetPaxeKeystoreSet
  cases checkU16 peer "peer node id" with
  | error m => exact ⟨rfl, h.setLastError m⟩
  | ok p =>
    cases checkEpoch epoch with
    | error m => exact ⟨rfl, h.setLastError m⟩
    | ok e =>
      cases hb : bufIn key "key" with
      | error m =>
        cases hb' : bufIn key' "key" with
        | error m' =>
          rw [hb, hb'] at hk
          obtain rfl : m = m' := Except.error.inj hk
          exact ⟨rfl, h.setLastError m⟩
        | ok k' =>
          rw [hb, hb'] at hk
          cases hk
      | ok k =>
        cases hb' : bufIn key' "key" with
        | error m' =>
          rw [hb, hb'] at hk
          cases hk
        | ok k' =>
          rw [hb, hb'] at hk
          have hk : k.length = k'.length := Except.ok.inj hk
          dsimp only
          rw [hk]
          split
          · exact ⟨rfl, h.setLastError _⟩
          · rename_i hl
            have hl' : k'.length = keyBytes := not_not.mp hl
            have hm : tryInto keyBytes k = some ⟨k, hk.trans hl'⟩ := dif_pos (hk.trans hl')
            have hm' : tryInto keyBytes k' = some ⟨k', hl'⟩ := dif_pos hl'
            rw [hm, hm']
            dsimp only
            rcases h.stores with ⟨hs, ht⟩ | ⟨A, B, hs, ht, hAB⟩
            · rw [hs, ht]
              exact ⟨rfl, h.setLastError _⟩
            · obtain ⟨hres, hafter⟩ := hAB.install p e ⟨k, hk.trans hl'⟩ ⟨k', hl'⟩ heap
              rw [hs, ht]
              dsimp only
              generalize A.install p e ⟨k, hk.trans hl'⟩ heap = x at hres hafter
              generalize B.install p e ⟨k', hl'⟩ heap = y at hres hafter
              obtain ⟨x, A'⟩ := x
              obtain ⟨y, B'⟩ := y
              obtain rfl : x = y := hres
              have hnew : Blind { s with store := some A' } { t with store := some B' } :=
                ⟨.some hafter, h.lastError, h.diag, h.exitHookRegistered, h.coreWarnEmitted⟩
              cases x with
              | ok u => exact ⟨rfl, hnew⟩
              | error err => exact ⟨rfl, hnew.setLastError _⟩

theorem keystoreRetire_blind (peer epoch : UInt32) :
    (lunetPaxeKeystoreRetire s peer epoch).1 = (lunetPaxeKeystoreRetire t peer epoch).1 ∧
      Blind (lunetPaxeKeystoreRetire s peer epoch).2 (lunetPaxeKeystoreRetire t peer epoch).2 := by
  unfold lunetPaxeKeystoreRetire
  cases checkU16 peer "peer node id" with
  | error m => exact ⟨rfl, h.setLastError m⟩
  | ok p =>
    cases checkEpoch epoch with
    | error m => exact ⟨rfl, h.setLastError m⟩
    | ok e =>
      rcases h.stores with ⟨hs, ht⟩ | ⟨A, B, hs, ht, hAB⟩
      · rw [hs, ht]
        exact ⟨rfl, h.setLastError _⟩
      · obtain ⟨hres, hafter⟩ := hAB.retire p e
        rw [hs, ht]
        dsimp only
        rw [hres]
        exact ⟨rfl, .some hafter, h.lastError, h.diag, h.exitHookRegistered, h.coreWarnEmitted⟩

theorem keystoreClear_blind :
    (lunetPaxeKeystoreClear s).1 = (lunetPaxeKeystoreClear t).1 ∧
      Blind (lunetPaxeKeystoreClear s).2 (lunetPaxeKeystoreClear t).2 := by
  unfold lunetPaxeKeystoreClear
  rcases h.stores with ⟨hs, ht⟩ | ⟨A, B, hs, ht, hAB⟩
  · rw [hs, ht]
    exact ⟨rfl, h⟩
  · rw [hs, ht]
    exact ⟨rfl, .some hAB.clear, h.lastError, h.diag, h.exitHookRegistered, h.coreWarnEmitted⟩

theorem frameForUs_blind (frame : InBuf) :
    (lunetPaxeFrameForUs s frame).1 = (lunetPaxeFrameForUs t frame).1 ∧
      Blind (lunetPaxeFrameForUs s frame).2 (lunetPaxeFrameForUs t frame).2 := by
  unfold lunetPaxeFrameForUs
  split
  · exact ⟨rfl, h.setLastError _⟩
  · rcases h.stores with ⟨hs, ht⟩ | ⟨A, B, hs, ht, hAB⟩
    · rw [hs, ht]
      exact ⟨rfl, h⟩
    · rw [hs, ht]
      dsimp only
      rw [hAB.localId]
      split
      · exact ⟨rfl, h⟩
      · exact ⟨rfl, .some hAB, h.lastError, by rw [h.diag], h.exitHookRegistered, h.coreWarnEmitted⟩

theorem failPolicySet_blind (name : InBuf) :
    (lunetPaxeFailPolicySet s name).1 = (lunetPaxeFailPolicySet t name).1 ∧
      Blind (lunetPaxeFailPolicySet s name).2 (lunetPaxeFailPolicySet t name).2 := by
  unfold lunetPaxeFailPolicySet
  split
  · exact ⟨rfl, h.setLastError _⟩
  · split
    · exact ⟨rfl, h.setLastError _⟩
    · split
      · exact ⟨rfl, h.links, h.lastError, by rw [h.diag], h.exitHookRegistered, h.coreWarnEmitted⟩
      · exact ⟨rfl, h.setLastError _⟩

end

/-! ## Open and seal -/

theorem write_alike {b : OutBuf} {out : Bytes} (f f' : Bytes) (ho : bufOut b "frame output" = .ok out)
    (hl : f.length = f'.length) (hpre : prefixLen ≤ f.length) (hroom : f.length ≤ out.length)
    (htake : f.take prefixLen = f'.take prefixLen) :
    SealOut.Alike ⟨b.write f, some f.length⟩ ⟨b.write f', some f'.length⟩ := by
  cases b with
  | null cap =>
    unfold bufOut at ho
    dsimp only at ho
    split at ho
    · obtain rfl : [] = out := Except.ok.inj ho
      exact absurd (Nat.le_trans hpre hroom) (by decide)
    · cases ho
  | mem bytes =>
    obtain rfl : bytes = out := Except.ok.inj ho
    have hroom' : f'.length ≤ bytes.length := hl ▸ hroom
    have hpre' : prefixLen ≤ f'.length := hl ▸ hpre
    unfold OutBuf.write
    dsimp only
    rw [← hl, overwrite_eq hroom, overwrite_eq hroom', ← hl]
    refine .sealed ?_ ?_ ?_
    · rw [List.length_append, List.length_append, hl]
    · rw [List.take_append_of_le_length hpre, List.take_append_of_le_length hpre', htake]
    · rw [List.drop_left' rfl, List.drop_left' hl.symm]

theorem open_invalid (L : Libsodium) {a : OpenCall} (hno : ∀ frame out, ¬ a.Valid frame out) :
    ∃ m, ∀ s : Session, lunetPaxeOpen L s a = (.rc rcInval, a.mem, s.setLastError m) := by
  unfold lunetPaxeOpen
  cases hf : bufIn a.frame "frame" with
  | error m => exact ⟨m, fun _ => rfl⟩
  | ok frame =>
    dsimp only
    by_cases hp : (a.mem.outLen.isNone || a.mem.fromId.isNone || a.mem.channel.isNone || a.mem.mode.isNone) = true
    · exact ⟨_, fun s => if_pos hp⟩
    · cases ho : bufOut a.mem.out "payload output" with
      | error m => exact ⟨m, fun s => if_neg hp⟩
      | ok out => exact absurd ⟨hf, ho, Bool.eq_false_iff.mpr hp⟩ (hno frame out)

section
variable {L : Libsodium} (hL : L.Contract)
include hL

theorem open_refused {s : Session} {store : KeyStore} {a : OpenCall} {frame out : Bytes} (hs : s.store = some store)
    (hv : a.Valid frame out) (hr : ∃ e, (Dek.open L store frame s.diag s.trace).result = .err e) :
    ∃ r t, verdict L store frame = .error r ∧
      lunetPaxeOpen L s a = (.rc rcDrop, a.mem, { s with diag := s.diag.count (some r), trace := t }) := by
  obtain ⟨e, hr⟩ := hr
  cases hver : verdict L store frame with
  | ok p =>
    obtain ⟨_, _, he, -⟩ := (open_follows_verdict hL store frame s.diag s.trace).1 p hver
    rw [he] at hr
    cases hr
  | error r =>
    obtain ⟨t, ho⟩ := open_dropped hL hs hv hver
    exact ⟨r, t, rfl, ho⟩

variable {s t : Session} (h : Blind s t)
include h

theorem open_blind {a : OpenCall} (hs : Refuses L s (.open a)) (ht : Refuses L t (.open a)) :
    ((lunetPaxeOpen L s a).1 = (lunetPaxeOpen L t a).1 ∧ (lunetPaxeOpen L s a).2.1 = (lunetPaxeOpen L t a).2.1) ∧
      Blind (lunetPaxeOpen L s a).2.2 (lunetPaxeOpen L t a).2.2 := by
  by_cases hv : ∃ frame out, a.Valid frame out
  · obtain ⟨frame, out, hv⟩ := hv
    rcases h.stores with ⟨hs₀, ht₀⟩ | ⟨A, B, hA, hB, hAB⟩
    · have hnone : ∀ u : Session, u.store = none → lunetPaxeOpen L u a = (.rc rcDrop, a.mem, u) := by
        intro u hu
        simp only [lunetPaxeOpen, hv.frame_eq, hv.out_eq, hv.pointers, hu, Bool.false_eq_true, if_false]
      rw [hnone s hs₀, hnone t ht₀]
      exact ⟨⟨rfl, rfl⟩, h⟩
    · obtain ⟨r, _, hr, hso⟩ := open_refused hL hA hv (hs A frame hA hv.frame_eq)
      obtain ⟨r', _, hr', hto⟩ := open_refused hL hB hv (ht B frame hB hv.frame_eq)
      obtain rfl := hAB.reason hr hr'
      rw [hso, hto]
      exact ⟨⟨rfl, rfl⟩, h.links, h.lastError, by rw [h.diag], h.exitHookRegistered, h.coreWarnEmitted⟩
  · obtain ⟨m, hm⟩ := open_invalid L (fun frame out hv' => hv ⟨frame, out, hv'⟩)
    rw [hm s, hm t]
    exact ⟨⟨rfl, rfl⟩, h.setLastError m⟩

theorem seal_blind (a : SealCall) :
    ((lunetPaxeSeal L s a).1 = (lunetPaxeSeal L t a).1 ∧
      (lunetPaxeSeal L s a).2.1.Alike (lunetPaxeSeal L t a).2.1) ∧
      Blind (lunetPaxeSeal L s a).2.2 (lunetPaxeSeal L t a).2.2 := by
  unfold lunetPaxeSeal
  cases checkU16 a.toId "destination node id" with
  | error m => exact ⟨⟨rfl, .same _⟩, h.setLastError m⟩
  | ok toId =>
    cases checkChannel a.channel with
    | error m => exact ⟨⟨rfl, .same _⟩, h.setLastError m⟩
    | ok channel =>
      cases bufIn a.payload "payload" with
      | error m => exact ⟨⟨rfl, .same _⟩, h.setLastError m⟩
      | ok payload =>
        dsimp only
        split
        · exact ⟨⟨rfl, .same _⟩, h.setLastError _⟩
        · cases ho : bufOut a.mem.out "frame output" with
          | error m => exact ⟨⟨rfl, .same _⟩, h.setLastError m⟩
          | ok out =>
            dsimp only
            split
            · refine ⟨⟨rfl, .same _⟩, h.links, rfl, ?_, h.exitHookRegistered, h.coreWarnEmitted⟩
              exact congrArg Diag.recordTxOversize h.diag
            · rename_i hp
              rcases h.stores with ⟨hs, ht⟩ | ⟨A, B, hA, hB, hAB⟩
              · rw [hs, ht]
                exact ⟨⟨rfl, .same _⟩, h.setLastError _⟩
              · rw [hA, hB]
                dsimp only
                rcases hAB.current toId with ⟨ha, hb⟩ | ⟨e, k, k', ha, hb⟩
                · rw [ha, hb]
                  exact ⟨⟨rfl, .same _⟩, h.setLastError _⟩
                · have hsealA := current_seals hL ha channel s.trace (Nat.not_lt.mp hp)
                  have hsealB := current_seals hL hb channel t.trace (Nat.not_lt.mp hp)
                  rw [ha, hb]
                  dsimp only
                  rw [hsealA, hsealB]
                  dsimp only
                  have hlen : ∀ (key : Key) (hdr : Header) (n : Nonce),
                      (Standard.frame L key hdr e n payload).length = payload.length + Standard.overhead :=
                    fun key hdr n => Standard.frame_length hL key hdr e n payload
                  rw [hlen, hlen]
                  split
                  · exact ⟨⟨rfl, .same _⟩, .some hAB, rfl, h.diag, h.exitHookRegistered, h.coreWarnEmitted⟩
                  · rename_i hroom
                    have htake : ∀ (key : Key) (n : Nonce),
                        (Standard.frame L key ⟨B.localId, toId, channel⟩ e n payload).take prefixLen =
                          (serializePrefix ⟨B.localId, toId, channel⟩ ⟨.standard, e⟩).val :=
                      fun key n => List.take_left' (serializePrefix_length _ _)
                    have hw := write_alike
                      (Standard.frame L k.mem ⟨B.localId, toId, channel⟩ e (randomNonce L s.trace).1 payload)
                      (Standard.frame L k'.mem ⟨B.localId, toId, channel⟩ e (randomNonce L t.trace).1 payload) ho
                      ((hlen _ _ _).trans (hlen _ _ _).symm)
                      (by rw [hlen]; unfold Standard.overhead; omega)
                      (by rw [hlen]; exact Nat.not_lt.mp hroom)
                      ((htake _ _).trans (htake _ _).symm)
                    rw [hlen, hlen] at hw
                    rw [hAB.localId]
                    exact ⟨⟨rfl, hw⟩, .some hAB, h.lastError, congrArg (Diag.recordTxSealed · .standard) h.diag,
                      h.exitHookRegistered, h.coreWarnEmitted⟩

end

/-! ## Runs -/

/-- No frame opens in the run. -/
def NoneOpens (L : Libsodium) : Session → List Call → Prop
  | _, [] => True
  | s, c :: cs => Refuses L s c ∧ NoneOpens L (s.step L c).2 cs

theorem code_alike {x y : Exit × Session} (h : x.1 = y.1 ∧ Blind x.2 y.2) :
    Ret.Alike (.code x.1) (.code y.1) ∧ Blind x.2 y.2 := by
  obtain ⟨hx, hb⟩ := h
  rw [hx]
  exact ⟨.same _, hb⟩

theorem step_blind {L : Libsodium} (hL : L.Contract) {s t : Session} (h : Blind s t) {c c' : Call} (hc : c.Twin c')
    (hs : Refuses L s c) (ht : Refuses L t c') :
    (s.step L c).1.Alike (t.step L c').1 ∧ Blind (s.step L c).2 (t.step L c').2 := by
  cases hc with
  | @keystoreSet peer epoch k k' heap hk =>
    have hk : (bufIn (.mem k) "key").map List.length = (bufIn (.mem k') "key").map List.length :=
      congrArg Except.ok hk
    exact code_alike (keystoreSet_blind h peer epoch hk heap)
  | same =>
    cases c with
    | init env => exact code_alike (init_blind h env)
    | setLocalId nodeId initRc => exact code_alike (setLocalId_blind h nodeId initRc)
    | shutdown => exact ⟨.same _, shutdown_blind h⟩
    | keystoreSet peer epoch key heap => exact code_alike (keystoreSet_blind h peer epoch rfl heap)
    | keystoreRetire peer epoch => exact code_alike (keystoreRetire_blind h peer epoch)
    | keystoreClear => exact code_alike (keystoreClear_blind h)
    | «seal» a =>
      obtain ⟨⟨hx, hm⟩, hb⟩ := seal_blind hL h a
      have hret : Ret.Alike (.sealed (lunetPaxeSeal L s a).1 (lunetPaxeSeal L s a).2.1)
          (.sealed (lunetPaxeSeal L t a).1 (lunetPaxeSeal L t a).2.1) := by
        rw [hx]
        exact .sealed _ hm
      exact ⟨hret, hb⟩
    | «open» a =>
      obtain ⟨⟨hx, hm⟩, hb⟩ := open_blind hL h hs ht
      have hret : Ret.Alike (.opened (lunetPaxeOpen L s a).1 (lunetPaxeOpen L s a).2.1)
          (.opened (lunetPaxeOpen L t a).1 (lunetPaxeOpen L t a).2.1) := by
        rw [hx, hm]
        exact .same _
      exact ⟨hret, hb⟩
    | frameForUs frame => exact code_alike (frameForUs_blind h frame)
    | stats out =>
      have hstats : lunetPaxeStats s out = lunetPaxeStats t out := by
        unfold lunetPaxeStats
        rw [h.diag]
      simp only [Session.step, hstats]
      exact ⟨.same _, h⟩
    | failPolicySet name => exact code_alike (failPolicySet_blind h name)

/-- The keys do not come out. Where two processes make the same calls with other
keys of the same length, and no frame opens, every reply is the same but for what
was encrypted, and so are the last error, the counters, the memo and the log lines
after every call. -/
theorem keys_stay_inside {L : Libsodium} (hL : L.Contract) {s t : Session} (h : Blind s t) {cs cs' : List Call}
    (hc : List.Forall₂ Call.Twin cs cs') (hs : NoneOpens L s cs) (ht : NoneOpens L t cs') :
    List.Forall₂ (fun x y => x.2.Alike y.2) (Mealy.log (Session.step L) s cs) (Mealy.log (Session.step L) t cs') ∧
      Blind (Mealy.run (Session.step L) s cs) (Mealy.run (Session.step L) t cs') := by
  induction hc generalizing s t with
  | nil => exact ⟨.nil, h⟩
  | cons hcc _ ih =>
    obtain ⟨halike, hb⟩ := step_blind hL h hcc hs.1 ht.1
    obtain ⟨hlog, hrun⟩ := ih hb hs.2 ht.2
    exact ⟨.cons halike hlog, hrun⟩

theorem keys_stay_inside_two :
    let L := aesGcm counterBytes
    let garbage : OpenCall := ⟨.mem [1], ⟨.mem [0], some 0, some 0, some 0, some 0⟩⟩
    let calls (k : Bytes) : List Call := [.setLocalId 1 0, .keystoreSet 2 3 (.mem k) ⟨true, true⟩,
      .seal ⟨.mem [104, 105], 2, 100, ⟨.mem (List.replicate 39 0), some 0⟩⟩, .open garbage]
    let cs := calls (List.replicate 32 7)
    let cs' := calls (List.replicate 32 8)
    List.Forall₂ (fun x y => x.2.Alike y.2) (Mealy.log (Session.step L) .start cs)
      (Mealy.log (Session.step L) .start cs') ∧
      Blind (Mealy.run (Session.step L) .start cs) (Mealy.run (Session.step L) .start cs') := by
  intro L garbage calls cs cs'
  have hL : L.Contract := aesGcm_contract counterBytes
  clear_value L
  have hgarbage : ∀ s : Session, Refuses L s (.open garbage) := by
    intro s store frame _ hf
    obtain rfl : [1] = frame := Except.ok.inj hf
    exact ⟨_, rfl⟩
  have hnone : ∀ k, NoneOpens L .start (calls k) := fun k => ⟨trivial, trivial, trivial, hgarbage _, trivial⟩
  have htwin : List.Forall₂ Call.Twin cs cs' :=
    .cons (.same _) (.cons (.keystoreSet 2 3 ⟨true, true⟩ rfl) (.cons (.same _) (.cons (.same _) .nil)))
  exact keys_stay_inside hL ⟨.none, rfl, rfl, rfl, rfl⟩ htwin (hnone _) (hnone _)

end Paxe

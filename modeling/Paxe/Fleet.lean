import Paxe.Authenticity
import Paxe.SealCall
import Paxe.SessionSound

/-!
# Fleets of processes

Any number of processes use the library through the C ABI, and are configured, shut
down and configured again while it runs. What one of them accepts was sealed by a
call at a process that was then configured as the source. The C ABI does not seal
for many, so no frame of the reusable-key format is ever accepted.
-/

namespace Paxe
open Wire

/-- The processes share one history of library calls. -/
structure Fleet (ν : Type) where
  sessions : ν → Session
  trace : Trace

namespace Fleet

section
variable {ν : Type}

def session (fl : Fleet ν) (v : ν) : Session := { fl.sessions v with trace := fl.trace }

def step [DecidableEq ν] (L : Libsodium) (fl : Fleet ν) (x : ν × Call) : Ret × Fleet ν :=
  let r := (fl.session x.1).step L x.2
  (r.1, ⟨Function.update fl.sessions x.1 r.2, r.2.trace⟩)

end

end Fleet

/-! ## Sealing calls -/

/-- The call seals that payload, under the highest epoch of the destination, into
that frame. It hands the frame out unless the caller's buffer is too short. -/
structure Seals (L : Libsodium) (s : Session) (a : SealCall) (em : Emission UInt16) : Prop where
  configured : ∃ store key, s.store = some store ∧ store.localId = em.sender ∧
    store.keyForSendCurrent em.toId = some (em.epoch, key) ∧
    (Dek.seal L store em.toId em.channel em.epoch em.payload s.trace).result = .ok em.frame
  dest : a.toId.toNat = em.toId.toNat
  channel : a.channel = em.channel
  payload : bufIn a.payload "payload" = .ok em.payload
  mode : em.mode = .standard
  returned : (lunetPaxeSeal L s a).1 = .rc rcOk ∧
      (lunetPaxeSeal L s a).2.1 = ⟨a.mem.out.write em.frame, some em.frame.length⟩ ∨
    (lunetPaxeSeal L s a).1 = .rc rcInval ∧ (lunetPaxeSeal L s a).2.1 = a.mem

inductive SealTold (L : Libsodium) (s : Session) (a : SealCall) : Exit × SealOut × Session → Prop
  | quiet {r : Exit × SealOut × Session} {seg : Trace} : r.2.2.trace = s.trace ++ seg → Aead.encs seg = [] →
      Aead.keys seg = [] → SealTold L s a r
  | made {r : Exit × SealOut × Session} {store : KeyStore} {toId : UInt16} {e : Epoch} {key : StoredKey}
      {n : Nonce} {k : Key} {payload : Bytes} : s.store = some store →
      checkU16 a.toId "destination node id" = .ok toId →
      bufIn a.payload "payload" = .ok payload → store.keyForSendCurrent toId = some (e, key) →
      (Dek.seal L store toId a.channel e payload s.trace).result =
        .ok (Standard.frame L k ⟨store.localId, toId, a.channel⟩ e n payload) →
      r.2.2.trace = s.trace ++ [.drawNonce n,
        .encrypt (Standard.frameEnc L k ⟨store.localId, toId, a.channel⟩ e n payload)] →
      (r.1 = .rc rcOk ∧ r.2.1 = ⟨a.mem.out.write (Standard.frame L k ⟨store.localId, toId, a.channel⟩ e n payload),
          some (Standard.frame L k ⟨store.localId, toId, a.channel⟩ e n payload).length⟩ ∨
        r.1 = .rc rcInval ∧ r.2.1 = a.mem) →
      SealTold L s a r

section
variable {L : Libsodium} (hL : L.Contract)
include hL

theorem seal_told (s : Session) (a : SealCall) : SealTold L s a (lunetPaxeSeal L s a) := by
  have hsame : ∀ {r : Exit × SealOut × Session}, r.2.2.trace = s.trace → SealTold L s a r :=
    fun ht => .quiet (ht.trans (List.append_nil _).symm) rfl rfl
  unfold lunetPaxeSeal
  cases hto : checkU16 a.toId "destination node id" with
  | error m => exact hsame rfl
  | ok toId =>
    dsimp only
    cases hch : checkChannel a.channel with
    | error m => exact hsame rfl
    | ok channel =>
      have hc : channel = a.channel := by
        unfold checkChannel at hch
        split at hch
        · cases hch
        · exact (Except.ok.inj hch).symm
      subst hc
      dsimp only
      cases hp : bufIn a.payload "payload" with
      | error m => exact hsame rfl
      | ok payload =>
        dsimp only
        split
        · exact hsame rfl
        · cases bufOut a.mem.out "frame output" with
          | error m => exact hsame rfl
          | ok out =>
            dsimp only
            split
            · exact hsame rfl
            · cases hs : s.store with
              | none => exact hsame rfl
              | some store =>
                dsimp only
                cases hk : store.keyForSendCurrent toId with
                | none => exact hsame rfl
                | some ek =>
                  obtain ⟨e, key⟩ := ek
                  dsimp only
                  rcases dekSeal_cases hL store toId a.channel e payload s.trace with
                    ⟨err, hr⟩ | ⟨n, err, hr⟩ | ⟨n, k, -, -, hr⟩
                  · rw [hr]
                    exact hsame rfl
                  · rw [hr]
                    exact .quiet rfl rfl rfl
                  · have hres : (Dek.seal L store toId a.channel e payload s.trace).result =
                        .ok (Standard.frame L k ⟨store.localId, toId, a.channel⟩ e n payload) := by rw [hr]
                    rw [hr]
                    dsimp only
                    split
                    · exact .made hs hto hp hk hres rfl (Or.inr ⟨rfl, rfl⟩)
                    · exact .made hs hto hp hk hres rfl (Or.inl ⟨rfl, rfl⟩)

theorem seal_call_did (s : Session) (a : SealCall) :
    ∃ seg ems, (lunetPaxeSeal L s a).2.2.trace = s.trace ++ seg ∧ Aead.keys seg = [] ∧
      Did L (id : UInt16 → UInt16) ems seg ∧
      ∀ em ∈ ems, Seals L s a em := by
  have h := seal_told hL s a
  cases h with
  | quiet ht he hk => exact ⟨_, [], ht, hk, .quiet he hk, by simp⟩
  | @made store toId e key n k payload hs hto hp hk hres ht hret =>
    refine ⟨_, _, ht, rfl, .standard store.localId toId a.channel e payload n k, ?_⟩
    intro em hem
    cases List.mem_singleton.mp hem
    exact ⟨⟨store, key, hs, rfl, hk, hres⟩, checkU16_ok hto, rfl, hp, rfl, hret⟩

omit hL in
theorem open_call_trace (s : Session) (a : OpenCall) :
    ∃ ds : List (Aead.Dec Key Nonce), (lunetPaxeOpen L s a).2.2.trace = s.trace ++ ds.map .decrypt := by
  have hopen : ∀ {store : KeyStore} {frame : Bytes} {res : Res Dek.OpenError (Header × Flags × Bytes)} {d : Diag}
      {t : Trace}, Dek.open L store frame s.diag s.trace = ⟨res, d, t⟩ →
      ∃ ds : List (Aead.Dec Key Nonce), t = s.trace ++ ds.map .decrypt := by
    intro store frame res d t ho
    obtain ⟨ds, hds⟩ := open_trace L store frame s.diag s.trace
    rw [ho] at hds
    exact ⟨ds, hds⟩
  have h := open_did L s a
  generalize lunetPaxeOpen L s a = r at h
  cases h with
  | refused m _ => exact ⟨[], (List.append_nil _).symm⟩
  | unconfigured _ => exact ⟨[], (List.append_nil _).symm⟩
  | short m _ _ ho _ => exact hopen ho
  | accepted _ _ ho _ => exact hopen ho
  | broken _ _ ho => exact hopen ho
  | dropped _ _ ho _ => exact hopen ho

theorem session_did (s : Session) (c : Call) :
    ∃ seg ems, (s.step L c).2.trace = s.trace ++ seg ∧ Aead.keys seg = [] ∧ Did L (id : UInt16 → UInt16) ems seg ∧
      ∀ em ∈ ems, ∃ a, c = .seal a ∧ Seals L s a em := by
  have hsame : ∀ {s' : Session}, s'.trace = s.trace → ∃ seg ems, s'.trace = s.trace ++ seg ∧ Aead.keys seg = [] ∧
      Did L (id : UInt16 → UInt16) ems seg ∧ ∀ em ∈ ems, ∃ a, c = .seal a ∧ Seals L s a em :=
    fun ht => ⟨[], [], ht.trans (List.append_nil _).symm, rfl, .quiet rfl rfl, by simp⟩
  cases c with
  | init env =>
    apply hsame
    show (lunetPaxeInit s env).2.trace = s.trace
    have hsup : (suppressCoreDumps s env).trace = s.trace := by
      unfold suppressCoreDumps warnCoreDisableFailed
      split
      · rfl
      · split
        · split <;> rfl
        · rfl
    unfold lunetPaxeInit
    dsimp only
    split
    · exact hsup
    · split
      · exact hsup
      · split <;> exact hsup
  | setLocalId nodeId initRc =>
    apply hsame
    have h := setLocalId_did s nodeId initRc
    show (lunetPaxeSetLocalId s nodeId initRc).2.trace = s.trace
    generalize lunetPaxeSetLocalId s nodeId initRc = r at h
    cases h <;> rfl
  | shutdown => exact hsame rfl
  | keystoreSet peer epoch key heap =>
    apply hsame
    have h := keystoreSet_did s peer epoch key heap
    show (lunetPaxeKeystoreSet s peer epoch key heap).2.trace = s.trace
    generalize lunetPaxeKeystoreSet s peer epoch key heap = r at h
    cases h <;> rfl
  | keystoreRetire peer epoch =>
    apply hsame
    have h := keystoreRetire_did s peer epoch
    show (lunetPaxeKeystoreRetire s peer epoch).2.trace = s.trace
    generalize lunetPaxeKeystoreRetire s peer epoch = r at h
    cases h <;> rfl
  | keystoreClear =>
    apply hsame
    show (lunetPaxeKeystoreClear s).2.trace = s.trace
    unfold lunetPaxeKeystoreClear
    split <;> rfl
  | «seal» a =>
    obtain ⟨seg, ems, ht, hk, hd, hems⟩ := seal_call_did hL s a
    exact ⟨seg, ems, ht, hk, hd, fun em hem => ⟨a, rfl, hems em hem⟩⟩
  | «open» a =>
    obtain ⟨ds, ht⟩ := open_call_trace (L := L) s a
    exact ⟨_, [], ht, Aead.keys_decrypt ds, .quiet (Aead.encs_decrypt ds) (Aead.keys_decrypt ds), by simp⟩
  | frameForUs frame =>
    apply hsame
    have h := gate_did s frame
    show (lunetPaxeFrameForUs s frame).2.trace = s.trace
    generalize lunetPaxeFrameForUs s frame = r at h
    cases h <;> rfl
  | stats out => exact hsame rfl
  | failPolicySet name =>
    apply hsame
    show (lunetPaxeFailPolicySet s name).2.trace = s.trace
    unfold lunetPaxeFailPolicySet
    split
    · rfl
    · split
      · rfl
      · split <;> rfl

end

/-! ## Runs -/

namespace Fleet

variable {ν : Type} [DecidableEq ν] {L : Libsodium}

def Sealed (L : Libsodium) (fl : Fleet ν) (events : List (ν × Call)) (em : Emission UInt16) : Prop :=
  ∃ before w c after, events = before ++ (w, .seal c) :: after ∧
    Seals L ((Mealy.run (step L) fl before).session w) c em

theorem Sealed.append {fl : Fleet ν} {events : List (ν × Call)} {em : Emission UInt16} (h : Sealed L fl events em)
    (more : List (ν × Call)) : Sealed L fl (events ++ more) em := by
  obtain ⟨before, w, c, after, rfl, hs⟩ := h
  exact ⟨before, w, c, after ++ more, by simp, hs⟩

theorem run_trace (fl : Fleet ν) (hL : L.Contract) (events : List (ν × Call)) :
    ∃ t, (Mealy.run (step L) fl events).trace = fl.trace ++ t := by
  refine Mealy.run_inv (step L) (I := fun g => ∃ t, g.trace = fl.trace ++ t)
    ⟨[], (List.append_nil _).symm⟩ ?_ events
  rintro g x ⟨t, ht⟩
  obtain ⟨seg, -, hs, -⟩ := session_did hL (g.session x.1) x.2
  exact ⟨t ++ seg, by rw [← List.append_assoc, ← ht]; exact hs⟩

/-- Every encryption of a run went into a frame that a sealing call made, and no
key was drawn. -/
theorem run_ledger (hL : L.Contract) {fl : Fleet ν} (h0 : fl.trace = []) (events : List (ν × Call)) :
    Aead.keys (Mealy.run (step L) fl events).trace = [] ∧
      ∃ ems, Ledger L (id : UInt16 → UInt16) ems (Mealy.run (step L) fl events).trace ∧
        ∀ em ∈ ems, Sealed L fl events em := by
  induction events using List.reverseRecOn with
  | nil =>
    show Aead.keys fl.trace = [] ∧ ∃ ems, Ledger L id ems fl.trace ∧ _
    rw [h0]
    exact ⟨rfl, [], ⟨[], rfl, by simp [Aead.encs]⟩, by simp⟩
  | append_singleton events x ih =>
    obtain ⟨hkeys, ems, hl, hems⟩ := ih
    rw [Mealy.run_snoc]
    obtain ⟨seg, new, ht, hk, hd, hnew⟩ := session_did hL ((Mealy.run (step L) fl events).session x.1) x.2
    have ht : (step L (Mealy.run (step L) fl events) x).2.trace = (Mealy.run (step L) fl events).trace ++ seg := ht
    rw [ht, Aead.keys_append, hkeys, hk]
    refine ⟨rfl, ems ++ new, hl.append hd, ?_⟩
    intro em hem
    rcases List.mem_append.mp hem with hem | hem
    · exact (hems em hem).append [x]
    · obtain ⟨a, hx, hs⟩ := hnew em hem
      obtain ⟨w, c⟩ := x
      obtain rfl : c = .seal a := hx
      exact ⟨events, w, a, [], rfl, hs⟩

/-- Some process holds the key at some time. -/
def Held (L : Libsodium) (fl : Fleet ν) (events : List (ν × Call)) (k : Key) : Prop :=
  ∃ before after, events = before ++ after ∧ ∃ v store slot,
    ((Mealy.run (step L) fl before).sessions v).store = some store ∧ store.slots slot = some k

/-- What a process accepts was sealed, for it, with that payload, by a call at a
process that was configured as the source; and it is a frame of the standard
format. -/
theorem accepted_was_sealed (hL : L.Correct) {fl : Fleet ν} (h0 : fl.trace = []) (events : List (ν × Call))
    (hU : Aead.Unforgeable (Held L fl events) (Mealy.run (step L) fl events).trace) :
    ∀ before v a after mem, events = before ++ (v, .open a) :: after →
      (step L (Mealy.run (step L) fl before) (v, .open a)).1 = .opened (.rc rcOk) mem →
      ∃ em store, Sealed L fl before em ∧ bufIn a.frame "frame" = .ok em.frame ∧
        ((Mealy.run (step L) fl before).sessions v).store = some store ∧ store.localId = em.toId ∧
        mem = ⟨a.mem.out.write em.payload, some em.payload.length, some em.sender.toUInt32, some em.channel,
          some (modeCode .standard)⟩ := by
  intro before v a after mem hev hr
  obtain ⟨hkeys, ems, hl, hems⟩ := run_ledger hL.toContract h0 before
  obtain ⟨w, hw⟩ := run_trace (step L (Mealy.run (step L) fl before) (v, .open a)).2 hL.toContract after
  have ht : (Mealy.run (step L) fl events).trace =
      (step L (Mealy.run (step L) fl before) (v, .open a)).2.trace ++ w := by
    rw [hev, Mealy.run_append]
    exact hw
  have hheld : ∀ (store : KeyStore) (slot : Slot) (k : Key),
      ((Mealy.run (step L) fl before).sessions v).store = some store → store.slots slot = some k →
      Held L fl events k :=
    fun store slot k hs hk => ⟨before, (v, .open a) :: after, hev, v, store, slot, hs, hk⟩
  rw [ht] at hU
  generalize Mealy.run (step L) fl before = g at *
  have htr : (step L g (v, .open a)).2.trace = (lunetPaxeOpen L (g.session v) a).2.2.trace := rfl
  have hret : Ret.opened (lunetPaxeOpen L (g.session v) a).1 (lunetPaxeOpen L (g.session v) a).2.1 =
      .opened (.rc rcOk) mem := hr
  have hdid := open_did L (g.session v) a
  rw [htr] at hU
  generalize lunetPaxeOpen L (g.session v) a = r at hU hret hdid
  cases hdid with
  | refused m _ => cases hret
  | unconfigured _ => cases hret
  | short m _ _ _ _ => cases hret
  | broken _ _ _ => cases hret
  | dropped _ _ _ _ => cases hret
  | @accepted store frame out h f p d t hs hv ho hroom =>
    have hs : (g.sessions v).store = some store := hs
    have hok : (Dek.open L store frame (g.session v).diag g.trace).result = .ok (h, f, p) := congrArg (·.result) ho
    have htrace : (Dek.open L store frame (g.session v).diag g.trace).trace = t := congrArg (·.trace) ho
    cases hret
    dsimp only at hU
    rw [← htrace] at hU
    rcases open_ok hL.toContract hok with ⟨n, c, k, at', hd, hopen⟩ |
      ⟨en, env, bn, c, tag, k, dek, at', henv, -, hopen⟩
    · have hkey : Held L fl events k.mem := hheld store (h.fromId, f.epoch) k.mem hs (slots_some.mpr at'.key)
      rw [hopen] at hU
      obtain ⟨e, he, hk, hn, haad, hout⟩ := hU.of_append rfl (List.mem_singleton_self _) rfl hkey
      obtain ⟨em, hem, hm⟩ := Ledger.standard hL hl at'.bytes hd he hk hn haad hout
      refine ⟨em, store, hems em hem, by rw [hm.bytes]; exact hv.frame_eq, hs, ?_, ?_⟩
      · rw [hm.dest, at'.dest]
      · rw [hm.payload, hm.channel, at'.mode]
        have hsource : em.sender = h.fromId := hm.source
        rw [hsource]
    · -- no key was drawn, so no fanout made this envelope
      have hkey : Held L fl events k.mem := hheld store (h.fromId, f.epoch) k.mem hs (slots_some.mpr at'.key)
      rw [hopen] at hU
      obtain ⟨recs, hrecs, hacc⟩ := hl
      obtain ⟨e, he, hk, hn, haad, hout⟩ := hU.of_append rfl (List.mem_cons_self ..) rfl hkey
      obtain ⟨r, hr, -⟩ := Ledger.envelope hL hacc henv he hk hn haad hout
      rw [hkeys, List.map_eq_nil_iff] at hrecs
      rw [hrecs] at hr
      cases hr

def linkKey : Key := ⟨List.replicate keyBytes 7, by decide⟩

def linkStore (id peer : UInt16) : KeyStore := KeyStore.ofLinks id [((peer, ⟨3, by decide⟩), linkKey)]

def linked : Fleet Bool :=
  ⟨fun v => { Session.start with store := some (if v then linkStore 1 2 else linkStore 2 1) }, []⟩

def sealHi : SealCall := ⟨.mem [104, 105], 2, 100, ⟨.mem (List.replicate 39 0), some 0⟩⟩

def openIn (frame : Bytes) : OpenCall := ⟨.mem frame, ⟨.mem [0, 0], some 0, some 0, some 0, some 0⟩⟩

theorem linked_delivers (hL : L.Correct) :
    let e : Epoch := ⟨3, by decide⟩
    let n := (randomNonce L []).1
    let enc := Standard.frameEnc L linkKey ⟨1, 2, 100⟩ e n [104, 105]
    let sent := (step L linked (true, .seal sealHi)).2
    let received := step L sent (false, .open (openIn (Standard.frame L linkKey ⟨1, 2, 100⟩ e n [104, 105])))
    received.1 = .opened (.rc rcOk) ⟨.mem [104, 105], some 2, some 1, some 100, some (modeCode .standard)⟩ ∧
      received.2.trace = [.drawNonce n, .encrypt enc, .decrypt ⟨linkKey, n, enc.aad, enc.output, true⟩] := by
  intro e n enc sent received
  obtain ⟨hid, hslot⟩ := ofLinks_single 1 (2, e) linkKey
  obtain ⟨hid', hslot'⟩ := ofLinks_single 2 (1, e) linkKey
  have hcur : (linkStore 1 2).keyForSendCurrent 2 = some (e, ⟨linkKey⟩) := by decide +kernel
  have hseal := dekSeal_eq hL.toContract (S := linkStore 1 2) 100 [] hslot
      (show [104, 105].length ≤ Standard.maxPayload by decide)
  have hsent : sent.trace = [.drawNonce n, .encrypt enc] := by
    have hlen := Standard.frame_length hL.toContract linkKey ⟨1, 2, 100⟩ e n [104, 105]
    have hst : (linked.session true).store = some (linkStore 1 2) := rfl
    have htr : (linked.session true).trace = [] := rfl
    have hto : checkU16 2 "destination node id" = .ok 2 := rfl
    have hch : checkChannel 100 = .ok 100 := rfl
    show (lunetPaxeSeal L (linked.session true) sealHi).2.2.trace = _
    simp only [lunetPaxeSeal, sealHi, hto, hch, bufIn, bufOut, hst, htr, hcur, hseal, Option.isNone_some,
      Bool.false_eq_true, if_false]
    rw [if_neg (by decide)]
    split <;> rfl
  have hopen := open_own_frame hL 100 n [104, 105] .init sent.trace hslot'
  have hst : (sent.session false).store = some (linkStore 2 1) := rfl
  have hdiag : (sent.session false).diag = .init := rfl
  have htr : (sent.session false).trace = sent.trace := rfl
  have hcall : lunetPaxeOpen L (sent.session false) (openIn (Standard.frame L linkKey ⟨1, 2, 100⟩ e n [104, 105])) =
      (.rc rcOk, ⟨.mem [104, 105], some 2, some 1, some 100, some (modeCode .standard)⟩,
        { sent.session false with diag := Diag.init.recordRxOk, trace := sent.trace ++
          [.decrypt ⟨linkKey, n, enc.aad, enc.output, true⟩] }) := by
    have hopen' : Dek.open L (linkStore 2 1) (Standard.frame L linkKey ⟨1, 2, 100⟩ e n [104, 105]) .init
        sent.trace = _ := hopen
    simp only [lunetPaxeOpen, openIn, bufIn, bufOut, hst, hdiag, htr, hopen', Option.isNone_some, Bool.or_false,
      Bool.false_eq_true, if_false]
    rw [if_neg (by decide)]
    rfl
  constructor
  · show Ret.opened (lunetPaxeOpen L (sent.session false)
        (openIn (Standard.frame L linkKey ⟨1, 2, 100⟩ e n [104, 105]))).1
      (lunetPaxeOpen L (sent.session false) (openIn (Standard.frame L linkKey ⟨1, 2, 100⟩ e n [104, 105]))).2.1 = _
    rw [hcall]
  · show (lunetPaxeOpen L (sent.session false)
      (openIn (Standard.frame L linkKey ⟨1, 2, 100⟩ e n [104, 105]))).2.2.trace = _
    rw [hcall, hsent]
    rfl

theorem accepted_was_sealed_linked :
    let L := aesGcm counterBytes
    let e : Epoch := ⟨3, by decide⟩
    ∃ (em : Emission UInt16) (store : KeyStore), Sealed L linked [(true, .seal sealHi)] em ∧
      em.frame = Standard.frame L linkKey ⟨1, 2, 100⟩ e (randomNonce L []).1 [104, 105] ∧
      store.localId = em.toId := by
  intro L e
  have hL : L.Correct := correct_of_exact (aesGcm_contract counterBytes) (aesGcm_exact counterBytes)
  clear_value L
  obtain ⟨hr, ht⟩ := linked_delivers hL
  let frame := Standard.frame L linkKey ⟨1, 2, 100⟩ e (randomNonce L []).1 [104, 105]
  let events : List (Bool × Call) := [(true, .seal sealHi), (false, .open (openIn frame))]
  have hU : Aead.Unforgeable (Held L linked events) (Mealy.run (step L) linked events).trace := by
    let n := (randomNonce L []).1
    let enc := Standard.frameEnc L linkKey ⟨1, 2, 100⟩ e n [104, 105]
    have ht : (Mealy.run (step L) linked events).trace =
        [.drawNonce n, .encrypt enc] ++ [.decrypt ⟨linkKey, n, enc.aad, enc.output, true⟩] := ht
    rw [ht]
    exact (Aead.unforgeable_of_decs_nil rfl).snoc fun _ _ => ⟨enc, by simp [Aead.encs], rfl, rfl, rfl, rfl⟩
  obtain ⟨em, store, hs, hf, -, hto, -⟩ :=
    accepted_was_sealed hL rfl events hU [(true, .seal sealHi)] false _ [] _ rfl hr
  have hframe : bufIn (openIn frame).frame "frame" = .ok frame := rfl
  exact ⟨em, store, hs, Except.ok.inj (hf.symm.trans hframe), hto⟩

end Fleet

end Paxe

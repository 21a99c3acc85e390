import Paxe.AesGcm
import Paxe.FfiSound
import Paxe.Lib.Mealy
import Paxe.StatsSound

/-!
# Counter accounting

Over any sequence of exported calls the counters say how many frames were
sealed, opened and dropped. The reason is counted inside `standard` and `dek`
and the total in `ffi`, so each path through an export pairs one with one.
-/

namespace Paxe
open Wire

/-! ## Updates of the counters -/

namespace Stats

def bumpOk (st : Stats) : Stats :=
  { st with rxTotal := saturatingAdd st.rxTotal 1, rxOk := saturatingAdd st.rxOk 1 }

def bumpDrop (st : Stats) (r : RejectReason) : Stats :=
  { st.bumpReject r with rxTotal := saturatingAdd st.rxTotal 1 }

def bumpSealed (st : Stats) : Stats :=
  { st with txTotal := saturatingAdd st.txTotal 1, txStandard := saturatingAdd st.txStandard 1 }

def bumpOversize (st : Stats) : Stats := { st with txOversize := saturatingAdd st.txOversize 1 }

theorem reject_bumpDrop (st : Stats) (r x : RejectReason) :
    (st.bumpDrop r).reject x = if x = r then saturatingAdd (st.reject r) 1 else st.reject x :=
  reject_bumpReject st r x

theorem rejects_bumpDrop {st : Stats} {r : RejectReason} (h : st.reject r < u64Max) :
    (st.bumpDrop r).rejects = st.rejects + 1 :=
  rejects_bumpReject h

structure Le (a b : Stats) : Prop where
  rxTotal : a.rxTotal ≤ b.rxTotal
  rxOk : a.rxOk ≤ b.rxOk
  reject : ∀ r, a.reject r ≤ b.reject r
  txTotal : a.txTotal ≤ b.txTotal
  txStandard : a.txStandard ≤ b.txStandard
  txDek : a.txDek ≤ b.txDek
  txOversize : a.txOversize ≤ b.txOversize

theorem Le.refl (a : Stats) : Le a a := by
  constructor <;> simp

theorem Le.trans {a b c : Stats} (h : Le a b) (h' : Le b c) : Le a c where
  rxTotal := Nat.le_trans h.rxTotal h'.rxTotal
  rxOk := Nat.le_trans h.rxOk h'.rxOk
  reject r := Nat.le_trans (h.reject r) (h'.reject r)
  txTotal := Nat.le_trans h.txTotal h'.txTotal
  txStandard := Nat.le_trans h.txStandard h'.txStandard
  txDek := Nat.le_trans h.txDek h'.txDek
  txOversize := Nat.le_trans h.txOversize h'.txOversize

structure Capped (a : Stats) : Prop where
  rxTotal : a.rxTotal ≤ u64Max
  rxOk : a.rxOk ≤ u64Max
  reject : ∀ r, a.reject r ≤ u64Max
  txTotal : a.txTotal ≤ u64Max
  txStandard : a.txStandard ≤ u64Max
  txDek : a.txDek ≤ u64Max
  txOversize : a.txOversize ≤ u64Max

theorem zero_capped : Stats.zero.Capped := by
  constructor <;> simp [Stats.zero, Stats.reject]

end Stats

/-! ## One call -/

/-- A call with whether a store was configured, and its reply. -/
abbrev Entry := Call × Bool × Ret

def Session.observe (L : Libsodium) (s : Session) (c : Call) : (Bool × Ret) × Session :=
  ((s.store.isSome, (s.step L c).1), (s.step L c).2)

def okOpen : Entry → Bool
  | (.open _, _, .opened x _) => x == .rc rcOk
  | _ => false

def okSeal : Entry → Bool
  | (.seal _, _, .sealed x _) => x == .rc rcOk
  | _ => false

def droppedIn : Entry → Bool
  | (.open _, configured, .opened x _) => configured && x == .rc rcDrop
  | (.frameForUs _, configured, .code x) => configured && x == .rc 0
  | _ => false

/-- What a call does to the counters, by what it replied. -/
inductive Tallied (e : Entry) (st : Stats) : Stats → Prop
  | opened : okOpen e = true → okSeal e = false → droppedIn e = false → Tallied e st st.bumpOk
  | dropped (r : RejectReason) : okOpen e = false → okSeal e = false → droppedIn e = true →
      Tallied e st (st.bumpDrop r)
  | sealed : okOpen e = false → okSeal e = true → droppedIn e = false → Tallied e st st.bumpSealed
  | oversize : okOpen e = false → okSeal e = false → droppedIn e = false → Tallied e st st.bumpOversize
  | quiet : okOpen e = false → okSeal e = false → droppedIn e = false → Tallied e st st

theorem Tallied.quiet_of_eq {e : Entry} {st st' : Stats} (h : st' = st) (ho : okOpen e = false)
    (hs : okSeal e = false) (hd : droppedIn e = false) : Tallied e st st' := by
  subst h
  exact .quiet ho hs hd

-- The open counts the reason first and the total last, the gate the other way.
theorem recordRxDrop_recordReject (d : Diag) (r : RejectReason) :
    (d.recordReject r).recordRxDrop.stats = d.stats.bumpDrop r := by
  simp only [Diag.recordRxDrop, Diag.recordReject_stats]
  rfl

theorem recordReject_recordRxDrop (d : Diag) (r : RejectReason) :
    (d.recordRxDrop.recordReject r).stats = d.stats.bumpDrop r := by
  rw [Diag.recordReject_stats]
  rfl

theorem open_tally {L : Libsodium} (hL : L.Contract) (s : Session) (a : OpenCall) :
    Tallied (.open a, s.store.isSome, .opened (lunetPaxeOpen L s a).1 (lunetPaxeOpen L s a).2.1) s.diag.stats
      (lunetPaxeOpen L s a).2.2.diag.stats := by
  have hd := open_did L s a
  generalize lunetPaxeOpen L s a = r at hd
  cases hd with
  | refused m _ => exact .quiet rfl rfl (by simp [droppedIn, rcInval, rcDrop])
  | unconfigured hs => exact .quiet rfl rfl (by simp [droppedIn, hs])
  | short m _ _ ho _ =>
    have hdiag := open_ok_diag hL ho
    exact .quiet_of_eq (by rw [← hdiag]; rfl) rfl rfl (by simp [droppedIn, rcInval, rcDrop])
  | accepted _ _ ho _ =>
    obtain rfl := open_ok_diag hL ho
    exact .opened rfl rfl (by simp [droppedIn, rcOk, rcDrop])
  | broken _ _ ho => exact absurd ho (open_not_sodium hL)
  | dropped hs _ ho _ =>
    obtain ⟨r, -, rfl⟩ := open_err_diag hL ho
    rw [recordRxDrop_recordReject]
    exact .dropped r rfl rfl (by simp [droppedIn, hs])

theorem gate_tally (s : Session) (b : InBuf) :
    Tallied (.frameForUs b, s.store.isSome, .code (lunetPaxeFrameForUs s b).1) s.diag.stats
      (lunetPaxeFrameForUs s b).2.diag.stats := by
  have hd := gate_did s b
  generalize lunetPaxeFrameForUs s b = r at hd
  cases hd with
  | refused m _ => exact .quiet rfl rfl (by simp [droppedIn, rcInval])
  | unconfigured hs => exact .quiet rfl rfl (by simp [droppedIn, hs])
  | pass _ _ _ _ => exact .quiet rfl rfl (by simp [droppedIn])
  | drop hs _ _ =>
    rw [recordReject_recordRxDrop]
    exact .dropped .plaintext rfl rfl (by simp [droppedIn, hs])

theorem seal_tally (L : Libsodium) (s : Session) (a : SealCall) :
    Tallied (.seal a, s.store.isSome, .sealed (lunetPaxeSeal L s a).1 (lunetPaxeSeal L s a).2.1) s.diag.stats
      (lunetPaxeSeal L s a).2.2.diag.stats := by
  have hd := seal_did L s a
  generalize lunetPaxeSeal L s a = r at hd
  cases hd with
  | refused m => exact .quiet rfl rfl rfl
  | failed m => exact .quiet rfl rfl rfl
  | oversize m => exact .oversize rfl rfl rfl
  | unsealed t m => exact .quiet rfl rfl rfl
  | short t m => exact .quiet rfl rfl rfl
  | sealed t _ _ _ _ _ _ _ => exact .sealed rfl rfl rfl

theorem step_tally {L : Libsodium} (hL : L.Contract) (s : Session) (c : Call) :
    Tallied (c, s.store.isSome, (s.step L c).1) s.diag.stats (s.step L c).2.diag.stats := by
  cases c with
  | init env => exact .quiet_of_eq (init_did s env).2 rfl rfl rfl
  | setLocalId v rc =>
    have hd := setLocalId_did s v rc
    simp only [Session.step]
    generalize lunetPaxeSetLocalId s v rc = r at hd
    cases hd <;> exact .quiet rfl rfl rfl
  | shutdown => exact .quiet rfl rfl rfl
  | keystoreSet p e k heap =>
    have hd := keystoreSet_did s p e k heap
    simp only [Session.step]
    generalize lunetPaxeKeystoreSet s p e k heap = r at hd
    cases hd <;> exact .quiet rfl rfl rfl
  | keystoreRetire p e =>
    have hd := keystoreRetire_did s p e
    simp only [Session.step]
    generalize lunetPaxeKeystoreRetire s p e = r at hd
    cases hd <;> exact .quiet rfl rfl rfl
  | keystoreClear =>
    refine .quiet_of_eq ?_ rfl rfl rfl
    simp only [Session.step, lunetPaxeKeystoreClear]
    split <;> rfl
  | «seal» a => exact seal_tally L s a
  | «open» a => exact open_tally hL s a
  | frameForUs b => exact gate_tally s b
  | stats out => exact .quiet rfl rfl rfl
  | failPolicySet name => exact .quiet_of_eq (failPolicySet_did s name).2 rfl rfl rfl

/-! ## Runs -/

theorem Tallied.grows {e : Entry} {st st' : Stats} (h : Tallied e st st') (hc : st.Capped) :
    st.Le st' ∧ st'.Capped := by
  have hle := Stats.Le.refl st
  cases h with
  | opened =>
    exact ⟨{ hle with rxTotal := le_saturatingAdd hc.rxTotal, rxOk := le_saturatingAdd hc.rxOk },
      { hc with rxTotal := saturatingAdd_le _, rxOk := saturatingAdd_le _ }⟩
  | dropped r =>
    refine ⟨{ hle with rxTotal := le_saturatingAdd hc.rxTotal, reject := fun x => ?_ },
      { hc with rxTotal := saturatingAdd_le _, reject := fun x => ?_ }⟩
    · rw [Stats.reject_bumpDrop]
      split
      · rename_i hx
        rw [hx]
        exact le_saturatingAdd (hc.reject r)
      · exact Nat.le_refl _
    · rw [Stats.reject_bumpDrop]
      split
      · exact saturatingAdd_le _
      · exact hc.reject x
  | sealed =>
    exact ⟨{ hle with txTotal := le_saturatingAdd hc.txTotal, txStandard := le_saturatingAdd hc.txStandard },
      { hc with txTotal := saturatingAdd_le _, txStandard := saturatingAdd_le _ }⟩
  | oversize =>
    exact ⟨{ hle with txOversize := le_saturatingAdd hc.txOversize }, { hc with txOversize := saturatingAdd_le _ }⟩
  | quiet => exact ⟨hle, hc⟩

structure Tally (h : List Entry) (st : Stats) : Prop where
  rxOk : st.rxOk = h.countP okOpen
  rejects : st.rejects = h.countP droppedIn
  rxTotal : st.rxTotal = st.rxOk + st.rejects
  rx_le : st.rxTotal ≤ h.length
  txTotal : st.txTotal = h.countP okSeal
  txStandard : st.txStandard = h.countP okSeal
  txDek : st.txDek = 0

theorem Tally.zero : Tally [] Stats.zero := by
  constructor <;> decide

theorem countP_snoc (p : Entry → Bool) (h : List Entry) (e : Entry) :
    (h ++ [e]).countP p = h.countP p + (p e).toNat := by
  rw [List.countP_append, List.countP_singleton]
  cases p e <;> rfl

/-- While the log is shorter than a counter is wide, no counter is at its end
and each update is exact. -/
theorem Tally.snoc {h : List Entry} {e : Entry} {st st' : Stats} (ht : Tally h st) (he : Tallied e st st')
    (hn : h.length < u64Max) : Tally (h ++ [e]) st' := by
  obtain ⟨h1, h2, h3, h4, h5, h6, h7⟩ := ht
  have hs : h.countP okSeal ≤ h.length := List.countP_le_length
  have hlen : (h ++ [e]).length = h.length + 1 := List.length_append
  have c1 := countP_snoc okOpen h e
  have c2 := countP_snoc droppedIn h e
  have c3 := countP_snoc okSeal h e
  cases he with
  | opened ho hse hd =>
    rw [ho] at c1; rw [hd] at c2; rw [hse] at c3
    have e1 : st.bumpOk.rxTotal = st.rxTotal + 1 := saturatingAdd_one (by omega)
    have e2 : st.bumpOk.rxOk = st.rxOk + 1 := saturatingAdd_one (by omega)
    have e3 : st.bumpOk.rejects = st.rejects := rfl
    exact ⟨by rw [e2, h1, c1]; rfl, h2.trans c2.symm, by omega, by omega, h5.trans c3.symm, h6.trans c3.symm, h7⟩
  | dropped r ho hse hd =>
    rw [ho] at c1; rw [hd] at c2; rw [hse] at c3
    have hr := Stats.reject_le_rejects st r
    have e1 : (st.bumpDrop r).rxTotal = st.rxTotal + 1 := saturatingAdd_one (by omega)
    have e2 : (st.bumpDrop r).rxOk = st.rxOk := rfl
    have e3 : (st.bumpDrop r).rejects = st.rejects + 1 := Stats.rejects_bumpDrop (by omega)
    exact ⟨h1.trans c1.symm, by rw [e3, h2, c2]; rfl, by omega, by omega, h5.trans c3.symm, h6.trans c3.symm, h7⟩
  | sealed ho hse hd =>
    rw [ho] at c1; rw [hd] at c2; rw [hse] at c3
    have e1 : st.bumpSealed.txTotal = st.txTotal + 1 := saturatingAdd_one (by omega)
    have e2 : st.bumpSealed.txStandard = st.txStandard + 1 := saturatingAdd_one (by omega)
    exact ⟨h1.trans c1.symm, h2.trans c2.symm, h3, hlen ▸ Nat.le_succ_of_le h4, by rw [e1, h5, c3]; rfl,
      by rw [e2, h6, c3]; rfl, h7⟩
  | oversize ho hse hd =>
    rw [ho] at c1; rw [hd] at c2; rw [hse] at c3
    exact ⟨h1.trans c1.symm, h2.trans c2.symm, h3, hlen ▸ Nat.le_succ_of_le h4, h5.trans c3.symm,
      h6.trans c3.symm, h7⟩
  | quiet ho hse hd =>
    rw [ho] at c1; rw [hd] at c2; rw [hse] at c3
    exact ⟨h1.trans c1.symm, h2.trans c2.symm, h3, hlen ▸ Nat.le_succ_of_le h4, h5.trans c3.symm,
      h6.trans c3.symm, h7⟩

section
variable {L : Libsodium} (hL : L.Contract) {s : Session}
include hL

theorem run_tally (h0 : s.diag.stats = Stats.zero) (calls : List Call) (hn : calls.length ≤ u64Max) :
    Tally (Mealy.log (Session.observe L) s calls) (Mealy.run (Session.observe L) s calls).diag.stats := by
  refine Mealy.log_inv (Session.observe L)
    (I := fun h t => h.length ≤ u64Max → Tally h t.diag.stats) ?_ ?_ calls (by simpa using hn)
  · exact fun _ => h0 ▸ Tally.zero
  · intro h t c ih hl
    rw [List.length_append, List.length_singleton] at hl
    exact (ih (by omega)).snoc (step_tally hL t c) (by omega)

theorem run_grows (hc : s.diag.stats.Capped) (calls : List Call) :
    s.diag.stats.Le (Mealy.run (Session.observe L) s calls).diag.stats ∧
      (Mealy.run (Session.observe L) s calls).diag.stats.Capped := by
  refine Mealy.run_inv (Session.observe L) (I := fun t => s.diag.stats.Le t.diag.stats ∧ t.diag.stats.Capped)
    ⟨Stats.Le.refl _, hc⟩ (fun t c ⟨hle, hcap⟩ => ?_) calls
  obtain ⟨hle', hcap'⟩ := (step_tally hL t c).grows hcap
  exact ⟨hle.trans hle', hcap'⟩

end

/-- The counters of a session are the numbers of what its calls replied, and
none of them ever goes down. -/
theorem counters_account {L : Libsodium} (hL : L.Contract) (s : Session) (h0 : s.diag.stats = Stats.zero)
    (calls : List Call) (hn : calls.length < 2 ^ 64) :
    let log := Mealy.log (Session.observe L) s calls
    let st := (Mealy.run (Session.observe L) s calls).diag.stats
    st.rxTotal = st.rxOk + st.rejects ∧ st.txTotal = st.txStandard + st.txDek ∧ st.txDek = 0 ∧
    st.rxOk = log.countP okOpen ∧ st.rxTotal - st.rxOk = log.countP droppedIn ∧
    st.txStandard = log.countP okSeal ∧
    ∀ pre post, calls = pre ++ post → (Mealy.run (Session.observe L) s pre).diag.stats.Le st := by
  intro log st
  have ht : Tally log st := run_tally hL h0 calls (by simp only [u64Max]; omega)
  obtain ⟨h1, h2, h3, -, h5, h6, h7⟩ := ht
  refine ⟨h3, by omega, h7, h1, by omega, h6, ?_⟩
  rintro pre post rfl
  have hpre := run_grows hL (s := s) (h0 ▸ Stats.zero_capped) pre
  simp only [st, Mealy.run_append]
  exact (run_grows hL hpre.2 post).1

theorem counters_account_session :
    let key : Key := ⟨List.replicate 32 7, rfl⟩
    let calls : List Call := [.setLocalId 2 0, .keystoreSet 2 0 (.mem key.val) ⟨true, true⟩,
      .seal ⟨.mem [1, 2, 3], 2, 100, ⟨.mem (List.replicate 40 0), some 0⟩⟩, .frameForUs (.mem [1]),
      .open ⟨.mem [0, 1, 0, 2, 0, 0, 0, 0, 4], ⟨.mem [], some 0, some 0, some 0, some 0⟩⟩, .shutdown]
    let log := Mealy.log (Session.observe (aesGcm counterBytes)) Session.start calls
    let st := (Mealy.run (Session.observe (aesGcm counterBytes)) Session.start calls).diag.stats
    log.countP okSeal = 1 ∧ log.countP droppedIn = 2 ∧ st.txStandard = 1 ∧ st.rxTotal = st.rxOk + st.rejects ∧
      st.rxTotal - st.rxOk = 2 := by
  intro key calls log st
  obtain ⟨h1, -, -, -, h5, h6, -⟩ :=
    counters_account (aesGcm_contract counterBytes) Session.start rfl calls (by decide)
  have hs : log.countP okSeal = 1 := by decide +kernel
  have hd : log.countP droppedIn = 2 := by decide +kernel
  exact ⟨hs, hd, h6.trans hs, h1, h5.trans hd⟩

end Paxe

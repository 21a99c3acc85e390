import Paxe.Pipeline
import Paxe.Windows

/-!
# The order of arrival

There is no session between two nodes, and no window against replays: the
receive side keeps nothing of a datagram but its counters, its memo and its
log lines. So what becomes of a datagram does not depend on those before it.
-/

namespace Paxe
open Wire

namespace Diag

/-- The same counters, policy and memo, and the same lines up to their order. -/
structure Level (d d' : Diag) : Prop where
  stats : d.stats = d'.stats
  policy : d.policy = d'.policy
  logged : d.logged = d'.logged
  stderr : d.stderr.Perm d'.stderr

theorem Level.refl (d : Diag) : Level d d := ⟨rfl, rfl, rfl, .refl _⟩

theorem Level.trans {d₁ d₂ d₃ : Diag} (h : Level d₁ d₂) (h' : Level d₂ d₃) : Level d₁ d₃ where
  stats := h.stats.trans h'.stats
  policy := h.policy.trans h'.policy
  logged := h.logged.trans h'.logged
  stderr := h.stderr.trans h'.stderr

theorem Level.recordRxDrop {d d' : Diag} (h : Level d d') : Level d.recordRxDrop d'.recordRxDrop where
  stats := by simp only [Diag.recordRxDrop, h.stats]
  policy := h.policy
  logged := h.logged
  stderr := h.stderr

theorem Level.recordRxOk {d d' : Diag} (h : Level d d') : Level d.recordRxOk d'.recordRxOk where
  stats := by simp only [Diag.recordRxOk, h.stats]
  policy := h.policy
  logged := h.logged
  stderr := h.stderr

theorem Level.recordReject {d d' : Diag} (h : Level d d') (r : RejectReason) :
    Level (d.recordReject r) (d'.recordReject r) := by
  have hst : d.stats.bumpReject r = d'.stats.bumpReject r := by rw [h.stats]
  cases hp : d.policy with
  | silent =>
    rw [recordReject_silent r hp, recordReject_silent r (h.policy ▸ hp)]
    exact ⟨hst, h.policy, h.logged, h.stderr⟩
  | verbose =>
    rw [recordReject_verbose r hp, recordReject_verbose r (h.policy ▸ hp)]
    exact ⟨hst, h.policy, h.logged, h.stderr.append_right _⟩
  | logOnce =>
    by_cases ht : Told d.logged r
    · rw [recordReject_again r hp ht, recordReject_again r (h.policy ▸ hp) (h.logged ▸ ht)]
      exact ⟨hst, h.policy, h.logged, h.stderr⟩
    · rw [recordReject_first r hp ht, recordReject_first r (h.policy ▸ hp) (h.logged ▸ ht)]
      exact ⟨hst, h.policy, congrArg (· ||| r.bit) h.logged, h.stderr.append_right _⟩

/-! ## Two rejections -/

theorem index_inj {r x : RejectReason} (h : r.index = x.index) : r = x := by
  cases r <;> cases x <;> first | rfl | cases h

theorem bumpReject_comm (st : Stats) {r x : RejectReason} (h : r ≠ x) :
    (st.bumpReject r).bumpReject x = (st.bumpReject x).bumpReject r := by
  have hi : (r.index : Nat) ≠ x.index := fun hi => h (index_inj (Fin.ext hi))
  have hx : (st.bumpReject r).reject x = st.reject x := by rw [Stats.reject_bumpReject, if_neg (Ne.symm h)]
  have hr : (st.bumpReject x).reject r = st.reject r := by rw [Stats.reject_bumpReject, if_neg h]
  unfold Stats.bumpReject at hr hx ⊢
  simp only [hr, hx]
  rw [Vector.set_comm _ _ hi]

theorem lines_swap (l : List String) (a b : String) : (l ++ [a] ++ [b]).Perm (l ++ [b] ++ [a]) := by
  rw [List.append_assoc, List.append_assoc]
  exact (List.Perm.swap b a []).append_left l

theorem recordReject_swap (d : Diag) (r x : RejectReason) :
    Level ((d.recordReject r).recordReject x) ((d.recordReject x).recordReject r) := by
  by_cases hrx : r = x
  · rw [hrx]
    exact .refl _
  · have hst := bumpReject_comm d.stats hrx
    cases hp : d.policy with
    | silent =>
      simp only [recordReject_silent, hp]
      exact ⟨hst, rfl, rfl, .refl _⟩
    | verbose =>
      simp only [recordReject_verbose, hp]
      exact ⟨hst, rfl, rfl, lines_swap _ _ _⟩
    | logOnce =>
      -- What one of them adds to the memo is nothing to the other.
      have hr : ∀ m, Told (m ||| x.bit) r ↔ Told m r := by
        intro m
        simp [told_or, hrx]
      have hx : ∀ m, Told (m ||| r.bit) x ↔ Told m x := by
        intro m
        simp [told_or, Ne.symm hrx]
      by_cases hr' : Told d.logged r
      · by_cases hx' : Told d.logged x
        · simp only [recordReject_again, hp, hr', hx']
          exact ⟨hst, rfl, rfl, .refl _⟩
        · simp only [recordReject_again, recordReject_first, hp, hr', hx', hr, not_false_eq_true]
          exact ⟨hst, rfl, rfl, .refl _⟩
      · by_cases hx' : Told d.logged x
        · simp only [recordReject_again, recordReject_first, hp, hr', hx', hx, not_false_eq_true]
          exact ⟨hst, rfl, rfl, .refl _⟩
        · simp only [recordReject_first, hp, hr', hx', hr, hx, not_false_eq_true]
          refine ⟨hst, rfl, ?_, lines_swap _ _ _⟩
          dsimp only
          rw [UInt64.or_assoc, UInt64.or_comm r.bit, ← UInt64.or_assoc]

/-! ## One frame -/

/-- What is logged does not depend on the counters. -/
theorem recordReject_counters (d : Diag) (st : Stats) (r : RejectReason) :
    { d with stats := st }.recordReject r = { d.recordReject r with stats := st.bumpReject r } := by
  cases hp : d.policy with
  | silent => simp only [recordReject_silent, hp]
  | verbose => simp only [recordReject_verbose, hp]
  | logOnce =>
    by_cases ht : Told d.logged r
    · simp only [recordReject_again, hp, ht]
    · simp only [recordReject_first, hp, ht, not_false_eq_true]

theorem recordReject_rxDrop (d : Diag) (r : RejectReason) :
    d.recordRxDrop.recordReject r = (d.recordReject r).recordRxDrop := by
  unfold recordRxDrop
  rw [recordReject_counters, recordReject_stats]
  rfl

theorem recordReject_rxOk (d : Diag) (r : RejectReason) :
    d.recordRxOk.recordReject r = (d.recordReject r).recordRxOk := by
  unfold recordRxOk
  rw [recordReject_counters, recordReject_stats]
  rfl

/-- A frame is counted as opened, or as dropped for this reason. -/
def count (d : Diag) : Option RejectReason → Diag
  | none => d.recordRxOk
  | some r => (d.recordReject r).recordRxDrop

theorem Level.count {d d' : Diag} (h : Level d d') (c : Option RejectReason) : Level (d.count c) (d'.count c) := by
  cases c with
  | none => exact h.recordRxOk
  | some r => exact (h.recordReject r).recordRxDrop

theorem count_swap (d : Diag) (c c' : Option RejectReason) :
    Level ((d.count c).count c') ((d.count c').count c) := by
  cases c with
  | none =>
    cases c' with
    | none => exact .refl _
    | some r =>
      simp only [count]
      rw [recordReject_rxOk]
      exact .refl _
  | some r =>
    cases c' with
    | none =>
      simp only [count]
      rw [recordReject_rxOk]
      exact .refl _
    | some x =>
      simp only [count]
      rw [recordReject_rxDrop, recordReject_rxDrop]
      exact (recordReject_swap d r x).recordRxDrop.recordRxDrop

end Diag

/-- The counter that a datagram moves beside `rx_total`: none when it opens, and
then it is `rx_ok`. -/
noncomputable def counterOf (L : Libsodium) (store : KeyStore) (frame : Bytes) : Option RejectReason :=
  if prefixLen ≤ frame.length ∧ gateToId frame = store.localId then
    match verdict L store frame with
    | .ok _ => none
    | .error r => some r
  else some .plaintext

section
variable {L : Libsodium} (hL : L.Contract) {s : Session} {store : KeyStore} (hs : s.store = some store)
include hL hs

theorem open_dropped {a : OpenCall} {frame out : Bytes} (hv : a.Valid frame out) {r : RejectReason}
    (hr : verdict L store frame = .error r) :
    ∃ t, lunetPaxeOpen L s a = (.rc rcDrop, a.mem, { s with diag := s.diag.count (some r), trace := t }) := by
  obtain ⟨e, he, hdiag⟩ := (open_follows_verdict hL store frame s.diag s.trace).2 r hr
  have hd := open_did L s a
  generalize lunetPaxeOpen L s a = w at hd ⊢
  cases hd with
  | refused _ hno => exact absurd hv (hno _ _)
  | unconfigured h0 => rw [hs] at h0; cases h0
  | @short store' frame' _ _ _ _ _ _ _ hs' hv' ho _ =>
    obtain rfl : store = store' := Option.some.inj (hs.symm.trans hs')
    obtain rfl : frame = frame' := Except.ok.inj (hv.frame_eq.symm.trans hv'.frame_eq)
    rw [ho] at he
    cases he
  | @accepted store' frame' _ _ _ _ _ _ hs' hv' ho _ =>
    obtain rfl : store = store' := Option.some.inj (hs.symm.trans hs')
    obtain rfl : frame = frame' := Except.ok.inj (hv.frame_eq.symm.trans hv'.frame_eq)
    rw [ho] at he
    cases he
  | broken _ _ ho => exact absurd ho (open_not_sodium hL)
  | @dropped store' frame' _ _ _ t hs' hv' ho _ =>
    obtain rfl : store = store' := Option.some.inj (hs.symm.trans hs')
    obtain rfl : frame = frame' := Except.ok.inj (hv.frame_eq.symm.trans hv'.frame_eq)
    rw [ho] at hdiag
    dsimp only at hdiag
    rw [hdiag]
    exact ⟨t, rfl⟩

theorem open_accepted {a : OpenCall} {frame out p : Bytes} (hv : a.Valid frame out)
    (hroom : frame.length ≤ out.length) (hp : verdict L store frame = .ok p) :
    ∃ t, (lunetPaxeOpen L s a).2.2 = { s with diag := s.diag.count none, trace := t } := by
  obtain ⟨h, f, hok, -⟩ := (open_follows_verdict hL store frame s.diag s.trace).1 p hp
  have hany := open_any L store frame s.diag s.trace
  have hd := open_did L s a
  generalize lunetPaxeOpen L s a = w at hd ⊢
  cases hd with
  | refused _ hno => exact absurd hv (hno _ _)
  | unconfigured h0 => rw [hs] at h0; cases h0
  | @short store' frame' out' _ _ _ _ _ _ hs' hv' ho hlt =>
    obtain rfl : store = store' := Option.some.inj (hs.symm.trans hs')
    obtain rfl : frame = frame' := Except.ok.inj (hv.frame_eq.symm.trans hv'.frame_eq)
    obtain rfl : out = out' := Except.ok.inj (hv.out_eq.symm.trans hv'.out_eq)
    rw [ho] at hany
    rcases hany with ⟨_, _, _, hx, hle⟩ | ⟨_, hx⟩
    · cases hx
      omega
    · cases hx
  | @accepted store' frame' _ _ _ _ _ t _ _ ho _ =>
    obtain rfl := open_ok_diag hL ho
    exact ⟨t, rfl⟩
  | broken _ _ ho => exact absurd ho (open_not_sodium hL)
  | @dropped store' frame' _ _ _ _ hs' hv' ho _ =>
    obtain rfl : store = store' := Option.some.inj (hs.symm.trans hs')
    obtain rfl : frame = frame' := Except.ok.inj (hv.frame_eq.symm.trans hv'.frame_eq)
    rw [ho] at hok
    cases hok

theorem receive_count (d : Datagram) :
    ∃ t, (s.receive L d).2 = { s with diag := s.diag.count (counterOf L store d.bytes), trace := t } := by
  have hg := gate_did s (.mem d.bytes)
  generalize hw : lunetPaxeFrameForUs s (.mem d.bytes) = w at hg
  unfold counterOf
  cases hg with
  | refused m hno => exact absurd rfl (hno _)
  | unconfigured h0 => rw [hs] at h0; cases h0
  | @pass store' frame hs' hf hl hto =>
    obtain rfl : store = store' := Option.some.inj (hs.symm.trans hs')
    obtain rfl : d.bytes = frame := Except.ok.inj hf
    obtain ⟨hp, buf, hb, hroom⟩ := d.ready
    have hv : OpenCall.Valid ⟨.mem d.bytes, d.mem⟩ d.bytes buf := ⟨rfl, hb, hp⟩
    rw [receive_pass L hw, if_pos ⟨hl, hto⟩]
    cases hver : verdict L store d.bytes with
    | ok p => exact open_accepted hL hs hv hroom hver
    | error r =>
      obtain ⟨t, ho⟩ := open_dropped hL hs hv hver
      exact ⟨t, by rw [ho]⟩
  | @drop store' frame hs' hf hno =>
    obtain rfl : store = store' := Option.some.inj (hs.symm.trans hs')
    obtain rfl : d.bytes = frame := Except.ok.inj hf
    rw [receive_drop L hw, if_neg hno, Diag.recordReject_rxDrop]
    exact ⟨s.trace, rfl⟩

end

theorem receive_unconfigured (L : Libsodium) {s : Session} (hs : s.store = none) (d : Datagram) :
    s.receive L d = (⟨.rc 0, none⟩, s) := by
  have hg := gate_did s (.mem d.bytes)
  generalize hw : lunetPaxeFrameForUs s (.mem d.bytes) = w at hg
  cases hg with
  | refused m hno => exact absurd rfl (hno _)
  | unconfigured _ => exact receive_drop L hw
  | pass hs' _ _ _ => rw [hs] at hs'; cases hs'
  | drop hs' _ _ => rw [hs] at hs'; cases hs'

/-! ## What the caller gets -/

section
variable (L : Libsodium) {s t : Session} (h : s.store = t.store)
include h

theorem open_answers (a : OpenCall) :
    (lunetPaxeOpen L s a).1 = (lunetPaxeOpen L t a).1 ∧ (lunetPaxeOpen L s a).2.1 = (lunetPaxeOpen L t a).2.1 := by
  unfold lunetPaxeOpen
  cases bufIn a.frame "frame" with
  | error m => exact ⟨rfl, rfl⟩
  | ok frame =>
    dsimp only
    split
    · exact ⟨rfl, rfl⟩
    · cases bufOut a.mem.out "payload output" with
      | error m => exact ⟨rfl, rfl⟩
      | ok out =>
        rw [h]
        cases t.store with
        | none => exact ⟨rfl, rfl⟩
        | some store =>
          have hr : (Dek.open L store frame s.diag s.trace).result =
              (Dek.open L store frame t.diag t.trace).result :=
            open_congr L rfl (fun _ _ _ => rfl) s.diag t.diag s.trace t.trace
          dsimp only
          rw [hr]
          split
          · exact ⟨rfl, rfl⟩
          · split <;> exact ⟨rfl, rfl⟩
          · exact ⟨rfl, rfl⟩
          · exact ⟨rfl, rfl⟩

theorem gate_answers (b : InBuf) : (lunetPaxeFrameForUs s b).1 = (lunetPaxeFrameForUs t b).1 := by
  unfold lunetPaxeFrameForUs
  cases bufIn b "frame" with
  | error m => rfl
  | ok frame =>
    rw [h]
    cases t.store with
    | none => rfl
    | some store =>
      dsimp only
      split <;> rfl

theorem receive_answers (d : Datagram) : (s.receive L d).1 = (t.receive L d).1 := by
  have hst : (lunetPaxeFrameForUs s (.mem d.bytes)).2.store = (lunetPaxeFrameForUs t (.mem d.bytes)).2.store := by
    rw [gate_store, gate_store, h]
  have hv := gate_answers h (.mem d.bytes)
  obtain ⟨h₁, h₂⟩ := open_answers L hst ⟨.mem d.bytes, d.mem⟩
  simp only [Session.receive, hv]
  split
  · simp only [h₁, h₂]
  · rfl

end

/-! ## Any order -/

/-- Two sessions that differ at most in the order of the log lines and in the
library's history. -/
structure Session.Level (s t : Session) : Prop where
  store : s.store = t.store
  lastError : s.lastError = t.lastError
  diag : s.diag.Level t.diag
  exitHookRegistered : s.exitHookRegistered = t.exitHookRegistered
  coreWarnEmitted : s.coreWarnEmitted = t.coreWarnEmitted

theorem receive_keeps {L : Libsodium} (hL : L.Contract) {s t : Session} (h : s.Level t) (d : Datagram) :
    (s.receive L d).2.Level (t.receive L d).2 := by
  cases hs : s.store with
  | none =>
    rw [receive_unconfigured L hs, receive_unconfigured L (h.store ▸ hs)]
    exact h
  | some store =>
    obtain ⟨_, hs'⟩ := receive_count hL hs d
    obtain ⟨_, ht'⟩ := receive_count hL (h.store ▸ hs : t.store = some store) d
    rw [hs', ht']
    exact ⟨h.store, h.lastError, h.diag.count _, h.exitHookRegistered, h.coreWarnEmitted⟩

theorem receive_swap {L : Libsodium} (hL : L.Contract) (s : Session) (d e : Datagram) :
    ((s.receive L d).2.receive L e).2.Level ((s.receive L e).2.receive L d).2 := by
  cases hs : s.store with
  | none =>
    rw [receive_unconfigured L hs d, receive_unconfigured L hs e, receive_unconfigured L hs d]
    exact ⟨rfl, rfl, .refl _, rfl, rfl⟩
  | some store =>
    obtain ⟨td, hd⟩ := receive_count hL hs d
    obtain ⟨te, he⟩ := receive_count hL hs e
    obtain ⟨_, hde⟩ := receive_count hL (s := (s.receive L d).2) (by rw [hd]; exact hs) e
    obtain ⟨_, hed⟩ := receive_count hL (s := (s.receive L e).2) (by rw [he]; exact hs) d
    rw [hde, hed, hd, he]
    exact ⟨rfl, rfl, s.diag.count_swap _ _, rfl, rfl⟩

theorem receive_commutes {L : Libsodium} (hL : L.Contract) : Mealy.Commutes (Session.receive L) Session.Level where
  refl _ := ⟨rfl, rfl, .refl _, rfl, rfl⟩
  trans h h' := ⟨h.store.trans h'.store, h.lastError.trans h'.lastError, h.diag.trans h'.diag,
    h.exitHookRegistered.trans h'.exitHookRegistered, h.coreWarnEmitted.trans h'.coreWarnEmitted⟩
  keeps d h := receive_keeps hL h d
  swap s d e := receive_swap hL s d e

/-- The order of arrival is not seen. Whatever came before, a datagram is
answered as if it were the first, so also when it comes again; and two nodes that
receive the same datagrams in different orders end with the same keys, last
error, counters, policy and memo, and with the same log lines but for their
order. -/
theorem arrival_order {L : Libsodium} (hL : L.Contract) (s : Session) {ds es : List Datagram} (h : ds.Perm es) :
    Mealy.log (Session.receive L) s ds = ds.map (fun d => (d, (s.receive L d).1)) ∧
    Mealy.log (Session.receive L) s es = es.map (fun d => (d, (s.receive L d).1)) ∧
    (Mealy.run (Session.receive L) s ds).store = s.store ∧
    (Mealy.run (Session.receive L) s ds).lastError = s.lastError ∧
    (Mealy.run (Session.receive L) s ds).Level (Mealy.run (Session.receive L) s es) := by
  have hkeep : ∀ (t : Session) (d : Datagram), t.store = s.store → (t.receive L d).2.store = s.store ∧
      (t.receive L d).2.lastError = t.lastError := by
    intro t d ht
    cases hs : t.store with
    | none =>
      rw [receive_unconfigured L hs]
      exact ⟨ht, rfl⟩
    | some store =>
      obtain ⟨_, h'⟩ := receive_count hL hs d
      rw [h']
      exact ⟨ht, rfl⟩
  have hlog : ∀ is : List Datagram,
      Mealy.log (Session.receive L) s is = is.map fun d => (d, (s.receive L d).1) := by
    intro is
    exact Mealy.log_map (I := fun t => t.store = s.store) (fun t d ht => (hkeep t d ht).1)
      (fun t d ht => receive_answers L ht d) is rfl
  have hrun : (Mealy.run (Session.receive L) s ds).store = s.store ∧
      (Mealy.run (Session.receive L) s ds).lastError = s.lastError :=
    Mealy.run_inv (Session.receive L) (I := fun t => t.store = s.store ∧ t.lastError = s.lastError) ⟨rfl, rfl⟩
      (fun t d ht => ⟨(hkeep t d ht.1).1, (hkeep t d ht.1).2.trans ht.2⟩) ds
  exact ⟨hlog ds, hlog es, hrun.1, hrun.2, (receive_commutes hL).run_perm h s⟩

/-- Two datagrams that are dropped for different reasons, in both orders: the
lines come in the order of arrival, all else is the same. -/
theorem arrival_order_two :
    let L := aesGcm counterBytes
    let m : OpenOut := ⟨.mem (List.replicate 40 0), some 0, some 0, some 0, some 0⟩
    let d₁ : Datagram := ⟨[1], m, ⟨rfl, _, rfl, by decide⟩⟩
    let d₂ : Datagram := ⟨[0, 1, 0, 2, 0, 0, 0, 0, 4] ++ List.replicate 28 0, m, ⟨rfl, _, rfl, by decide⟩⟩
    let s := Mealy.run (Session.step L) .start
        [.setLocalId 2 0, .failPolicySet (.mem [108, 111, 103, 95, 111, 110, 99, 101])]
    let t := Mealy.run (Session.receive L) s [d₁, d₂]
    let u := Mealy.run (Session.receive L) s [d₂, d₁]
    t.Level u ∧ t.diag.stats.rxTotal = 2 ∧
      t.diag.stderr = [RejectReason.plaintext.line, RejectReason.noPeer.line] ∧
      u.diag.stderr = [RejectReason.noPeer.line, RejectReason.plaintext.line] := by
  intro L m d₁ d₂ s t u
  have hlevel := (arrival_order (aesGcm_contract counterBytes) s (List.Perm.swap d₂ d₁ [])).2.2.2.2
  have ht : t.diag.stats.rxTotal = 2 ∧ t.diag.stderr = [RejectReason.plaintext.line, RejectReason.noPeer.line] := by
    decide +kernel
  have hu : u.diag.stderr = [RejectReason.noPeer.line, RejectReason.plaintext.line] := by decide +kernel
  exact ⟨hlevel, ht.1, ht.2, hu⟩

end Paxe

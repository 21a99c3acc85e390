import Paxe.SessionSound
import Paxe.StatsSound
import Paxe.Verdict

/-!
# Log-once windows

Which calls record a rejection, what a call does to the policy, the memo and
stderr, and from this what is said between two resets of the memo. What is
counted never depends on what is said.
-/

namespace Paxe
open Wire

/-! ## The memo -/

def RejectReason.bit (r : RejectReason) : UInt64 := (1 : UInt64) <<< UInt64.ofNat r.index

theorem RejectReason.bit_and (r x : RejectReason) : r.bit &&& x.bit = if x = r then r.bit else 0 := by
  cases r <;> cases x <;> decide

theorem RejectReason.bit_ne (r : RejectReason) : r.bit ≠ 0 := by
  cases r <;> decide

theorem memo_or_and (m b c : UInt64) : (m ||| b) &&& c = (m &&& c) ||| (b &&& c) := by
  apply UInt64.toBitVec_inj.mp
  ext i
  simp [Bool.and_or_distrib_right]

/-- The reason is in the memo. -/
def Told (m : UInt64) (r : RejectReason) : Prop := m &&& r.bit ≠ 0

theorem not_told_zero (r : RejectReason) : ¬ Told 0 r := by
  simp [Told]

theorem told_or (m : UInt64) (r x : RejectReason) : Told (m ||| r.bit) x ↔ x = r ∨ Told m x := by
  unfold Told
  rw [memo_or_and, RejectReason.bit_and, Ne, UInt64.or_eq_zero_iff]
  by_cases h : x = r
  · simp [h, r.bit_ne]
  · simp [h]

theorem RejectReason.line_inj {r x : RejectReason} (h : r.line = x.line) : r = x := by
  cases r <;> cases x <;> first | rfl | simp [RejectReason.line] at h

namespace Diag

section
variable {d : Diag} (r : RejectReason)

theorem recordReject_silent (h : d.policy = .silent) :
    d.recordReject r = { d with stats := d.stats.bumpReject r } := by
  simp [recordReject, shouldLog, h]

theorem recordReject_verbose (h : d.policy = .verbose) :
    d.recordReject r = { d with stats := d.stats.bumpReject r, stderr := d.stderr ++ [r.line] } := by
  simp [recordReject, shouldLog, h, emit]

theorem recordReject_again (h : d.policy = .logOnce) (hm : Told d.logged r) :
    d.recordReject r = { d with stats := d.stats.bumpReject r } := by
  unfold Told RejectReason.bit at hm
  simp [recordReject, shouldLog, h, hm]

theorem recordReject_first (h : d.policy = .logOnce) (hm : ¬ Told d.logged r) :
    d.recordReject r = { d with
      stats := d.stats.bumpReject r, stderr := d.stderr ++ [r.line], logged := d.logged ||| r.bit } := by
  unfold Told RejectReason.bit at hm
  unfold RejectReason.bit
  simp [recordReject, shouldLog, h, not_not.mp hm, emit]

end

structure Same (d d' : Diag) : Prop where
  policy : d.policy = d'.policy
  logged : d.logged = d'.logged
  stderr : d.stderr = d'.stderr
  reject : ∀ r, d.stats.reject r = d'.stats.reject r

theorem Same.refl (d : Diag) : Same d d := ⟨rfl, rfl, rfl, fun _ => rfl⟩

theorem reject_bump {d d' : Diag} (h : Same d d') (r x : RejectReason) :
    (d.stats.bumpReject r).reject x = (d'.stats.bumpReject r).reject x := by
  rw [Stats.reject_bumpReject, Stats.reject_bumpReject, h.reject r, h.reject x]

theorem Same.recordReject {d d' : Diag} (r : RejectReason) (h : Same d d') :
    Same (d.recordReject r) (d'.recordReject r) := by
  cases hp : d.policy with
  | silent =>
    rw [recordReject_silent r hp, recordReject_silent r (h.policy ▸ hp)]
    exact ⟨h.policy, h.logged, h.stderr, reject_bump h r⟩
  | verbose =>
    rw [recordReject_verbose r hp, recordReject_verbose r (h.policy ▸ hp)]
    exact ⟨h.policy, h.logged, congrArg (· ++ [r.line]) h.stderr, reject_bump h r⟩
  | logOnce =>
    by_cases ht : Told d.logged r
    · rw [recordReject_again r hp ht, recordReject_again r (h.policy ▸ hp) (h.logged ▸ ht)]
      exact ⟨h.policy, h.logged, h.stderr, reject_bump h r⟩
    · rw [recordReject_first r hp ht, recordReject_first r (h.policy ▸ hp) (h.logged ▸ ht)]
      exact ⟨h.policy, congrArg (· ||| r.bit) h.logged, congrArg (· ++ [r.line]) h.stderr, reject_bump h r⟩

end Diag

/-! ## What a call records -/

def policyNamed (name : InBuf) : Option FailPolicy :=
  match bufIn name "policy name" with
  | .error _ => none
  | .ok name => (String.fromUTF8? ⟨name.toArray⟩).bind FailPolicy.fromName

def Call.policy : Call → Option FailPolicy
  | .failPolicySet name => policyNamed name
  | _ => none

/-- A call that empties the memo. -/
def Call.Resets (c : Call) : Prop := c = .shutdown ∨ c.policy = some .logOnce

/-- The rejection that a call records: the verdict on a frame that is opened, or
the gate's. -/
noncomputable def rejection (L : Libsodium) (store : Option KeyStore) : Call → Option RejectReason
  | .open a =>
    match store, bufIn a.frame "frame", bufOut a.mem.out "payload output" with
    | some store, .ok frame, .ok _ =>
      if a.mem.outLen.isNone || a.mem.fromId.isNone || a.mem.channel.isNone || a.mem.mode.isNone then none
      else
        match verdict L store frame with
        | .error r => some r
        | .ok _ => none
    | _, _, _ => none
  | .frameForUs b =>
    match store, bufIn b "frame" with
    | some store, .ok frame =>
      if prefixLen ≤ frame.length ∧ gateToId frame = store.localId then none else some .plaintext
    | _, _ => none
  | _ => none

/-- What a call does to the diagnostics, up to the other counters. -/
inductive Acts (L : Libsodium) (s : Session) : Call → Diag → Prop
  | rejected {c : Call} {d : Diag} (r : RejectReason) : ¬ c.Resets → c.policy = none →
      rejection L s.store c = some r →
      d.Same (s.diag.recordReject r) → Acts L s c d
  | policy {c : Call} {d : Diag} (p : FailPolicy) : c.policy = some p → c ≠ .shutdown →
      rejection L s.store c = none →
      d.Same (s.diag.setPolicy p) → Acts L s c d
  | shutdown {d : Diag} : d.Same s.diag.resetLogOnceMemo → Acts L s .shutdown d
  | quiet {c : Call} {d : Diag} (extra : List String) : ¬ c.Resets → c.policy = none →
      rejection L s.store c = none →
      (∀ r : RejectReason, r.line ∉ extra) → d.Same { s.diag with stderr := s.diag.stderr ++ extra } → Acts L s c d

theorem Acts.quiet_nil {L : Libsodium} {s : Session} {c : Call} {d : Diag} (hc : ¬ c.Resets) (hp : c.policy = none)
    (hr : rejection L s.store c = none) (hd : d.Same s.diag) : Acts L s c d := by
  refine .quiet [] hc hp hr (fun r h => by cases h) ?_
  rw [List.append_nil]
  exact hd

section
variable {L : Libsodium} {s : Session}

theorem not_resets {c : Call} (hs : c ≠ .shutdown) (hp : c.policy = none) : ¬ c.Resets := by
  intro hres
  rcases hres with h | h
  · exact hs h
  · rw [hp] at h
    cases h

theorem rejection_valid {a : OpenCall} {store : KeyStore} {frame out : Bytes} (hv : a.Valid frame out) :
    (∀ p, verdict L store frame = .ok p → rejection L (some store) (.open a) = none) ∧
    ∀ r, verdict L store frame = .error r → rejection L (some store) (.open a) = some r := by
  constructor
  · intro p hp
    simp [rejection, hv.frame_eq, hv.out_eq, hv.pointers, hp]
  · intro r hr
    simp [rejection, hv.frame_eq, hv.out_eq, hv.pointers, hr]

theorem rejection_refused {a : OpenCall} (h : ∀ frame out, ¬ a.Valid frame out) (store : Option KeyStore) :
    rejection L store (.open a) = none := by
  unfold rejection
  dsimp only
  split
  · rename_i store frame out hf ho
    by_cases hp : (a.mem.outLen.isNone || a.mem.fromId.isNone || a.mem.channel.isNone || a.mem.mode.isNone) = true
    · rw [if_pos hp]
    · exact absurd ⟨hf, ho, Bool.eq_false_iff.mpr hp⟩ (h frame out)
  · rfl

theorem open_acts (hL : L.Contract) (a : OpenCall) : Acts L s (.open a) (lunetPaxeOpen L s a).2.2.diag := by
  have hp : Call.policy (.open a) = none := rfl
  have hno : ¬ Call.Resets (.open a) := not_resets (by simp) hp
  have hd := open_did L s a
  generalize lunetPaxeOpen L s a = r at hd
  -- A frame that was opened has a verdict, and it changed nothing.
  have hopened : ∀ {store : KeyStore} {frame out : Bytes} {x : Header × Flags × Bytes} {d : Diag} {t : Trace},
      s.store = some store → a.Valid frame out → Dek.open L store frame s.diag s.trace = ⟨.ok x, d, t⟩ →
      rejection L s.store (.open a) = none ∧ d = s.diag := by
    intro store frame out x d t hs hv ho
    obtain ⟨-, herr⟩ := open_follows_verdict hL store frame s.diag s.trace
    rw [hs]
    refine ⟨?_, open_ok_diag hL ho⟩
    cases hver : verdict L store frame with
    | ok p => exact (rejection_valid hv).1 p hver
    | error r =>
      obtain ⟨e, he, -⟩ := herr r hver
      rw [ho] at he
      cases he
  cases hd with
  | refused m hno' => exact .quiet_nil hno hp (rejection_refused hno' _) (.refl _)
  | unconfigured hs =>
    refine .quiet_nil hno hp ?_ (.refl _)
    rw [hs]
    rfl
  | short m hs hv ho _ =>
    obtain ⟨hr, rfl⟩ := hopened hs hv ho
    exact .quiet_nil hno hp hr (.refl _)
  | accepted hs hv ho _ =>
    obtain ⟨hr, rfl⟩ := hopened hs hv ho
    exact .quiet_nil hno hp hr ⟨rfl, rfl, rfl, fun _ => rfl⟩
  | broken _ _ ho => exact absurd ho (open_not_sodium hL)
  | @dropped store frame out e d t hs hv ho _ =>
    obtain ⟨hok, herr⟩ := open_follows_verdict hL store frame s.diag s.trace
    cases hver : verdict L store frame with
    | ok p =>
      obtain ⟨_, _, he, -⟩ := hok p hver
      rw [ho] at he
      cases he
    | error r =>
      obtain ⟨_, -, hdiag⟩ := herr r hver
      rw [ho] at hdiag
      dsimp only at hdiag
      refine .rejected r hno hp ?_ ?_
      · rw [hs]
        exact (rejection_valid hv).2 r hver
      · rw [hdiag]
        exact ⟨rfl, rfl, rfl, fun _ => rfl⟩

theorem gate_acts (b : InBuf) : Acts L s (.frameForUs b) (lunetPaxeFrameForUs s b).2.diag := by
  have hp : Call.policy (.frameForUs b) = none := rfl
  have hno : ¬ Call.Resets (.frameForUs b) := not_resets (by simp) hp
  have hd := gate_did s b
  generalize lunetPaxeFrameForUs s b = r at hd
  cases hd with
  | refused m hf =>
    refine .quiet_nil hno hp ?_ (.refl _)
    unfold rejection
    dsimp only
    split
    · rename_i store frame _ hb
      exact absurd hb (hf frame)
    · rfl
  | unconfigured hs =>
    refine .quiet_nil hno hp ?_ (.refl _)
    rw [hs]
    rfl
  | pass hs hf hl hid =>
    refine .quiet_nil hno hp ?_ (.refl _)
    simp [rejection, hs, hf, hl, hid]
  | drop hs hf hno' =>
    refine .rejected .plaintext hno hp ?_ ?_
    · simp only [rejection, hs, hf, if_neg hno']
    · exact Diag.Same.recordReject .plaintext ⟨rfl, rfl, rfl, fun _ => rfl⟩

theorem line_ne_warning (r : RejectReason) (rest : String) :
    r.line ≠ "[PAXE] WARNING: setrlimit(RLIMIT_CORE, 0) failed (" ++ rest := by
  intro h
  have h : r.line.toList.take 8 = ("[PAXE] WARNING: setrlimit(RLIMIT_CORE, 0) failed (" ++ rest).toList.take 8 := by
    rw [h]
  rw [String.toList_append, List.take_append_of_le_length (by decide)] at h
  cases r <;> exact absurd h (by decide)

theorem init_acts (env : InitEnv) : Acts L s (.init env) (lunetPaxeInit s env).2.diag := by
  have hp : Call.policy (.init env) = none := rfl
  have hno : ¬ Call.Resets (.init env) := not_resets (by simp) hp
  have hdiag : (lunetPaxeInit s env).2.diag = (suppressCoreDumps s env).diag := by
    unfold lunetPaxeInit
    dsimp only
    split
    · rfl
    · split
      · rfl
      · split <;> rfl
  rw [hdiag]
  unfold suppressCoreDumps
  split
  · exact .quiet_nil hno hp rfl (.refl _)
  · split
    · rename_i err _
      unfold warnCoreDisableFailed
      split
      · exact .quiet_nil hno hp rfl (.refl _)
      · refine .quiet _ hno hp rfl (fun r hr => ?_) (.refl _)
        have hline := List.mem_singleton.mp hr
        simp only [String.append_assoc] at hline
        exact line_ne_warning r _ hline
    · exact .quiet_nil hno hp rfl (.refl _)

theorem failPolicySet_diag (name : InBuf) :
    (lunetPaxeFailPolicySet s name).2.diag = (policyNamed name).elim s.diag s.diag.setPolicy := by
  unfold lunetPaxeFailPolicySet policyNamed
  cases bufIn name "policy name" with
  | error m => rfl
  | ok bytes =>
    dsimp only
    cases String.fromUTF8? ⟨bytes.toArray⟩ with
    | none => rfl
    | some text =>
      rw [Option.bind_some]
      dsimp only
      cases FailPolicy.fromName text <;> rfl

theorem failPolicySet_acts (name : InBuf) :
    Acts L s (.failPolicySet name) (lunetPaxeFailPolicySet s name).2.diag := by
  have hns : Call.failPolicySet name ≠ .shutdown := by simp
  have hd := failPolicySet_diag (s := s) name
  rw [hd]
  cases hp : policyNamed name with
  | none => exact .quiet_nil (not_resets hns hp) hp rfl (.refl _)
  | some p => exact .policy p hp hns rfl (.refl _)

theorem step_acts (hL : L.Contract) (c : Call) : Acts L s c (s.step L c).2.diag := by
  cases c with
  | init env => exact init_acts env
  | setLocalId v rc =>
    have hd := setLocalId_did s v rc
    simp only [Session.step]
    generalize lunetPaxeSetLocalId s v rc = r at hd
    cases hd <;> exact .quiet_nil (not_resets (by simp) rfl) rfl rfl (.refl _)
  | shutdown => exact .shutdown (.refl _)
  | keystoreSet p e k heap =>
    have hd := keystoreSet_did s p e k heap
    simp only [Session.step]
    generalize lunetPaxeKeystoreSet s p e k heap = r at hd
    cases hd <;> exact .quiet_nil (not_resets (by simp) rfl) rfl rfl (.refl _)
  | keystoreRetire p e =>
    have hd := keystoreRetire_did s p e
    simp only [Session.step]
    generalize lunetPaxeKeystoreRetire s p e = r at hd
    cases hd <;> exact .quiet_nil (not_resets (by simp) rfl) rfl rfl (.refl _)
  | keystoreClear =>
    refine .quiet_nil (not_resets (by simp) rfl) rfl rfl ?_
    simp only [Session.step, lunetPaxeKeystoreClear]
    split <;> exact .refl _
  | «seal» a =>
    have hd := seal_did L s a
    simp only [Session.step]
    generalize lunetPaxeSeal L s a = r at hd
    cases hd <;> exact .quiet_nil (not_resets (by simp) rfl) rfl rfl ⟨rfl, rfl, rfl, fun _ => rfl⟩
  | «open» a => exact open_acts hL a
  | frameForUs b => exact gate_acts b
  | stats out => exact .quiet_nil (not_resets (by simp) rfl) rfl rfl (.refl _)
  | failPolicySet name => exact failPolicySet_acts name

end

/-! ## What is heard of a call -/

/-- The policy and the memo that a call finds, the rejection it records, the
lines it writes, and the memo it leaves. -/
structure Heard where
  policy : FailPolicy
  memo : UInt64
  reason : Option RejectReason
  lines : List String
  memoAfter : UInt64

noncomputable def Session.listen (L : Libsodium) (s : Session) (c : Call) : Heard × Session :=
  (⟨s.diag.policy, s.diag.logged, rejection L s.store c, (s.step L c).2.diag.stderr.drop s.diag.stderr.length,
    (s.step L c).2.diag.logged⟩, (s.step L c).2)

def Heard.Once (h : Heard) (r : RejectReason) : Prop := h.policy = .logOnce ∧ h.reason = some r

/-- What one call may say, by what it records and finds. -/
inductive Heard.Fair (c : Call) : Heard → Prop
  | reset {p : FailPolicy} {m : UInt64} : c.Resets → Fair c ⟨p, m, none, [], 0⟩
  | quiet {p : FailPolicy} {m : UInt64} {lines : List String} : ¬ c.Resets → (∀ r : RejectReason, r.line ∉ lines) →
      Fair c ⟨p, m, none, lines, m⟩
  | silent {m : UInt64} (r : RejectReason) : ¬ c.Resets → Fair c ⟨.silent, m, some r, [], m⟩
  | verbose {m : UInt64} (r : RejectReason) : ¬ c.Resets → Fair c ⟨.verbose, m, some r, [r.line], m⟩
  | first {m : UInt64} (r : RejectReason) : ¬ c.Resets → ¬ Told m r →
      Fair c ⟨.logOnce, m, some r, [r.line], m ||| r.bit⟩
  | again {m : UInt64} (r : RejectReason) : ¬ c.Resets → Told m r → Fair c ⟨.logOnce, m, some r, [], m⟩

theorem listen_eq {L : Libsodium} {s : Session} {c : Call} {d : Diag} {extra : List String}
    (h : (s.step L c).2.diag.Same d) (he : d.stderr = s.diag.stderr ++ extra) :
    (Session.listen L s c).1 = ⟨s.diag.policy, s.diag.logged, rejection L s.store c, extra, d.logged⟩ := by
  simp only [Session.listen, h.stderr, h.logged, he, List.drop_left]

theorem listen_fair {L : Libsodium} (hL : L.Contract) (s : Session) (c : Call) :
    (Session.listen L s c).1.Fair c := by
  have ha := step_acts (s := s) hL c
  cases ha with
  | rejected r hno _ hr hd =>
    cases hp : s.diag.policy with
    | silent =>
      rw [Diag.recordReject_silent r hp] at hd
      rw [listen_eq hd (List.append_nil _).symm, hr, hp]
      exact .silent r hno
    | verbose =>
      rw [Diag.recordReject_verbose r hp] at hd
      rw [listen_eq hd rfl, hr, hp]
      exact .verbose r hno
    | logOnce =>
      by_cases ht : Told s.diag.logged r
      · rw [Diag.recordReject_again r hp ht] at hd
        rw [listen_eq hd (List.append_nil _).symm, hr, hp]
        exact .again r hno ht
      · rw [Diag.recordReject_first r hp ht] at hd
        rw [listen_eq hd rfl, hr, hp]
        exact .first r hno ht
  | policy p hp hns hr hd =>
    by_cases hl : p = .logOnce
    · subst hl
      have he : (s.diag.setPolicy .logOnce).stderr = s.diag.stderr ++ [] := (List.append_nil _).symm
      rw [listen_eq hd he, hr]
      exact .reset (Or.inr hp)
    · have he : (s.diag.setPolicy p).stderr = s.diag.stderr ++ [] := by
        simp [Diag.setPolicy, hl]
      have hm : (s.diag.setPolicy p).logged = s.diag.logged := by
        simp [Diag.setPolicy, hl]
      rw [listen_eq hd he, hr, hm]
      refine .quiet ?_ (fun r h => by cases h)
      intro hres
      rcases hres with hres | hres
      · exact hns hres
      · rw [hp] at hres
        exact hl (Option.some.inj hres)
  | shutdown hd =>
    rw [listen_eq hd (List.append_nil _).symm]
    exact .reset (Or.inl rfl)
  | quiet extra hno _ hr hx hd =>
    rw [listen_eq hd rfl, hr]
    exact .quiet hno hx

/-! ## Windows -/

instance (m : UInt64) (r : RejectReason) : Decidable (Told m r) := inferInstanceAs (Decidable (_ ≠ _))

/-- What is said, in all and under `log_once`. -/
def said (l : List (Call × Heard)) : List String := l.flatMap fun x => x.2.lines

def saidOnce (l : List (Call × Heard)) : List String := said (l.filter fun x => x.2.policy = .logOnce)

theorem said_append (l l' : List (Call × Heard)) : said (l ++ l') = said l ++ said l' :=
  List.flatMap_append

theorem saidOnce_append (l l' : List (Call × Heard)) : saidOnce (l ++ l') = saidOnce l ++ saidOnce l' := by
  simp only [saidOnce, List.filter_append, said_append]

namespace Heard.Fair

variable {c : Call} {h : Heard}

theorem memo_after (hf : h.Fair c) (hc : ¬ c.Resets) (r : RejectReason) :
    Told h.memoAfter r ↔ h.Once r ∨ Told h.memo r := by
  cases hf with
  | reset hres => exact absurd hres hc
  | quiet _ _ => simp [Once]
  | silent _ _ => simp [Once]
  | verbose _ _ => simp [Once]
  | first x _ _ => simp [Once, told_or, eq_comm]
  | again x _ ht =>
    simp only [Once, true_and, Option.some.injEq]
    constructor
    · exact Or.inr
    · intro hx
      rcases hx with rfl | hx
      · exact ht
      · exact hx

theorem once_first (hf : h.Fair c) {r : RejectReason} (ho : h.Once r) (ht : ¬ Told h.memo r) :
    h.lines = [r.line] := by
  obtain ⟨hp, hr⟩ := ho
  cases hf with
  | reset _ => cases hr
  | quiet _ _ => cases hr
  | silent _ _ => cases hp
  | verbose _ _ => cases hp
  | first x _ _ =>
    cases hr
    rfl
  | again x _ ht' =>
    cases hr
    exact absurd ht' ht

theorem once_silent (hf : h.Fair c) {r : RejectReason} (hp : h.policy ≠ .verbose) (ht : h.Once r → Told h.memo r) :
    r.line ∉ h.lines := by
  cases hf with
  | reset _ => exact List.not_mem_nil
  | quiet _ hx => exact hx r
  | silent _ _ => exact List.not_mem_nil
  | verbose _ _ => exact absurd rfl hp
  | first x _ hn =>
    intro hr
    obtain rfl := RejectReason.line_inj (List.mem_singleton.mp hr)
    exact hn (ht ⟨rfl, rfl⟩)
  | again _ _ _ => exact List.not_mem_nil

theorem silent_says (hf : h.Fair c) {r : RejectReason} (hr : h.reason = some r) (hp : h.policy = .silent) :
    h.lines = [] ∧ h.memoAfter = h.memo := by
  cases hf with
  | reset _ => cases hr
  | quiet _ _ => cases hr
  | silent _ _ => exact ⟨rfl, rfl⟩
  | verbose _ _ => cases hp
  | first _ _ _ => cases hp
  | again _ _ _ => cases hp

theorem verbose_says (hf : h.Fair c) {r : RejectReason} (hr : h.reason = some r) (hp : h.policy = .verbose) :
    h.lines = [r.line] ∧ h.memoAfter = h.memo := by
  cases hf with
  | reset _ => cases hr
  | quiet _ _ => cases hr
  | silent _ _ => cases hp
  | verbose x _ =>
    cases hr
    exact ⟨rfl, rfl⟩
  | first _ _ _ => cases hp
  | again _ _ _ => cases hp

end Heard.Fair

/-- A stretch that found the memo empty: what the memo holds after it, and what
was said. -/
structure Window (l : List (Call × Heard)) (memo : UInt64) : Prop where
  told : ∀ r, Told memo r ↔ ∃ x ∈ l, x.2.Once r
  count : ∀ r : RejectReason, (saidOnce l).count r.line = if Told memo r then 1 else 0
  first : ∀ r l₁ x l₂, l = l₁ ++ x :: l₂ → x.2.Once r → (∀ y ∈ l₁, ¬ y.2.Once r) → x.2.lines = [r.line]

theorem Window.nil : Window [] 0 where
  told := by simp [not_told_zero]
  count := by simp [saidOnce, said, not_told_zero]
  first := by
    intro r l₁ x l₂ h
    simp at h

theorem Window.snoc {l : List (Call × Heard)} {c : Call} {h : Heard} (hw : Window l h.memo) (hf : h.Fair c)
    (hc : ¬ c.Resets) : Window (l ++ [(c, h)]) h.memoAfter where
  told := by
    intro r
    rw [hf.memo_after hc, hw.told]
    simp [or_comm]
  count := by
    intro r
    rw [saidOnce_append, List.count_append, hw.count]
    by_cases hp : h.policy = .logOnce
    · have hlines : saidOnce [(c, h)] = h.lines := by
        simp [saidOnce, said, hp]
      rw [hlines]
      by_cases ht : Told h.memo r
      · have hn : r.line ∉ h.lines := hf.once_silent (by simp [hp]) fun _ => ht
        rw [if_pos ht, if_pos ((hf.memo_after hc r).mpr (Or.inr ht)), List.count_eq_zero.mpr hn]
      · by_cases ho : h.Once r
        · rw [if_neg ht, if_pos ((hf.memo_after hc r).mpr (Or.inl ho)), hf.once_first ho ht]
          simp
        · have hn : r.line ∉ h.lines := hf.once_silent (by simp [hp]) fun ho' => absurd ho' ho
          have ha : ¬ Told h.memoAfter r := by
            rw [hf.memo_after hc]
            simp [ho, ht]
          rw [if_neg ht, if_neg ha, List.count_eq_zero.mpr hn]
    · have hlines : saidOnce [(c, h)] = [] := by
        simp [saidOnce, said, hp]
      have ho : ¬ h.Once r := fun ho => hp ho.1
      rw [hlines, List.count_nil, Nat.add_zero]
      simp [hf.memo_after hc, ho]
  first := by
    intro r l₁ x l₂ hl ho hn
    rcases List.eq_nil_or_concat l₂ with rfl | ⟨l₂, z, rfl⟩
    · obtain ⟨rfl, hx⟩ := List.append_inj' hl rfl
      obtain rfl := (List.cons.inj hx).1
      refine hf.once_first ho fun ht => ?_
      obtain ⟨y, hy, hyo⟩ := (hw.told r).mp ht
      exact hn y hy hyo
    · rw [List.concat_eq_append, ← List.cons_append, ← List.append_assoc] at hl
      obtain ⟨rfl, -⟩ := List.append_inj' hl rfl
      exact hw.first r l₁ x l₂ rfl ho hn

/-! ## Runs -/

/-- The memo was never used, or emptied just now. -/
def Opens (pre : List Call) : Prop := pre = [] ∨ ∃ cs c, pre = cs ++ [c] ∧ c.Resets

def Call.Frame : Call → Prop
  | .open _ => True
  | .frameForUs _ => True
  | _ => False

def Call.selects : Call → Bool
  | .failPolicySet _ => true
  | _ => false

theorem Call.Frame.not_resets {c : Call} (hc : c.Frame) : ¬ c.Resets := by
  cases c <;> first | exact hc.elim | exact Paxe.not_resets (by simp) rfl

section
variable {L : Libsodium}

theorem run_listen (s : Session) (cs : List Call) :
    Mealy.run (Session.listen L) s cs = Mealy.run (Session.step L) s cs := by
  induction cs generalizing s with
  | nil => rfl
  | cons c cs ih => exact ih _

theorem said_once {l : List (Call × Heard)} (hf : ∀ x ∈ l, x.2.Fair x.1) (hv : ∀ x ∈ l, x.2.policy ≠ .verbose)
    (r : RejectReason) : (said l).count r.line = (saidOnce l).count r.line := by
  induction l with
  | nil => rfl
  | cons x l ih =>
    have ih := ih (fun y hy => hf y (by simp [hy])) fun y hy => hv y (by simp [hy])
    rw [← List.singleton_append, said_append, saidOnce_append, List.count_append, List.count_append, ih]
    by_cases hp : x.2.policy = .logOnce
    · simp [saidOnce, hp]
    · have hn : r.line ∉ x.2.lines := (hf x (by simp)).once_silent (hv x (by simp)) fun ho => absurd ho.1 hp
      simp [saidOnce, said, hp, List.count_eq_zero.mpr hn]

variable (hL : L.Contract)
include hL

theorem log_fair (s : Session) (cs : List Call) : ∀ x ∈ Mealy.log (Session.listen L) s cs, x.2.Fair x.1 :=
  Mealy.log_inv (Session.listen L) (I := fun l _ => ∀ x ∈ l, x.2.Fair x.1) (by simp)
    (fun l t c h x hx => by
      rcases List.mem_append.mp hx with hx | hx
      · exact h x hx
      · obtain rfl := List.mem_singleton.mp hx
        exact listen_fair hL t c) cs

theorem opens_memo {pre : List Call} (hpre : Opens pre) :
    (Mealy.run (Session.step L) .start pre).diag.logged = 0 := by
  rcases hpre with rfl | ⟨cs, c, rfl, hc⟩
  · rfl
  · rw [Mealy.run_snoc]
    have hf := listen_fair hL (Mealy.run (Session.step L) .start cs) c
    have hm : ((Mealy.run (Session.step L) .start cs).step L c).2.diag.logged =
      (Session.listen L (Mealy.run (Session.step L) .start cs) c).1.memoAfter := rfl
    rw [hm]
    generalize (Session.listen L (Mealy.run (Session.step L) .start cs) c).1 = h at hf
    cases hf <;> first | rfl | exact absurd hc ‹_›

theorem log_window {s : Session} (h0 : s.diag.logged = 0) (w : List Call) (hw : ∀ c ∈ w, ¬ c.Resets) :
    Window (Mealy.log (Session.listen L) s w) (Mealy.run (Session.listen L) s w).diag.logged := by
  induction w using List.reverseRecOn with
  | nil =>
    rw [Mealy.log, Mealy.run, h0]
    exact .nil
  | append_singleton w c ih =>
    rw [Mealy.log_snoc, Mealy.run_snoc]
    have hc := hw c (by simp)
    have ih := ih fun c hc => hw c (by simp [hc])
    exact ih.snoc (listen_fair hL (Mealy.run (Session.listen L) s w) c) hc

theorem frame_policy (s : Session) {c : Call} (hc : c.Frame) : (s.step L c).2.diag.policy = s.diag.policy := by
  have ha := step_acts (s := s) hL c
  cases ha with
  | rejected r _ _ _ hd => rw [hd.policy, Diag.recordReject_policy]
  | policy p hp _ _ _ => cases c <;> first | exact hc.elim | cases hp
  | shutdown _ => exact hc.elim
  | quiet _ _ _ _ _ hd => rw [hd.policy]

theorem frames_policy (s : Session) (fs : List Call) (hfs : ∀ c ∈ fs, c.Frame) :
    ∀ x ∈ Mealy.log (Session.listen L) s fs, x.2.policy = s.diag.policy := by
  induction fs generalizing s with
  | nil => simp [Mealy.log]
  | cons c fs ih =>
    intro x hx
    rcases List.mem_cons.mp hx with rfl | hx
    · rfl
    · rw [ih _ (fun c hc => hfs c (by simp [hc])) x hx]
      exact frame_policy hL s (hfs c (by simp))

end

/-! ## What is counted -/

theorem setLocalId_store {s s' : Session} (h : s.store = s'.store) (v : UInt32) (rc : Int) :
    (lunetPaxeSetLocalId s v rc).2.store = (lunetPaxeSetLocalId s' v rc).2.store := by
  unfold lunetPaxeSetLocalId
  rw [h]
  cases checkU16 v "node id" with
  | error m => exact h
  | ok id =>
    dsimp only
    by_cases hs : s'.store.isSome = true
    · rw [if_pos hs, if_pos hs]
      exact h
    · rw [if_neg hs, if_neg hs]
      cases KeyStore.new id rc with
      | error e => exact h
      | ok store => rfl

theorem keystoreSet_store {s s' : Session} (h : s.store = s'.store) (p e : UInt32) (key : InBuf) (heap : Heap) :
    (lunetPaxeKeystoreSet s p e key heap).2.store = (lunetPaxeKeystoreSet s' p e key heap).2.store := by
  unfold lunetPaxeKeystoreSet
  rw [h]
  split
  · exact h
  · split
    · exact h
    · split
      · exact h
      · split
        · exact h
        · split
          · exact h
          · split
            · exact h
            · split <;> rfl

theorem keystoreRetire_store {s s' : Session} (h : s.store = s'.store) (p e : UInt32) :
    (lunetPaxeKeystoreRetire s p e).2.store = (lunetPaxeKeystoreRetire s' p e).2.store := by
  unfold lunetPaxeKeystoreRetire
  rw [h]
  split
  · exact h
  · split
    · exact h
    · split
      · exact h
      · rfl

theorem keystoreClear_store {s s' : Session} (h : s.store = s'.store) :
    (lunetPaxeKeystoreClear s).2.store = (lunetPaxeKeystoreClear s').2.store := by
  unfold lunetPaxeKeystoreClear
  rw [h]
  split
  · exact h
  · rfl

section
variable {L : Libsodium}

theorem step_store {s s' : Session} (h : s.store = s'.store) (c : Call) :
    (s.step L c).2.store = (s'.step L c).2.store := by
  cases c with
  | init env => exact (init_did s env).1.trans (h.trans (init_did s' env).1.symm)
  | setLocalId v rc => exact setLocalId_store h v rc
  | shutdown => rfl
  | keystoreSet p e k heap => exact keystoreSet_store h p e k heap
  | keystoreRetire p e => exact keystoreRetire_store h p e
  | keystoreClear => exact keystoreClear_store h
  | «seal» a => exact (seal_store L s a).trans (h.trans (seal_store L s' a).symm)
  | «open» a => exact (open_store L s a).trans (h.trans (open_store L s' a).symm)
  | frameForUs b => exact (gate_store s b).trans (h.trans (gate_store s' b).symm)
  | stats out => exact h
  | failPolicySet name => exact (failPolicySet_did s name).1.trans (h.trans (failPolicySet_did s' name).1.symm)

structure Alike (s s' : Session) : Prop where
  store : s.store = s'.store
  reject : ∀ r, s.diag.stats.reject r = s'.diag.stats.reject r

theorem Alike.skip {s s' : Session} (h : Alike s s') {c : Call} (hc : c.selects = true) :
    Alike (s.step L c).2 s' := by
  cases c with
  | failPolicySet name =>
    obtain ⟨hs, hst⟩ := failPolicySet_did s name
    refine ⟨hs.trans h.store, fun r => ?_⟩
    rw [← h.reject r]
    exact congrArg (·.reject r) hst
  | _ => cases hc

variable (hL : L.Contract)
include hL

theorem step_reject (s : Session) (c : Call) (r : RejectReason) :
    (s.step L c).2.diag.stats.reject r =
      if rejection L s.store c = some r then saturatingAdd (s.diag.stats.reject r) 1
      else s.diag.stats.reject r := by
  have ha := step_acts (s := s) hL c
  cases ha with
  | rejected x _ _ hr hd =>
    rw [hd.reject, Diag.recordReject_stats, Stats.reject_bumpReject, hr]
    by_cases hx : r = x
    · simp [hx]
    · simp [hx, Ne.symm hx]
  | policy p _ _ hr hd =>
    rw [hd.reject, hr]
    unfold Diag.setPolicy
    split <;> simp [Diag.resetLogOnceMemo]
  | shutdown hd =>
    rw [hd.reject]
    simp [rejection, Diag.resetLogOnceMemo]
  | quiet _ _ _ hr _ hd =>
    rw [hd.reject, hr]
    simp

theorem Alike.step {s s' : Session} (h : Alike s s') (c : Call) : Alike (s.step L c).2 (s'.step L c).2 where
  store := step_store h.store c
  reject := by
    intro r
    rw [step_reject hL, step_reject hL, h.store, h.reject]

theorem run_alike {s s' : Session} (h : Alike s s') (cs : List Call) :
    Alike (Mealy.run (Session.step L) s cs) (Mealy.run (Session.step L) s' (cs.filter fun c => !c.selects)) := by
  induction cs generalizing s s' with
  | nil => exact h
  | cons c cs ih =>
    by_cases hc : c.selects = true
    · have hf : (c :: cs).filter (fun c => !c.selects) = cs.filter fun c => !c.selects := by
        simp [hc]
      rw [hf]
      exact ih (h.skip hc)
    · have hf : (c :: cs).filter (fun c => !c.selects) = c :: cs.filter fun c => !c.selects := by
        simp [hc]
      rw [hf]
      exact ih (h.step hL c)

theorem run_counts (cs : List Call) (r : RejectReason) :
    (Mealy.run (Session.listen L) .start cs).diag.stats.reject r =
      min ((Mealy.log (Session.listen L) .start cs).countP fun x => x.2.reason = some r) u64Max := by
  refine Mealy.log_inv (Session.listen L)
    (I := fun l t => t.diag.stats.reject r = min (l.countP fun x => x.2.reason = some r) u64Max) ?_ ?_ cs
  · cases r <;> rfl
  · intro l t c ih
    have hstep := step_reject hL t c r
    have hreason : (Session.listen L t c).1.reason = rejection L t.store c := rfl
    have hsnd : (Session.listen L t c).2 = (t.step L c).2 := rfl
    rw [List.countP_append, List.countP_singleton, hsnd, hstep, ih, hreason]
    by_cases hr : rejection L t.store c = some r
    · simp only [hr, if_true, decide_true, saturatingAdd]
      omega
    · simp [hr]

end

/-- Within a window `log_once` says each reason it meets once, when it meets it
first, and frames alone add nothing to that. `silent` and `verbose` leave the
memo alone, and the policy does not touch what is counted. -/
theorem log_once_windows {L : Libsodium} (hL : L.Contract) :
    (∀ pre w, Opens pre → (∀ c ∈ w, ¬ c.Resets) →
      let s := Mealy.run (Session.listen L) .start pre
      let l := Mealy.log (Session.listen L) s w
      let t := Mealy.run (Session.listen L) s w
      ∀ r : RejectReason, ((∃ x ∈ l, x.2.Once r) → (saidOnce l).count r.line = 1) ∧
        ((∀ x ∈ l, ¬ x.2.Once r) → (saidOnce l).count r.line = 0) ∧
        (∀ l₁ x l₂, l = l₁ ++ x :: l₂ → x.2.Once r → (∀ y ∈ l₁, ¬ y.2.Once r) → x.2.lines = [r.line]) ∧
        ∀ fs, (∀ c ∈ fs, c.Frame) → t.diag.policy ≠ .verbose →
          (saidOnce l ++ said (Mealy.log (Session.listen L) t fs)).count r.line ≤ 1) ∧
    (∀ cs, ∀ x ∈ Mealy.log (Session.listen L) .start cs, ∀ r, x.2.reason = some r →
      (x.2.policy = .silent → x.2.lines = [] ∧ x.2.memoAfter = x.2.memo) ∧
      (x.2.policy = .verbose → x.2.lines = [r.line] ∧ x.2.memoAfter = x.2.memo)) ∧
    (∀ cs r, (Mealy.run (Session.listen L) .start cs).diag.stats.reject r =
      min ((Mealy.log (Session.listen L) .start cs).countP fun x => x.2.reason = some r) u64Max) ∧
    ∀ cs cs' : List Call, (cs.filter fun c => !c.selects) = (cs'.filter fun c => !c.selects) → ∀ r,
      (Mealy.run (Session.listen L) .start cs).diag.stats.reject r =
        (Mealy.run (Session.listen L) .start cs').diag.stats.reject r := by
  refine ⟨?_, ?_, run_counts hL, ?_⟩
  · intro pre w hpre hw s l t r
    have h0 : s.diag.logged = 0 := by
      simp only [s, run_listen]
      exact opens_memo hL hpre
    have hwin : Window l t.diag.logged := log_window hL h0 w hw
    refine ⟨?_, ?_, hwin.first r, ?_⟩
    · intro ho
      rw [hwin.count, if_pos ((hwin.told r).mpr ho)]
    · intro hn
      have ht : ¬ Told t.diag.logged r := by
        intro ht
        obtain ⟨x, hx, ho⟩ := (hwin.told r).mp ht
        exact hn x hx ho
      rw [hwin.count, if_neg ht]
    · intro fs hfs hp
      -- The frames continue the window, under one policy.
      have hall : ∀ c ∈ w ++ fs, ¬ c.Resets := by
        intro c hc
        rcases List.mem_append.mp hc with hc | hc
        · exact hw c hc
        · exact (hfs c hc).not_resets
      have hwin' := log_window hL h0 (w ++ fs) hall
      have hcount := hwin'.count r
      rw [Mealy.log_append, saidOnce_append, List.count_append] at hcount
      have hsaid := said_once (log_fair hL t fs) (fun x hx => (frames_policy hL t fs hfs x hx).symm ▸ hp) r
      rw [List.count_append, hsaid]
      change (saidOnce l).count r.line + (saidOnce (Mealy.log (Session.listen L) t fs)).count r.line = _ at hcount
      rw [hcount]
      split <;> omega
  · intro cs x hx r hr
    have hf := log_fair hL .start cs x hx
    exact ⟨hf.silent_says hr, hf.verbose_says hr⟩
  · intro cs cs' h r
    have hs : Alike .start .start := ⟨rfl, fun _ => rfl⟩
    have hc := (run_alike hL hs cs).reject r
    have hc' := (run_alike hL hs cs').reject r
    rw [run_listen, run_listen, hc, hc', h]

theorem log_once_windows_gate :
    let L := aesGcm counterBytes
    let policy : Call := .failPolicySet (.mem [108, 111, 103, 95, 111, 110, 99, 101])
    let s := Mealy.run (Session.listen L) .start [.setLocalId 2 0, policy]
    let l := Mealy.log (Session.listen L) s [.frameForUs (.mem [1]), .frameForUs (.mem [1])]
    (saidOnce l).count RejectReason.plaintext.line = 1 := by
  intro L policy s l
  have hpolicy : policy.policy = some .logOnce := by decide +kernel
  have hpre : Opens [.setLocalId 2 0, policy] := Or.inr ⟨[.setLocalId 2 0], policy, rfl, Or.inr hpolicy⟩
  have hw : ∀ c ∈ [Call.frameForUs (.mem [1]), .frameForUs (.mem [1])], ¬ c.Resets := by
    intro c hc
    have hf : c.Frame := by
      simp only [List.mem_cons, List.not_mem_nil, or_false, or_self] at hc
      rw [hc]
      trivial
    exact hf.not_resets
  have hrun := ((log_once_windows (aesGcm_contract counterBytes)).1 _ _ hpre hw .plaintext).1
  obtain ⟨store, hs⟩ : ∃ store, s.store = some store := Option.isSome_iff_exists.mp (by decide +kernel)
  have hshort : ¬ (prefixLen ≤ [(1 : UInt8)].length ∧ gateToId [1] = store.localId) :=
    fun h => absurd h.1 (by decide)
  have hreason : rejection L s.store (.frameForUs (.mem [1])) = some .plaintext := by
    simp only [rejection, hs, bufIn, if_neg hshort]
  have hp : s.diag.policy = .logOnce := by decide +kernel
  exact hrun ⟨_, List.mem_cons_self, hp, hreason⟩

end Paxe

import Paxe.AesGcm
import Paxe.FfiSound
import Paxe.StatsSound

/-!
# The seal export, condition by condition

`lunet_paxe_seal` checks its arguments, the session and the caller's buffer in
turn. Every call stands in one row of `SealRow`, whose conditions exclude each
other, and the row fixes the code, the memory, the counters and the error text.
-/

namespace Paxe
open Wire

/-! ## What a peer makes of a sealed frame -/

theorem open_own_frame {L : Libsodium} (hL : L.Correct) {R : KeyStore} {fromId : UInt16} {e : Epoch} {k : Key}
    (channel : UInt32) (n : Nonce) (p : Bytes) (d : Diag) (t : Trace) (hk : R.slots (fromId, e) = some k) :
    Dek.open L R (Standard.frame L k ⟨fromId, R.localId, channel⟩ e n p) d t =
      ⟨.ok (⟨fromId, R.localId, channel⟩, ⟨.standard, e⟩, p), d,
        t ++ [.decrypt ⟨k, n, (serializePrefix ⟨fromId, R.localId, channel⟩ ⟨.standard, e⟩).val,
          L.enc k n (serializePrefix ⟨fromId, R.localId, channel⟩ ⟨.standard, e⟩).val p, true⟩]⟩ := by
  have a : Standard.Attempt R (Standard.frame L k ⟨fromId, R.localId, channel⟩ e n p) ⟨fromId, R.localId, channel⟩
      ⟨.standard, e⟩ n (L.enc k n (serializePrefix ⟨fromId, R.localId, channel⟩ ⟨.standard, e⟩).val p) ⟨k⟩ := by
    refine ⟨rfl, rfl, rfl, ?_, slots_some.mp hk⟩
    rw [enc_length hL.toContract]
    exact Nat.le_add_left _ _
  rw [open_standard hL.toContract a, hL.dec_enc]

/-! ## Rows -/

section
variable (L : Libsodium) (s : Session) (payload buf : Bytes) (toId channel : UInt32) (len : Nat)

def SealCall.live : SealCall := ⟨.mem payload, toId, channel, ⟨.mem buf, some len⟩⟩

def Addressable : Prop := toId.toNat ≤ 65535 ∧ ¬ (1 ≤ channel ∧ channel ≤ 99)

def Keyed : Prop := ∃ store, s.store = some store ∧ ∃ e, (store.slots (toId.toUInt16, e)).isSome

inductive SealRow : Exit × SealOut × Session → Prop
  | invalid (m : String) : m ≠ "" → ¬ Addressable toId channel →
      SealRow (.rc rcInval, ⟨.mem buf, some len⟩, s.setLastError m)
  | oversize (m : String) : m ≠ "" → Addressable toId channel → 65470 < payload.length →
      SealRow (.rc rcErr, ⟨.mem buf, some len⟩, { s with diag := s.diag.recordTxOversize }.setLastError m)
  | unkeyed (m : String) : m ≠ "" → Addressable toId channel → payload.length ≤ 65470 → ¬ Keyed s toId →
      SealRow (.rc rcErr, ⟨.mem buf, some len⟩, s.setLastError m)
  | short (m : String) (t : Trace) : m ≠ "" → Addressable toId channel → payload.length ≤ 65470 → Keyed s toId →
      buf.length < payload.length + 37 →
      SealRow (.rc rcInval, ⟨.mem buf, some len⟩, { s with trace := t }.setLastError m)
  | sealed {store : KeyStore} {e : Epoch} {k : Key} (n : Nonce) (t : Trace) : Addressable toId channel →
      payload.length ≤ 65470 → s.store = some store → store.slots (toId.toUInt16, e) = some k →
      (∀ e', (store.slots (toId.toUInt16, e')).isSome → e'.bits ≤ e.bits) → payload.length + 37 ≤ buf.length →
      SealRow (.rc rcOk, ⟨.mem (Standard.frame L k ⟨store.localId, toId.toUInt16, channel⟩ e n payload ++
          buf.drop (payload.length + 37)), some (payload.length + 37)⟩,
        { s with trace := t, diag := s.diag.recordTxSealed .standard })

end

theorem checkU16_message {v : UInt32} {what m : String} (h : checkU16 v what = .error m) : m ≠ "" := by
  unfold checkU16 at h
  split at h
  · cases h
  · cases h
    simp [String.append_eq_empty_iff]

theorem checkChannel_error {v : UInt32} {m : String} (h : checkChannel v = .error m) :
    (1 ≤ v ∧ v ≤ 99) ∧ m ≠ "" := by
  unfold checkChannel at h
  split at h
  · rename_i hv
    cases h
    exact ⟨hv, by simp [String.append_eq_empty_iff]⟩
  · cases h

theorem current_seals {L : Libsodium} (hL : L.Contract) {store : KeyStore} {id : UInt16} {e : Epoch} {k : StoredKey}
    (hk : store.keyForSendCurrent id = some (e, k)) (channel : UInt32) {p : Bytes} (t : Trace)
    (hp : p.length ≤ 65470) :
    (Dek.seal L store id channel e p t).result =
      .ok (Standard.frame L k.mem ⟨store.localId, id, channel⟩ e (randomNonce L t).1 p) := by
  have hs := ((keyForSendCurrent_slots store).mp hk).1
  rw [dekSeal_result hL, if_neg (Nat.not_lt.mpr hp), hs]
  rfl

section
variable {L : Libsodium} (hL : L.Contract) (s : Session) (payload buf : Bytes) (toId channel : UInt32) (len : Nat)
include hL

theorem seal_row_keyed (ha : Addressable toId channel) (hp : payload.length ≤ 65470) :
    SealRow L s payload buf toId channel len (lunetPaxeSeal L s (.live payload buf toId channel len)) := by
  have hto : checkU16 toId "destination node id" = .ok toId.toUInt16 := if_pos (Nat.lt_succ_of_le ha.1)
  have hch : checkChannel channel = .ok channel := if_neg ha.2
  have hmax : ¬ payload.length > Standard.maxPayload := Nat.not_lt.mpr hp
  simp only [lunetPaxeSeal, SealCall.live, hto, hch, bufIn, bufOut, Option.isNone_some, Bool.false_eq_true,
    if_false, if_neg hmax]
  obtain ⟨st, err, d₀, hook, warned, t₀⟩ := s
  cases st with
  | none =>
    refine .unkeyed _ (by decide) ha hp ?_
    rintro ⟨store, hs, -⟩
    cases hs
  | some store =>
    dsimp only
    cases hk : store.keyForSendCurrent toId.toUInt16 with
    | none =>
      refine .unkeyed _ (by simp [String.append_eq_empty_iff]) ha hp ?_
      rintro ⟨store', hs, e, he⟩
      obtain rfl : store = store' := Option.some.inj hs
      rw [(keyForSendCurrent_eq_none store).mp hk e] at he
      cases he
    | some ek =>
      obtain ⟨e, k⟩ := ek
      obtain ⟨hslot, hgreatest⟩ := (keyForSendCurrent_slots store).mp hk
      have hlen := Standard.frame_length hL k.mem ⟨store.localId, toId.toUInt16, channel⟩ e
          (randomNonce L t₀).1 payload
      simp only [current_seals hL hk channel t₀ hp, hlen]
      have hst : Session.store ⟨some store, err, d₀, hook, warned, t₀⟩ = some store := rfl
      by_cases hroom : payload.length + Standard.overhead > buf.length
      · rw [if_pos hroom]
        exact .short _ _ (by simp [String.append_eq_empty_iff]) ha hp ⟨store, hst, e, by rw [hslot]; rfl⟩ hroom
      · rw [if_neg hroom]
        have hw : OutBuf.write (.mem buf) (Standard.frame L k.mem ⟨store.localId, toId.toUInt16, channel⟩ e
            (randomNonce L t₀).1 payload) = .mem (Standard.frame L k.mem ⟨store.localId, toId.toUInt16, channel⟩ e
            (randomNonce L t₀).1 payload ++ buf.drop (payload.length + 37)) := by
          rw [OutBuf.write, overwrite_eq (by rw [hlen]; exact Nat.not_lt.mp hroom), hlen]
          rfl
        rw [hw]
        exact .sealed _ _ ha hp hst hslot hgreatest (Nat.not_lt.mp hroom)

theorem seal_row : SealRow L s payload buf toId channel len
    (lunetPaxeSeal L s (.live payload buf toId channel len)) := by
  cases hto : checkU16 toId "destination node id" with
  | error m =>
    simp only [lunetPaxeSeal, SealCall.live, hto]
    refine .invalid m (checkU16_message hto) ?_
    rintro ⟨h, -⟩
    have := checkU16_error hto
    omega
  | ok id =>
    have hid : toId.toNat ≤ 65535 := by
      have := checkU16_ok hto
      have := id.toNat_lt
      omega
    cases hch : checkChannel channel with
    | error m =>
      simp only [lunetPaxeSeal, SealCall.live, hto, hch]
      refine .invalid m (checkChannel_error hch).2 ?_
      rintro ⟨-, h⟩
      exact h (checkChannel_error hch).1
    | ok c =>
      have ha : Addressable toId channel := by
        refine ⟨hid, ?_⟩
        intro hres
        rw [checkChannel, if_pos hres] at hch
        cases hch
      by_cases hp : payload.length ≤ 65470
      · exact seal_row_keyed hL s payload buf toId channel len ha hp
      · have hmax : payload.length > Standard.maxPayload := Nat.not_le.mp hp
        simp only [lunetPaxeSeal, SealCall.live, hto, hch, bufIn, bufOut, Option.isNone_some, Bool.false_eq_true,
          if_false, if_pos hmax]
        exact .oversize _ (by simp [String.append_eq_empty_iff]) ha hmax

end

/-! ## The outcome -/

section
variable {L : Libsodium} (hL : L.Correct)
include hL

/-- What a caller of `lunet_paxe_seal` sees, for every session and arguments.
The counters stop at the end of a `u64`. -/
theorem seal_call_exact (s : Session) (payload buf : Bytes) (toId channel : UInt32) (len : Nat) :
    let r := lunetPaxeSeal L s (.live payload buf toId channel len)
    let st := s.diag.stats
    (r.1 = .rc rcOk ↔ Addressable toId channel ∧ payload.length ≤ 65470 ∧ Keyed s toId ∧
      payload.length + 37 ≤ buf.length) ∧
    (r.1 = .rc rcOk → ∃ store e k frame, s.store = some store ∧ store.slots (toId.toUInt16, e) = some k ∧
      (∀ e', (store.slots (toId.toUInt16, e')).isSome → e'.bits ≤ e.bits) ∧ frame.length = payload.length + 37 ∧
      r.2.1 = ⟨.mem (frame ++ buf.drop frame.length), some frame.length⟩ ∧
      (∀ R d t, R.localId = toId.toUInt16 → R.slots (store.localId, e) = some k →
        (Dek.open L R frame d t).result =
          .ok (⟨store.localId, toId.toUInt16, channel⟩, ⟨.standard, e⟩, payload)) ∧
      r.2.2.diag.stats = { st with txTotal := min (st.txTotal + 1) u64Max,
                                   txStandard := min (st.txStandard + 1) u64Max }) ∧
    (r.1 ≠ .rc rcOk → r.2.1 = ⟨.mem buf, some len⟩ ∧
      (∃ m, m ≠ "" ∧ ∃ s', r.2.2 = Session.setLastError s' m) ∧
      (¬ Addressable toId channel ∨ (payload.length ≤ 65470 ∧ Keyed s toId) → r.1 = .rc rcInval) ∧
      (Addressable toId channel → ¬ (payload.length ≤ 65470 ∧ Keyed s toId) → r.1 = .rc rcErr) ∧
      (Addressable toId channel → 65470 < payload.length →
        r.2.2.diag.stats = { st with txOversize := min (st.txOversize + 1) u64Max }) ∧
      (¬ (Addressable toId channel ∧ 65470 < payload.length) → r.2.2.diag.stats = st)) ∧
    (∀ store e k p t, store.keyForSendCurrent toId.toUInt16 = some (e, k) →
      (Dek.seal L store toId.toUInt16 channel e p t).result ≠ .err .noKey) := by
  intro r st
  have hrow : SealRow L s payload buf toId channel len r := seal_row hL.toContract s payload buf toId channel len
  refine ⟨?_, ?_, ?_, ?_⟩
  · generalize r = r at hrow
    cases hrow with
    | invalid m _ ha => exact iff_of_false nofun fun h => ha h.1
    | oversize m _ _ hp => exact iff_of_false nofun fun h => absurd h.2.1 (Nat.not_le.mpr hp)
    | unkeyed m _ _ _ hk => exact iff_of_false nofun fun h => hk h.2.2.1
    | short m t _ _ _ _ hroom => exact iff_of_false nofun fun h => absurd h.2.2.2 (Nat.not_le.mpr hroom)
    | @sealed store e k n t ha hp hs hk _ hroom =>
      exact iff_of_true rfl ⟨ha, hp, ⟨store, hs, e, by rw [hk]; rfl⟩, hroom⟩
  · intro hr
    generalize r = r at hrow hr
    cases hrow with
    | invalid m _ _ => cases hr
    | oversize m _ _ _ => cases hr
    | unkeyed m _ _ _ _ => cases hr
    | short m t _ _ _ _ _ => cases hr
    | @sealed store e k n t ha hp hs hk hmax hroom =>
      have hlen := Standard.frame_length hL.toContract k ⟨store.localId, toId.toUInt16, channel⟩ e n payload
      refine ⟨store, e, k, _, hs, hk, hmax, hlen, by rw [hlen]; rfl, ?_, rfl⟩
      intro R d t hid hR
      rw [← hid, open_own_frame hL channel n payload d t hR]
  · intro hr
    generalize r = r at hrow hr
    cases hrow with
    | invalid m hm ha =>
      refine ⟨rfl, ⟨m, hm, s, rfl⟩, fun _ => rfl, fun h => absurd h ha, fun h => absurd h ha, fun _ => rfl⟩
    | oversize m hm ha hp =>
      have hno : ¬ payload.length ≤ 65470 := Nat.not_le.mpr hp
      refine ⟨rfl, ⟨m, hm, _, rfl⟩, ?_, fun _ _ => rfl, fun _ _ => rfl, fun h => absurd ⟨ha, hp⟩ h⟩
      rintro (h | h)
      · exact absurd ha h
      · exact absurd h.1 hno
    | unkeyed m hm ha hp hk =>
      refine ⟨rfl, ⟨m, hm, s, rfl⟩, ?_, fun _ _ => rfl, fun _ h => absurd hp (Nat.not_le.mpr h), fun _ => rfl⟩
      rintro (h | h)
      · exact absurd ha h
      · exact absurd h.2 hk
    | short m t hm ha hp hk hroom =>
      exact ⟨rfl, ⟨m, hm, _, rfl⟩, fun _ => rfl, fun _ h => absurd ⟨hp, hk⟩ h,
        fun _ h => absurd hp (Nat.not_le.mpr h), fun _ => rfl⟩
    | sealed n t _ _ _ _ _ _ => exact absurd rfl hr
  · intro store e k p t hk hno
    rw [dekSeal_result hL.toContract, ((keyForSendCurrent_slots store).mp hk).1] at hno
    split at hno <;> cases hno

theorem seal_counts {s : Session} {payload buf : Bytes} {toId channel : UInt32} (len : Nat)
    (ha : Addressable toId channel) (hp : payload.length ≤ 65470) (hk : Keyed s toId)
    (hroom : payload.length + 37 ≤ buf.length) :
    let r := lunetPaxeSeal L s (.live payload buf toId channel len)
    r.1 = .rc rcOk ∧ r.2.2.store = s.store ∧ r.2.2.diag.stats.txTotal = min (s.diag.stats.txTotal + 1) u64Max := by
  intro r
  have hrow : SealRow L s payload buf toId channel len r := seal_row hL.toContract s payload buf toId channel len
  generalize r = r at hrow
  cases hrow with
  | invalid m _ h => exact absurd ha h
  | oversize m _ _ h => exact absurd hp (Nat.not_le.mpr h)
  | unkeyed m _ _ _ h => exact absurd hk h
  | short m t _ _ _ _ h => exact absurd hroom (Nat.not_le.mpr h)
  | sealed n t _ _ _ _ _ _ => exact ⟨rfl, rfl, rfl⟩

theorem run_seals {s : Session} {payload buf : Bytes} {toId channel : UInt32} (len : Nat)
    (ha : Addressable toId channel) (hp : payload.length ≤ 65470) (hk : Keyed s toId)
    (hroom : payload.length + 37 ≤ buf.length) (hc : s.diag.stats.txTotal ≤ u64Max) (n : Nat) :
    let t := Mealy.run (Session.step L) s (List.replicate n (.seal (.live payload buf toId channel len)))
    Keyed t toId ∧ t.diag.stats.txTotal = min (s.diag.stats.txTotal + n) u64Max := by
  induction n generalizing s with
  | zero => exact ⟨hk, (Nat.min_eq_left hc).symm⟩
  | succ n ih =>
    obtain ⟨-, hstore, htotal⟩ := seal_counts hL len ha hp hk hroom
    have hk' : Keyed (s.step L (.seal (.live payload buf toId channel len))).2 toId := by
      obtain ⟨store, hs, he⟩ := hk
      exact ⟨store, hstore.trans hs, he⟩
    have hc' : (s.step L (.seal (.live payload buf toId channel len))).2.diag.stats.txTotal ≤ u64Max :=
      htotal ▸ Nat.min_le_right _ _
    obtain ⟨hkn, hn⟩ := ih hk' hc'
    refine ⟨hkn, hn.trans ?_⟩
    rw [show (s.step L (.seal (.live payload buf toId channel len))).2.diag.stats.txTotal = _ from htotal]
    generalize u64Max = top
    omega

theorem run_seals_saturated {s : Session} {payload buf : Bytes} {toId channel : UInt32} (len : Nat)
    (ha : Addressable toId channel) (hp : payload.length ≤ 65470) (hk : Keyed s toId)
    (hroom : payload.length + 37 ≤ buf.length) (hc : s.diag.stats.txTotal ≤ u64Max) {n : Nat} (hn : u64Max ≤ n) :
    let a : SealCall := .live payload buf toId channel len
    let t := Mealy.run (Session.step L) s (List.replicate n (.seal a))
    (lunetPaxeSeal L t a).1 = .rc rcOk ∧
      (lunetPaxeSeal L t a).2.2.diag.stats.txTotal ≠ t.diag.stats.txTotal + 1 := by
  intro a t
  obtain ⟨hkt, htotal⟩ := run_seals hL len ha hp hk hroom hc n
  obtain ⟨hrc, -, hnext⟩ := seal_counts hL len ha hp hkt hroom
  refine ⟨hrc, ?_⟩
  rw [show (lunetPaxeSeal L t a).2.2.diag.stats.txTotal = _ from hnext, show t.diag.stats.txTotal = _ from htotal]
  generalize u64Max = top at hn
  omega

end

theorem aesGcm_correct (rand : Nat → (n : Nat) → Fixed n) : (aesGcm rand).Correct :=
  correct_of_exact (aesGcm_contract rand) (aesGcm_exact rand)

theorem seal_call_exact_short :
    let L := aesGcm counterBytes
    let s : Session := { Session.start with
      store := some (KeyStore.ofLinks 1 [((2, ⟨3, by decide⟩), ⟨List.replicate keyBytes 7, by decide⟩)]) }
    (lunetPaxeSeal L s (.live [104, 105] (List.replicate 39 0) 2 100 0)).1 = .rc rcOk ∧
      (lunetPaxeSeal L s (.live [104, 105] (List.replicate 38 0) 2 100 0)).1 = .rc rcInval ∧
      (lunetPaxeSeal L s (.live [104, 105] (List.replicate 38 0) 3 100 0)).1 = .rc rcErr := by
  intro L s
  have ha : Addressable 2 100 := by constructor <;> decide
  have hk : Keyed s 2 := ⟨_, rfl, ⟨3, by decide⟩, by decide⟩
  refine ⟨?_, ?_, ?_⟩
  · exact (seal_call_exact (aesGcm_correct counterBytes) s [104, 105] (List.replicate 39 0) 2 100 0).1.mpr
      ⟨ha, by decide, hk, by decide⟩
  · exact ((seal_call_exact (aesGcm_correct counterBytes) s [104, 105] (List.replicate 38 0) 2 100 0).2.2.1
      (by decide +kernel)).2.2.1 (Or.inr ⟨by decide, hk⟩)
  · decide +kernel

/-- The counters saturate: a session that sealed `u64::MAX` frames seals one
more, and `tx_total` does not move. -/
theorem seal_call_saturates :
    let L := aesGcm counterBytes
    let s : Session := { Session.start with
      store := some (KeyStore.ofLinks 1 [((2, ⟨3, by decide⟩), ⟨List.replicate keyBytes 7, by decide⟩)]) }
    let a : SealCall := .live [104, 105] (List.replicate 39 0) 2 100 0
    let t := Mealy.run (Session.step L) s (List.replicate u64Max (.seal a))
    (lunetPaxeSeal L t a).1 = .rc rcOk ∧
      (lunetPaxeSeal L t a).2.2.diag.stats.txTotal ≠ t.diag.stats.txTotal + 1 := by
  intro L s
  have ha : Addressable 2 100 := by constructor <;> decide
  have hk : Keyed s 2 := ⟨_, rfl, ⟨3, by decide⟩, by decide⟩
  have hc : s.diag.stats.txTotal ≤ u64Max := Nat.zero_le _
  have hn : u64Max ≤ u64Max := Nat.le_refl _
  have h := @run_seals_saturated L (aesGcm_correct counterBytes) s [104, 105] (List.replicate 39 0) 2 100 0 ha
    (by decide) hk (by decide) hc u64Max hn
  exact h

end Paxe

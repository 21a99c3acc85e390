import Paxe.AesGcm
import Paxe.DekSound

/-!
# Fanout is all or nothing

`selectFanout` either picks the current key of every recipient or stops at the
first failing check; only then is randomness drawn. A fanout that goes ahead
is a map over recipients and nonces, so each frame stands alone.
-/

namespace Paxe
open Wire

/-! ## Selection -/

/-- A recipient with its current epoch and key; the fallback is for ids that
have none and are never selected. -/
def pick (store : KeyStore) (id : UInt16) : Selected :=
  (id, (store.keyForSendCurrent id).getD (⟨0, UInt8.zero_le⟩, ⟨List.replicate keyBytes 0, List.length_replicate⟩))

def Sendable (store : KeyStore) (ids : List UInt16) : Prop :=
  ids.Nodup ∧ ∀ id ∈ ids, ∃ e, (store.slots (id, e)).isSome

/-- The first failing check of a fanout, and the error it gives. -/
inductive FanoutFails (store : KeyStore) (recipients : List UInt16) (payload : Bytes) : Dek.SealError → Prop
  | empty : recipients = [] → FanoutFails store recipients payload .emptyRecipients
  | oversize : recipients ≠ [] → payload.length > Dek.maxPayload →
      FanoutFails store recipients payload (.oversize payload.length)
  | duplicate {before after : List UInt16} {id : UInt16} : payload.length ≤ Dek.maxPayload →
      recipients = before ++ id :: after → Sendable store before → id ∈ before →
      FanoutFails store recipients payload (.duplicateRecipient id)
  | noKey {before after : List UInt16} {id : UInt16} : payload.length ≤ Dek.maxPayload →
      recipients = before ++ id :: after → Sendable store before → id ∉ before →
      (∀ e, store.slots (id, e) = none) → FanoutFails store recipients payload .noKey

section
variable (store : KeyStore)

theorem pick_of_some {id : UInt16} {s : Epoch × StoredKey} (h : store.keyForSendCurrent id = some s) :
    pick store id = (id, s) := by
  simp [pick, h]

theorem current_some_iff (id : UInt16) :
    (∃ s, store.keyForSendCurrent id = some s) ↔ ∃ e, (store.slots (id, e)).isSome := by
  rw [← Option.isSome_iff_exists, ← Option.ne_none_iff_isSome, ne_eq, keyForSendCurrent_eq_none]
  simp [Option.isSome_iff_ne_none]

theorem current_pick {id : UInt16} (h : ∃ e, (store.slots (id, e)).isSome) :
    store.keyForSendCurrent id = some (pick store id).2 := by
  obtain ⟨s, hs⟩ := (current_some_iff store id).mpr h
  rw [pick_of_some store hs, hs]

theorem sendable_cons {id : UInt16} {l seen : List UInt16} (hkey : ∃ e, (store.slots (id, e)).isSome)
    (hseen : id ∉ seen) (hl : Sendable store l) (hs : ∀ x ∈ l, x ∉ id :: seen) :
    Sendable store (id :: l) ∧ ∀ x ∈ id :: l, x ∉ seen := by
  refine ⟨⟨List.nodup_cons.mpr ⟨fun hm => hs id hm (by simp), hl.1⟩, ?_⟩, ?_⟩
  · intro y hy
    rcases List.mem_cons.mp hy with rfl | hy
    · exact hkey
    · exact hl.2 y hy
  · intro x hx
    rcases List.mem_cons.mp hx with rfl | hx
    · exact hseen
    · exact fun hm => hs x hx (List.mem_cons_of_mem _ hm)

theorem selectLoop_spec : ∀ (l seen : List UInt16) (acc : List Selected),
    (Sendable store l ∧ (∀ x ∈ l, x ∉ seen) ∧
      Dek.selectLoop store l seen acc = .ok (acc ++ l.map (pick store))) ∨
    (∃ before id after, l = before ++ id :: after ∧ Sendable store before ∧ (∀ x ∈ before, x ∉ seen) ∧
      ((id ∈ seen ∨ id ∈ before) ∧ Dek.selectLoop store l seen acc = .error (.duplicateRecipient id) ∨
        (id ∉ seen ∧ id ∉ before) ∧ (∀ e, store.slots (id, e) = none) ∧
          Dek.selectLoop store l seen acc = .error .noKey))
  | [], seen, acc => Or.inl ⟨⟨List.nodup_nil, by simp⟩, by simp, by simp [Dek.selectLoop]⟩
  | id :: l, seen, acc => by
    by_cases hseen : id ∈ seen
    · refine Or.inr ⟨[], id, l, rfl, ⟨List.nodup_nil, by simp⟩, by simp, Or.inl ⟨Or.inl hseen, ?_⟩⟩
      simp [Dek.selectLoop, hseen]
    · cases hk : store.keyForSendCurrent id with
      | none =>
        refine Or.inr ⟨[], id, l, rfl, ⟨List.nodup_nil, by simp⟩, by simp, Or.inr ⟨⟨hseen, by simp⟩, ?_, ?_⟩⟩
        · exact (keyForSendCurrent_eq_none store).mp hk
        · simp [Dek.selectLoop, hseen, hk]
      | some s =>
        have hstep : Dek.selectLoop store (id :: l) seen acc =
            Dek.selectLoop store l (id :: seen) (acc ++ [(id, s)]) := by
          simp [Dek.selectLoop, hseen, hk]
        have hkey : ∃ e, (store.slots (id, e)).isSome := (current_some_iff store id).mp ⟨s, hk⟩
        rw [hstep]
        rcases selectLoop_spec l (id :: seen) (acc ++ [(id, s)]) with
          ⟨hl, hs, he⟩ | ⟨before, x, after, rfl, hb, hbs, he⟩
        · obtain ⟨h1, h2⟩ := sendable_cons store hkey hseen hl hs
          refine Or.inl ⟨h1, h2, ?_⟩
          rw [he, List.map_cons, pick_of_some store hk]
          simp
        · obtain ⟨h1, h2⟩ := sendable_cons store hkey hseen hb hbs
          refine Or.inr ⟨id :: before, x, after, rfl, h1, h2, ?_⟩
          · rcases he with ⟨hm, he⟩ | ⟨⟨h1, h2⟩, hno, he⟩
            · refine Or.inl ⟨?_, he⟩
              rcases hm with hm | hm
              · rcases List.mem_cons.mp hm with rfl | hm
                · exact Or.inr (by simp)
                · exact Or.inl hm
              · exact Or.inr (List.mem_cons_of_mem _ hm)
            · refine Or.inr ⟨⟨fun hm => h1 (List.mem_cons_of_mem _ hm), fun hm => ?_⟩, hno, he⟩
              rcases List.mem_cons.mp hm with rfl | hm
              · exact h1 (by simp)
              · exact h2 hm

theorem selectFanout_spec (recipients : List UInt16) (payload : Bytes) :
    (recipients ≠ [] ∧ payload.length ≤ Dek.maxPayload ∧ Sendable store recipients ∧
      Dek.selectFanout store recipients payload = .ok (recipients.map (pick store))) ∨
    (∃ e, FanoutFails store recipients payload e ∧ Dek.selectFanout store recipients payload = .error e) := by
  unfold Dek.selectFanout
  by_cases hne : recipients = []
  · exact Or.inr ⟨_, .empty hne, by simp [hne]⟩
  rw [if_neg (by simpa using hne)]
  by_cases hp : payload.length > Dek.maxPayload
  · exact Or.inr ⟨_, .oversize hne hp, if_pos hp⟩
  rw [if_neg hp]
  rcases selectLoop_spec store recipients [] [] with ⟨hs, -, he⟩ | ⟨b, id, a, hl, hb, -, he⟩
  · exact Or.inl ⟨hne, Nat.not_lt.mp hp, hs, by simpa using he⟩
  · rcases he with ⟨hm, he⟩ | ⟨⟨-, hnb⟩, hno, he⟩
    · exact Or.inr ⟨_, .duplicate (Nat.not_lt.mp hp) hl hb (by simpa using hm), he⟩
    · exact Or.inr ⟨_, .noKey (Nat.not_lt.mp hp) hl hb hnb hno, he⟩

end

/-! ## The whole call -/

theorem drawNonces_eq (L : Libsodium) : ∀ (l : List UInt16) (t : Trace),
    ∃ ens : List Nonce, ens.length = l.length ∧ drawNonces L l t = (ens, t ++ ens.map .drawNonce)
  | [], t => ⟨[], rfl, by simp [drawNonces]⟩
  | _ :: l, t => by
    obtain ⟨ens, hlen, he⟩ := drawNonces_eq L l (randomNonce L t).2
    refine ⟨(randomNonce L t).1 :: ens, by simp [hlen], ?_⟩
    simp only [drawNonces, he]
    simp [randomNonce]

def Dek.draws (dek : Key) (bn : Nonce) (ens : List Nonce) : Trace :=
  ens.map .drawNonce ++ [.drawKey dek, .drawNonce bn]

def Dek.fanoutEncs (L : Libsodium) (localId : UInt16) (channel : UInt32) (dek : Key) (bn : Nonce) (p : Bytes)
    (xs : List (Selected × Nonce)) : List (Aead.Enc Key Nonce) :=
  Dek.bodyEnc L localId channel dek bn p :: xs.map (Dek.envelopeEnc L localId channel dek bn p)

theorem maxPayload_room {p : Bytes} (h : p.length ≤ Dek.maxPayload) : p.length + aBytes ≤ usizeMax := by
  have : Dek.maxPayload = 65410 := rfl
  simp only [aBytes, usizeMax]
  omega

section
variable {L : Libsodium} (hL : L.Contract)
include hL

/-- A fanout fails its first check and touches nothing, or draws, encrypts and
emits for every recipient. -/
theorem sealFanout_cases (store : KeyStore) (recipients : List UInt16) (channel : UInt32) (payload : Bytes)
    (t : Trace) :
    (∃ e, FanoutFails store recipients payload e ∧
      Dek.sealFanout L store recipients channel payload t = ⟨.err e, t⟩) ∨
    (recipients ≠ [] ∧ payload.length ≤ Dek.maxPayload ∧ Sendable store recipients ∧
      ∃ dek bn ens, ens.length = recipients.length ∧
        Dek.sealFanout L store recipients channel payload t =
          ⟨.ok (((recipients.map (pick store)).zip ens).map (Dek.emitted L store.localId channel dek bn payload)),
            t ++ (Dek.draws dek bn ens ++ (Dek.fanoutEncs L store.localId channel dek bn payload
              ((recipients.map (pick store)).zip ens)).map .encrypt)⟩) := by
  rcases selectFanout_spec store recipients payload with ⟨hne, hp, hs, he⟩ | ⟨e, hf, he⟩
  · refine Or.inr ⟨hne, hp, hs, ?_⟩
    obtain ⟨ens, hlen, hd⟩ := drawNonces_eq L recipients t
    let key := randomKey L (t ++ ens.map .drawNonce)
    refine ⟨key.1, (randomNonce L key.2).1, ens, hlen, ?_⟩
    simp only [Dek.sealFanout, he, hd, fanoutCore_eq hL _ _ _ _ _ _ _ (maxPayload_room hp)]
    simp [Dek.draws, Dek.fanoutEncs, key, randomKey, randomNonce, Function.comp_def]
  · exact Or.inl ⟨e, hf, by simp [Dek.sealFanout, he]⟩

end

/-! ## Fanout against a per-recipient reference -/

theorem FanoutFails.not_sendable {store : KeyStore} {recipients : List UInt16} {payload : Bytes} {e : Dek.SealError}
    (h : FanoutFails store recipients payload e) :
    ¬ (recipients ≠ [] ∧ payload.length ≤ Dek.maxPayload ∧ Sendable store recipients) := by
  intro hx
  obtain ⟨hne, hp, hnd, hkeys⟩ := hx
  cases h with
  | empty h => exact hne h
  | oversize _ h => omega
  | duplicate _ hl _ hm =>
    subst hl
    exact (List.nodup_append.mp hnd).2.2 _ hm _ (by simp) rfl
  | @noKey _ _ id _ hl _ _ hno =>
    subst hl
    obtain ⟨e, he⟩ := hkeys id (by simp)
    rw [hno e] at he
    cases he

theorem pick_spec (store : KeyStore) {id : UInt16} (h : ∃ e, (store.slots (id, e)).isSome) :
    (pick store id).1 = id ∧ store.slots (id, (pick store id).2.1) = some (pick store id).2.2.mem ∧
      ∀ e, (store.slots (id, e)).isSome → e.bits ≤ (pick store id).2.1.bits := by
  obtain ⟨hk, hmax⟩ := keyForSendCurrent_spec store (e := (pick store id).2.1) (k := (pick store id).2.2)
    (current_pick store h)
  refine ⟨rfl, ?_, hmax⟩
  rw [← keyForSend_slots, hk]
  rfl

theorem selectFanout_of_sendable (store : KeyStore) {recipients : List UInt16} {payload : Bytes}
    (hne : recipients ≠ []) (hp : payload.length ≤ Dek.maxPayload) (hs : Sendable store recipients) :
    Dek.selectFanout store recipients payload = .ok (recipients.map (pick store)) := by
  rcases selectFanout_spec store recipients payload with ⟨-, -, -, he⟩ | ⟨e, hf, -⟩
  · exact he
  · exact absurd ⟨hne, hp, hs⟩ hf.not_sendable

/-- Frames against a reference that seals for one recipient at a time: in
caller order, each under the recipient's greatest epoch and as a fanout to it
alone would give, all equal past the envelope, and following any permutation
of the recipients with their nonces. -/
structure FanoutGives (L : Libsodium) (store : KeyStore) (recipients : List UInt16) (channel : UInt32)
    (payload : Bytes) (dek : Key) (bn : Nonce) (ens : List Nonce) (frames : List FanoutFrame) : Prop where
  length_eq : frames.length = recipients.length
  each : ∀ (i : Nat) (id : UInt16) (en : Nonce) (f : FanoutFrame), recipients[i]? = some id → ens[i]? = some en →
    frames[i]? = some f →
      f.toId = id ∧ f.frame.length = payload.length + 97 ∧ f.frame.length ≤ 65507 ∧
      parsePrefix f.frame = .ok (⟨store.localId, id, channel⟩, ⟨.dek, f.epoch⟩) ∧
      (store.slots (id, f.epoch)).isSome ∧ (∀ e, (store.slots (id, e)).isSome → e.bits ≤ f.epoch.bits) ∧
      ∃ selected, Dek.selectFanout store [id] payload = .ok selected ∧
        ∀ t, (Dek.sealFanoutCore L store.localId selected channel payload dek bn [en] t).result = .ok [f]
  shared : ∀ f ∈ frames, ∀ g ∈ frames, f.frame.drop 69 = g.frame.drop 69
  permuted : ∃ emit : UInt16 × Nonce → FanoutFrame, frames = (recipients.zip ens).map emit ∧
    ∀ rs ns, rs.length = ns.length → (rs.zip ns).Perm (recipients.zip ens) →
      ∃ selected, Dek.selectFanout store rs payload = .ok selected ∧
        ∀ t, (Dek.sealFanoutCore L store.localId selected channel payload dek bn ns t).result =
          .ok ((rs.zip ns).map emit)

section
variable {L : Libsodium} (hL : L.Contract)
include hL

theorem emitted_shared (localId : UInt16) (channel : UInt32) (dek : Key) (bn : Nonce) (p : Bytes)
    (x : Selected × Nonce) :
    (Dek.emitted L localId channel dek bn p x).frame.drop 69 = Dek.body L localId channel dek bn p := by
  simp only [Dek.emitted, Dek.frame]
  rw [← List.append_assoc, ← List.append_assoc]
  refine List.drop_left' ?_
  simp only [List.length_append, serializePrefix_length, x.2.property, Dek.envelope_length hL]
  rfl

theorem core_pick (store : KeyStore) (recipients : List UInt16) (channel : UInt32) {payload : Bytes} (dek : Key)
    (bn : Nonce) (ens : List Nonce) (t : Trace) (hp : payload.length ≤ Dek.maxPayload) :
    (Dek.sealFanoutCore L store.localId (recipients.map (pick store)) channel payload dek bn ens t).result =
      .ok ((recipients.zip ens).map fun x =>
        Dek.emitted L store.localId channel dek bn payload (pick store x.1, x.2)) := by
  rw [fanoutCore_eq hL _ _ _ _ _ _ _ (maxPayload_room hp), List.zip_map_left, List.map_map]
  rfl

theorem fanoutGives (store : KeyStore) {recipients : List UInt16} (channel : UInt32) {payload : Bytes} (dek : Key)
    (bn : Nonce) {ens : List Nonce} (hne : recipients ≠ []) (hp : payload.length ≤ Dek.maxPayload)
    (hs : Sendable store recipients) (hlen : ens.length = recipients.length) :
    FanoutGives L store recipients channel payload dek bn ens
      ((recipients.zip ens).map fun x =>
        Dek.emitted L store.localId channel dek bn payload (pick store x.1, x.2)) where
  length_eq := by simp [hlen]
  each i id en f hid hen hf := by
    have hmem : id ∈ recipients := List.mem_of_getElem? hid
    have hone : Sendable store [id] := ⟨List.nodup_singleton id, by simpa using hs.2 id hmem⟩
    have hpk := pick_spec store (hs.2 id hmem)
    rw [List.getElem?_map, List.getElem?_zip_eq_some (z := (id, en)) |>.mpr ⟨hid, hen⟩] at hf
    obtain rfl := Option.some.inj hf
    have hl : (Dek.emitted L store.localId channel dek bn payload (pick store id, en)).frame.length =
        payload.length + 97 := Dek.frame_length hL _ _ _ _ _ _ _
    have hmax : Dek.maxPayload = 65410 := rfl
    refine ⟨hpk.1, hl, hl ▸ by omega, ?_, ?_, hpk.2.2, _, selectFanout_of_sendable store (by simp) hp hone,
      fun t => ?_⟩
    · exact Dek.frame_parse ..
    · exact Option.isSome_of_eq_some hpk.2.1
    · rw [core_pick hL store _ channel dek bn _ t hp]
      rfl
  shared f hf g hg := by
    obtain ⟨x, -, rfl⟩ := List.mem_map.mp hf
    obtain ⟨y, -, rfl⟩ := List.mem_map.mp hg
    rw [emitted_shared hL, emitted_shared hL]
  permuted := by
    refine ⟨_, rfl, fun rs ns hrn hperm => ?_⟩
    have hrs : rs.Perm recipients := by
      have := hperm.map Prod.fst
      rwa [List.map_fst_zip (Nat.le_of_eq hrn), List.map_fst_zip (Nat.le_of_eq hlen.symm)] at this
    have hsr : Sendable store rs := ⟨hrs.nodup_iff.mpr hs.1, fun id hid => hs.2 id (hrs.mem_iff.mp hid)⟩
    have hner : rs ≠ [] := fun h => hne (List.nil_perm.mp (h ▸ hrs))
    exact ⟨_, selectFanout_of_sendable store hner hp hsr, fun t => core_pick hL store rs channel dek bn ns t hp⟩

/-- A fanout seals for all recipients or for none. It succeeds exactly on a
non-empty list of distinct peers with keys and a payload that fits; else it
gives the first failing check and draws nothing. -/
theorem sealFanout_all_or_nothing (store : KeyStore) (recipients : List UInt16) (channel : UInt32)
    (payload : Bytes) (t : Trace) :
    let r := Dek.sealFanout L store recipients channel payload t
    ((∃ frames, r.result = .ok frames) ↔ recipients ≠ [] ∧ recipients.Nodup ∧ payload.length ≤ 65410 ∧
      ∀ id ∈ recipients, ∃ e, (store.slots (id, e)).isSome) ∧
    ((¬ ∃ frames, r.result = .ok frames) →
      ∃ e, FanoutFails store recipients payload e ∧ r.result = .err e ∧ r.trace = t) ∧
    (∀ frames, r.result = .ok frames → ∃ (dek : Key) (bn : Nonce) (ens : List Nonce)
      (encs : List (Aead.Enc Key Nonce)), ens.length = recipients.length ∧
      r.trace = t ++ (Dek.draws dek bn ens ++ encs.map .encrypt) ∧
      FanoutGives L store recipients channel payload dek bn ens frames) := by
  intro r
  rcases sealFanout_cases hL store recipients channel payload t with ⟨e, hf, he⟩ |
    ⟨hne, hp, hs, dek, bn, ens, hlen, he⟩
  · have hr : r.result = .err e ∧ r.trace = t := by simp only [r, he, and_self]
    have hno : ¬ ∃ frames, r.result = .ok frames := by simp [hr.1]
    refine ⟨⟨fun h => absurd h hno, fun ⟨h1, h2, h3, h4⟩ => ?_⟩, fun _ => ⟨e, hf, hr⟩, ?_⟩
    · exact absurd ⟨h1, h3, h2, h4⟩ hf.not_sendable
    · exact fun frames h => absurd ⟨frames, h⟩ hno
  · have hr : r.result = .ok ((recipients.zip ens).map fun x =>
        Dek.emitted L store.localId channel dek bn payload (pick store x.1, x.2)) := by
      simp only [r, he, List.zip_map_left, List.map_map]
      rfl
    refine ⟨⟨fun _ => ⟨hne, hs.1, hp, hs.2⟩, fun _ => ⟨_, hr⟩⟩, fun h => absurd ⟨_, hr⟩ h, ?_⟩
    intro frames hfr
    rw [hr, Res.ok.injEq] at hfr
    subst hfr
    exact ⟨dek, bn, ens, _, hlen, congrArg Dek.SealRet.trace he, fanoutGives hL store channel dek bn hne hp hs hlen⟩

end

theorem sealFanout_all_or_nothing_two :
    let key : Key := ⟨List.replicate keyBytes 7, by decide⟩
    let store := KeyStore.ofLinks 1
        [((2, ⟨0, by decide⟩), key), ((2, ⟨5, by decide⟩), key), ((3, ⟨1, by decide⟩), key)]
    ∃ frames dek bn ens, (Dek.sealFanout (aesGcm counterBytes) store [3, 2] 100 [1, 2, 3] []).result = .ok frames ∧
      FanoutGives (aesGcm counterBytes) store [3, 2] 100 [1, 2, 3] dek bn ens frames := by
  intro key store
  obtain ⟨h1, -, h3⟩ := sealFanout_all_or_nothing (aesGcm_contract counterBytes) store [3, 2] 100 [1, 2, 3] []
  obtain ⟨frames, hf⟩ := h1.mpr ⟨by simp, by decide, by decide, by
    intro id hid
    rcases List.mem_pair.mp hid with rfl | rfl
    · exact ⟨⟨1, by decide⟩, by decide⟩
    · exact ⟨⟨5, by decide⟩, by decide⟩⟩
  obtain ⟨dek, bn, ens, -, -, -, hg⟩ := h3 frames hf
  exact ⟨frames, dek, bn, ens, hf, hg⟩

end Paxe

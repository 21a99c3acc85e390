import Paxe.AesGcm
import Paxe.FanoutSound

/-!
# What the sealing calls do

Each of the three sealing calls either fails or emits frames whose wire image,
draws and encryptions are known. What it draws and encrypts pairs up whatever
the library answers.
-/

namespace Paxe
open Wire

def Standard.frameEnc (L : Libsodium) (k : Key) (h : Header) (e : Epoch) (n : Nonce) (p : Bytes) :
    Aead.Enc Key Nonce :=
  ⟨k, n, (serializePrefix h ⟨.standard, e⟩).val, p, L.enc k n (serializePrefix h ⟨.standard, e⟩).val p⟩

/-! ## Results -/

section
variable {L : Libsodium} (hL : L.Contract)
include hL

/-- The standard sealer draws its nonce first, and encrypts only past every
gate. -/
theorem standardSeal_cases (S : KeyStore) (toId : UInt16) (channel : UInt32) (e : Epoch) (p out : Bytes)
    (t : Trace) :
    (∃ n err, Standard.seal L S toId channel e p out t = ⟨.err err, out, t ++ [.drawNonce n]⟩) ∨
    (∃ n k, S.slots (toId, e) = some k ∧ p.length ≤ Standard.maxPayload ∧
      p.length + Standard.overhead ≤ out.length ∧
      Standard.seal L S toId channel e p out t =
        ⟨.ok (p.length + Standard.overhead),
          Standard.frame L k ⟨S.localId, toId, channel⟩ e n p ++ out.drop (p.length + Standard.overhead),
          t ++ [.drawNonce n, .encrypt (Standard.frameEnc L k ⟨S.localId, toId, channel⟩ e n p)]⟩) := by
  simp only [Standard.seal, randomNonce, sealCore_eq hL]
  by_cases hp : p.length > Standard.maxPayload
  · exact Or.inl ⟨_, _, if_pos hp⟩
  · rw [if_neg hp]
    by_cases ho : out.length < p.length + Standard.overhead
    · exact Or.inl ⟨_, _, if_pos ho⟩
    · rw [if_neg ho]
      cases hk : S.keyForSend toId e with
      | none => exact Or.inl ⟨_, _, rfl⟩
      | some k =>
        refine Or.inr ⟨(randomNonce L t).1, k.mem, ?_, Nat.not_lt.mp hp, Nat.not_lt.mp ho, ?_⟩
        · rw [← keyForSend_slots, hk]
          rfl
        · simp [Standard.frameEnc, randomNonce]

theorem dekSeal_cases (S : KeyStore) (toId : UInt16) (channel : UInt32) (e : Epoch) (p : Bytes) (t : Trace) :
    (∃ err, Dek.seal L S toId channel e p t = ⟨.err err, t⟩) ∨
    (∃ n err, Dek.seal L S toId channel e p t = ⟨.err err, t ++ [.drawNonce n]⟩) ∨
    (∃ n k, S.slots (toId, e) = some k ∧ p.length ≤ Standard.maxPayload ∧
      Dek.seal L S toId channel e p t = ⟨.ok (Standard.frame L k ⟨S.localId, toId, channel⟩ e n p),
        t ++ [.drawNonce n, .encrypt (Standard.frameEnc L k ⟨S.localId, toId, channel⟩ e n p)]⟩) := by
  unfold Dek.seal
  by_cases hp : p.length > Standard.maxPayload
  · exact Or.inl ⟨_, if_pos hp⟩
  · rw [if_neg hp]
    refine Or.inr ?_
    rcases standardSeal_cases hL S toId channel e p (List.replicate (p.length + Standard.overhead) 0) t with
      ⟨n, err, hs⟩ | ⟨n, k, hk, hmax, -, hs⟩
    · refine Or.inl ⟨n, ?_⟩
      simp only [hs]
      cases err with
      | payloadTooLarge m => exact ⟨_, rfl⟩
      | outputTooSmall a b => exact ⟨_, rfl⟩
      | noKey => exact ⟨_, rfl⟩
      | sodium e => exact ⟨_, rfl⟩
    · refine Or.inr ⟨n, k, hk, hmax, ?_⟩
      simp only [hs]
      rw [List.drop_eq_nil_of_le (Nat.le_of_eq List.length_replicate), List.append_nil]

theorem dekSeal_eq {S : KeyStore} {toId : UInt16} (channel : UInt32) {e : Epoch} {k : Key} {p : Bytes} (t : Trace)
    (hk : S.slots (toId, e) = some k) (hp : p.length ≤ Standard.maxPayload) :
    Dek.seal L S toId channel e p t =
      ⟨.ok (Standard.frame L k ⟨S.localId, toId, channel⟩ e (randomNonce L t).1 p),
        t ++ [.drawNonce (randomNonce L t).1,
        .encrypt (Standard.frameEnc L k ⟨S.localId, toId, channel⟩ e (randomNonce L t).1 p)]⟩ := by
  obtain ⟨stored, hs, rfl⟩ := Option.map_eq_some_iff.mp hk
  have hs : S.keyForSend toId e = some stored := hs
  simp only [Dek.seal, if_neg (Nat.not_lt.mpr hp), Standard.seal, sealCore_eq hL, List.length_replicate,
    Nat.lt_irrefl, if_false, hs, List.drop_eq_nil_of_le (Nat.le_of_eq List.length_replicate), List.append_nil]
  simp [randomNonce, Standard.frameEnc]

end

inductive SealedBy (L : Libsodium) (S : KeyStore) (toId : UInt16) (channel : UInt32) (e : Epoch) (p frame : Bytes) :
    Mode → Prop
  | buffer {out : Bytes} {t : Trace} {n : Nat} : (Standard.seal L S toId channel e p out t).result = .ok n →
      frame = (Standard.seal L S toId channel e p out t).out.take n → SealedBy L S toId channel e p frame .standard
  | vec {t : Trace} : (Dek.seal L S toId channel e p t).result = .ok frame →
      SealedBy L S toId channel e p frame .standard
  | fanout {recipients : List UInt16} {t : Trace} {frames : List FanoutFrame} :
      (Dek.sealFanout L S recipients channel p t).result = .ok frames → ⟨toId, e, frame⟩ ∈ frames →
      SealedBy L S toId channel e p frame .dek

section
variable {L : Libsodium} (hL : L.Contract)
include hL

theorem SealedBy.wire {S : KeyStore} {toId : UInt16} {channel : UInt32} {e : Epoch} {p frame : Bytes} {m : Mode}
    (h : SealedBy L S toId channel e p frame m) :
    ∃ k, S.slots (toId, e) = some k ∧ match m with
      | .standard => ∃ n, frame = Standard.frame L k ⟨S.localId, toId, channel⟩ e n p
      | .dek => ∃ en dek bn, frame = Dek.frame L k ⟨S.localId, toId, channel⟩ e en dek bn p := by
  cases h with
  | @buffer out t n hr hf =>
    rcases standardSeal_cases hL S toId channel e p out t with ⟨_, err, hs⟩ | ⟨nonce, k, hk, -, -, hs⟩
    · rw [hs] at hr
      cases hr
    · rw [hs] at hr hf
      cases hr
      refine ⟨k, hk, nonce, ?_⟩
      rw [hf, List.take_left' (Standard.frame_length hL ..)]
  | @vec t hr =>
    rcases dekSeal_cases hL S toId channel e p t with ⟨err, hs⟩ | ⟨_, err, hs⟩ | ⟨nonce, k, hk, -, hs⟩
    · rw [hs] at hr
      cases hr
    · rw [hs] at hr
      cases hr
    · rw [hs] at hr
      exact ⟨k, hk, nonce, (Res.ok.inj hr).symm⟩
  | @fanout recipients t frames hr hm =>
    rcases sealFanout_cases hL S recipients channel p t with ⟨err, -, hs⟩ | ⟨-, -, hsend, dek, bn, ens, -, hs⟩
    · rw [hs] at hr
      cases hr
    · rw [hs, List.zip_map_left, List.map_map, Res.ok.injEq] at hr
      subst hr
      obtain ⟨⟨id, en⟩, hx, he⟩ := List.mem_map.mp hm
      obtain ⟨rfl, rfl, rfl⟩ := FanoutFrame.mk.inj he
      exact ⟨_, (pick_spec S (hsend.2 id (List.of_mem_zip hx).1)).2.1, en, dek, bn, rfl⟩

end

/-! ## Draws and encryptions, whatever the library does -/

theorem standardSeal_fresh (L : Libsodium) (S : KeyStore) (toId : UInt16) (channel : UInt32) (e : Epoch)
    (p out : Bytes) (t : Trace) :
    ∃ seg, (Standard.seal L S toId channel e p out t).trace = t ++ seg ∧ Aead.Fresh seg := by
  simp only [Standard.seal, randomNonce]
  generalize L.randombytes t.length npubBytes = n
  by_cases hp : p.length > Standard.maxPayload
  · exact ⟨[.drawNonce n], by rw [Standard.sealCore, if_pos hp], Aead.fresh_of_encs_nil rfl⟩
  by_cases ho : out.length < p.length + Standard.overhead
  · exact ⟨[.drawNonce n], by simp only [Standard.sealCore, if_neg hp, if_pos ho], Aead.fresh_of_encs_nil rfl⟩
  cases hk : S.keyForSend toId e with
  | none =>
    exact ⟨[.drawNonce n], by simp only [Standard.sealCore, if_neg hp, if_neg ho, hk], Aead.fresh_of_encs_nil rfl⟩
  | some k =>
    rw [sealCore_core L S channel n _ (Nat.not_lt.mp hp) (Nat.not_lt.mp ho) hk]
    exact ⟨[.drawNonce n] ++ List.map .encrypt [Standard.frameEnc L k.mem ⟨S.localId, toId, channel⟩ e n p],
      List.append_assoc .., Aead.fresh_segment rfl (List.Subperm.refl _)⟩

theorem dekSeal_fresh (L : Libsodium) (S : KeyStore) (toId : UInt16) (channel : UInt32) (e : Epoch) (p : Bytes)
    (t : Trace) : ∃ seg, (Dek.seal L S toId channel e p t).trace = t ++ seg ∧ Aead.Fresh seg := by
  unfold Dek.seal
  by_cases hp : p.length > Standard.maxPayload
  · exact ⟨[], by simp [hp], Aead.fresh_nil⟩
  · obtain ⟨seg, ht, hf⟩ := standardSeal_fresh L S toId channel e p
      (List.replicate (p.length + Standard.overhead) 0) t
    refine ⟨seg, ?_, hf⟩
    rw [if_neg hp, ← ht]
    dsimp only
    split <;> rfl

theorem encStatus_ne_panic (L : Libsodium) (k : Key) (n : Nonce) (aad p : Bytes) :
    L.encStatus k n aad p ≠ .panic := by
  unfold Libsodium.encStatus
  split <;> simp

theorem dekSeal_any (L : Libsodium) (S : KeyStore) (toId : UInt16) (channel : UInt32) (e : Epoch) (p : Bytes)
    (t : Trace) :
    (∃ err, (Dek.seal L S toId channel e p t).result = .err err) ∨
      ∃ frame, (Dek.seal L S toId channel e p t).result = .ok frame ∧
        parsePrefix frame = .ok (⟨S.localId, toId, channel⟩, ⟨.standard, e⟩) := by
  by_cases hp : p.length > Standard.maxPayload
  · exact Or.inl ⟨_, by rw [Dek.seal, if_pos hp]⟩
  cases hk : S.keyForSend toId e with
  | none =>
    refine Or.inl ⟨.noKey, ?_⟩
    simp only [Dek.seal, if_neg hp, Standard.seal, Standard.sealCore, List.length_replicate, Nat.lt_irrefl,
      if_false, hk]
  | some k =>
    simp only [Dek.seal, if_neg hp, Standard.seal, sealCore_core L S channel _ _ (Nat.not_lt.mp hp)
      (Nat.le_of_eq List.length_replicate.symm) hk]
    cases hs : L.encStatus k.mem (randomNonce L t).1
        (serializePrefix ⟨S.localId, toId, channel⟩ ⟨.standard, e⟩).val p with
    | ok n => exact Or.inr ⟨_, rfl, by rw [List.append_assoc, parsePrefix_serialize]⟩
    | err err => exact Or.inl ⟨_, rfl⟩
    | panic => exact absurd hs (encStatus_ne_panic _ _ _ _ _)

theorem fanoutFrame_trace (L : Libsodium) (localId : UInt16) (channel : UInt32) (dek : Key) (body bodyTag : Bytes)
    (s : Selected) (en : Nonce) (t : Trace) :
    (Dek.fanoutFrame L localId channel dek body bodyTag s en t).trace = t ∨
      ∃ e : Aead.Enc Key Nonce, e.nonce = en ∧
        (Dek.fanoutFrame L localId channel dek body bodyTag s en t).trace = t ++ [.encrypt e] := by
  fun_cases Dek.fanoutFrame L localId channel dek body bodyTag s en t
  all_goals first
    | exact Or.inl rfl
    | exact aeadEncrypt_trace ..

theorem encs_of_atMostOne {n : Nonce} {t t' : Trace}
    (h : t' = t ∨ ∃ e : Aead.Enc Key Nonce, e.nonce = n ∧ t' = t ++ [.encrypt e]) :
    ∃ es : List (Aead.Enc Key Nonce), (es.map (·.nonce)).Sublist [n] ∧ t' = t ++ es.map .encrypt := by
  rcases h with rfl | ⟨e, rfl, rfl⟩
  · exact ⟨[], List.nil_sublist _, by simp⟩
  · exact ⟨[e], List.Sublist.refl _, rfl⟩

theorem fanoutLoop_trace (L : Libsodium) (localId : UInt16) (channel : UInt32) (dek : Key) (body bodyTag : Bytes) :
    ∀ (l : List (Selected × Nonce)) (frames : List FanoutFrame) (t : Trace),
      ∃ es : List (Aead.Enc Key Nonce), (es.map (·.nonce)).Sublist (l.map Prod.snd) ∧
        (Dek.fanoutLoop L localId channel dek body bodyTag l frames t).trace = t ++ es.map .encrypt
  | [], frames, t => ⟨[], List.Sublist.refl _, by simp [Dek.fanoutLoop]⟩
  | (s, en) :: l, frames, t => by
    obtain ⟨es, hes, ht⟩ := encs_of_atMostOne (fanoutFrame_trace L localId channel dek body bodyTag s en t)
    have hstop : (es.map (·.nonce)).Sublist (((s, en) :: l).map Prod.snd) :=
      hes.trans (List.singleton_sublist.mpr (by simp))
    simp only [Dek.fanoutLoop]
    split
    · obtain ⟨es', hes', ht'⟩ := fanoutLoop_trace L localId channel dek body bodyTag l _
        (Dek.fanoutFrame L localId channel dek body bodyTag s en t).trace
      refine ⟨es ++ es', ?_, by rw [ht', ht]; simp⟩
      rw [List.map_append]
      exact hes.append hes'
    · exact ⟨es, hstop, ht⟩
    · exact ⟨es, hstop, ht⟩

theorem zip_snd_sublist {α β : Type} : ∀ (l : List α) (m : List β), ((l.zip m).map Prod.snd).Sublist m
  | [], m => by simp
  | _ :: _, [] => by simp
  | _ :: l, b :: m => (zip_snd_sublist l m).cons_cons b

theorem fanoutCore_trace (L : Libsodium) (localId : UInt16) (selected : List Selected) (channel : UInt32)
    (p : Bytes) (dek : Key) (bn : Nonce) (ens : List Nonce) (t : Trace) :
    ∃ es : List (Aead.Enc Key Nonce), (es.map (·.nonce)).Sublist (bn :: ens) ∧
      (Dek.sealFanoutCore L localId selected channel p dek bn ens t).trace = t ++ es.map .encrypt := by
  obtain ⟨es, hes, ht⟩ := encs_of_atMostOne (aeadEncrypt_trace L dek bn (bodyAad localId channel).val p
    (List.replicate (p.length + aBytes) 0) t)
  have hstop : (es.map (·.nonce)).Sublist (bn :: ens) := hes.trans (List.singleton_sublist.mpr (by simp))
  simp only [Dek.sealFanoutCore, bodyBuffer_split, bodyBuffer_nonce]
  split
  · exact ⟨es, hstop, ht⟩
  · exact ⟨es, hstop, ht⟩
  · split
    · exact ⟨es, hstop, ht⟩
    · split
      · exact ⟨es, hstop, ht⟩
      · obtain ⟨es', hes', ht'⟩ := fanoutLoop_trace L localId channel dek _ _ (selected.zip ens) [] _
        refine ⟨es ++ es', ?_, ht'.trans (by rw [ht]; simp)⟩
        rw [List.map_append]
        exact hes.append (hes'.trans (zip_snd_sublist selected ens))

theorem sealFanout_fresh (L : Libsodium) (S : KeyStore) (recipients : List UInt16) (channel : UInt32) (p : Bytes)
    (t : Trace) : ∃ seg, (Dek.sealFanout L S recipients channel p t).trace = t ++ seg ∧ Aead.Fresh seg := by
  cases hsel : Dek.selectFanout S recipients p with
  | error e => exact ⟨[], by simp [Dek.sealFanout, hsel], Aead.fresh_nil⟩
  | ok selected =>
    obtain ⟨ens, -, hd⟩ := drawNonces_eq L recipients t
    let key := randomKey L (t ++ ens.map .drawNonce)
    let bn := randomNonce L key.2
    obtain ⟨es, hes, ht⟩ := fanoutCore_trace L S.localId selected channel p key.1 bn.1 ens bn.2
    refine ⟨Dek.draws key.1 bn.1 ens ++ es.map .encrypt, ?_, Aead.fresh_segment ?_ ?_⟩
    · simp only [Dek.sealFanout, hsel, hd]
      rw [← List.append_assoc]
      refine ht.trans ?_
      simp [key, bn, randomKey, randomNonce, Dek.draws]
    · simp [Dek.draws, Aead.encs]
    · have hn : Aead.nonces (Dek.draws key.1 bn.1 ens) = ens ++ [bn.1] := by
        simp [Dek.draws]
        rfl
      rw [hn]
      exact hes.subperm.trans (List.perm_append_singleton bn.1 ens).symm.subperm

/-! ## Exactness of the one-recipient sealers -/

section
variable {L : Libsodium} (hL : L.Contract)
include hL

theorem standardSeal_error (S : KeyStore) (toId : UInt16) (channel : UInt32) (e : Epoch) (p out : Bytes) (t : Trace)
    {err : Standard.SealError} (h : (Standard.seal L S toId channel e p out t).result = .err err) :
    (Standard.seal L S toId channel e p out t).out = out ∧
      ((65470 < p.length ∧ err = .payloadTooLarge p.length) ∨
      (p.length ≤ 65470 ∧ out.length < p.length + 37 ∧ err = .outputTooSmall (p.length + 37) out.length) ∨
      (p.length ≤ 65470 ∧ p.length + 37 ≤ out.length ∧ S.slots (toId, e) = none ∧ err = .noKey)) := by
  simp only [Standard.seal, randomNonce, sealCore_eq hL] at h ⊢
  by_cases hp : p.length > Standard.maxPayload
  · rw [if_pos hp] at h ⊢
    cases h
    exact ⟨rfl, Or.inl ⟨hp, rfl⟩⟩
  rw [if_neg hp] at h ⊢
  by_cases ho : out.length < p.length + Standard.overhead
  · rw [if_pos ho] at h ⊢
    cases h
    exact ⟨rfl, Or.inr (Or.inl ⟨Nat.not_lt.mp hp, ho, rfl⟩)⟩
  rw [if_neg ho] at h ⊢
  cases hk : S.keyForSend toId e with
  | none =>
    rw [hk] at h
    cases h
    refine ⟨rfl, Or.inr (Or.inr ⟨Nat.not_lt.mp hp, Nat.not_lt.mp ho, ?_, rfl⟩)⟩
    rw [← keyForSend_slots, hk]
    rfl
  | some k =>
    rw [hk] at h
    cases h

theorem standardSeal_eq {S : KeyStore} {toId : UInt16} (channel : UInt32) {e : Epoch} {k : Key} {p out : Bytes}
    (t : Trace) (hp : p.length ≤ 65470) (ho : p.length + 37 ≤ out.length) (hk : S.slots (toId, e) = some k) :
    (Standard.seal L S toId channel e p out t).result = .ok (p.length + 37) ∧
      (Standard.seal L S toId channel e p out t).out =
        Standard.frame L k ⟨S.localId, toId, channel⟩ e (randomNonce L t).1 p ++ out.drop (p.length + 37) := by
  obtain ⟨stored, hs, rfl⟩ := Option.map_eq_some_iff.mp hk
  have hs : S.keyForSend toId e = some stored := hs
  have hp : ¬ p.length > Standard.maxPayload := Nat.not_lt.mpr hp
  have ho : ¬ out.length < p.length + Standard.overhead := Nat.not_lt.mpr ho
  simp only [Standard.seal, sealCore_eq hL, if_neg hp, if_neg ho, hs]
  exact ⟨rfl, rfl⟩

theorem dekSeal_result (S : KeyStore) (toId : UInt16) (channel : UInt32) (e : Epoch) (p : Bytes) (t : Trace) :
    (Dek.seal L S toId channel e p t).result =
      if 65470 < p.length then .err (.oversize p.length)
      else (S.slots (toId, e)).elim (.err .noKey) fun k =>
        .ok (Standard.frame L k ⟨S.localId, toId, channel⟩ e (randomNonce L t).1 p) := by
  by_cases hp : 65470 < p.length
  · rw [if_pos hp, Dek.seal, if_pos (show p.length > Standard.maxPayload from hp)]
  rw [if_neg hp]
  cases hk : S.slots (toId, e) with
  | none =>
    have hs : S.keyForSend toId e = none := Option.map_eq_none_iff.mp hk
    simp only [Dek.seal, if_neg (show ¬ p.length > Standard.maxPayload from hp), Standard.seal, sealCore_eq hL,
      List.length_replicate, Nat.lt_irrefl, if_false, hs]
    rfl
  | some k =>
    rw [dekSeal_eq hL channel t hk (Nat.not_lt.mp hp)]
    rfl

theorem standardSeal_ok {S : KeyStore} {toId : UInt16} {channel : UInt32} {e : Epoch} {p out : Bytes} {t : Trace}
    {n : Nat} (h : (Standard.seal L S toId channel e p out t).result = .ok n) :
    p.length ≤ 65470 ∧ p.length + 37 ≤ out.length ∧ ∃ k, S.slots (toId, e) = some k := by
  rcases standardSeal_cases hL S toId channel e p out t with ⟨_, err, hs⟩ | ⟨_, k, hk, hp, ho, -⟩
  · rw [hs] at h
    cases h
  · exact ⟨hp, ho, k, hk⟩

theorem standardSeal_splits {S : KeyStore} {toId : UInt16} {channel : UInt32} {e : Epoch} {k : Key} {p out : Bytes}
    {t : Trace} {n : Nat} (h : (Standard.seal L S toId channel e p out t).result = .ok n)
    (hk : S.slots (toId, e) = some k) :
    n = p.length + 37 ∧ (Standard.seal L S toId channel e p out t).out.take n =
        Standard.frame L k ⟨S.localId, toId, channel⟩ e (randomNonce L t).1 p ∧
      (Standard.seal L S toId channel e p out t).out.drop n = out.drop n := by
  obtain ⟨hp, ho, -⟩ := standardSeal_ok hL h
  obtain ⟨hres, hout⟩ := standardSeal_eq hL channel t hp ho hk
  have hlen : (Standard.frame L k ⟨S.localId, toId, channel⟩ e (randomNonce L t).1 p).length = p.length + 37 :=
    Standard.frame_length hL ..
  obtain rfl : n = p.length + 37 := Res.ok.inj (h.symm.trans hres)
  rw [hout]
  exact ⟨rfl, List.take_left' hlen, List.drop_left' hlen⟩

/-- Sealing into a buffer succeeds on exactly three conditions, names the
first that fails, and writes a whole frame or nothing. The allocating sealer
succeeds on the same conditions less the buffer's, with the same frame. -/
theorem standard_seal_exact (S : KeyStore) (toId : UInt16) (channel : UInt32) (e : Epoch) (p out : Bytes)
    (t : Trace) :
    let r := Standard.seal L S toId channel e p out t
    let pre := (serializePrefix ⟨S.localId, toId, channel⟩ ⟨.standard, e⟩).val
    let nonce := (randomNonce L t).1
    ((∃ n, r.result = .ok n) ↔ p.length ≤ 65470 ∧ p.length + 37 ≤ out.length ∧ (S.slots (toId, e)).isSome) ∧
    (∀ n, r.result = .ok n → n = p.length + 37 ∧ r.out.drop n = out.drop n ∧
      ∃ k, S.slots (toId, e) = some k ∧ r.out.take n = pre ++ nonce.val ++ L.enc k nonce pre p) ∧
    (∀ err, r.result = .err err → r.out = out ∧
      ((65470 < p.length ∧ err = .payloadTooLarge p.length) ∨
      (p.length ≤ 65470 ∧ out.length < p.length + 37 ∧ err = .outputTooSmall (p.length + 37) out.length) ∨
      (p.length ≤ 65470 ∧ p.length + 37 ≤ out.length ∧ S.slots (toId, e) = none ∧ err = .noKey))) ∧
    r.result ≠ .panic ∧
    (∀ t', let q := Dek.seal L S toId channel e p t'
      ((∃ frame, q.result = .ok frame) ↔ p.length ≤ 65470 ∧ (S.slots (toId, e)).isSome) ∧
      (∀ err, q.result = .err err → (65470 < p.length ∧ err = .oversize p.length) ∨
        (p.length ≤ 65470 ∧ S.slots (toId, e) = none ∧ err = .noKey)) ∧
      q.result ≠ .panic ∧
      (∀ n, r.result = .ok n → (randomNonce L t').1 = nonce → q.result = .ok (r.out.take n))) := by
  intro r pre nonce
  refine ⟨⟨?_, ?_⟩, ?_, ?_, ?_, ?_⟩
  · rintro ⟨n, hn⟩
    obtain ⟨hp, ho, k, hk⟩ := standardSeal_ok hL hn
    exact ⟨hp, ho, by rw [hk]; rfl⟩
  · rintro ⟨hp, ho, hk⟩
    obtain ⟨k, hk⟩ := Option.isSome_iff_exists.mp hk
    exact ⟨_, (standardSeal_eq hL channel t hp ho hk).1⟩
  · intro n hn
    obtain ⟨hp, ho, k, hk⟩ := standardSeal_ok hL hn
    obtain ⟨hn, htake, hdrop⟩ := standardSeal_splits hL hn hk
    refine ⟨hn, hdrop, k, hk, htake.trans ?_⟩
    simp only [Standard.frame, List.append_assoc, pre, nonce]
  · intro err herr
    exact standardSeal_error hL S toId channel e p out t herr
  · intro hpanic
    rcases standardSeal_cases hL S toId channel e p out t with ⟨_, err, hs⟩ | ⟨_, _, _, _, _, hs⟩
    · rw [show r = _ from hs] at hpanic
      cases hpanic
    · rw [show r = _ from hs] at hpanic
      cases hpanic
  · intro t' q
    have hq : q.result = _ := dekSeal_result hL S toId channel e p t'
    rw [hq]
    by_cases hp : 65470 < p.length
    · rw [if_pos hp]
      refine ⟨?_, ?_, by simp, ?_⟩
      · simp [Nat.not_le.mpr hp]
      · intro err herr
        exact Or.inl ⟨hp, (Res.err.inj herr).symm⟩
      · intro n hn
        exact absurd hp (Nat.not_lt.mpr (standardSeal_ok hL hn).1)
    · rw [if_neg hp]
      have hp := Nat.not_lt.mp hp
      cases hk : S.slots (toId, e) with
      | none =>
        refine ⟨by simp, ?_, by simp, ?_⟩
        · intro err herr
          exact Or.inr ⟨hp, rfl, (Res.err.inj herr).symm⟩
        · intro n hn
          obtain ⟨-, -, k, hk'⟩ := standardSeal_ok hL hn
          rw [hk] at hk'
          cases hk'
      | some k =>
        refine ⟨by simp [hp], by simp, by simp, ?_⟩
        intro n hn hnonce
        rw [hnonce, (standardSeal_splits hL hn hk).2.1]
        rfl

end

theorem standard_seal_exact_room :
    let L := aesGcm counterBytes
    let e : Epoch := ⟨3, by decide⟩
    let S := KeyStore.ofLinks 1 [((2, e), ⟨List.replicate keyBytes 7, by decide⟩)]
    (Standard.seal L S 2 100 e [104, 105] (List.replicate 40 9) []).result = .ok 39 ∧
      (Standard.seal L S 2 100 e [104, 105] (List.replicate 40 9) []).out.drop 39 = [9] ∧
      (Standard.seal L S 2 100 e [104, 105] (List.replicate 38 9) []).result = .err (.outputTooSmall 39 38) ∧
      (Standard.seal L S 2 100 e [104, 105] (List.replicate 38 9) []).out = List.replicate 38 9 := by
  intro L e S
  have hok : (Standard.seal L S 2 100 e [104, 105] (List.replicate 40 9) []).result = .ok 39 := by decide +kernel
  have herr : (Standard.seal L S 2 100 e [104, 105] (List.replicate 38 9) []).result =
      .err (.outputTooSmall 39 38) := by decide +kernel
  refine ⟨hok, ?_, herr, ?_⟩
  · exact ((standard_seal_exact (aesGcm_contract counterBytes) S 2 100 e [104, 105] (List.replicate 40 9) []).2.1
      39 hok).2.1
  · exact ((standard_seal_exact (aesGcm_contract counterBytes) S 2 100 e [104, 105] (List.replicate 38 9)
      []).2.2.1 _ herr).1

end Paxe

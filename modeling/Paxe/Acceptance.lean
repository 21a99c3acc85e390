import Paxe.FanoutSound
import Paxe.OpenSound

/-!
# Exact acceptance

With a library whose decryption inverts its encryption, the receiver accepts
exactly the frames that the two sealers can produce for it under a key it
holds, and returns what was sealed.
-/

namespace Paxe
open Wire

def wireMode (frame : Bytes) : Option Mode :=
  frame[8]?.map fun b => if b &&& dekBit = 0 then .standard else .dek

theorem Flags.toByte_mode (f : Flags) : (if f.toByte &&& dekBit = 0 then Mode.standard else Mode.dek) = f.mode := by
  have h := Flags.fromByte_toByte f
  rw [Flags.fromByte] at h
  split at h
  · cases h
  · cases he : Epoch.new (f.toByte >>> 3) with
    | error e => rw [he] at h; cases h
    | ok e =>
      rw [he] at h
      exact congrArg Flags.mode (Except.ok.inj h)

theorem wireMode_parse {frame : Bytes} {h : Header} {f : Flags} (hp : parsePrefix frame = .ok (h, f)) :
    wireMode frame = some f.mode := by
  obtain ⟨rest, rfl⟩ := parsePrefix_ok hp
  have h8 : ((serializePrefix h f).val ++ rest)[8]? = some f.toByte := by
    simp only [serializePrefix, List.append_assoc]
    rw [List.getElem?_append_right (by rw [h.toBytes.property]; decide), h.toBytes.property]
    rfl
  rw [wireMode, h8, Option.map_some, Flags.toByte_mode]

/-! ## Standard frames -/

/-- `f` is the frame that `S` seals on the link and channel of `h`. -/
def Standard.SealsTo (L : Libsodium) (S : KeyStore) (h : Header) (e : Epoch) (n : Nonce) (p f : Bytes) : Prop :=
  ∀ t, let r := Standard.sealCore L S h.toId h.channel e p n (List.replicate (p.length + Standard.overhead) 0) t
    r.result = .ok f.length ∧ r.out = f

section
variable {L : Libsodium} (hL : L.Exact)
include hL

theorem Standard.sealsTo_iff {S : KeyStore} {h : Header} {e : Epoch} {k : Key} (n : Nonce) (p f : Bytes)
    (hid : S.localId = h.fromId) (hk : S.slots (h.toId, e) = some k) :
    Standard.SealsTo L S h e n p f ↔ p.length ≤ Standard.maxPayload ∧ f = Standard.frame L k h e n p := by
  have hkey : S.keyForSend h.toId e = some ⟨k⟩ := slots_some.mp hk
  have hh : (⟨S.localId, h.toId, h.channel⟩ : Header) = h := by rw [hid]
  unfold Standard.SealsTo
  simp only [sealCore_eq hL.toContract, List.length_replicate, Nat.lt_irrefl, if_false, hkey, hh]
  by_cases hp : p.length > Standard.maxPayload
  · simp only [if_pos hp]
    refine ⟨fun ht => ?_, fun ⟨hle, _⟩ => absurd hp (Nat.not_lt.mpr hle)⟩
    cases (ht []).1
  · simp only [if_neg hp, List.drop_eq_nil_of_le (Nat.le_of_eq List.length_replicate), List.append_nil]
    constructor
    · exact fun ht => ⟨Nat.not_lt.mp hp, (ht []).2.symm⟩
    · rintro ⟨-, rfl⟩ _
      exact ⟨by rw [Standard.frame_length hL.toContract], rfl⟩

theorem open_standard_iff (R : KeyStore) (frame : Bytes) (d : Diag) (t : Trace) (h : Header) (f : Flags) (p : Bytes)
    (hm : f.mode = .standard) :
    (Dek.open L R frame d t).result = .ok (h, f, p) ↔
      h.toId = R.localId ∧ ∃ k n, R.slots (h.fromId, f.epoch) = some k ∧
        frame = Standard.frame L k h f.epoch n p := by
  have hf : f = ⟨.standard, f.epoch⟩ := by rw [← hm]
  constructor
  · intro ho
    rcases open_ok hL.toContract ho with ⟨n, c, k, a, hd, -⟩ | ⟨en, env, bn, c, tag, k, dek, a, -⟩
    · refine ⟨a.dest, k.mem, n, slots_some.mpr a.key, ?_⟩
      rw [Standard.frame, ← hf, (hL.dec_iff _ _ _ _ _ a.tag).mp hd]
      exact a.bytes
    · rw [a.mode] at hm
      cases hm
  · intro hx
    obtain ⟨hto, k, n, hk, rfl⟩ := hx
    have hc := enc_length hL.toContract k n (serializePrefix h f).val p
    have a : Standard.Attempt R (Standard.frame L k h f.epoch n p) h f n
        (L.enc k n (serializePrefix h f).val p) ⟨k⟩ :=
      ⟨hm, hto, by rw [Standard.frame, ← hf], by omega, slots_some.mp hk⟩
    rw [open_standard hL.toContract a, (hL.dec_iff k n (serializePrefix h f).val _ p (by omega)).mpr rfl]

/-- The receiver accepts a standard-mode datagram exactly when it is a frame
that the sealer produces for it under a key it holds; and every payload that
fits a datagram is sealed to such a frame and opens to itself. -/
theorem standard_acceptance_exact (R : KeyStore) :
    (∀ (frame : Bytes) (d : Diag) (t : Trace) (h : Header) (f : Flags) (p : Bytes), frame.length ≤ 65507 →
      wireMode frame = some .standard →
      ((Dek.open L R frame d t).result = .ok (h, f, p) ↔
        f.mode = .standard ∧ h.toId = R.localId ∧ ∃ k n S, R.slots (h.fromId, f.epoch) = some k ∧
          S.localId = h.fromId ∧ S.slots (h.toId, f.epoch) = some k ∧ Standard.SealsTo L S h f.epoch n p frame)) ∧
    (∀ (S : KeyStore) (channel : UInt32) (e : Epoch) (k : Key) (n : Nonce) (p : Bytes) (d : Diag) (t : Trace),
      S.slots (R.localId, e) = some k → R.slots (S.localId, e) = some k → p.length ≤ 65470 →
      ∃ frame, Standard.SealsTo L S ⟨S.localId, R.localId, channel⟩ e n p frame ∧
        frame.length = p.length + 37 ∧ frame.length ≤ 65507 ∧
        (Dek.open L R frame d t).result = .ok (⟨S.localId, R.localId, channel⟩, ⟨.standard, e⟩, p)) := by
  refine ⟨fun frame d t h f p hlen hmode => ⟨fun ho => ?_, ?_⟩, fun S channel e k n p d t hS hR hp => ?_⟩
  · have hm : f.mode = .standard := by
      rcases open_ok hL.toContract ho with ⟨n, c, k, a, -⟩ | ⟨en, env, bn, c, tag, k, dek, a, -⟩
      · exact a.mode
      · rw [wireMode_parse a.parse, a.mode] at hmode
        cases hmode
    obtain ⟨hto, k, n, hk, rfl⟩ := (open_standard_iff hL R frame d t h f p hm).mp ho
    obtain ⟨hid, hs⟩ := ofLinks_single h.fromId (h.toId, f.epoch) k
    refine ⟨hm, hto, k, n, _, hk, hid, hs, (Standard.sealsTo_iff hL n p _ hid hs).mpr ⟨?_, rfl⟩⟩
    rw [Standard.frame_length hL.toContract] at hlen
    exact Nat.le_sub_of_add_le hlen
  · intro hx
    obtain ⟨hm, hto, k, n, S, hk, hid, hs, hseal⟩ := hx
    obtain ⟨-, rfl⟩ := (Standard.sealsTo_iff hL n p frame hid hs).mp hseal
    exact (open_standard_iff hL R _ d t h f p hm).mpr ⟨hto, k, n, hk, rfl⟩
  · have hl : (Standard.frame L k ⟨S.localId, R.localId, channel⟩ e n p).length = p.length + 37 :=
      Standard.frame_length hL.toContract ..
    refine ⟨_, (Standard.sealsTo_iff hL n p _ rfl hS).mpr ⟨hp, rfl⟩, hl, by omega, ?_⟩
    exact (open_standard_iff hL R _ d t _ ⟨.standard, e⟩ p rfl).mpr ⟨rfl, k, n, hR, rfl⟩

end

theorem standard_acceptance_exact_pair :
    let e : Epoch := ⟨3, by decide⟩
    let key : Key := ⟨List.replicate keyBytes 7, by decide⟩
    let S := KeyStore.ofLinks 1 [((2, e), key)]
    let R := KeyStore.ofLinks 2 [((1, e), key)]
    ∃ frame, Standard.SealsTo (aesGcm counterBytes) S ⟨1, 2, 100⟩ e (counterBytes 9 12) [104, 105] frame ∧
      (Dek.open (aesGcm counterBytes) R frame .init []).result = .ok (⟨1, 2, 100⟩, ⟨.standard, e⟩, [104, 105]) := by
  intro e key S R
  obtain ⟨hS, hSk⟩ := ofLinks_single 1 (2, e) key
  obtain ⟨hR, hRk⟩ := ofLinks_single 2 (1, e) key
  obtain ⟨frame, hs, -, -, ho⟩ := (standard_acceptance_exact (aesGcm_exact counterBytes) R).2 S 100 e key
    (counterBytes 9 12) [104, 105] .init [] hSk hRk (by decide)
  exact ⟨frame, hs, ho⟩

/-! ## Fanout frames -/

section
variable {L : Libsodium} (hL : L.Exact)
include hL

theorem Dek.body_split {fromId : UInt16} {channel : UInt32} {dek : Key} {bn : Nonce} {c p : Bytes} {tag : Tag}
    (hd : L.dec dek bn (bodyAad fromId channel).val (c ++ tag.val) = some p) :
    L.enc dek bn (bodyAad fromId channel).val p = c ++ tag.val ∧
      Dek.bodyTag L fromId channel dek bn p = tag.val := by
  have hc : aBytes ≤ (c ++ tag.val).length := by rw [List.length_append, tag.property]; omega
  have he := (hL.dec_iff _ _ _ _ _ hc).mp hd
  have hl : p.length = c.length := by
    have := congrArg List.length he
    rw [enc_length hL.toContract, List.length_append, tag.property] at this
    omega
  exact ⟨he, by rw [Dek.bodyTag, he, hl, List.drop_left]⟩

theorem open_dek_iff (R : KeyStore) (frame : Bytes) (d : Diag) (t : Trace) (h : Header) (f : Flags) (p : Bytes)
    (hm : f.mode = .dek) :
    (Dek.open L R frame d t).result = .ok (h, f, p) ↔
      h.toId = R.localId ∧ ∃ k en dek bn, R.slots (h.fromId, f.epoch) = some k ∧
        frame = Dek.frame L k h f.epoch en dek bn p := by
  have hf : f = ⟨.dek, f.epoch⟩ := by rw [← hm]
  constructor
  · intro ho
    rcases open_ok hL.toContract ho with ⟨n, c, k, a, -⟩ | ⟨en, env, bn, c, tag, k, dek, a, henv, hbody, -⟩
    · rw [a.mode] at hm
      cases hm
    · refine ⟨a.dest, k.mem, en, dek, bn, slots_some.mpr a.key, ?_⟩
      obtain ⟨hb, htag⟩ := Dek.body_split hL hbody
      have he := (hL.dec_iff _ _ _ _ _ (by rw [env.property]; decide)).mp henv
      have haad : Dek.envelopeAad L h f.epoch dek bn p = (envelopeAad (serializePrefix h f) bn tag).val := by
        rw [Dek.envelopeAad, htag, ← hf]
        rfl
      rw [a.bytes, Dek.wire, Dek.frame, Dek.envelope, haad, he, Dek.body, hb, ← hf]
  · intro hx
    obtain ⟨hto, k, en, dek, bn, hk, rfl⟩ := hx
    have hw := Dek.frame_wire hL.toContract k h f.epoch en dek bn p
    rw [← hf] at hw
    have a := Dek.Attempt.mk hm hto hw (slots_some.mp hk)
    have haad : (envelopeAad (serializePrefix h f) bn
        ⟨Dek.bodyTag L h.fromId h.channel dek bn p, Dek.bodyTag_length hL.toContract ..⟩).val =
        Dek.envelopeAad L h f.epoch dek bn p := by
      rw [Dek.envelopeAad, ← hf]
      rfl
    have henv : L.dec k en (Dek.envelopeAad L h f.epoch dek bn p) (Dek.envelope L k h f.epoch en dek bn p) =
        some dek.val :=
      (hL.dec_iff _ _ _ _ _ (by rw [Dek.envelope_length hL.toContract]; decide)).mpr rfl
    have hbody : L.dec dek bn (bodyAad h.fromId h.channel).val
        ((L.enc dek bn (bodyAad h.fromId h.channel).val p).take p.length ++
          Dek.bodyTag L h.fromId h.channel dek bn p) = some p := by
      rw [Dek.bodyTag, List.take_append_drop]
      exact (hL.dec_iff _ _ _ _ _ (by rw [enc_length hL.toContract]; omega)).mpr rfl
    rcases open_dek hL.toContract a d t with ⟨hno, -⟩ | ⟨dek', hdek, hr⟩
    · rw [haad] at hno
      rw [henv] at hno
      cases hno
    · rw [haad, henv, Option.some.injEq] at hdek
      rw [hr, ← Subtype.ext hdek, hbody]

theorem fanoutCore_single (localId : UInt16) (s : Selected) (channel : UInt32) (p : Bytes) (dek : Key)
    (bn en : Nonce) (t : Trace) (f : FanoutFrame) :
    (Dek.sealFanoutCore L localId [s] channel p dek bn [en] t).result = .ok [f] ↔
      p.length + aBytes ≤ usizeMax ∧ f = Dek.emitted L localId channel dek bn p (s, en) := by
  by_cases hp : p.length + aBytes ≤ usizeMax
  · rw [fanoutCore_eq hL.toContract _ _ _ _ _ _ _ hp]
    simp [hp, eq_comm]
  · refine ⟨fun h => ?_, fun h => absurd h.1 hp⟩
    simp [Dek.sealFanoutCore, bodyBuffer_split, bodyBuffer_nonce, aeadEncrypt, checkedAdd, hp] at h

/-- The receiver accepts a DEK-mode datagram exactly when it is the frame that
the fanout core emits for it under a key it holds. Frames of a fanout open at
the recipient with the matching key, and nowhere else. -/
theorem dek_acceptance_exact :
    (∀ (R : KeyStore) (frame : Bytes) (d : Diag) (t : Trace) (h : Header) (f : Flags) (p : Bytes),
      frame.length ≤ 65507 → wireMode frame = some .dek →
      ((Dek.open L R frame d t).result = .ok (h, f, p) ↔
        f.mode = .dek ∧ h.toId = R.localId ∧ ∃ k dek bn en, R.slots (h.fromId, f.epoch) = some k ∧
          ∀ t', (Dek.sealFanoutCore L h.fromId [(h.toId, f.epoch, ⟨k⟩)] h.channel p dek bn [en] t').result =
            .ok [⟨h.toId, f.epoch, frame⟩])) ∧
    (∀ (S : KeyStore) (recipients : List UInt16) (channel : UInt32) (p : Bytes) (t : Trace)
      (frames : List FanoutFrame), (Dek.sealFanout L S recipients channel p t).result = .ok frames →
      (∀ id ∈ recipients, ∃ f ∈ frames, f.toId = id) ∧ ∀ f ∈ frames, ∀ (R : KeyStore) (d : Diag) (t' : Trace),
        (R.localId = f.toId → R.slots (S.localId, f.epoch) = S.slots (f.toId, f.epoch) →
          (Dek.open L R f.frame d t').result = .ok (⟨S.localId, f.toId, channel⟩, ⟨.dek, f.epoch⟩, p)) ∧
        (R.localId ≠ f.toId → (Dek.open L R f.frame d t').result = .err .wrongDestination)) := by
  refine ⟨fun R frame d t h f p hlen hmode => ⟨fun ho => ?_, ?_⟩, fun S recipients channel p t frames hr => ?_⟩
  · have hm : f.mode = .dek := by
      rcases open_ok hL.toContract ho with ⟨n, c, k, a, -⟩ | ⟨en, env, bn, c, tag, k, dek, a, -⟩
      · rw [wireMode_parse a.parse, a.mode] at hmode
        cases hmode
      · exact a.mode
    obtain ⟨hto, k, en, dek, bn, hk, rfl⟩ := (open_dek_iff hL R frame d t h f p hm).mp ho
    refine ⟨hm, hto, k, dek, bn, en, hk, fun t' => (fanoutCore_single hL ..).mpr ⟨?_, rfl⟩⟩
    rw [Dek.frame_length hL.toContract] at hlen
    simp only [aBytes, usizeMax]
    omega
  · intro hx
    obtain ⟨hm, hto, k, dek, bn, en, hk, hcore⟩ := hx
    obtain ⟨-, hf⟩ := (fanoutCore_single hL ..).mp (hcore [])
    obtain ⟨-, -, rfl⟩ := FanoutFrame.mk.inj hf
    exact (open_dek_iff hL R _ d t h f p hm).mpr ⟨hto, k, en, dek, bn, hk, rfl⟩
  · rcases sealFanout_cases hL.toContract S recipients channel p t with
      ⟨e, -, he⟩ | ⟨hne, hp, hs, dek, bn, ens, hlen, he⟩
    · rw [he] at hr
      cases hr
    · rw [he, List.zip_map_left, List.map_map, Res.ok.injEq] at hr
      subst hr
      refine ⟨fun id hid => ?_, fun f hf R d t' => ?_⟩
      · rw [← List.map_fst_zip (Nat.le_of_eq hlen.symm)] at hid
        obtain ⟨x, hx, rfl⟩ := List.mem_map.mp hid
        exact ⟨_, List.mem_map_of_mem hx, rfl⟩
      · obtain ⟨⟨id, en⟩, hx, rfl⟩ := List.mem_map.mp hf
        obtain ⟨-, hk, -⟩ := pick_spec S (hs.2 id (List.of_mem_zip hx).1)
        refine ⟨fun hid hkey => ?_, fun hid => ?_⟩
        · exact (open_dek_iff hL R _ d t' _ ⟨.dek, (pick S id).2.1⟩ p rfl).mpr
            ⟨hid.symm, _, en, dek, bn, hkey.trans hk, rfl⟩
        · have hl := Dek.frame_length hL.toContract (pick S id).2.2.mem ⟨S.localId, id, channel⟩
            (pick S id).2.1 en dek bn p
          have g := @Dek.Gate.dekDest R _ _ _ (Dek.frame_parse L (pick S id).2.2.mem ⟨S.localId, id, channel⟩
            (pick S id).2.1 en dek bn p) rfl (hl ▸ Nat.le_add_left _ _) (Ne.symm hid)
          exact congrArg Dek.OpenRet.result (open_gate L d t' g)

end

theorem dek_acceptance_exact_shared :
    let e : Epoch := ⟨3, by decide⟩
    let key : Key := ⟨List.replicate keyBytes 7, by decide⟩
    let S := KeyStore.ofLinks 1 [((2, e), key), ((3, e), key)]
    let R := KeyStore.ofLinks 2 [((1, e), key)]
    ∃ f, (∃ frames, (Dek.sealFanout (aesGcm counterBytes) S [2, 3] 100 [104, 105] []).result = .ok frames ∧
        f ∈ frames) ∧
      (Dek.open (aesGcm counterBytes) R f.frame .init []).result = .ok (⟨1, 2, 100⟩, ⟨.dek, f.epoch⟩, [104, 105]) ∧
      (Dek.open (aesGcm counterBytes) S f.frame .init []).result = .err .wrongDestination := by
  intro e key S R
  have hs : Sendable S [2, 3] := by
    refine ⟨by decide, fun id hid => ⟨e, ?_⟩⟩
    rcases List.mem_pair.mp hid with rfl | rfl <;> decide
  rcases sealFanout_cases (aesGcm_contract counterBytes) S [2, 3] 100 [104, 105] [] with
    ⟨_, hf, -⟩ | ⟨-, -, -, dek, bn, ens, -, he⟩
  · exact absurd ⟨by simp, by decide, hs⟩ hf.not_sendable
  · have hok := congrArg Dek.SealRet.result he
    obtain ⟨hall, hopen⟩ := (dek_acceptance_exact (aesGcm_exact counterBytes)).2 S [2, 3] 100 [104, 105] [] _ hok
    obtain ⟨f, hf, hto⟩ := hall 2 (by simp)
    have hslots : R.slots (1, f.epoch) = S.slots (f.toId, f.epoch) := by
      rw [hto]
      simp [S, R, KeyStore.ofLinks, KeyStore.install, StoredKey.new, KeyStore.slots, maxEntries,
        Std.TreeMap.getElem?_insert, Std.TreeMap.size_insert]
    refine ⟨f, ⟨_, hok, hf⟩, ?_, ?_⟩
    · have := (hopen f hf R .init []).1 hto.symm hslots
      rwa [hto] at this
    · exact (hopen f hf S .init []).2 (by rw [hto]; decide)

end Paxe

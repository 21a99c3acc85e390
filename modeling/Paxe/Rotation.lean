import Paxe.Acceptance
import Paxe.Sealing

/-!
# Rotation without a flag day

What opening returns depends on the receiver's id and on one slot only, so a
frame in flight stays readable while every other slot changes.
-/

namespace Paxe
open Wire

/-! ## What a result depends on -/

section
variable (L : Libsodium) {A B : KeyStore} {frame : Bytes} {h : Header} {f : Flags} (hid : A.localId = B.localId)
variable (hk : A.keyForReceive h.fromId f.epoch = B.keyForReceive h.fromId f.epoch) (d d' : Diag) (t t' : Trace)
include hid hk

theorem Standard.open_congr (out : Bytes) (hp : parsePrefix frame = .ok (h, f)) :
    (Standard.open L A frame out d t).result = (Standard.open L B frame out d' t').result ∧
      (Standard.open L A frame out d t).out = (Standard.open L B frame out d' t').out := by
  simp only [Standard.open, hp, hid, hk]
  split
  · exact ⟨rfl, rfl⟩
  · split
    · exact ⟨rfl, rfl⟩
    · split
      · exact ⟨rfl, rfl⟩
      · split
        · exact ⟨rfl, rfl⟩
        · split
          · split
            · rw [aeadDecrypt_trace L _ _ _ _ _ t, aeadDecrypt_trace L _ _ _ _ _ t']
              dsimp only
              split <;> exact ⟨rfl, rfl⟩
            · exact ⟨rfl, rfl⟩
          · exact ⟨rfl, rfl⟩

theorem openDek_congr : (openDek L A frame h f d t).result = (openDek L B frame h f d' t').result := by
  simp only [openDek, hid, hk]
  split
  · rfl
  · split
    · rfl
    · split
      · rfl
      · split
        · rfl
        · split
          · split
            · simp only [fun k n aad c out => aeadDecrypt_trace L k n aad c out t,
                fun k n aad c out => aeadDecrypt_trace L k n aad c out t']
              split
              · rfl
              · rfl
              · rfl
              · split
                · rfl
                · rw [aeadDecrypt_trace L _ _ _ _ _ (t ++ _), aeadDecrypt_trace L _ _ _ _ _ (t' ++ _)]
                  dsimp only
                  split <;> rename_i hr <;> simp only [hr]
            · rfl
          · rfl

end

theorem open_congr (L : Libsodium) {A B : KeyStore} {frame : Bytes} (hid : A.localId = B.localId)
    (hk : ∀ h f, parsePrefix frame = .ok (h, f) → A.slots (h.fromId, f.epoch) = B.slots (h.fromId, f.epoch))
    (d d' : Diag) (t t' : Trace) : (Dek.open L A frame d t).result = (Dek.open L B frame d' t').result := by
  cases hp : parsePrefix frame with
  | error e => simp only [Dek.open, hp]
  | ok hf =>
    obtain ⟨h, f⟩ := hf
    have hk := slots_inj (hk h f hp)
    simp only [Dek.open, hp]
    split
    · obtain ⟨hr, ho⟩ := Standard.open_congr L hid hk d d' t t'
        (List.replicate (frame.length - Standard.overhead) 0) hp
      rw [hr, ho]
      split <;> rfl
    · exact openDek_congr L hid hk d d' t t'

theorem missReason_noEpoch (R : KeyStore) (id : UInt16) :
    missReason R id = .noEpoch ↔ ∃ e, (R.slots (id, e)).isSome := by
  rw [← peerKnown_iff, missReason]
  cases R.peerKnown id <;> simp

theorem missReason_noPeer (R : KeyStore) (id : UInt16) :
    missReason R id = .noPeer ↔ ¬ ∃ e, (R.slots (id, e)).isSome := by
  rw [← peerKnown_iff, missReason]
  cases R.peerKnown id <;> simp

/-! ## Sealed frames in flight -/

section
variable {L : Libsodium} (hL : L.Exact)
include hL

theorem SealedBy.opens {S R : KeyStore} {channel : UInt32} {e : Epoch} {p frame : Bytes} {m : Mode} (d : Diag)
    (t : Trace) (hs : SealedBy L S R.localId channel e p frame m)
    (hk : R.slots (S.localId, e) = S.slots (R.localId, e)) :
    (Dek.open L R frame d t).result = .ok (⟨S.localId, R.localId, channel⟩, ⟨m, e⟩, p) := by
  obtain ⟨k, hS, hw⟩ := hs.wire hL.toContract
  cases m with
  | standard =>
    obtain ⟨n, hw⟩ := hw
    exact (open_standard_iff hL R frame d t _ ⟨.standard, e⟩ p rfl).mpr ⟨rfl, k, n, hk.trans hS, hw⟩
  | dek =>
    obtain ⟨en, dek, bn, hw⟩ := hw
    exact (open_dek_iff hL R frame d t _ ⟨.dek, e⟩ p rfl).mpr ⟨rfl, k, en, dek, bn, hk.trans hS, hw⟩

theorem SealedBy.misses {S R : KeyStore} {channel : UInt32} {e : Epoch} {p frame : Bytes} {m : Mode}
    (hs : SealedBy L S R.localId channel e p frame m) (hk : R.slots (S.localId, e) = none) :
    ∃ err, Dek.Gate R frame (missReason R S.localId) err := by
  obtain ⟨k, -, hw⟩ := hs.wire hL.toContract
  have hk : R.keyForReceive S.localId e = none := Option.map_eq_none_iff.mp hk
  cases m with
  | standard =>
    obtain ⟨n, rfl⟩ := hw
    have hp := Standard.frame_parse L k ⟨S.localId, R.localId, channel⟩ e n p
    have hl := Standard.frame_length hL.toContract k ⟨S.localId, R.localId, channel⟩ e n p
    have g := Dek.Gate.standardMiss hp rfl rfl (hl ▸ Nat.le_add_left _ _) hk
    exact ⟨_, g⟩
  | dek =>
    obtain ⟨en, dek, bn, rfl⟩ := hw
    have hp := Dek.frame_parse L k ⟨S.localId, R.localId, channel⟩ e en dek bn p
    have hl := Dek.frame_length hL.toContract k ⟨S.localId, R.localId, channel⟩ e en dek bn p
    have g := Dek.Gate.dekMiss hp rfl (hl ▸ Nat.le_add_left _ _) rfl hk
    exact ⟨_, g⟩

/-- A frame sealed for `R` opens after any run of keystore operations that
leaves its slot alone; once the slot is empty it is dropped, counted by
whether the peer has another epoch. Opening reads no other slot. -/
theorem rotation_without_flag_day {S R : KeyStore} {channel : UInt32} {e : Epoch} {k : Key} {p frame : Bytes}
    {m : Mode} (hs : SealedBy L S R.localId channel e p frame m) (hS : S.slots (R.localId, e) = some k)
    (hR : R.slots (S.localId, e) = some k) (ops : List KeyOp) (d : Diag) (t : Trace) :
    let R' := Mealy.run KeyStore.step R ops
    ((∀ x ∈ Mealy.log KeyStore.step R ops, ¬ Touches (S.localId, e) x) →
      (Dek.open L R' frame d t).result = .ok (⟨S.localId, R.localId, channel⟩, ⟨m, e⟩, p)) ∧
    (R'.slots (S.localId, e) = none → ∃ err r, (Dek.open L R' frame d t).result = .err err ∧
      (Dek.open L R' frame d t).diag = d.recordReject r ∧
      (r = .noEpoch ↔ ∃ e', e' ≠ e ∧ (R'.slots (S.localId, e')).isSome) ∧
      (r = .noPeer ↔ ∀ e', R'.slots (S.localId, e') = none)) ∧
    (∀ (A B : KeyStore) (bytes : Bytes) (d' : Diag) (t' : Trace), A.localId = B.localId →
      (∀ h f, parsePrefix bytes = .ok (h, f) → A.slots (h.fromId, f.epoch) = B.slots (h.fromId, f.epoch)) →
      (Dek.open L A bytes d t).result = (Dek.open L B bytes d' t').result) := by
  intro R'
  have hid : R'.localId = R.localId := run_localId R ops
  have hs' : SealedBy L S R'.localId channel e p frame m := hid ▸ hs
  refine ⟨fun hops => ?_, fun hnone => ?_, fun A B bytes d' t' hAB hk => open_congr L hAB hk d d' t t'⟩
  · have hk : R'.slots (S.localId, e) = S.slots (R'.localId, e) := by
      rw [run_untouched R ops hops, hid, hR, hS]
    rw [← hid]
    exact hs'.opens hL d t hk
  · obtain ⟨err, g⟩ := hs'.misses hL hnone
    refine ⟨err, missReason R' S.localId, by rw [open_gate L d t g], by rw [open_gate L d t g], ?_, ?_⟩
    · rw [missReason_noEpoch]
      constructor
      · intro hx
        obtain ⟨e', he'⟩ := hx
        refine ⟨e', fun heq => ?_, he'⟩
        rw [heq, hnone] at he'
        cases he'
      · intro hx
        obtain ⟨e', -, he'⟩ := hx
        exact ⟨e', he'⟩
    · rw [missReason_noPeer]
      simp

end

theorem rotation_without_flag_day_pair :
    let e : Epoch := ⟨3, by decide⟩
    let key : Key := ⟨List.replicate keyBytes 7, by decide⟩
    let S := KeyStore.ofLinks 1 [((2, e), key)]
    let R := KeyStore.ofLinks 2 [((1, e), key)]
    let ops := [.install 1 ⟨4, by decide⟩ key ⟨true, true⟩, .install 9 e key ⟨true, true⟩, .retire 1 ⟨4, by decide⟩]
    ∃ frame, SealedBy (aesGcm counterBytes) S 2 100 e [104, 105] frame .standard ∧
      (Dek.open (aesGcm counterBytes) (Mealy.run KeyStore.step R ops) frame .init []).result =
        .ok (⟨1, 2, 100⟩, ⟨.standard, e⟩, [104, 105]) := by
  intro e key S R ops
  obtain ⟨hS, hSk⟩ := ofLinks_single 1 (2, e) key
  obtain ⟨hR, hRk⟩ := ofLinks_single 2 (1, e) key
  have hf := dekSeal_eq (aesGcm_contract counterBytes) 100 [] hSk (p := [104, 105]) (by decide)
  have hsb : SealedBy (aesGcm counterBytes) S R.localId 100 e [104, 105] _ .standard :=
    .vec (congrArg Dek.SealRet.result hf)
  refine ⟨_, hsb, (rotation_without_flag_day (aesGcm_exact counterBytes) hsb hSk hRk ops .init []).1 ?_⟩
  intro x hx
  simp only [ops, Mealy.log, KeyStore.step, List.mem_cons, List.not_mem_nil, or_false] at hx
  rcases hx with rfl | rfl | rfl
  · exact fun h => absurd (touches_install h) (by decide)
  · exact fun h => absurd (touches_install h) (by decide)
  · exact fun (h : (1, _) = _) => absurd h (by decide)

end Paxe

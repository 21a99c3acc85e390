import Paxe.DekSound

/-!
# The receive path as a decision table

Every frame is stopped at a gate before any cryptography, or is an attempt to
decrypt a well-formed frame of this node. The gates do not depend on the
library; what an attempt gives is the library's verdict.
-/

namespace Paxe
open Wire

def missReason (store : KeyStore) (fromId : UInt16) : RejectReason :=
  if store.peerKnown fromId then .noEpoch else .noPeer

/-- The gates of the receive path, with the reason counted and the error. -/
inductive Dek.Gate (store : KeyStore) (frame : Bytes) : RejectReason → Dek.OpenError → Prop
  | codec {e : CodecError} : parsePrefix frame = .error e → Gate store frame (.fromCodec e) (.badPrefix e)
  | standardDest {h : Header} {f : Flags} : parsePrefix frame = .ok (h, f) → f.mode = .standard →
      h.toId ≠ store.localId → Gate store frame .plaintext .standardRejected
  | standardShort {h : Header} {f : Flags} : parsePrefix frame = .ok (h, f) → f.mode = .standard →
      h.toId = store.localId → frame.length < Standard.overhead → Gate store frame .lenMismatch .standardRejected
  | standardMiss {h : Header} {f : Flags} : parsePrefix frame = .ok (h, f) → f.mode = .standard →
      h.toId = store.localId → Standard.overhead ≤ frame.length → store.keyForReceive h.fromId f.epoch = none →
      Gate store frame (missReason store h.fromId) .standardRejected
  | dekShort {h : Header} {f : Flags} : parsePrefix frame = .ok (h, f) → f.mode = .dek →
      frame.length < Dek.overhead → Gate store frame .tooShort (.tooShort frame.length)
  | dekDest {h : Header} {f : Flags} : parsePrefix frame = .ok (h, f) → f.mode = .dek →
      Dek.overhead ≤ frame.length → h.toId ≠ store.localId → Gate store frame .plaintext .wrongDestination
  | dekMiss {h : Header} {f : Flags} : parsePrefix frame = .ok (h, f) → f.mode = .dek →
      Dek.overhead ≤ frame.length → h.toId = store.localId → store.keyForReceive h.fromId f.epoch = none →
      Gate store frame (missReason store h.fromId) .noKey

structure Standard.Attempt (store : KeyStore) (frame : Bytes) (h : Header) (f : Flags) (n : Nonce) (c : Bytes)
    (k : StoredKey) : Prop where
  mode : f.mode = .standard
  dest : h.toId = store.localId
  bytes : frame = (serializePrefix h f).val ++ (n.val ++ c)
  tag : aBytes ≤ c.length
  key : store.keyForReceive h.fromId f.epoch = some k

structure Dek.Attempt (store : KeyStore) (frame : Bytes) (h : Header) (f : Flags) (en : Nonce)
    (env : Fixed envelopeLen) (bn : Nonce) (c : Bytes) (tag : Tag) (k : StoredKey) : Prop where
  mode : f.mode = .dek
  dest : h.toId = store.localId
  bytes : frame = Dek.wire (serializePrefix h f) en env bn c tag
  key : store.keyForReceive h.fromId f.epoch = some k

theorem Standard.Attempt.parse {store : KeyStore} {frame : Bytes} {h : Header} {f : Flags} {n : Nonce} {c : Bytes}
    {k : StoredKey} (a : Standard.Attempt store frame h f n c k) : parsePrefix frame = .ok (h, f) := by
  rw [a.bytes, parsePrefix_serialize]

theorem Dek.Attempt.parse {store : KeyStore} {frame : Bytes} {h : Header} {f : Flags} {en : Nonce}
    {env : Fixed envelopeLen} {bn : Nonce} {c : Bytes} {tag : Tag} {k : StoredKey}
    (a : Dek.Attempt store frame h f en env bn c tag k) : parsePrefix frame = .ok (h, f) := by
  rw [a.bytes, Dek.wire, parsePrefix_serialize]

theorem mode_dek_of_ne {m : Mode} (h : m ≠ .standard) : m = .dek := by
  cases m
  · exact absurd rfl h
  · rfl

/-! ## Gates -/

theorem gate_or_attempt (store : KeyStore) (frame : Bytes) :
    (∃ r e, Dek.Gate store frame r e) ∨ (∃ h f n c k, Standard.Attempt store frame h f n c k) ∨
      ∃ h f en env bn c tag k, Dek.Attempt store frame h f en env bn c tag k := by
  cases hp : parsePrefix frame with
  | error e => exact Or.inl ⟨_, _, .codec hp⟩
  | ok hf =>
    obtain ⟨h, f⟩ := hf
    by_cases hm : f.mode = .standard
    · by_cases hto : h.toId = store.localId
      · by_cases hl : frame.length < Standard.overhead
        · exact Or.inl ⟨_, _, .standardShort hp hm hto hl⟩
        · cases hk : store.keyForReceive h.fromId f.epoch with
          | none => exact Or.inl ⟨_, _, .standardMiss hp hm hto (Nat.not_lt.mp hl) hk⟩
          | some k =>
            obtain ⟨n, c, hb, hc⟩ := Standard.frame_parts hp (Nat.not_lt.mp hl)
            exact Or.inr (Or.inl ⟨h, f, n, c, k, hm, hto, hb, hc, hk⟩)
      · exact Or.inl ⟨_, _, .standardDest hp hm hto⟩
    · have hm := mode_dek_of_ne hm
      by_cases hl : frame.length < Dek.overhead
      · exact Or.inl ⟨_, _, .dekShort hp hm hl⟩
      · by_cases hto : h.toId = store.localId
        · cases hk : store.keyForReceive h.fromId f.epoch with
          | none => exact Or.inl ⟨_, _, .dekMiss hp hm (Nat.not_lt.mp hl) hto hk⟩
          | some k =>
            obtain ⟨en, env, bn, c, tag, hb⟩ := Dek.frame_parts hp (Nat.not_lt.mp hl)
            exact Or.inr (Or.inr ⟨h, f, en, env, bn, c, tag, k, hm, hto, hb, hk⟩)
        · exact Or.inl ⟨_, _, .dekDest hp hm (Nat.not_lt.mp hl) hto⟩

theorem open_gate (L : Libsodium) {store : KeyStore} {frame : Bytes} {r : RejectReason} {e : Dek.OpenError}
    (d : Diag) (t : Trace) (g : Dek.Gate store frame r e) :
    Dek.open L store frame d t = ⟨.err e, d.recordReject r, t⟩ := by
  cases g with
  | codec hp => simp [Dek.open, hp]
  | standardDest hp hm hto => simp [Dek.open, Standard.open, hp, hm, hto]
  | standardShort hp hm hto hl => simp [Dek.open, Standard.open, hp, hm, hto, hl]
  | standardMiss hp hm hto hl hk =>
    simp [Dek.open, Standard.open, hp, hm, hto, Nat.not_lt.mpr hl, hk, missReason]
  | dekShort hp hm hl => simp [Dek.open, openDek, hp, hm, hl]
  | dekDest hp hm hl hto => simp [Dek.open, openDek, hp, hm, Nat.not_lt.mpr hl, hto, checkedSub, hl]
  | dekMiss hp hm hl hto hk =>
    simp [Dek.open, openDek, hp, hm, Nat.not_lt.mpr hl, hto, checkedSub, hl, hk, missReason]

/-! ## Attempts -/

section
variable {L : Libsodium} (hL : L.Contract)
include hL

theorem open_standard {store : KeyStore} {frame : Bytes} {h : Header} {f : Flags} {n : Nonce} {c : Bytes}
    {k : StoredKey} (a : Standard.Attempt store frame h f n c k) (d : Diag) (t : Trace) :
    Dek.open L store frame d t =
      match L.dec k.mem n (serializePrefix h f).val c with
      | some p => ⟨.ok (h, f, p), d, t ++ [.decrypt ⟨k.mem, n, (serializePrefix h f).val, c, true⟩]⟩
      | none => ⟨.err .standardRejected, d.recordReject .authFailed,
          t ++ [.decrypt ⟨k.mem, n, (serializePrefix h f).val, c, false⟩]⟩ := by
  obtain ⟨hm, hto, rfl, hc, hk⟩ := a
  have hlen : ((serializePrefix h f).val ++ (n.val ++ c)).length - Standard.overhead = c.length - aBytes := by
    simp only [List.length_append, serializePrefix_length, n.property, Standard.overhead]
    omega
  have ho := Standard.open_frame hL store n
    (List.replicate (((serializePrefix h f).val ++ (n.val ++ c)).length - Standard.overhead) 0) d t hto hm hc
    (by rw [List.length_replicate]; exact Nat.le_of_eq hlen.symm)
  simp only [Dek.open, parsePrefix_serialize, hm, if_true, ho, hk]
  cases hd : L.dec k.mem n (serializePrefix h f).val c with
  | none => rfl
  | some p =>
    have hl := dec_length hL hc hd
    simp only [← hl, List.take_left]

theorem open_dek {store : KeyStore} {frame : Bytes} {h : Header} {f : Flags} {en : Nonce} {env : Fixed envelopeLen}
    {bn : Nonce} {c : Bytes} {tag : Tag} {k : StoredKey} (a : Dek.Attempt store frame h f en env bn c tag k)
    (d : Diag) (t : Trace) :
    let aad := (envelopeAad (serializePrefix h f) bn tag).val
    let r := Dek.open L store frame d t
    (L.dec k.mem en aad env.val = none ∧
        r = ⟨.err .authFailed, d.recordReject .authFailed, t ++ [.decrypt ⟨k.mem, en, aad, env.val, false⟩]⟩) ∨
      ∃ dek : Key, L.dec k.mem en aad env.val = some dek.val ∧
        r = match L.dec dek bn (bodyAad h.fromId h.channel).val (c ++ tag.val) with
          | none => ⟨.err .authFailed, d.recordReject .authFailed,
              t ++ [.decrypt ⟨k.mem, en, aad, env.val, true⟩] ++
              [.decrypt ⟨dek, bn, (bodyAad h.fromId h.channel).val, c ++ tag.val, false⟩]⟩
          | some p => ⟨.ok (h, f, p), d, t ++ [.decrypt ⟨k.mem, en, aad, env.val, true⟩] ++
              [.decrypt ⟨dek, bn, (bodyAad h.fromId h.channel).val, c ++ tag.val, true⟩]⟩ := by
  intro aad r
  have hr : r = openDek L store frame h f d t := by
    simp only [r, Dek.open, a.parse, a.mode]
    rfl
  rw [hr, a.bytes]
  exact openDek_frame hL store h f en env bn c tag d t a.dest a.key

/-- Opening returns, and either succeeds leaving the diagnostics alone or
counts exactly one reason: a gate's, or a failed tag. -/
theorem open_verdict (store : KeyStore) (frame : Bytes) (d : Diag) (t : Trace) :
    (∃ h f p, (Dek.open L store frame d t).result = .ok (h, f, p) ∧ (Dek.open L store frame d t).diag = d) ∨
      ∃ e r, (Dek.Gate store frame r e ∨ r = .authFailed ∧ (e = .standardRejected ∨ e = .authFailed)) ∧
        (Dek.open L store frame d t).result = .err e ∧ (Dek.open L store frame d t).diag = d.recordReject r := by
  rcases gate_or_attempt store frame with ⟨r, e, g⟩ | ⟨h, f, n, c, k, a⟩ | ⟨h, f, en, env, bn, c, tag, k, a⟩
  · rw [open_gate L d t g]
    exact Or.inr ⟨e, r, Or.inl g, rfl, rfl⟩
  · rw [open_standard hL a]
    cases L.dec k.mem n (serializePrefix h f).val c with
    | none => exact Or.inr ⟨_, _, Or.inr ⟨rfl, Or.inl rfl⟩, rfl, rfl⟩
    | some p => exact Or.inl ⟨_, _, _, rfl, rfl⟩
  · rcases open_dek hL a d t with ⟨-, hr⟩ | ⟨dek, -, hr⟩
    · rw [hr]
      exact Or.inr ⟨_, _, Or.inr ⟨rfl, Or.inr rfl⟩, rfl, rfl⟩
    · rw [hr]
      cases L.dec dek bn (bodyAad h.fromId h.channel).val (c ++ tag.val) with
      | none => exact Or.inr ⟨_, _, Or.inr ⟨rfl, Or.inr rfl⟩, rfl, rfl⟩
      | some p => exact Or.inl ⟨_, _, _, rfl, rfl⟩

theorem open_ok_diag {store : KeyStore} {frame : Bytes} {d d' : Diag} {t t' : Trace} {x : Header × Flags × Bytes}
    (h : Dek.open L store frame d t = ⟨.ok x, d', t'⟩) : d' = d := by
  have hv := open_verdict hL store frame d t
  rw [h] at hv
  rcases hv with ⟨_, _, _, -, hd⟩ | ⟨_, _, -, hr, -⟩
  · exact hd
  · cases hr

theorem open_err_diag {store : KeyStore} {frame : Bytes} {d d' : Diag} {t t' : Trace} {e : Dek.OpenError}
    (h : Dek.open L store frame d t = ⟨.err e, d', t'⟩) :
    ∃ r, (Dek.Gate store frame r e ∨ r = .authFailed ∧ (e = .standardRejected ∨ e = .authFailed)) ∧
      d' = d.recordReject r := by
  have hv := open_verdict hL store frame d t
  rw [h] at hv
  rcases hv with ⟨_, _, _, hr, -⟩ | ⟨e', r, hg, hr, hd⟩
  · cases hr
  · obtain rfl : e = e' := Res.err.inj hr
    exact ⟨r, hg, hd⟩

theorem open_not_sodium {store : KeyStore} {frame : Bytes} {d d' : Diag} {t t' : Trace} {x : SodiumError} :
    Dek.open L store frame d t ≠ ⟨.err (.sodium x), d', t'⟩ := by
  intro h
  obtain ⟨r, hg | ⟨-, hg | hg⟩, -⟩ := open_err_diag hL h
  · cases hg
  · cases hg
  · cases hg

theorem open_ok {store : KeyStore} {frame : Bytes} {d : Diag} {t : Trace} {h : Header} {f : Flags} {p : Bytes}
    (ho : (Dek.open L store frame d t).result = .ok (h, f, p)) :
    (∃ n c k, Standard.Attempt store frame h f n c k ∧ L.dec k.mem n (serializePrefix h f).val c = some p ∧
      (Dek.open L store frame d t).trace = t ++ [.decrypt ⟨k.mem, n, (serializePrefix h f).val, c, true⟩]) ∨
    (∃ en env bn c tag k dek, Dek.Attempt store frame h f en env bn c tag k ∧
      L.dec k.mem en (envelopeAad (serializePrefix h f) bn tag).val env.val = some dek.val ∧
      L.dec dek bn (bodyAad h.fromId h.channel).val (c ++ tag.val) = some p ∧
      (Dek.open L store frame d t).trace = t ++
        [.decrypt ⟨k.mem, en, (envelopeAad (serializePrefix h f) bn tag).val, env.val, true⟩,
          .decrypt ⟨dek, bn, (bodyAad h.fromId h.channel).val, c ++ tag.val, true⟩]) := by
  rcases gate_or_attempt store frame with ⟨r, e, g⟩ | ⟨h', f', n, c, k, a⟩ | ⟨h', f', en, env, bn, c, tag, k, a⟩
  · rw [open_gate L d t g] at ho
    cases ho
  · rw [open_standard hL a] at ho ⊢
    cases hd : L.dec k.mem n (serializePrefix h' f').val c with
    | none => rw [hd] at ho; cases ho
    | some q =>
      rw [hd] at ho
      cases ho
      exact Or.inl ⟨n, c, k, a, hd, rfl⟩
  · rcases open_dek hL a d t with ⟨-, hr⟩ | ⟨dek, henv, hr⟩
    · rw [hr] at ho
      cases ho
    · rw [hr] at ho ⊢
      cases hd : L.dec dek bn (bodyAad h'.fromId h'.channel).val (c ++ tag.val) with
      | none => rw [hd] at ho; cases ho
      | some q =>
        rw [hd] at ho
        cases ho
        exact Or.inr ⟨en, env, bn, c, tag, k, dek, a, henv, hd, by simp⟩

end

/-! ## Whatever the library does -/

theorem Standard.open_any (L : Libsodium) (store : KeyStore) (frame out : Bytes) (d : Diag) (t : Trace) :
    (Standard.open L store frame out d t).result ≠ .panic ∧
      (Standard.open L store frame out d t).out.length = out.length := by
  fun_cases Standard.open L store frame out d t
  case case9 hr => exact absurd hr (aeadDecrypt_ne_panic _ _ _ _ _ _ _)
  all_goals
    refine ⟨by simp, ?_⟩
    first
    | rfl
    | exact aeadDecrypt_out_length ..

theorem openDek_any (L : Libsodium) (store : KeyStore) (frame : Bytes) (h : Header) (f : Flags) (d : Diag)
    (t : Trace) :
    (∃ p, (openDek L store frame h f d t).result = .ok (h, f, p) ∧ p.length ≤ frame.length) ∨
      ∃ e, (openDek L store frame h f d t).result = .err e := by
  fun_cases openDek L store frame h f d t
  case case2 hl hs => rw [checkedSub, if_pos (Nat.not_lt.mp hl)] at hs; cases hs
  case case5 hr => exact absurd hr (aeadDecrypt_ne_panic _ _ _ _ _ _ _)
  case case10 hr => exact absurd hr (aeadDecrypt_ne_panic _ _ _ _ _ _ _)
  case case9 =>
    refine Or.inl ⟨_, rfl, Nat.le_trans (List.length_take_le' ..) ?_⟩
    refine Nat.le_trans (Nat.le_of_eq (aeadDecrypt_out_length ..)) ?_
    rw [List.length_replicate]
    exact checkedSub_le ‹checkedSub frame.length Dek.overhead = some _›
  case case14 hl _ _ _ _ _ hno =>
    have hl : 97 ≤ frame.length := Nat.not_lt.mp hl
    exact absurd (checkedSub_eq (by simp only [aBytes]; omega)) (hno _ _ _
      (slice_eq_some (by decide) (Nat.le_trans (by decide : Layout.encryptedDek ≤ 97) hl))
      (slice_eq_some (by decide) (Nat.le_trans (by decide : Layout.body ≤ 97) hl)))
  all_goals exact Or.inr ⟨_, rfl⟩

/-- No frame and no answer of the library makes opening panic, and a payload
is never longer than its frame. -/
theorem open_any (L : Libsodium) (store : KeyStore) (frame : Bytes) (d : Diag) (t : Trace) :
    (∃ h f p, (Dek.open L store frame d t).result = .ok (h, f, p) ∧ p.length ≤ frame.length) ∨
      ∃ e, (Dek.open L store frame d t).result = .err e := by
  cases hp : parsePrefix frame with
  | error e => exact Or.inr ⟨.badPrefix e, by simp only [Dek.open, hp]⟩
  | ok hf =>
    obtain ⟨h, f⟩ := hf
    by_cases hm : f.mode = .standard
    · obtain ⟨hnp, hout⟩ := Standard.open_any L store frame
        (List.replicate (frame.length - Standard.overhead) 0) d t
      rw [List.length_replicate] at hout
      simp only [Dek.open, hp, if_pos hm]
      split
      · refine Or.inl ⟨_, _, _, rfl, ?_⟩
        rw [List.length_take, hout]
        omega
      · exact Or.inr ⟨_, rfl⟩
      · rename_i hr
        exact absurd hr hnp
    · rcases openDek_any L store frame h f d t with ⟨p, hr, hl⟩ | ⟨e, hr⟩
      · exact Or.inl ⟨h, f, p, by simp only [Dek.open, hp, if_neg hm, hr], hl⟩
      · exact Or.inr ⟨e, by simp only [Dek.open, hp, if_neg hm, hr]⟩

theorem Standard.open_trace (L : Libsodium) (store : KeyStore) (frame out : Bytes) (d : Diag) (t : Trace) :
    ∃ ds : List (Aead.Dec Key Nonce), (Standard.open L store frame out d t).trace = t ++ ds.map .decrypt := by
  fun_cases Standard.open L store frame out d t
  all_goals first
    | exact ⟨[], (List.append_nil t).symm⟩
    | exact aeadDecrypt_decs ..

theorem openDek_trace (L : Libsodium) (store : KeyStore) (frame : Bytes) (h : Header) (f : Flags) (d : Diag)
    (t : Trace) :
    ∃ ds : List (Aead.Dec Key Nonce), (openDek L store frame h f d t).trace = t ++ ds.map .decrypt := by
  have two {t' : Trace} (h1 : ∃ ds : List (Aead.Dec Key Nonce), t' = t ++ ds.map .decrypt) {t'' : Trace}
      (h2 : ∃ ds : List (Aead.Dec Key Nonce), t'' = t' ++ ds.map .decrypt) :
      ∃ ds : List (Aead.Dec Key Nonce), t'' = t ++ ds.map .decrypt := by
    obtain ⟨ds, rfl⟩ := h1
    obtain ⟨ds', rfl⟩ := h2
    exact ⟨ds ++ ds', by simp⟩
  fun_cases openDek L store frame h f d t
  all_goals first
    | exact ⟨[], (List.append_nil t).symm⟩
    | exact aeadDecrypt_decs ..
    | exact two (aeadDecrypt_decs ..) (aeadDecrypt_decs ..)

theorem open_trace (L : Libsodium) (store : KeyStore) (frame : Bytes) (d : Diag) (t : Trace) :
    ∃ ds : List (Aead.Dec Key Nonce), (Dek.open L store frame d t).trace = t ++ ds.map .decrypt := by
  cases hp : parsePrefix frame with
  | error e => exact ⟨[], by simp [Dek.open, hp]⟩
  | ok hf =>
    simp only [Dek.open, hp]
    split
    · split <;> exact Standard.open_trace ..
    · exact openDek_trace ..

theorem Standard.open_diag (L : Libsodium) (store : KeyStore) (frame out : Bytes) (d : Diag) (t : Trace) :
    (Standard.open L store frame out d t).diag = d ∨
      ∃ r, (Standard.open L store frame out d t).diag = d.recordReject r := by
  fun_cases Standard.open L store frame out d t
  all_goals first
    | exact Or.inl rfl
    | exact Or.inr ⟨_, rfl⟩

theorem openDek_diag (L : Libsodium) (store : KeyStore) (frame : Bytes) (h : Header) (f : Flags) (d : Diag)
    (t : Trace) :
    (openDek L store frame h f d t).diag = d ∨ ∃ r, (openDek L store frame h f d t).diag = d.recordReject r := by
  fun_cases openDek L store frame h f d t
  all_goals first
    | exact Or.inl rfl
    | exact Or.inr ⟨_, rfl⟩

theorem open_diag (L : Libsodium) (store : KeyStore) (frame : Bytes) (d : Diag) (t : Trace) :
    (Dek.open L store frame d t).diag = d ∨ ∃ r, (Dek.open L store frame d t).diag = d.recordReject r := by
  cases hp : parsePrefix frame with
  | error e => exact Or.inr ⟨.fromCodec e, by simp only [Dek.open, hp]⟩
  | ok hf =>
    simp only [Dek.open, hp]
    split
    · split <;> exact Standard.open_diag ..
    · exact openDek_diag ..

end Paxe

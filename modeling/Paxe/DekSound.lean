import Paxe.StandardSound
import Paxe.Dek

/-!
# Fanout frames: what sealing emits and what opening accepts

`Dek.frame` is the wire image of one fanout frame. `fanoutCore_eq` says that
the emission loop is a map of it over the recipients, `openDek_frame` what
opening does with a frame cut into its six pieces.
-/

namespace Paxe
open Wire

def Dek.body (L : Libsodium) (fromId : UInt16) (channel : UInt32) (dek : Key) (bn : Nonce) (p : Bytes) : Bytes :=
  bn.val ++ L.enc dek bn (bodyAad fromId channel).val p

def Dek.bodyTag (L : Libsodium) (fromId : UInt16) (channel : UInt32) (dek : Key) (bn : Nonce) (p : Bytes) :
    Bytes :=
  (L.enc dek bn (bodyAad fromId channel).val p).drop p.length

def Dek.envelopeAad (L : Libsodium) (h : Header) (e : Epoch) (dek : Key) (bn : Nonce) (p : Bytes) : Bytes :=
  (serializePrefix h ⟨.dek, e⟩).val ++ bn.val ++ Dek.bodyTag L h.fromId h.channel dek bn p

def Dek.envelope (L : Libsodium) (k : Key) (h : Header) (e : Epoch) (en : Nonce) (dek : Key) (bn : Nonce)
    (p : Bytes) : Bytes :=
  L.enc k en (Dek.envelopeAad L h e dek bn p) dek.val

def Dek.frame (L : Libsodium) (k : Key) (h : Header) (e : Epoch) (en : Nonce) (dek : Key) (bn : Nonce)
    (p : Bytes) : Bytes :=
  (serializePrefix h ⟨.dek, e⟩).val ++ (en.val ++
    (Dek.envelope L k h e en dek bn p ++ Dek.body L h.fromId h.channel dek bn p))

/-- What a fanout emits for one recipient, from its own nonce and the shared
body only. -/
def Dek.emitted (L : Libsodium) (localId : UInt16) (channel : UInt32) (dek : Key) (bn : Nonce) (p : Bytes)
    (x : Selected × Nonce) : FanoutFrame :=
  ⟨x.1.1, x.1.2.1, Dek.frame L x.1.2.2.mem ⟨localId, x.1.1, channel⟩ x.1.2.1 x.2 dek bn p⟩

def Dek.envelopeEnc (L : Libsodium) (localId : UInt16) (channel : UInt32) (dek : Key) (bn : Nonce) (p : Bytes)
    (x : Selected × Nonce) : Aead.Enc Key Nonce :=
  ⟨x.1.2.2.mem, x.2, Dek.envelopeAad L ⟨localId, x.1.1, channel⟩ x.1.2.1 dek bn p, dek.val,
    Dek.envelope L x.1.2.2.mem ⟨localId, x.1.1, channel⟩ x.1.2.1 x.2 dek bn p⟩

def Dek.bodyEnc (L : Libsodium) (localId : UInt16) (channel : UInt32) (dek : Key) (bn : Nonce) (p : Bytes) :
    Aead.Enc Key Nonce :=
  ⟨dek, bn, (bodyAad localId channel).val, p, L.enc dek bn (bodyAad localId channel).val p⟩

theorem Dek.frame_parse (L : Libsodium) (k : Key) (h : Header) (e : Epoch) (en : Nonce) (dek : Key) (bn : Nonce)
    (p : Bytes) : parsePrefix (Dek.frame L k h e en dek bn p) = .ok (h, ⟨.dek, e⟩) :=
  parsePrefix_serialize h ⟨.dek, e⟩ _

theorem psk_ok (k : StoredKey) : psk k = .ok k.mem := by
  simp [psk, psk_eq]

theorem bodyBuffer_split (n : Nat) : splitAtMut (List.replicate (npubBytes + n + aBytes) 0) npubBytes =
    some (List.replicate npubBytes 0, List.replicate (n + aBytes) 0) := by
  rw [splitAtMut_eq_some (by rw [List.length_replicate]; omega), List.take_replicate, List.drop_replicate,
    Nat.min_eq_left (by omega), Nat.add_assoc, Nat.add_sub_cancel_left]

theorem bodyBuffer_nonce (bn : Nonce) : copyFromSlice (List.replicate npubBytes 0) bn.val = some bn.val := by
  rw [copyFromSlice, if_pos (by rw [List.length_replicate, bn.property])]

section
variable {L : Libsodium} (hL : L.Contract)
include hL

theorem Dek.bodyTag_length (fromId : UInt16) (channel : UInt32) (dek : Key) (bn : Nonce) (p : Bytes) :
    (Dek.bodyTag L fromId channel dek bn p).length = aBytes := by
  rw [Dek.bodyTag, List.length_drop, enc_length hL]
  omega

theorem Dek.envelopeAad_length (h : Header) (e : Epoch) (dek : Key) (bn : Nonce) (p : Bytes) :
    (Dek.envelopeAad L h e dek bn p).length = 37 := by
  rw [Dek.envelopeAad, List.length_append, List.length_append, serializePrefix_length, bn.property,
    Dek.bodyTag_length hL]
  rfl

theorem Dek.envelope_length (k : Key) (h : Header) (e : Epoch) (en : Nonce) (dek : Key) (bn : Nonce) (p : Bytes) :
    (Dek.envelope L k h e en dek bn p).length = envelopeLen := by
  rw [Dek.envelope, enc_length hL, dek.property]
  rfl

theorem Dek.frame_length (k : Key) (h : Header) (e : Epoch) (en : Nonce) (dek : Key) (bn : Nonce) (p : Bytes) :
    (Dek.frame L k h e en dek bn p).length = p.length + Dek.overhead := by
  simp only [Dek.frame, Dek.body, List.length_append, serializePrefix_length, en.property, bn.property,
    Dek.envelope_length hL, enc_length hL, Dek.overhead, bodyStart, bodyTagLen]
  omega

/-! ## Sealing -/

theorem fanoutFrame_eq (localId : UInt16) (channel : UInt32) (dek : Key) (bn : Nonce) (p : Bytes)
    (x : Selected × Nonce) (t : Trace) :
    Dek.fanoutFrame L localId channel dek (Dek.body L localId channel dek bn p)
        (Dek.bodyTag L localId channel dek bn p) x.1 x.2 t =
      ⟨.ok (Dek.emitted L localId channel dek bn p x),
        t ++ [.encrypt (Dek.envelopeEnc L localId channel dek bn p x)]⟩ := by
  obtain ⟨⟨toId, epoch, stored⟩, en⟩ := x
  let h : Header := ⟨localId, toId, channel⟩
  have hpre := serializePrefix_length h ⟨.dek, epoch⟩
  have htag := Dek.bodyTag_length hL localId channel dek bn p
  have hhead : ((serializePrefix h ⟨.dek, epoch⟩).val ++ en.val).length = Layout.encryptedDek := by
    rw [List.length_append, hpre, en.property]; rfl
  have hres : resize ((serializePrefix h ⟨.dek, epoch⟩).val ++ en.val) bodyStart =
      ((serializePrefix h ⟨.dek, epoch⟩).val ++ en.val) ++ List.replicate envelopeLen 0 := by
    rw [resize, hhead, if_neg (by decide)]
    rfl
  have hslot : slice (((serializePrefix h ⟨.dek, epoch⟩).val ++ en.val) ++ List.replicate envelopeLen (0 : UInt8))
      Layout.encryptedDek bodyStart = some (List.replicate envelopeLen 0) :=
    slice_tail hhead (by rw [List.length_replicate]; rfl)
  have hnonce : slice (Dek.body L localId channel dek bn p) 0 npubBytes = some bn.val :=
    slice_append_left _ bn.property
  have haad : (envelopeAad (serializePrefix h ⟨.dek, epoch⟩) bn ⟨_, htag⟩).val =
      Dek.envelopeAad L h epoch dek bn p := rfl
  have henc := aeadEncrypt_eq L stored.mem en (Dek.envelopeAad L h epoch dek bn p) dek.val
    (List.replicate envelopeLen 0) t (by rw [dek.property]; decide)
    (by rw [dek.property, List.length_replicate]; decide)
  have hover : overwrite (List.replicate envelopeLen 0) (L.enc stored.mem en
      (Dek.envelopeAad L h epoch dek bn p) dek.val) = Dek.envelope L stored.mem h epoch en dek bn p :=
    overwrite_full (by rw [enc_length hL, dek.property, List.length_replicate]; rfl)
  have hbs : (((serializePrefix h ⟨.dek, epoch⟩).val ++ en.val) ++ List.replicate envelopeLen (0 : UInt8)).length =
      bodyStart := by rw [List.length_append, hhead, List.length_replicate]; rfl
  unfold Dek.fanoutFrame
  simp only [hnonce, tryInto_val, tryInto_eq_some htag, psk_ok]
  simp only [show (⟨localId, toId, channel⟩ : Header) = h from rfl, hres, hslot, haad, henc, encStatus_ok hL, hover]
  rw [List.take_left' hhead, List.drop_eq_nil_of_le (Nat.le_of_eq hbs)]
  simp [Dek.emitted, Dek.envelopeEnc, Dek.frame, h, Dek.envelope]

theorem fanoutLoop_eq (localId : UInt16) (channel : UInt32) (dek : Key) (bn : Nonce) (p : Bytes) :
    ∀ (l : List (Selected × Nonce)) (frames : List FanoutFrame) (t : Trace),
      Dek.fanoutLoop L localId channel dek (Dek.body L localId channel dek bn p)
          (Dek.bodyTag L localId channel dek bn p) l frames t =
        ⟨.ok (frames ++ l.map (Dek.emitted L localId channel dek bn p)),
          t ++ l.map fun x => .encrypt (Dek.envelopeEnc L localId channel dek bn p x)⟩
  | [], frames, t => by simp [Dek.fanoutLoop]
  | x :: l, frames, t => by
    simp only [Dek.fanoutLoop, fanoutFrame_eq hL, fanoutLoop_eq localId channel dek bn p l]
    simp

/-- The core encrypts the body once and maps the emission over the recipients
zipped with their nonces. -/
theorem fanoutCore_eq (localId : UInt16) (selected : List Selected) (channel : UInt32) {p : Bytes} (dek : Key)
    (bn : Nonce) (ens : List Nonce) (t : Trace) (hp : p.length + aBytes ≤ usizeMax) :
    Dek.sealFanoutCore L localId selected channel p dek bn ens t =
      ⟨.ok ((selected.zip ens).map (Dek.emitted L localId channel dek bn p)),
        t ++ .encrypt (Dek.bodyEnc L localId channel dek bn p) ::
          (selected.zip ens).map fun x => .encrypt (Dek.envelopeEnc L localId channel dek bn p x)⟩ := by
  have hlen := enc_length hL dek bn (bodyAad localId channel).val p
  have henc := aeadEncrypt_eq L dek bn (bodyAad localId channel).val p
    (List.replicate (p.length + aBytes) 0) t hp (Nat.le_of_eq List.length_replicate.symm)
  have hover : overwrite (List.replicate (p.length + aBytes) 0)
      (L.enc dek bn (bodyAad localId channel).val p) = L.enc dek bn (bodyAad localId channel).val p :=
    overwrite_full (by rw [hlen, List.length_replicate])
  have hbody : (Dek.body L localId channel dek bn p).length = npubBytes + p.length + aBytes := by
    rw [Dek.body, List.length_append, bn.property, hlen]; omega
  have hsub : checkedSub (Dek.body L localId channel dek bn p).length aBytes = some (npubBytes + p.length) := by
    rw [checkedSub, if_pos (by omega), hbody]
    congr 1
  have htag : slice (Dek.body L localId channel dek bn p) (npubBytes + p.length)
      (Dek.body L localId channel dek bn p).length = some (Dek.bodyTag L localId channel dek bn p) := by
    rw [slice_eq_some (by omega) (Nat.le_refl _), Dek.body, List.drop_append, bn.property,
      List.drop_eq_nil_of_le (by rw [bn.property]; omega), List.nil_append, Nat.add_sub_cancel_left]
    rw [List.take_of_length_le]
    · rfl
    · rw [List.length_drop, List.length_append, bn.property, hlen]; omega
  unfold Dek.sealFanoutCore
  simp only [bodyBuffer_split, bodyBuffer_nonce, henc, encStatus_ok hL, hover]
  simp only [show bn.val ++ L.enc dek bn (bodyAad localId channel).val p = Dek.body L localId channel dek bn p
    from rfl, hsub, htag, fanoutLoop_eq hL]
  simp [Dek.bodyEnc]

end

/-! ## The layout -/

/-- The six pieces of a fanout frame, in wire order. -/
def Dek.wire (pre : Fixed prefixLen) (en : Nonce) (env : Fixed envelopeLen) (bn : Nonce) (c : Bytes) (tag : Tag) :
    Bytes :=
  pre.val ++ (en.val ++ (env.val ++ (bn.val ++ (c ++ tag.val))))

theorem Dek.frame_parts {frame : Bytes} {h : Header} {f : Flags} (hp : parsePrefix frame = .ok (h, f))
    (hl : Dek.overhead ≤ frame.length) :
    ∃ (en : Nonce) (env : Fixed envelopeLen) (bn : Nonce) (c : Bytes) (tag : Tag),
      frame = Dek.wire (serializePrefix h f) en env bn c tag := by
  obtain ⟨rest, rfl⟩ := parsePrefix_ok hp
  simp only [List.length_append, serializePrefix_length, Dek.overhead, bodyStart, bodyTagLen] at hl
  obtain ⟨en, rest, rfl⟩ := exists_split (b := rest) (n := npubBytes) (by omega)
  simp only [List.length_append, en.property] at hl
  obtain ⟨env, rest, rfl⟩ := exists_split (b := rest) (n := envelopeLen) (by omega)
  simp only [List.length_append, env.property] at hl
  obtain ⟨bn, rest, rfl⟩ := exists_split (b := rest) (n := npubBytes) (by omega)
  simp only [List.length_append, bn.property] at hl
  obtain ⟨c, tag, hr⟩ := exists_split (b := rest) (n := rest.length - aBytes) (by omega)
  have ht : tag.length = aBytes := by
    have h1 := c.property
    have h2 := congrArg List.length hr
    rw [List.length_append] at h2
    omega
  refine ⟨en, env, bn, c.val, ⟨tag, ht⟩, ?_⟩
  simp only [Dek.wire, ← hr]

section
variable (pre : Fixed prefixLen) (en : Nonce) (env : Fixed envelopeLen) (bn : Nonce) (c : Bytes) (tag : Tag)

theorem Dek.wire_length : (Dek.wire pre en env bn c tag).length = c.length + Dek.overhead := by
  simp only [Dek.wire, List.length_append, pre.property, en.property, env.property, bn.property, tag.property,
    Dek.overhead, bodyStart, bodyTagLen]
  omega

theorem Dek.wire_prefix : slice (Dek.wire pre en env bn c tag) 0 prefixLen = some pre.val :=
  slice_append_left _ pre.property

theorem Dek.wire_envelopeNonce :
    slice (Dek.wire pre en env bn c tag) Layout.envelopeNonce Layout.encryptedDek = some en.val :=
  slice_mid _ pre.property (by rw [en.property]; rfl)

theorem Dek.wire_envelope :
    slice (Dek.wire pre en env bn c tag) Layout.encryptedDek Layout.bodyNonce = some env.val := by
  have hf : Dek.wire pre en env bn c tag = (pre.val ++ en.val) ++ (env.val ++ (bn.val ++ (c ++ tag.val))) := by
    simp [Dek.wire]
  rw [hf]
  exact slice_mid _ (by rw [List.length_append, pre.property, en.property]; rfl) (by rw [env.property]; rfl)

theorem Dek.wire_bodyNonce : slice (Dek.wire pre en env bn c tag) Layout.bodyNonce Layout.body = some bn.val := by
  have hf : Dek.wire pre en env bn c tag = (pre.val ++ en.val ++ env.val) ++ (bn.val ++ (c ++ tag.val)) := by
    simp [Dek.wire]
  rw [hf]
  exact slice_mid _ (by simp only [List.length_append, pre.property, en.property, env.property]; rfl)
    (by rw [bn.property]; rfl)

theorem Dek.wire_body :
    slice (Dek.wire pre en env bn c tag) Layout.body (Dek.wire pre en env bn c tag).length =
      some (c ++ tag.val) := by
  have hf : Dek.wire pre en env bn c tag = (pre.val ++ en.val ++ env.val ++ bn.val) ++ (c ++ tag.val) := by
    simp [Dek.wire]
  have hl : (pre.val ++ en.val ++ env.val ++ bn.val).length = Layout.body := by
    simp only [List.length_append, pre.property, en.property, env.property, bn.property]; rfl
  rw [hf]
  refine slice_tail hl ?_
  rw [← hl]
  exact List.length_append.symm

theorem Dek.wire_tag :
    slice (Dek.wire pre en env bn c tag) ((Dek.wire pre en env bn c tag).length - aBytes)
      (Dek.wire pre en env bn c tag).length = some tag.val := by
  have hf : Dek.wire pre en env bn c tag = (pre.val ++ en.val ++ env.val ++ bn.val ++ c) ++ tag.val := by
    simp [Dek.wire]
  have hlen : ((pre.val ++ en.val ++ env.val ++ bn.val ++ c) ++ tag.val).length =
      (pre.val ++ en.val ++ env.val ++ bn.val ++ c).length + aBytes :=
    List.length_append.trans (congrArg _ tag.property)
  rw [hf, hlen, Nat.add_sub_cancel]
  exact slice_tail rfl (by rw [tag.property])

end

/-! ## Opening -/

section
variable {L : Libsodium} (hL : L.Contract)
include hL

theorem Dek.frame_wire (k : Key) (h : Header) (e : Epoch) (en : Nonce) (dek : Key) (bn : Nonce) (p : Bytes) :
    Dek.frame L k h e en dek bn p = Dek.wire (serializePrefix h ⟨.dek, e⟩) en
      ⟨Dek.envelope L k h e en dek bn p, Dek.envelope_length hL ..⟩ bn
      ((L.enc dek bn (bodyAad h.fromId h.channel).val p).take p.length)
      ⟨Dek.bodyTag L h.fromId h.channel dek bn p, Dek.bodyTag_length hL ..⟩ := by
  simp only [Dek.frame, Dek.wire, Dek.body, Dek.bodyTag, List.take_append_drop]

/-- Opening a fanout frame of this node whose source and epoch have the key
`k`: the envelope first, then the body under the key it carries. -/
theorem openDek_frame (store : KeyStore) (h : Header) (f : Flags) (en : Nonce) (env : Fixed envelopeLen)
    (bn : Nonce) (c : Bytes) (tag : Tag) (d : Diag) (t : Trace) {k : StoredKey} (hto : h.toId = store.localId)
    (hk : store.keyForReceive h.fromId f.epoch = some k) :
    let aad := (envelopeAad (serializePrefix h f) bn tag).val
    let r := openDek L store (Dek.wire (serializePrefix h f) en env bn c tag) h f d t
    (L.dec k.mem en aad env.val = none ∧
        r = ⟨.err .authFailed, d.recordReject .authFailed, t ++ [.decrypt ⟨k.mem, en, aad, env.val, false⟩]⟩) ∨
      ∃ dek : Key, L.dec k.mem en aad env.val = some dek.val ∧
        r = match L.dec dek bn (bodyAad h.fromId h.channel).val (c ++ tag.val) with
          | none => ⟨.err .authFailed, d.recordReject .authFailed,
              t ++ [.decrypt ⟨k.mem, en, aad, env.val, true⟩] ++
              [.decrypt ⟨dek, bn, (bodyAad h.fromId h.channel).val, c ++ tag.val, false⟩]⟩
          | some p => ⟨.ok (h, f, p), d, t ++ [.decrypt ⟨k.mem, en, aad, env.val, true⟩] ++
              [.decrypt ⟨dek, bn, (bodyAad h.fromId h.channel).val, c ++ tag.val, true⟩]⟩ := by
  intro aad r
  have hlen := Dek.wire_length (serializePrefix h f) en env bn c tag
  have hgate : ¬ (Dek.wire (serializePrefix h f) en env bn c tag).length < Dek.overhead := by omega
  have hsub : checkedSub (Dek.wire (serializePrefix h f) en env bn c tag).length Dek.overhead = some c.length := by
    rw [checkedSub, if_pos (by omega), hlen, Nat.add_sub_cancel]
  have hts : checkedSub (Dek.wire (serializePrefix h f) en env bn c tag).length aBytes =
      some ((Dek.wire (serializePrefix h f) en env bn c tag).length - aBytes) := by
    rw [checkedSub, if_pos (by rw [hlen]; simp only [Dek.overhead, bodyTagLen]; omega)]
  have hdec := aeadDecrypt_spec hL k.mem en aad env.val (List.replicate keyBytes 0) t
    (by rw [env.property]; decide) (by rw [env.property, List.length_replicate]; decide)
  have hr : r = openDek L store (Dek.wire (serializePrefix h f) en env bn c tag) h f d t := rfl
  unfold openDek at hr
  simp only [if_neg hgate, hsub, hto, ne_eq, not_true_eq_false, if_false, hk, Dek.wire_envelopeNonce,
    Dek.wire_bodyNonce, hts, tryInto_val, Dek.wire_tag, Option.bind_some, Dek.wire_prefix, Dek.wire_envelope,
      psk_ok, Dek.wire_body, show (envelopeAad (serializePrefix h f) bn tag).val = aad from rfl] at hr
  cases hd : L.dec k.mem en aad env.val with
  | none =>
    rw [hd] at hdec
    simp only [hdec] at hr
    exact Or.inl ⟨rfl, hr⟩
  | some m =>
    have hm : m.length = keyBytes := by rw [dec_length hL (by rw [env.property]; decide) hd, env.property]; rfl
    have hout : m ++ (List.replicate keyBytes (0 : UInt8)).drop (env.val.length - aBytes) = m := by
      rw [List.drop_eq_nil_of_le (by rw [List.length_replicate, env.property]; decide), List.append_nil]
    have hbody := aeadDecrypt_spec hL ⟨m, hm⟩ bn (bodyAad h.fromId h.channel).val (c ++ tag.val)
      (List.replicate c.length 0) (t ++ [.decrypt ⟨k.mem, en, aad, env.val, true⟩])
      (by rw [List.length_append, tag.property]; omega)
      (by rw [List.length_append, tag.property, List.length_replicate]; omega)
    rw [hd] at hdec
    simp only [hdec, hout, hbody] at hr
    refine Or.inr ⟨⟨m, hm⟩, rfl, hr.trans ?_⟩
    cases hp : L.dec ⟨m, hm⟩ bn (bodyAad h.fromId h.channel).val (c ++ tag.val) with
    | none => rfl
    | some p =>
      have hl := dec_length hL (by rw [List.length_append, tag.property]; omega) hp
      simp only [Dek.OpenRet.mk.injEq, Res.ok.injEq, Prod.mk.injEq, true_and, and_true]
      rw [List.take_append_of_le_length (Nat.le_of_eq hl.symm), List.take_of_length_le (Nat.le_of_eq hl)]

end

end Paxe

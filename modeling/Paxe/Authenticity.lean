import Paxe.Network

/-!
# End-to-end authenticity

Over any run of any network, what a node accepts is byte for byte a frame that
a sealing call at the named source handed out before. The ledger relates every
encryption in the history to the frame it went into; the three kinds share
keys but not the length of their associated data.
-/

namespace Paxe
open Wire

structure FanoutRecord where
  localId : UInt16
  channel : UInt32
  dek : Key
  bn : Nonce
  payload : Bytes

section
variable {ν : Type}

def Emission.header (id : ν → UInt16) (em : Emission ν) : Header := ⟨id em.sender, em.toId, em.channel⟩

/-- Where an encryption in the history went. -/
inductive Accounted (L : Libsodium) (id : ν → UInt16) (ems : List (Emission ν)) (recs : List FanoutRecord)
    (e : Aead.Enc Key Nonce) : Prop
  | standard {em : Emission ν} {n : Nonce} {k : Key} : em ∈ ems → em.mode = .standard →
      em.frame = Standard.frame L k (em.header id) em.epoch n em.payload →
      e = Standard.frameEnc L k (em.header id) em.epoch n em.payload → Accounted L id ems recs e
  | body {r : FanoutRecord} : r ∈ recs → e = Dek.bodyEnc L r.localId r.channel r.dek r.bn r.payload →
      Accounted L id ems recs e
  | envelope {r : FanoutRecord} {em : Emission ν} {en : Nonce} {k : Key} : r ∈ recs → em ∈ ems → em.mode = .dek →
      r.localId = id em.sender → r.channel = em.channel → r.payload = em.payload →
      em.frame = Dek.frame L k (em.header id) em.epoch en r.dek r.bn r.payload →
      e = ⟨k, en, Dek.envelopeAad L (em.header id) em.epoch r.dek r.bn r.payload, r.dek.val,
        Dek.envelope L k (em.header id) em.epoch en r.dek r.bn r.payload⟩ → Accounted L id ems recs e

/-- Every key drawn belongs to one fanout, and every encryption is accounted
for. -/
def Ledger (L : Libsodium) (id : ν → UInt16) (ems : List (Emission ν)) (t : Trace) : Prop :=
  ∃ recs : List FanoutRecord, recs.map (·.dek) = Aead.keys t ∧ ∀ e ∈ Aead.encs t, Accounted L id ems recs e

theorem Accounted.mono {L : Libsodium} {id : ν → UInt16} {ems ems' : List (Emission ν)}
    {recs recs' : List FanoutRecord} {e : Aead.Enc Key Nonce} (h : Accounted L id ems recs e)
    (hems : ∀ em ∈ ems, em ∈ ems') (hrecs : ∀ r ∈ recs, r ∈ recs') : Accounted L id ems' recs' e := by
  cases h with
  | standard hem hm hf he => exact .standard (hems _ hem) hm hf he
  | body hr he => exact .body (hrecs _ hr) he
  | envelope hr hem hm h1 h2 h3 hf he => exact .envelope (hrecs _ hr) (hems _ hem) hm h1 h2 h3 hf he

theorem Ledger.append {L : Libsodium} {id : ν → UInt16} {ems ems' : List (Emission ν)} {t seg : Trace}
    (h : Ledger L id ems t) (hd : Did L id ems' seg) : Ledger L id (ems ++ ems') (t ++ seg) := by
  obtain ⟨recs, hkeys, hacc⟩ := h
  cases hd with
  | quiet he hk =>
    refine ⟨recs, by rw [Aead.keys_append, hk, hkeys, List.append_nil], fun e hmem => ?_⟩
    rw [Aead.encs_append, he, List.append_nil] at hmem
    exact (hacc e hmem).mono (fun _ h => List.mem_append_left _ h) (fun _ h => h)
  | standard v toId channel ep p n k =>
    refine ⟨recs, by rw [Aead.keys_append, hkeys]; simp [Aead.keys], fun e hmem => ?_⟩
    rw [Aead.encs_append, List.mem_append] at hmem
    rcases hmem with hmem | hmem
    · exact (hacc e hmem).mono (fun _ h => List.mem_append_left _ h) (fun _ h => h)
    · obtain rfl : e = Standard.frameEnc L k ⟨id v, toId, channel⟩ ep n p := by simpa [Aead.encs] using hmem
      exact .standard (List.mem_append_right _ (List.mem_singleton_self _)) rfl rfl rfl
  | fanout v channel p dek bn ens xs =>
    let r : FanoutRecord := ⟨id v, channel, dek, bn, p⟩
    refine ⟨recs ++ [r], ?_, fun e hmem => ?_⟩
    · rw [Aead.keys_append, List.map_append, hkeys]
      simp [Dek.draws, Aead.keys, r]
    · have hr : r ∈ recs ++ [r] := List.mem_append_right _ (List.mem_singleton_self _)
      rw [Aead.encs_append, List.mem_append] at hmem
      rcases hmem with hmem | hmem
      · exact (hacc e hmem).mono (fun _ h => List.mem_append_left _ h) (fun _ h => List.mem_append_left _ h)
      · rw [Dek.fanout_encs] at hmem
        rcases List.mem_cons.mp hmem with rfl | hmem
        · exact .body hr rfl
        · obtain ⟨x, hx, rfl⟩ := List.mem_map.mp hmem
          exact .envelope hr (List.mem_append_right _ (List.mem_map_of_mem hx)) rfl rfl rfl rfl rfl rfl

/-! ## Kinds of encryption by the length of their AAD -/

section
variable {L : Libsodium} (hL : L.Contract) {id : ν → UInt16} {ems : List (Emission ν)} {recs : List FanoutRecord}
  {e : Aead.Enc Key Nonce} (h : Accounted L id ems recs e)
include hL h

theorem Accounted.of_frameAad (hl : e.aad.length = 9) :
    ∃ em ∈ ems, ∃ n k, em.mode = .standard ∧ em.frame = Standard.frame L k (em.header id) em.epoch n em.payload ∧
      e = Standard.frameEnc L k (em.header id) em.epoch n em.payload := by
  cases h with
  | standard hem hm hf he => exact ⟨_, hem, _, _, hm, hf, he⟩
  | body _ he =>
    rw [he, Dek.bodyEnc, (bodyAad _ _).property] at hl
    cases hl
  | envelope _ _ _ _ _ _ _ he =>
    rw [he, Dek.envelopeAad_length hL] at hl
    cases hl

theorem Accounted.of_bodyAad (hl : e.aad.length = 7) :
    ∃ r ∈ recs, e = Dek.bodyEnc L r.localId r.channel r.dek r.bn r.payload := by
  cases h with
  | standard _ _ _ he =>
    rw [he, Standard.frameEnc, serializePrefix_length] at hl
    cases hl
  | body hr he => exact ⟨_, hr, he⟩
  | envelope _ _ _ _ _ _ _ he =>
    rw [he, Dek.envelopeAad_length hL] at hl
    cases hl

omit hL in
theorem Accounted.of_envelopeAad (hl : e.aad.length = 37) :
    ∃ r ∈ recs, ∃ em ∈ ems, ∃ en k, em.mode = .dek ∧ r.localId = id em.sender ∧ r.channel = em.channel ∧
      r.payload = em.payload ∧ em.frame = Dek.frame L k (em.header id) em.epoch en r.dek r.bn r.payload ∧
      e = ⟨k, en, Dek.envelopeAad L (em.header id) em.epoch r.dek r.bn r.payload, r.dek.val,
        Dek.envelope L k (em.header id) em.epoch en r.dek r.bn r.payload⟩ := by
  cases h with
  | standard _ _ _ he =>
    rw [he, Standard.frameEnc, serializePrefix_length] at hl
    cases hl
  | body _ he =>
    rw [he, Dek.bodyEnc, (bodyAad _ _).property] at hl
    cases hl
  | envelope hr hem hm h1 h2 h3 hf he => exact ⟨_, hr, _, hem, _, _, hm, h1, h2, h3, hf, he⟩

end

/-! ## Accepted frames -/

structure Emission.Matches (id : ν → UInt16) (em : Emission ν) (frame : Bytes) (h : Header) (f : Flags)
    (p : Bytes) : Prop where
  bytes : em.frame = frame
  source : id em.sender = h.fromId
  dest : em.toId = h.toId
  channel : em.channel = h.channel
  mode : em.mode = f.mode
  epoch : em.epoch = f.epoch
  payload : em.payload = p

theorem Emission.header_eq {id : ν → UInt16} {em : Emission ν} {h : Header} (he : em.header id = h) :
    id em.sender = h.fromId ∧ em.toId = h.toId ∧ em.channel = h.channel := by
  subst he
  exact ⟨rfl, rfl, rfl⟩

/-- The envelope `env`, opened under `k`, is the one that the fanout `r` put
into the frame of `em`. -/
structure EnvelopeOf (L : Libsodium) (id : ν → UInt16) (r : FanoutRecord) (em : Emission ν) (h : Header) (f : Flags)
    (k : Key) (en : Nonce) (env : Fixed envelopeLen) : Prop where
  header : em.header id = h
  mode : em.mode = f.mode
  epoch : em.epoch = f.epoch
  flags : f = ⟨.dek, f.epoch⟩
  source : r.localId = h.fromId
  channel : r.channel = h.channel
  payload : r.payload = em.payload
  envelope : env.val = Dek.envelope L k h f.epoch en r.dek r.bn r.payload
  frame : em.frame = Dek.frame L k h f.epoch en r.dek r.bn r.payload

section
variable {L : Libsodium} (hL : L.Correct) {id : ν → UInt16} {ems : List (Emission ν)} {t : Trace}
include hL

theorem Ledger.standard (hl : Ledger L id ems t) {frame : Bytes} {h : Header} {f : Flags} {n : Nonce} {c p : Bytes}
    {k : Key} {e : Aead.Enc Key Nonce} (hb : frame = (serializePrefix h f).val ++ (n.val ++ c))
    (hd : L.dec k n (serializePrefix h f).val c = some p) (he : e ∈ Aead.encs t) (hk : e.key = k) (hn : e.nonce = n)
    (ha : e.aad = (serializePrefix h f).val) (ho : e.output = c) : ∃ em ∈ ems, em.Matches id frame h f p := by
  obtain ⟨recs, -, hacc⟩ := hl
  obtain ⟨em, hem, n', k', hm, hf, rfl⟩ :=
    (hacc e he).of_frameAad hL.toContract (by rw [ha, serializePrefix_length]; rfl)
  obtain ⟨hh, hflags⟩ := serializePrefix_inj ha
  obtain ⟨h1, h2, h3⟩ := Emission.header_eq hh
  simp only [Standard.frameEnc] at hk hn ho
  subst hk hn ho
  have hp : em.payload = p := by
    rw [← hflags, ← hh, hL.dec_enc] at hd
    exact Option.some.inj hd
  refine ⟨em, hem, ⟨?_, h1, h2, h3, by rw [← hflags]; exact hm, by rw [← hflags], hp⟩⟩
  rw [hf, hb, ← hflags, ← hh, Standard.frame]

theorem Ledger.envelope {recs : List FanoutRecord} (hacc : ∀ e ∈ Aead.encs t, Accounted L id ems recs e)
    {h : Header} {f : Flags} {en : Nonce} {env : Fixed envelopeLen} {bn : Nonce} {tag : Tag} {k dek : Key}
    {e : Aead.Enc Key Nonce} (hd : L.dec k en (envelopeAad (serializePrefix h f) bn tag).val env.val = some dek.val)
    (he : e ∈ Aead.encs t) (hk : e.key = k) (hn : e.nonce = en)
    (ha : e.aad = (envelopeAad (serializePrefix h f) bn tag).val) (ho : e.output = env.val) :
    ∃ r ∈ recs, ∃ em ∈ ems, r.dek = dek ∧ r.bn = bn ∧ EnvelopeOf L id r em h f k en env := by
  obtain ⟨r, hr, em, hem, en', k', hm, h1, h2, h3, hf, rfl⟩ :=
    (hacc e he).of_envelopeAad (by rw [ha, (envelopeAad _ _ _).property])
  simp only at hk hn ho
  subst hk hn
  obtain ⟨hpre, htag⟩ := List.append_inj ha (by
    simp only [List.length_append, serializePrefix_length, r.bn.property, bn.property])
  obtain ⟨hpre, hbn⟩ := List.append_inj hpre (by simp only [serializePrefix_length])
  obtain ⟨hh, hflags⟩ := serializePrefix_inj hpre
  obtain ⟨hs, -, hc⟩ := Emission.header_eq hh
  have hbn : r.bn = bn := Subtype.ext hbn
  subst hbn
  have hdek : r.dek = dek := by
    rw [← ho, ← ha, Dek.envelope, hL.dec_enc] at hd
    exact Subtype.ext (Option.some.inj hd)
  subst hdek
  have hep : em.epoch = f.epoch := by rw [← hflags]
  have hmode : em.mode = f.mode := by rw [← hflags]; exact hm
  rw [hh, hep] at hf ho
  exact ⟨r, hr, em, hem, rfl, rfl, ⟨hh, hmode, hep, by rw [← hep]; exact hflags.symm, h1.trans hs, h2.trans hc, h3,
    ho.symm, hf⟩⟩

theorem EnvelopeOf.body {recs : List FanoutRecord} (hacc : ∀ e ∈ Aead.encs t, Accounted L id ems recs e)
    (hK : (recs.map (·.dek)).Nodup) {h : Header} {f : Flags} {en : Nonce} {env : Fixed envelopeLen} {c p : Bytes}
    {tag : Tag} {k : Key} {r : FanoutRecord} {em : Emission ν} {e : Aead.Enc Key Nonce} (hr : r ∈ recs)
    (ho : EnvelopeOf L id r em h f k en env)
    (hd : L.dec r.dek r.bn (bodyAad h.fromId h.channel).val (c ++ tag.val) = some p)
    (he : e ∈ Aead.encs t) (hk : e.key = r.dek) (ha : e.aad = (bodyAad h.fromId h.channel).val)
    (hout : e.output = c ++ tag.val) :
    em.Matches id (Dek.wire (serializePrefix h f) en env r.bn c tag) h f p := by
  obtain ⟨r', hr', rfl⟩ := (hacc e he).of_bodyAad hL.toContract (by rw [ha, (bodyAad _ _).property])
  obtain rfl : r' = r := List.inj_on_of_nodup_map hK hr' hr hk
  obtain ⟨h1, h2, h3⟩ := Emission.header_eq ho.header
  simp only [Dek.bodyEnc, ho.source, ho.channel] at hout
  have hp : r'.payload = p := by
    rw [← hout, hL.dec_enc] at hd
    exact Option.some.inj hd
  refine ⟨?_, h1, h2, h3, ho.mode, ho.epoch, ho.payload.symm.trans hp⟩
  rw [ho.frame, Dek.frame, Dek.wire, Dek.body, ho.envelope, hout, ← ho.flags]

end

end

/-! ## Runs -/

section
variable {ν : Type} [DecidableEq ν]

theorem step_id (L : Libsodium) (net : Network ν) (ev : Event ν) : (net.step L ev).2.id = net.id := by
  funext v
  cases ev with
  | keys w op =>
    by_cases hv : v = w
    · subst hv
      simp [Network.step, Network.id, step_localId]
    · simp [Network.step, Network.id, hv]
  | standardSeal w toId channel epoch payload out => rfl
  | dekSeal w toId channel epoch payload => rfl
  | fanout w recipients channel payload => rfl
  | receive w frame =>
    by_cases hv : v = w
    · subst hv
      simp [Network.step, Network.id]
    · simp [Network.step, Network.id, hv]

theorem run_id (L : Libsodium) (net : Network ν) (events : List (Event ν)) :
    (Mealy.run (Network.step L) net events).id = net.id :=
  Mealy.run_inv (Network.step L) (I := fun s => s.id = net.id) rfl (fun s ev h => (step_id L s ev).trans h) events

theorem run_trace (L : Libsodium) (net : Network ν) (events : List (Event ν)) :
    ∃ w, (Mealy.run (Network.step L) net events).trace = net.trace ++ w := by
  refine Mealy.run_inv (Network.step L) (I := fun s => ∃ w, s.trace = net.trace ++ w) ⟨[], by simp⟩ ?_ events
  rintro s ev ⟨w, hw⟩
  obtain ⟨seg, ht, -⟩ := step_fresh L s ev
  exact ⟨w ++ seg, by rw [ht, hw, List.append_assoc]⟩

theorem run_ledger {L : Libsodium} (hL : L.Contract) {net : Network ν} (h0 : net.trace = [])
    (events : List (Event ν)) :
    Ledger L net.id (net.emitted L events) (Mealy.run (Network.step L) net events).trace := by
  refine (Mealy.log_inv (Network.step L)
    (I := fun log s => s.id = net.id ∧ Ledger L net.id (log.flatMap emissions) s.trace) ?_ ?_ events).2
  · exact ⟨rfl, [], by rw [h0]; rfl, by rw [h0]; simp [Aead.encs]⟩
  · rintro log s ev ⟨hid, hl⟩
    obtain ⟨seg, ht, hd⟩ := step_did hL s ev
    rw [hid] at hd
    refine ⟨(step_id L s ev).trans hid, ?_⟩
    rw [ht, List.flatMap_append, List.flatMap_singleton]
    exact hl.append hd

def Held (L : Libsodium) (net : Network ν) (events : List (Event ν)) (k : Key) : Prop :=
  ∃ before after, events = before ++ after ∧
    ∃ v s, ((Mealy.run (Network.step L) net before).nodes v).store.slots s = some k

/-- In a run without forgeries under keys held by stores or drawn by fanouts,
and with distinct draws, whatever a node accepts was handed out before by a
sealing call at the node the header names, for this node, with this payload. -/
theorem accepted_was_emitted {L : Libsodium} (hL : L.Correct) {net : Network ν} (h0 : net.trace = [])
    (events : List (Event ν))
    (hU : Aead.Unforgeable (fun k => Held L net events k ∨
      k ∈ Aead.keys (Mealy.run (Network.step L) net events).trace) (Mealy.run (Network.step L) net events).trace)
    (hK : (Aead.keys (Mealy.run (Network.step L) net events).trace).Nodup) :
    ∀ before v frame after h f p, events = before ++ .receive v frame :: after →
      ((Mealy.run (Network.step L) net before).step L (.receive v frame)).1 = .receive (.ok (h, f, p)) →
      h.toId = net.id v ∧ ∃ em ∈ net.emitted L before, em.Matches net.id frame h f p := by
  intro before v frame after h f p hev ho
  have ho := Reply.receive.inj ho
  obtain ⟨recs, hkeys, hacc⟩ := run_ledger hL.toContract h0 before
  have hid := congrFun (run_id L net before) v
  obtain ⟨w, hw⟩ := run_trace L ((Mealy.run (Network.step L) net before).step L (.receive v frame)).2 after
  have ht : (Mealy.run (Network.step L) net events).trace =
      ((Mealy.run (Network.step L) net before).step L (.receive v frame)).2.trace ++ w := by
    rw [hev, Mealy.run_append]
    exact hw
  have held {k : StoredKey}
      (hk : ((Mealy.run (Network.step L) net before).nodes v).store.keyForReceive h.fromId f.epoch = some k) :
      Held L net events k.mem :=
    ⟨before, .receive v frame :: after, hev, v, (h.fromId, f.epoch), by rw [← keyForReceive_slots, hk]; rfl⟩
  generalize Mealy.run (Network.step L) net before = s at *
  simp only [Network.step] at ht
  rcases open_ok hL.toContract ho with ⟨n, c, k, a, hd, htr⟩ | ⟨en, env, bn, c, tag, k, dek, a, henv, hbody, htr⟩
  · rw [ht, htr] at hU
    obtain ⟨e, he, hk, hn, haad, hout⟩ := hU.of_append rfl (List.mem_singleton_self _) rfl (Or.inl (held a.key))
    exact ⟨a.dest.trans hid, Ledger.standard hL ⟨recs, hkeys, hacc⟩ a.bytes hd he hk hn haad hout⟩
  · rw [ht, htr] at hU hK
    obtain ⟨e, he, hk, hn, haad, hout⟩ := hU.of_append rfl (List.mem_cons_self ..) rfl (Or.inl (held a.key))
    obtain ⟨r, hr, em, hem, rfl, rfl, hof⟩ := Ledger.envelope hL hacc henv he hk hn haad hout
    have hdrawn : r.dek ∈ Aead.keys s.trace := hkeys ▸ List.mem_map_of_mem hr
    obtain ⟨e', he', hk', -, haad', hout'⟩ := hU.of_append (d := ⟨r.dek, r.bn, _, _, true⟩) rfl
      (List.mem_cons_of_mem _ (List.mem_singleton_self _)) rfl (Or.inr (by simp [hdrawn]))
    rw [Aead.keys_append, Aead.keys_append, List.append_assoc] at hK
    have hnd : (recs.map (·.dek)).Nodup := hkeys ▸ hK.of_append_left
    exact ⟨a.dest.trans hid, em, hem, a.bytes ▸ hof.body hL hacc hnd hr hbody he' hk' haad' hout'⟩

end

def link (S R : KeyStore) : Network Bool := ⟨fun v => ⟨if v then S else R, .init⟩, []⟩

/-- A frame sealed at one end of a link and delivered to the other is accepted,
and its history is free of forgeries. -/
theorem honest_delivery {L : Libsodium} (hL : L.Correct) {S R : KeyStore} (channel : UInt32) {e : Epoch} {k : Key}
    {p : Bytes} (hS : S.slots (R.localId, e) = some k) (hR : R.slots (S.localId, e) = some k)
    (hp : p.length ≤ Standard.maxPayload) :
    let h : Header := ⟨S.localId, R.localId, channel⟩
    let frame := Standard.frame L k h e (randomNonce L []).1 p
    let sent := ((link S R).step L (.dekSeal true R.localId channel e p)).2
    let t := (sent.step L (.receive false frame)).2.trace
    (sent.step L (.receive false frame)).1 = .receive (.ok (h, ⟨.standard, e⟩, p)) ∧ Aead.keys t = [] ∧
      ∀ known, Aead.Unforgeable known t := by
  intro h frame sent t
  let enc := Standard.frameEnc L k h e (randomNonce L []).1 p
  have hsent : sent = { link S R with trace := [.drawNonce (randomNonce L []).1, .encrypt enc] } := by
    simp only [sent, link, Network.step, if_true, dekSeal_eq hL.toContract channel [] hS hp]
    rfl
  have a : Standard.Attempt R frame h ⟨.standard, e⟩ (randomNonce L []).1 enc.output ⟨k⟩ :=
    ⟨rfl, rfl, rfl, by simp only [enc, Standard.frameEnc, enc_length hL.toContract]; omega, slots_some.mp hR⟩
  have hopen := open_standard hL.toContract a .init [.drawNonce (randomNonce L []).1, .encrypt enc]
  rw [show L.dec k (randomNonce L []).1 (serializePrefix h ⟨.standard, e⟩).val enc.output = some p from
    hL.dec_enc ..] at hopen
  have ht : t = [.drawNonce (randomNonce L []).1, .encrypt enc] ++
      [.decrypt ⟨k, enc.nonce, enc.aad, enc.output, true⟩] := by
    simp only [t, hsent, link, Network.step, Bool.false_eq_true, if_false, hopen]
    rfl
  refine ⟨by simp only [hsent, link, Network.step, Bool.false_eq_true, if_false, hopen], by rw [ht]; rfl, ?_⟩
  rw [ht]
  exact fun known => (Aead.unforgeable_of_decs_nil rfl).snoc fun _ _ =>
    ⟨enc, by simp [Aead.encs], rfl, rfl, rfl, rfl⟩

theorem accepted_was_emitted_pair :
    let L := aesGcm counterBytes
    let e : Epoch := ⟨3, by decide⟩
    let key : Key := ⟨List.replicate keyBytes 7, by decide⟩
    let S := KeyStore.ofLinks 1 [((2, e), key)]
    let R := KeyStore.ofLinks 2 [((1, e), key)]
    ∃ em ∈ (link S R).emitted L [.dekSeal true R.localId 100 e [104, 105]],
      em.Matches (link S R).id (Standard.frame L key ⟨S.localId, R.localId, 100⟩ e (randomNonce L []).1 [104, 105])
        ⟨S.localId, R.localId, 100⟩ ⟨.standard, e⟩ [104, 105] := by
  intro L e key S R
  have hL : L.Correct := correct_of_exact (aesGcm_contract counterBytes) (aesGcm_exact counterBytes)
  obtain ⟨-, hSk⟩ := ofLinks_single 1 (2, e) key
  obtain ⟨-, hRk⟩ := ofLinks_single 2 (1, e) key
  obtain ⟨hok, hkeys, hU⟩ := honest_delivery hL (S := S) (R := R) 100 (p := [104, 105]) hSk hRk (by decide)
  exact (accepted_was_emitted hL (show (link S R).trace = [] from rfl)
    [.dekSeal true R.localId 100 e [104, 105], .receive false _]
    (hU _) (hkeys ▸ List.nodup_nil) [.dekSeal true R.localId 100 e [104, 105]] false _ [] _ _ _ rfl hok).2

end Paxe

import Paxe.AesGcm
import Paxe.FfiSound
import Paxe.Rotation
import Paxe.StatsSound

/-!
# Opaque rejection

A caller of `lunet_paxe_open` learns from a rejected frame that it was
rejected. Whatever stopped it, the code, the caller's memory, the error text
and the keys are the same. Inside the crate the cause is typed: which value
`dek::open` returns is a row of a table, and the boundary above collapses it.
-/

namespace Paxe
open Wire

structure OpenOut.Ready (m : OpenOut) (cap : Nat) : Prop where
  pointers : (m.outLen.isNone || m.fromId.isNone || m.channel.isNone || m.mode.isNone) = false
  room : ∃ buf, bufOut m.out "payload output" = .ok buf ∧ cap ≤ buf.length

theorem open_policy (L : Libsodium) {store : KeyStore} {frame : Bytes} {d d' : Diag} {t t' : Trace}
    {r : Res Dek.OpenError (Header × Flags × Bytes)} (h : Dek.open L store frame d t = ⟨r, d', t'⟩) :
    d'.policy = d.policy := by
  rcases open_diag L store frame d t with hd | ⟨x, hd⟩
  · rw [h] at hd
    rw [show d' = d from hd]
  · rw [h] at hd
    rw [show d' = d.recordReject x from hd, Diag.recordReject_policy]

theorem open_drop {L : Libsodium} {s : Session} {a : OpenCall} (h : (lunetPaxeOpen L s a).1 = .rc rcDrop) :
    (lunetPaxeOpen L s a).2.1 = a.mem ∧ ∃ d t, (lunetPaxeOpen L s a).2.2 = { s with diag := d, trace := t } ∧
      d.policy = s.diag.policy := by
  have hd := open_did L s a
  generalize lunetPaxeOpen L s a = r at h hd
  cases hd with
  | refused m _ => cases h
  | unconfigured _ => exact ⟨rfl, s.diag, s.trace, rfl, rfl⟩
  | short m _ _ _ _ => cases h
  | accepted _ _ _ _ => cases h
  | broken _ _ ho => exact ⟨rfl, _, _, rfl, open_policy L ho⟩
  | dropped _ _ ho _ =>
    have hp := open_policy L ho
    exact ⟨rfl, _, _, rfl, hp⟩

theorem open_not_ok {L : Libsodium} {s : Session} {m : OpenOut} {frame : Bytes} (hm : m.Ready frame.length)
    (h : (lunetPaxeOpen L s ⟨.mem frame, m⟩).1 ≠ .rc rcOk) :
    (lunetPaxeOpen L s ⟨.mem frame, m⟩).1 = .rc rcDrop := by
  obtain ⟨hp, buf, hb, hroom⟩ := hm
  have hv : OpenCall.Valid ⟨.mem frame, m⟩ frame buf := ⟨rfl, hb, hp⟩
  have hd := open_did L s ⟨.mem frame, m⟩
  generalize lunetPaxeOpen L s ⟨.mem frame, m⟩ = r at h hd
  cases hd with
  | refused _ hno => exact absurd hv (hno _ _)
  | unconfigured _ => rfl
  | @short store frame' out _ _ p _ _ _ _ hv' ho hlt =>
    obtain rfl : frame = frame' := Except.ok.inj hv'.frame_eq
    obtain rfl : buf = out := Except.ok.inj (hb.symm.trans hv'.out_eq)
    rcases open_any L store frame s.diag s.trace with ⟨_, _, q, hq, hl⟩ | ⟨_, hq⟩
    · rw [ho] at hq
      cases hq
      omega
    · rw [ho] at hq
      cases hq
  | accepted _ _ _ _ => exact absurd rfl h
  | broken _ _ _ => rfl
  | dropped _ _ _ _ => rfl

/-- Two rejected frames cannot be told apart by their caller, and no path that
drops a frame writes an error text. -/
theorem rejections_alike (L : Libsodium) (s : Session) :
    (∀ (m : OpenOut) (f₁ f₂ : Bytes), m.Ready f₁.length → m.Ready f₂.length →
      let r₁ := lunetPaxeOpen L s ⟨.mem f₁, m⟩
      let r₂ := lunetPaxeOpen L s ⟨.mem f₂, m⟩
      r₁.1 ≠ .rc rcOk → r₂.1 ≠ .rc rcOk →
        r₁.1 = .rc rcDrop ∧ r₂.1 = .rc rcDrop ∧ r₁.2.1 = m ∧ r₂.2.1 = m ∧
        ∃ d₁ d₂ t₁ t₂, r₁.2.2 = { s with diag := d₁, trace := t₁ } ∧ r₂.2.2 = { s with diag := d₂, trace := t₂ } ∧
          d₁.policy = s.diag.policy ∧ d₂.policy = s.diag.policy) ∧
    (∀ a : OpenCall, (lunetPaxeOpen L s a).1 = .rc rcDrop →
      (lunetPaxeOpen L s a).2.1 = a.mem ∧ (lunetPaxeOpen L s a).2.2.lastError = s.lastError ∧
        (lunetPaxeOpen L s a).2.2.store = s.store) := by
  refine ⟨?_, fun a ha => ?_⟩
  · intro m f₁ f₂ h₁ h₂ r₁ r₂ hr₁ hr₂
    have hd₁ := open_not_ok h₁ hr₁
    have hd₂ := open_not_ok h₂ hr₂
    obtain ⟨hm₁, d₁, t₁, he₁, hp₁⟩ := open_drop hd₁
    obtain ⟨hm₂, d₂, t₂, he₂, hp₂⟩ := open_drop hd₂
    exact ⟨hd₁, hd₂, hm₁, hm₂, d₁, d₂, t₁, t₂, he₁, he₂, hp₁, hp₂⟩
  · obtain ⟨hm, d, t, he, -⟩ := open_drop ha
    exact ⟨hm, by rw [he], by rw [he]⟩

theorem rejections_alike_pair :
    let s : Session := { Session.start with store := some (KeyStore.ofLinks 2 []) }
    let m : OpenOut := ⟨.mem (List.replicate 16 0), some 0, some 0, some 0, some 0⟩
    let r₁ := lunetPaxeOpen (aesGcm counterBytes) s ⟨.mem [1], m⟩
    let r₂ := lunetPaxeOpen (aesGcm counterBytes) s ⟨.mem [0, 1, 0, 3, 0, 0, 0, 0, 4], m⟩
    r₁.1 = r₂.1 ∧ r₁.2.1 = r₂.2.1 ∧ r₁.2.2.diag.stats ≠ r₂.2.2.diag.stats := by
  intro s m r₁ r₂
  obtain ⟨h₁, h₂, hm₁, hm₂, -⟩ := (rejections_alike (aesGcm counterBytes) s).1 m [1] [0, 1, 0, 3, 0, 0, 0, 0, 4]
    ⟨rfl, _, rfl, by decide⟩ ⟨rfl, _, rfl, by decide⟩ (by decide +kernel) (by decide +kernel)
  exact ⟨h₁.trans h₂.symm, hm₁.trans hm₂.symm, by decide +kernel⟩

/-! ## The typed cause inside the crate -/

/-- The rows at which `dek::open` refuses a frame, by the value it returns.
Every refusal in standard mode is one row, as is every failed tag. -/
inductive Dek.Refusal (store : KeyStore) (frame : Bytes) : Dek.OpenError → Prop
  | codec {e : CodecError} : parsePrefix frame = .error e → Refusal store frame (.badPrefix e)
  | standard {h : Header} {f : Flags} : parsePrefix frame = .ok (h, f) → f.mode = .standard →
      Refusal store frame .standardRejected
  | short {h : Header} {f : Flags} : parsePrefix frame = .ok (h, f) → f.mode = .dek →
      frame.length < Dek.overhead → Refusal store frame (.tooShort frame.length)
  | dest {h : Header} {f : Flags} : parsePrefix frame = .ok (h, f) → f.mode = .dek →
      Dek.overhead ≤ frame.length → h.toId ≠ store.localId → Refusal store frame .wrongDestination
  | miss {h : Header} {f : Flags} : parsePrefix frame = .ok (h, f) → f.mode = .dek →
      Dek.overhead ≤ frame.length → h.toId = store.localId → store.slots (h.fromId, f.epoch) = none →
      Refusal store frame .noKey
  | auth {h : Header} {f : Flags} {k : Key} : parsePrefix frame = .ok (h, f) → f.mode = .dek →
      Dek.overhead ≤ frame.length → h.toId = store.localId → store.slots (h.fromId, f.epoch) = some k →
      Refusal store frame .authFailed

def Dek.SameRefusal (store : KeyStore) (f₁ f₂ : Bytes) : Prop :=
  ∃ e, Dek.Refusal store f₁ e ∧ Dek.Refusal store f₂ e

theorem slots_of_miss {store : KeyStore} {p : UInt16} {e : Epoch} (hk : store.keyForReceive p e = none) :
    store.slots (p, e) = none := by
  rw [← keyForReceive_slots, hk]
  rfl

theorem Dek.Refusal.unique {store : KeyStore} {frame : Bytes} {e e' : Dek.OpenError} (h : Dek.Refusal store frame e)
    (h' : Dek.Refusal store frame e') : e = e' := by
  cases h <;> cases h'
  all_goals first
    | rfl
    | simp_all <;> omega

theorem gate_refusal {store : KeyStore} {frame : Bytes} {r : RejectReason} {e : Dek.OpenError}
    (g : Dek.Gate store frame r e) : Dek.Refusal store frame e := by
  cases g with
  | codec hp => exact .codec hp
  | standardDest hp hm _ => exact .standard hp hm
  | standardShort hp hm _ _ => exact .standard hp hm
  | standardMiss hp hm _ _ _ => exact .standard hp hm
  | dekShort hp hm hl => exact .short hp hm hl
  | dekDest hp hm hl hto => exact .dest hp hm hl hto
  | dekMiss hp hm hl hto hk => exact .miss hp hm hl hto (slots_of_miss hk)

theorem refused_dropped {L : Libsodium} {store : KeyStore} {frame : Bytes} {d : Diag} {t : Trace}
    {e : Dek.OpenError} (h : (Dek.open L store frame d t).result = .err e) {s : Session}
    (hs : s.store = some store) {m : OpenOut} (hm : m.Ready frame.length) :
    (lunetPaxeOpen L s ⟨.mem frame, m⟩).1 = .rc rcDrop ∧ (lunetPaxeOpen L s ⟨.mem frame, m⟩).2.1 = m ∧
      (lunetPaxeOpen L s ⟨.mem frame, m⟩).2.2.lastError = s.lastError := by
  have hno : (lunetPaxeOpen L s ⟨.mem frame, m⟩).1 ≠ .rc rcOk := by
    intro hok
    have hd := open_did L s ⟨.mem frame, m⟩
    generalize lunetPaxeOpen L s ⟨.mem frame, m⟩ = r at hok hd
    cases hd with
    | refused _ _ => cases hok
    | unconfigured _ => cases hok
    | short _ _ _ _ _ => cases hok
    | accepted hs' hv ho _ =>
      obtain rfl := Option.some.inj (hs.symm.trans hs')
      obtain rfl : frame = _ := Except.ok.inj hv.frame_eq
      rw [open_congr L rfl (fun _ _ _ => rfl) d s.diag t s.trace, ho] at h
      cases h
    | broken _ _ _ => cases hok
    | dropped _ _ _ _ => cases hok
  have hdrop := open_not_ok hm hno
  obtain ⟨hmem, d', t', he, -⟩ := open_drop hdrop
  exact ⟨hdrop, hmem, by rw [he]⟩

section
variable {L : Libsodium} (hL : L.Contract) {store : KeyStore}
include hL

theorem open_refusal {frame : Bytes} {d : Diag} {t : Trace} {e : Dek.OpenError}
    (h : (Dek.open L store frame d t).result = .err e) : Dek.Refusal store frame e := by
  rcases gate_or_attempt store frame with ⟨r, e', g⟩ | ⟨h', f, n, c, k, a⟩ | ⟨h', f, en, env, bn, c, tag, k, a⟩
  · rw [open_gate L d t g] at h
    cases h
    exact gate_refusal g
  · rw [open_standard hL a] at h
    cases hd : L.dec k.mem n (serializePrefix h' f).val c with
    | none =>
      rw [hd] at h
      cases h
      exact .standard a.parse a.mode
    | some p =>
      rw [hd] at h
      cases h
  · have hl : Dek.overhead ≤ frame.length := by
      rw [a.bytes, Dek.wire_length]
      exact Nat.le_add_left _ _
    have hauth : Dek.Refusal store frame .authFailed := by
      refine .auth a.parse a.mode hl a.dest (k := k.mem) ?_
      rw [← keyForReceive_slots, a.key]
      rfl
    rcases open_dek hL a d t with ⟨-, hr⟩ | ⟨dek, -, hr⟩
    · rw [hr] at h
      cases h
      exact hauth
    · rw [hr] at h
      cases hd : L.dec dek bn (bodyAad h'.fromId h'.channel).val (c ++ tag.val) with
      | none =>
        rw [hd] at h
        cases h
        exact hauth
      | some p =>
        rw [hd] at h
        cases h

/-- Two refused frames get one error value exactly when they stand in one row
of the table, and are told apart no further at the boundary. -/
theorem refusals_compared (f₁ f₂ : Bytes) (d₁ d₂ : Diag) (t₁ t₂ : Trace) (e₁ e₂ : Dek.OpenError)
    (h₁ : (Dek.open L store f₁ d₁ t₁).result = .err e₁) (h₂ : (Dek.open L store f₂ d₂ t₂).result = .err e₂) :
    (e₁ = e₂ ↔ Dek.SameRefusal store f₁ f₂) ∧
    ∀ (s : Session) (m : OpenOut), s.store = some store → m.Ready f₁.length → m.Ready f₂.length →
      let r₁ := lunetPaxeOpen L s ⟨.mem f₁, m⟩
      let r₂ := lunetPaxeOpen L s ⟨.mem f₂, m⟩
      r₁.1 = .rc rcDrop ∧ r₂.1 = .rc rcDrop ∧ r₁.2.1 = m ∧ r₂.2.1 = m ∧
        r₁.2.2.lastError = s.lastError ∧ r₂.2.2.lastError = s.lastError := by
  have hr₁ := open_refusal hL h₁
  have hr₂ := open_refusal hL h₂
  refine ⟨⟨?_, ?_⟩, ?_⟩
  · rintro rfl
    exact ⟨e₁, hr₁, hr₂⟩
  · rintro ⟨e, hf₁, hf₂⟩
    exact (hr₁.unique hf₁).trans (hf₂.unique hr₂)
  · intro s m hs hm₁ hm₂ r₁ r₂
    obtain ⟨hc₁, hmem₁, he₁⟩ := refused_dropped h₁ hs hm₁
    obtain ⟨hc₂, hmem₂, he₂⟩ := refused_dropped h₂ hs hm₂
    exact ⟨hc₁, hc₂, hmem₁, hmem₂, he₁, he₂⟩

end

theorem refusals_compared_standard :
    let L := aesGcm counterBytes
    let R := KeyStore.ofLinks 2 []
    let f₁ : Bytes := [0, 1, 0, 3, 0, 0, 0, 0, 4]
    let f₂ : Bytes := [0, 1, 0, 2, 0, 0, 0, 0, 4]
    (Dek.open L R f₁ .init []).diag ≠ (Dek.open L R f₂ .init []).diag ∧
      (Dek.open L R f₁ .init []).result = (Dek.open L R f₂ .init []).result ∧ Dek.SameRefusal R f₁ f₂ := by
  intro L R f₁ f₂
  have h₁ : (Dek.open L R f₁ .init []).result = .err .standardRejected := by decide +kernel
  have h₂ : (Dek.open L R f₂ .init []).result = .err .standardRejected := by decide +kernel
  refine ⟨by decide +kernel, h₁.trans h₂.symm, ?_⟩
  exact (refusals_compared (aesGcm_contract counterBytes) f₁ f₂ _ _ _ _ _ _ h₁ h₂).1.mp rfl

theorem refusals_distinct :
    let L := aesGcm counterBytes
    let R := KeyStore.ofLinks 2 [((1, ⟨3, by decide⟩), ⟨List.replicate keyBytes 7, by decide⟩)]
    let foreign := (serializePrefix ⟨1, 3, 100⟩ ⟨.dek, ⟨3, by decide⟩⟩).val ++ List.replicate 88 0
    let forged := (serializePrefix ⟨1, 2, 100⟩ ⟨.dek, ⟨3, by decide⟩⟩).val ++ List.replicate 88 0
    (Dek.open L R foreign .init []).result = .err .wrongDestination ∧
      (Dek.open L R forged .init []).result = .err .authFailed ∧
      ¬ ∀ f₁ f₂ e₁ e₂, (Dek.open L R f₁ .init []).result = .err e₁ → (Dek.open L R f₂ .init []).result = .err e₂ →
        e₁ = e₂ := by
  intro L R foreign forged
  have h₁ : (Dek.open L R foreign .init []).result = .err .wrongDestination := by decide +kernel
  have h₂ : (Dek.open L R forged .init []).result = .err .authFailed := by decide +kernel
  refine ⟨h₁, h₂, ?_⟩
  intro hall
  cases hall foreign forged _ _ h₁ h₂

end Paxe

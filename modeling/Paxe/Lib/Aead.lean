import Paxe.Lib.Wire

/-!
# Traces of authenticated encryption

The history of a system that draws keys and nonces and encrypts and decrypts
with associated data. `Fresh` says that no draw of a nonce serves two
encryptions, `Unforgeable` that what verifies was encrypted before. Both are
properties of the history alone, whatever the cipher is.
-/

namespace Aead
open Wire (Bytes)

structure Enc (K N : Type) where
  key : K
  nonce : N
  aad : Bytes
  plaintext : Bytes
  output : Bytes
  deriving DecidableEq

structure Dec (K N : Type) where
  key : K
  nonce : N
  aad : Bytes
  ciphertext : Bytes
  verified : Bool
  deriving DecidableEq

inductive Action (K N : Type) where
  | drawKey (k : K)
  | drawNonce (n : N)
  | encrypt (e : Enc K N)
  | decrypt (d : Dec K N)
  deriving DecidableEq

abbrev Trace (K N : Type) := List (Action K N)

section
variable {K N : Type}

def nonces (t : Trace K N) : List N :=
  t.filterMap fun | .drawNonce n => some n | _ => none

def keys (t : Trace K N) : List K :=
  t.filterMap fun | .drawKey k => some k | _ => none

def encs (t : Trace K N) : List (Enc K N) :=
  t.filterMap fun | .encrypt e => some e | _ => none

def decs (t : Trace K N) : List (Dec K N) :=
  t.filterMap fun | .decrypt d => some d | _ => none

@[simp] theorem nonces_append (t u : Trace K N) : nonces (t ++ u) = nonces t ++ nonces u :=
  List.filterMap_append

@[simp] theorem keys_append (t u : Trace K N) : keys (t ++ u) = keys t ++ keys u :=
  List.filterMap_append

@[simp] theorem encs_append (t u : Trace K N) : encs (t ++ u) = encs t ++ encs u :=
  List.filterMap_append

@[simp] theorem decs_append (t u : Trace K N) : decs (t ++ u) = decs t ++ decs u :=
  List.filterMap_append

theorem mem_decs {t : Trace K N} {d : Dec K N} : d ∈ decs t ↔ .decrypt d ∈ t := by
  simp only [decs, List.mem_filterMap]
  constructor
  · intro hx
    obtain ⟨a, ha, h⟩ := hx
    cases a <;> simp at h
    subst h; exact ha
  · intro h; exact ⟨_, h, rfl⟩

@[simp] theorem encs_encrypt (es : List (Enc K N)) : encs (es.map Action.encrypt : Trace K N) = es := by
  simp [encs, List.filterMap_map]

@[simp] theorem encs_decrypt (ds : List (Dec K N)) : encs (ds.map Action.decrypt : Trace K N) = [] := by
  simp [encs, List.filterMap_map]

@[simp] theorem encs_drawNonce (ns : List N) : encs (ns.map Action.drawNonce : Trace K N) = [] := by
  simp [encs, List.filterMap_map]

@[simp] theorem keys_encrypt (es : List (Enc K N)) : keys (es.map Action.encrypt : Trace K N) = [] := by
  simp [keys, List.filterMap_map]

@[simp] theorem keys_decrypt (ds : List (Dec K N)) : keys (ds.map Action.decrypt : Trace K N) = [] := by
  simp [keys, List.filterMap_map]

@[simp] theorem keys_drawNonce (ns : List N) : keys (ns.map Action.drawNonce : Trace K N) = [] := by
  simp [keys, List.filterMap_map]

@[simp] theorem nonces_drawNonce (ns : List N) : nonces (ns.map Action.drawNonce : Trace K N) = ns := by
  simp [nonces, List.filterMap_map]

@[simp] theorem nonces_encrypt (es : List (Enc K N)) : nonces (es.map Action.encrypt : Trace K N) = [] := by
  simp [nonces, List.filterMap_map]

/-! ## Nonces -/

/-- Each drawn nonce is passed to at most one encryption, and encryptions use
no other nonces: the nonces encrypted under are, with multiplicity, among
the draws. -/
def Fresh (t : Trace K N) : Prop :=
  ((encs t).map (·.nonce)).Subperm (nonces t)

theorem fresh_nil : Fresh ([] : Trace K N) := List.Subperm.refl _

theorem Fresh.append {t u : Trace K N} (ht : Fresh t) (hu : Fresh u) : Fresh (t ++ u) := by
  unfold Fresh at *
  rw [encs_append, nonces_append, List.map_append]
  exact ht.append hu

theorem fresh_segment {ds : Trace K N} {es : List (Enc K N)} (hd : encs ds = [])
    (h : (es.map (·.nonce)).Subperm (nonces ds)) : Fresh (ds ++ es.map .encrypt) := by
  simpa [Fresh, hd] using h

theorem fresh_of_encs_nil {t : Trace K N} (h : encs t = []) : Fresh t := by
  rw [Fresh, h]
  exact List.nil_subperm

/-- With pairwise distinct draws a fresh trace never encrypts twice under one
nonce, so never under one key and nonce. -/
theorem Fresh.pairs_nodup {t : Trace K N} (h : Fresh t) (hn : (nonces t).Nodup) :
    ((encs t).map fun e => (e.key, e.nonce)).Nodup := by
  obtain ⟨l, hl, hs⟩ := h
  have hnd : ((encs t).map (·.nonce)).Nodup := hl.nodup_iff.mp (hn.sublist hs)
  have hmap : ((encs t).map fun e => (e.key, e.nonce)).map Prod.snd = (encs t).map (·.nonce) := by
    simp [List.map_map, Function.comp_def]
  exact List.Nodup.of_map Prod.snd (hmap ▸ hnd)

/-! ## Forgeries -/

/-- Every decryption under a `known` key that verified was of a nonce, AAD and
ciphertext that an earlier encryption under that key had output. -/
def Unforgeable (known : K → Prop) (t : Trace K N) : Prop :=
  ∀ pre d post, t = pre ++ .decrypt d :: post → d.verified = true → known d.key →
    ∃ e ∈ encs pre, e.key = d.key ∧ e.nonce = d.nonce ∧ e.aad = d.aad ∧ e.output = d.ciphertext

theorem Unforgeable.of_append {known : K → Prop} {t u w : Trace K N} (h : Unforgeable known (t ++ u ++ w))
    (hu : encs u = []) {d : Dec K N} (hd : d ∈ decs u) (hv : d.verified = true) (hk : known d.key) :
    ∃ e ∈ encs t, e.key = d.key ∧ e.nonce = d.nonce ∧ e.aad = d.aad ∧ e.output = d.ciphertext := by
  obtain ⟨u₁, u₂, rfl⟩ := List.append_of_mem (mem_decs.mp hd)
  have hu₁ : encs u₁ = [] := by
    rw [encs_append] at hu
    exact (List.append_eq_nil_iff.mp hu).1
  obtain ⟨e, he, hr⟩ := h (t ++ u₁) d (u₂ ++ w) (by simp) hv hk
  rw [encs_append, hu₁, List.append_nil] at he
  exact ⟨e, he, hr⟩

theorem unforgeable_of_decs_nil {known : K → Prop} {t : Trace K N} (h : decs t = []) : Unforgeable known t := by
  intro pre d post heq _ _
  have : d ∈ decs t := mem_decs.mpr (heq ▸ List.mem_append_right _ List.mem_cons_self)
  rw [h] at this
  cases this

theorem Unforgeable.quiet {known : K → Prop} {t u : Trace K N} (h : Unforgeable known t) (hu : decs u = []) :
    Unforgeable known (t ++ u) := by
  intro pre d post heq hv hk
  have hnot : .decrypt d ∉ u := by
    intro hd
    have := mem_decs.mpr hd
    rw [hu] at this
    cases this
  rcases List.append_eq_append_iff.mp heq with ⟨w, rfl, hw⟩ | ⟨w, rfl, hw⟩
  · apply absurd _ hnot
    rw [hw]
    exact List.mem_append_right _ List.mem_cons_self
  · cases w with
    | nil =>
      rw [List.nil_append] at hw
      exact absurd (hw ▸ List.mem_cons_self) hnot
    | cons x w =>
      obtain ⟨rfl, -⟩ := List.cons.inj hw
      exact h pre d w rfl hv hk

theorem Unforgeable.snoc {known : K → Prop} {t : Trace K N} (h : Unforgeable known t) {d : Dec K N}
    (hd : d.verified = true → known d.key →
      ∃ e ∈ encs t, e.key = d.key ∧ e.nonce = d.nonce ∧ e.aad = d.aad ∧ e.output = d.ciphertext) :
    Unforgeable known (t ++ [.decrypt d]) := by
  intro pre d' post heq hv hk
  rcases List.eq_nil_or_concat post with rfl | ⟨post, x, rfl⟩
  · obtain ⟨rfl, hx⟩ := List.append_inj' heq rfl
    obtain rfl : d = d' := by simpa using hx
    exact hd hv hk
  · rw [List.concat_eq_append, ← List.cons_append, ← List.append_assoc] at heq
    obtain ⟨ht, -⟩ := List.append_inj' heq rfl
    exact h pre d' post ht hv hk

end

end Aead

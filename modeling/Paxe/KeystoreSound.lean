import Paxe.Lib.Mealy
import Paxe.Keystore

/-!
# The keystore as a map of slots

Each query and each operation of the keystore, read as a function from slots
to keys: installing updates one slot, retiring empties one slot, and the
current send key is the one under the greatest occupied epoch of the peer.
-/

namespace Paxe
open Wire

/-! ## The order of slots -/

theorem Epoch.ext {a b : Epoch} (h : a.bits = b.bits) : a = b := by
  cases a; cases b; cases h; rfl

instance : Std.LawfulEqCmp Slot.cmp where
  eq_of_compare {a b} h := by
    simp only [Slot.cmp, compareLex, compareOn, Ordering.then_eq_eq] at h
    exact Prod.ext (Std.LawfulEqCmp.eq_of_compare h.1) (Epoch.ext (Std.LawfulEqCmp.eq_of_compare h.2))

theorem Slot.cmp_range (p : UInt16) (s : Slot) :
    ((Slot.cmp (p, ⟨0, by decide⟩) s).isLE && (Slot.cmp s (p, ⟨maxEpoch, by decide⟩)).isLE) = true ↔
      s.1 = p := by
  have h0 : (compare (0 : UInt8) s.2.bits).isLE := Std.isLE_compare.mpr UInt8.zero_le
  have h31 : (compare s.2.bits maxEpoch).isLE := Std.isLE_compare.mpr s.2.bits_le
  simp only [Bool.and_eq_true, Slot.cmp, compareLex, compareOn, Ordering.isLE_then_iff_and, h0, h31, or_true,
    and_true]
  constructor
  · intro hx
    obtain ⟨h1, h2⟩ := hx
    exact (Std.LawfulEqCmp.eq_of_compare (Std.OrientedCmp.isLE_antisymm h1 h2)).symm
  · intro h
    rw [h]
    simp

theorem Slot.cmp_lt_same {p : UInt16} {a b : Epoch} (h : Slot.cmp (p, a) (p, b) = .lt) : a.bits < b.bits := by
  simp only [Slot.cmp, compareLex, compareOn, Std.ReflCmp.compare_self] at h
  exact Std.compare_eq_lt.mp h

/-! ## Lookups -/

theorem getLast?_pairwise {α : Type} {r : α → α → Prop} {l : List α} {x : α} (hl : l.Pairwise r)
    (h : l.getLast? = some x) : x ∈ l ∧ ∀ y ∈ l, y = x ∨ r y x := by
  refine ⟨List.mem_of_getLast? h, fun y hy => ?_⟩
  obtain ⟨l', rfl⟩ := List.getLast?_eq_some_iff.mp h
  rcases List.mem_append.mp hy with hy | hy
  · exact Or.inr ((List.pairwise_append.mp hl).2.2 y hy x (by simp))
  · exact Or.inl (by simpa using hy)

def KeyStore.slots (store : KeyStore) (s : Slot) : Option Key := store.entries[s]?.map (·.mem)

section
variable (store : KeyStore)

theorem slots_card : {s | (store.slots s).isSome}.ncard = store.len := by
  have hs : {s | (store.slots s).isSome} = {s : Slot | store.entries[s]?.isSome} := by
    ext s
    simp [KeyStore.slots]
  rw [hs, Table.ncard_occupied]
  rfl

theorem mem_range_peer {p : UInt16} {e : Slot × StoredKey} :
    e ∈ store.range (p, ⟨0, by decide⟩) (p, ⟨maxEpoch, by decide⟩) ↔
      store.entries[e.1]? = some e.2 ∧ e.1.1 = p := by
  unfold KeyStore.range
  rw [List.mem_filter, Slot.cmp_range, ← Std.TreeMap.mem_toList_iff_getElem?_eq_some]

theorem range_sorted (lo hi : Slot) :
    (store.range lo hi).Pairwise (fun a b => Slot.cmp a.1 b.1 = .lt) :=
  Std.TreeMap.ordered_keys_toList.filter _

theorem keyForSend_slots (p : UInt16) (e : Epoch) :
    (store.keyForSend p e).map (·.mem) = store.slots (p, e) := rfl

theorem keyForReceive_slots (p : UInt16) (e : Epoch) :
    (store.keyForReceive p e).map (·.mem) = store.slots (p, e) := rfl

theorem slots_inj {a b : KeyStore} {p : UInt16} {e : Epoch} (h : a.slots (p, e) = b.slots (p, e)) :
    a.keyForReceive p e = b.keyForReceive p e :=
  Option.map_injective (fun _ _ hm => StoredKey.mk.injEq _ _ ▸ hm) h

theorem peerKnown_iff (p : UInt16) : store.peerKnown p = true ↔ ∃ e, (store.slots (p, e)).isSome := by
  unfold KeyStore.peerKnown
  rw [List.isSome_head?]
  constructor
  · intro h
    obtain ⟨⟨s, k⟩, hm⟩ := List.exists_mem_of_ne_nil _ h
    obtain ⟨hk, rfl⟩ := (mem_range_peer store).mp hm
    exact ⟨s.2, by simp only [KeyStore.slots, Option.isSome_map]; exact Option.isSome_of_eq_some hk⟩
  · intro hx
    obtain ⟨e, h⟩ := hx
    obtain ⟨k, hk⟩ := Option.isSome_iff_exists.mp (Option.isSome_map.symm.trans h)
    exact List.ne_nil_of_mem ((mem_range_peer store (e := ((p, e), k))).mpr ⟨hk, rfl⟩)

theorem keyForSendCurrent_spec {p : UInt16} {e : Epoch} {k : StoredKey}
    (h : store.keyForSendCurrent p = some (e, k)) :
    store.keyForSend p e = some k ∧ ∀ e', (store.slots (p, e')).isSome → e'.bits ≤ e.bits := by
  unfold KeyStore.keyForSendCurrent at h
  obtain ⟨⟨s, k'⟩, hlast, he⟩ := Option.map_eq_some_iff.mp h
  obtain ⟨hm, hmax⟩ := getLast?_pairwise (range_sorted store _ _) hlast
  obtain ⟨hk, hp⟩ := (mem_range_peer store).mp hm
  obtain ⟨rfl, rfl⟩ := Prod.mk.inj he
  obtain ⟨q, e⟩ := s
  simp only at hp hk
  subst hp
  refine ⟨hk, fun e' h' => ?_⟩
  obtain ⟨k'', hk''⟩ := Option.isSome_iff_exists.mp (Option.isSome_map.symm.trans h')
  rcases hmax ((q, e'), k'') ((mem_range_peer store).mpr ⟨hk'', rfl⟩) with heq | hlt
  · obtain ⟨heq, -⟩ := Prod.mk.inj heq
    rw [(Prod.mk.inj heq).2]
    exact UInt8.le_refl _
  · exact UInt8.le_of_lt (Slot.cmp_lt_same hlt)

theorem keyForSendCurrent_eq_none {p : UInt16} :
    store.keyForSendCurrent p = none ↔ ∀ e, store.slots (p, e) = none := by
  have hk : store.keyForSendCurrent p = none ↔ store.peerKnown p = false := by
    unfold KeyStore.keyForSendCurrent KeyStore.peerKnown
    rw [Option.map_eq_none_iff, List.getLast?_eq_none_iff]
    cases store.range (p, ⟨0, by decide⟩) (p, ⟨maxEpoch, by decide⟩) <;> simp
  rw [hk, Bool.eq_false_iff, ne_eq, peerKnown_iff]
  simp

/-- The current send key of a peer is its key under the greatest occupied
epoch. -/
theorem keyForSendCurrent_iff {p : UInt16} {e : Epoch} {k : StoredKey} :
    store.keyForSendCurrent p = some (e, k) ↔
      store.keyForSend p e = some k ∧ ∀ e', (store.slots (p, e')).isSome → e'.bits ≤ e.bits := by
  refine ⟨keyForSendCurrent_spec store, fun ⟨hk, hmax⟩ => ?_⟩
  have hsome : (store.slots (p, e)).isSome := by rw [← keyForSend_slots, hk]; rfl
  cases hc : store.keyForSendCurrent p with
  | none => rw [(keyForSendCurrent_eq_none store).mp hc e] at hsome; cases hsome
  | some r =>
    obtain ⟨e', k'⟩ := r
    obtain ⟨hk', hmax'⟩ := keyForSendCurrent_spec store hc
    have hsome' : (store.slots (p, e')).isSome := by rw [← keyForSend_slots, hk']; rfl
    have he : e' = e := Epoch.ext (UInt8.le_antisymm (hmax e' hsome') (hmax' e hsome))
    subst he
    rw [hk] at hk'
    rw [Option.some.inj hk']

end

theorem slots_some {store : KeyStore} {s : Slot} {k : Key} :
    store.slots s = some k ↔ store.keyForReceive s.1 s.2 = some ⟨k⟩ := by
  rw [← keyForReceive_slots]
  constructor
  · intro h
    obtain ⟨⟨m⟩, hs, rfl⟩ := Option.map_eq_some_iff.mp h
    exact hs
  · intro h
    rw [h]
    rfl

/-! ## Operations -/

section
variable (store : KeyStore)

theorem slots_new {id : UInt16} {rc : Int} {s : KeyStore} (h : KeyStore.new id rc = .ok s) :
    s.localId = id ∧ s.slots = fun _ => none := by
  unfold KeyStore.new at h
  split at h
  · cases h
  · simp only [Except.ok.injEq] at h
    subst h
    exact ⟨rfl, by funext s; simp [KeyStore.slots]⟩

@[simp] theorem install_localId (p : UInt16) (e : Epoch) (k : Key) (heap : Heap) :
    (store.install p e k heap).2.localId = store.localId := by
  unfold KeyStore.install
  split
  · rfl
  · split <;> rfl

theorem install_error {p : UInt16} {e : Epoch} {k : Key} {heap : Heap} {err : KeystoreError}
    (h : (store.install p e k heap).1 = .error err) : (store.install p e k heap).2 = store := by
  unfold KeyStore.install at h ⊢
  split
  · rfl
  · rename_i hf
    rw [dif_neg hf] at h
    split
    · rfl
    · rename_i heq; rw [heq] at h; cases h

theorem install_slots {p : UInt16} {e : Epoch} {k : Key} {heap : Heap}
    (h : (store.install p e k heap).1 = .ok ()) :
    (store.install p e k heap).2.slots = Function.update store.slots (p, e) (some k) := by
  unfold KeyStore.install at h ⊢
  split
  · rename_i hf; rw [dif_pos hf] at h; cases h
  · rename_i hf
    rw [dif_neg hf] at h
    cases hn : StoredKey.new k heap with
    | error err => rw [hn] at h; cases h
    | ok key =>
      have hmem : key.mem = k := by
        unfold StoredKey.new at hn
        split at hn
        · split at hn
          · simp only [Except.ok.injEq] at hn; rw [← hn]
          · cases hn
        · cases hn
      funext s
      simp only [KeyStore.slots, Std.TreeMap.getElem?_insert, Std.LawfulEqCmp.compare_eq_iff_eq]
      by_cases hs : (p, e) = s
      · subst hs; simp [hmem]
      · simp [hs, Function.update_of_ne (Ne.symm hs), KeyStore.slots]

theorem install_ok_iff {p : UInt16} {e : Epoch} {k : Key} {heap : Heap} :
    (store.install p e k heap).1 = .ok () ↔
      (heap.malloc ∧ heap.mlock) ∧ ((store.slots (p, e)).isSome ∨ store.len < maxEntries) := by
  have hs : (store.slots (p, e)).isSome = store.entries.contains (p, e) := by simp [KeyStore.slots]
  rw [hs, KeyStore.len]
  unfold KeyStore.install
  split
  · rename_i hf
    rw [Bool.and_eq_true, Bool.not_eq_true', decide_eq_true_eq] at hf
    simp [hf.1, Nat.not_lt.mpr hf.2]
  · rename_i hf
    have hroom : store.entries.contains (p, e) = true ∨ store.entries.size < maxEntries := by
      by_contra hno
      rw [not_or, Bool.not_eq_true, Nat.not_lt] at hno
      exact hf (by rw [hno.1, decide_eq_true hno.2]; rfl)
    simp only [hroom, and_true, StoredKey.new]
    cases heap.malloc <;> cases heap.mlock <;> simp

@[simp] theorem retire_localId (p : UInt16) (e : Epoch) : (store.retire p e).2.localId = store.localId := rfl

theorem retire_fst (p : UInt16) (e : Epoch) : (store.retire p e).1 = (store.slots (p, e)).isSome := by
  simp [KeyStore.retire, KeyStore.slots]

theorem retire_slots (p : UInt16) (e : Epoch) :
    (store.retire p e).2.slots = Function.update store.slots (p, e) none := by
  funext s
  simp only [KeyStore.retire, KeyStore.slots, Std.TreeMap.getElem?_erase, Std.LawfulEqCmp.compare_eq_iff_eq]
  by_cases hs : (p, e) = s
  · subst hs; simp
  · simp [hs, Function.update_of_ne (Ne.symm hs), KeyStore.slots]

@[simp] theorem clear_localId : store.clear.localId = store.localId := rfl

theorem clear_slots : store.clear.slots = fun _ => none := by
  funext s; simp [KeyStore.clear, KeyStore.slots]

end

def KeyStore.ofLinks (localId : UInt16) (links : List (Slot × Key)) : KeyStore :=
  links.foldl (fun s l => (s.install l.1.1 l.1.2 l.2 ⟨true, true⟩).2) ⟨localId, ∅, KeyStore.empty_len_le⟩

theorem ofLinks_single (id : UInt16) (s : Slot) (k : Key) :
    (KeyStore.ofLinks id [(s, k)]).localId = id ∧ (KeyStore.ofLinks id [(s, k)]).slots s = some k := by
  simp [KeyStore.ofLinks, KeyStore.install, StoredKey.new, KeyStore.slots, maxEntries]

/-! ## Runs -/

inductive KeyOp where
  | install (peer : UInt16) (epoch : Epoch) (material : Key) (heap : Heap)
  | retire (peer : UInt16) (epoch : Epoch)
  | clear

inductive KeyRet where
  | installed (r : Except KeystoreError Unit)
  | retired (existed : Bool)
  | cleared

def KeyStore.step (store : KeyStore) : KeyOp → KeyRet × KeyStore
  | .install p e k heap => (.installed (store.install p e k heap).1, (store.install p e k heap).2)
  | .retire p e => (.retired (store.retire p e).1, (store.retire p e).2)
  | .clear => (.cleared, store.clear)

/-- The same operations on a map of slots; a failed install does nothing. -/
def slotStep (m : Slot → Option Key) : KeyOp × KeyRet → Slot → Option Key
  | (.install p e k _, .installed (.ok ())) => Function.update m (p, e) (some k)
  | (.install _ _ _ _, _) => m
  | (.retire p e, _) => Function.update m (p, e) none
  | (.clear, _) => fun _ => none

def Touches (s : Slot) : KeyOp × KeyRet → Prop
  | (.install p e _ _, .installed (.ok ())) => (p, e) = s
  | (.install _ _ _ _, _) => False
  | (.retire p e, _) => (p, e) = s
  | (.clear, _) => True

theorem touches_install {s : Slot} {p : UInt16} {e : Epoch} {k : Key} {heap : Heap} {r : KeyRet}
    (h : Touches s (.install p e k heap, r)) : (p, e) = s := by
  unfold Touches at h
  split at h <;> simp_all

theorem step_localId (store : KeyStore) (op : KeyOp) : (store.step op).2.localId = store.localId := by
  cases op with
  | install p e k heap => exact install_localId store p e k heap
  | retire p e => rfl
  | clear => rfl

theorem step_slots (store : KeyStore) (op : KeyOp) :
    (store.step op).2.slots = slotStep store.slots (op, (store.step op).1) := by
  cases op with
  | install p e k heap =>
    cases hr : (store.install p e k heap).1 with
    | error err => simp only [KeyStore.step, hr, slotStep, install_error store hr]
    | ok u => simp only [KeyStore.step, hr, slotStep, install_slots store hr]
  | retire p e => exact retire_slots store p e
  | clear => exact clear_slots store

theorem slotStep_untouched {s : Slot} (m : Slot → Option Key) {x : KeyOp × KeyRet} (h : ¬ Touches s x) :
    slotStep m x s = m s := by
  fun_cases slotStep m x
  · exact Function.update_of_ne (fun hs => h hs.symm) _ _
  · rfl
  · exact Function.update_of_ne (fun hs => h hs.symm) _ _
  · exact absurd trivial h

theorem run_localId (store : KeyStore) (ops : List KeyOp) :
    (Mealy.run KeyStore.step store ops).localId = store.localId :=
  Mealy.run_inv KeyStore.step (I := fun s => s.localId = store.localId) rfl
    (fun s op h => (step_localId s op).trans h) ops

theorem run_slots (store : KeyStore) (ops : List KeyOp) :
    (Mealy.run KeyStore.step store ops).slots = (Mealy.log KeyStore.step store ops).foldl slotStep store.slots :=
  Mealy.abs_run KeyStore.step KeyStore.slots slotStep step_slots store ops

theorem run_untouched (store : KeyStore) (ops : List KeyOp) {s : Slot}
    (h : ∀ x ∈ Mealy.log KeyStore.step store ops, ¬ Touches s x) :
    (Mealy.run KeyStore.step store ops).slots s = store.slots s := by
  rw [run_slots]
  generalize Mealy.log KeyStore.step store ops = l at h
  generalize store.slots = m
  induction l generalizing m with
  | nil => rfl
  | cons x l ih =>
    rw [List.foldl_cons, ih (fun y hy => h y (List.mem_cons_of_mem _ hy)), slotStep_untouched m (h x (by simp))]

/-! ## The bounded map -/

def Stores (s : Slot) (k : Key) : KeyOp × KeyRet → Prop
  | (.install p e k' _, .installed (.ok ())) => (p, e) = s ∧ k' = k
  | _ => False

theorem slotStep_some {s : Slot} {k : Key} (m : Slot → Option Key) (x : KeyOp × KeyRet) :
    slotStep m x s = some k ↔ Stores s k x ∨ (m s = some k ∧ ¬ Touches s x) := by
  fun_cases slotStep m x with
  | case1 p e k' heap =>
    by_cases hs : (p, e) = s
    · subst hs
      simp [Stores, Touches]
    · simp [Stores, Touches, hs, Function.update_of_ne (Ne.symm hs)]
  | case2 p e k' heap r hr =>
    have hi : ¬ Stores s k (.install p e k' heap, r) := by
      intro hi
      unfold Stores at hi
      split at hi
      · rename_i heq
        cases heq
        exact hr rfl
      · exact hi
    have ht : ¬ Touches s (.install p e k' heap, r) := by
      intro ht
      unfold Touches at ht
      split at ht <;> simp_all
    simp [hi, ht]
  | case3 p e r =>
    by_cases hs : (p, e) = s
    · subst hs
      simp [Stores, Touches]
    · simp [Stores, Touches, hs, Function.update_of_ne (Ne.symm hs)]
  | case4 r => simp [Stores, Touches]

/-- A slot holds the material of its last install that nothing undid. -/
theorem run_slots_iff {store : KeyStore} (h0 : store.slots = fun _ => none) (ops : List KeyOp) (s : Slot)
    (k : Key) :
    (Mealy.run KeyStore.step store ops).slots s = some k ↔
      Mealy.Since (Stores s k) (Touches s) (Mealy.log KeyStore.step store ops) := by
  induction ops using List.reverseRecOn with
  | nil => simp [Mealy.run, Mealy.log, h0, Mealy.not_since_nil]
  | append_singleton ops op ih =>
    rw [Mealy.run_snoc, Mealy.log_snoc, step_slots, slotStep_some, Mealy.since_snoc, ih]

section
variable (store : KeyStore)

theorem install_full_iff {p : UInt16} {e : Epoch} {k : Key} {heap : Heap} :
    (store.install p e k heap).1 = .error .full ↔ store.slots (p, e) = none ∧ store.len = maxEntries := by
  have hs : store.slots (p, e) = none ↔ store.entries.contains (p, e) = false := by
    rw [← Bool.not_eq_true, Std.TreeMap.contains_iff_mem]
    simp [KeyStore.slots]
  have hle : store.entries.size ≤ maxEntries := store.len_le
  rw [hs, KeyStore.len]
  unfold KeyStore.install
  split
  · rename_i hf
    rw [Bool.and_eq_true, Bool.not_eq_true', decide_eq_true_eq] at hf
    simp [hf.1, Nat.le_antisymm hle hf.2]
  · rename_i hf
    have hno : ¬ (store.entries.contains (p, e) = false ∧ store.entries.size = maxEntries) := by
      rintro ⟨hc, hn⟩
      exact hf (by rw [hc, decide_eq_true hn.ge]; rfl)
    refine ⟨?_, fun h => absurd h hno⟩
    intro h
    split at h <;> cases h

theorem keyForSendCurrent_slots {p : UInt16} {e : Epoch} {k : StoredKey} :
    store.keyForSendCurrent p = some (e, k) ↔
      store.slots (p, e) = some k.mem ∧ ∀ e', (store.slots (p, e')).isSome → e'.bits ≤ e.bits := by
  rw [keyForSendCurrent_iff, slots_some]
  rfl

end

/-- The store is a bounded map from slots to material, over every run from a
new store and whatever allocation fails. -/
theorem keystore_refines {id : UInt16} {rc : Int} {store : KeyStore} (h0 : KeyStore.new id rc = .ok store)
    (ops : List KeyOp) :
    let S := Mealy.run KeyStore.step store ops
    S.len ≤ 1024 ∧ {s | (S.slots s).isSome}.ncard = S.len ∧
    (∀ p e k, S.slots (p, e) = some k ↔
      Mealy.Since (Stores (p, e) k) (Touches (p, e)) (Mealy.log KeyStore.step store ops)) ∧
    (∀ p e, (S.keyForSend p e).map (·.mem) = S.slots (p, e) ∧ (S.keyForReceive p e).map (·.mem) = S.slots (p, e)) ∧
    (∀ p e k heap,
      ((S.install p e k heap).1 = .error .full ↔ S.slots (p, e) = none ∧ S.len = 1024) ∧
      ((S.install p e k heap).1 = .ok () ↔
        (heap.malloc ∧ heap.mlock) ∧ ((S.slots (p, e)).isSome ∨ S.len < 1024)) ∧
      (∀ err, (S.install p e k heap).1 = .error err → (S.install p e k heap).2 = S) ∧
      ((S.install p e k heap).1 = .ok () →
        (S.install p e k heap).2.slots = Function.update S.slots (p, e) (some k))) ∧
    (∀ p e, (S.retire p e).1 = (S.slots (p, e)).isSome ∧
      (S.retire p e).2.slots = Function.update S.slots (p, e) none) ∧
    S.clear.slots = (fun _ => none) ∧
    (∀ p, S.peerKnown p = true ↔ ∃ e, (S.slots (p, e)).isSome) ∧
    (∀ p, S.keyForSendCurrent p = none ↔ ∀ e, S.slots (p, e) = none) ∧
    (∀ p e k, S.keyForSendCurrent p = some (e, k) ↔
      S.slots (p, e) = some k.mem ∧ ∀ e', (S.slots (p, e')).isSome → e'.bits ≤ e.bits) := by
  intro S
  refine ⟨S.len_le, slots_card S, ?_, ?_, ?_, ?_, clear_slots S, ?_, ?_, ?_⟩
  · intro p e k
    exact run_slots_iff (slots_new h0).2 ops (p, e) k
  · intro p e
    exact ⟨keyForSend_slots S p e, keyForReceive_slots S p e⟩
  · intro p e k heap
    exact ⟨install_full_iff S, install_ok_iff S, fun err => install_error S, install_slots S⟩
  · intro p e
    exact ⟨retire_fst S p e, retire_slots S p e⟩
  · intro p
    exact peerKnown_iff S p
  · intro p
    exact keyForSendCurrent_eq_none S
  · intro p e k
    exact keyForSendCurrent_slots S

/-- A slot keeps its key when an overwrite of it gets no memory. -/
theorem keystore_refines_overwrite :
    let e : Epoch := ⟨31, by decide⟩
    let old : Key := ⟨List.replicate keyBytes 1, by decide⟩
    let new : Key := ⟨List.replicate keyBytes 2, by decide⟩
    let ops : List KeyOp := [.install 65535 e old ⟨true, true⟩, .install 65535 e new ⟨true, false⟩]
    let S := Mealy.run KeyStore.step ⟨1, ∅, KeyStore.empty_len_le⟩ ops
    S.slots (65535, e) = some old ∧ S.keyForSendCurrent 65535 = some (e, ⟨old⟩) := by
  intro e old new ops S
  have hk : S.slots (65535, e) = some old := by decide +kernel
  refine ⟨hk, ?_⟩
  obtain ⟨-, -, -, -, -, -, -, -, -, hcur⟩ :=
    keystore_refines (show KeyStore.new 1 0 = .ok ⟨1, ∅, KeyStore.empty_len_le⟩ from rfl) ops
  apply (hcur 65535 e ⟨old⟩).mpr
  exact ⟨hk, fun e' _ => e'.bits_le⟩

end Paxe

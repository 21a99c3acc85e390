import Paxe.Guarded
import Paxe.SessionSound

/-!
# Erasure

The store in guarded memory does what the store of plain keys does, without a
fault: every occupied slot holds one locked region of its own with the key in it,
nothing else is live, and a region that was locked held zeros when it was released.
-/

namespace Paxe
open Wire Regions

/-! ## One key -/

def zeros : Bytes := List.replicate keyBytes 0

def keyRegion (k : Key) : Region UInt8 := ⟨k.val, true⟩

/-- Regions are released once, and those that were locked were wiped before. -/
structure Wiped (m : GuardedHeap) : Prop where
  sound : m.Sound
  zeroed : ∀ x ∈ m.released, x.2.locked = true → x.2.cells = zeros

theorem Wiped.empty : Wiped (.empty : GuardedHeap) := ⟨Memory.Sound.empty, by simp [Memory.empty]⟩

section
variable {m : GuardedHeap}

theorem Wiped.alloc (h : Wiped m) (cells : Bytes) : Wiped (m.alloc cells) := ⟨h.sound.alloc cells, h.zeroed⟩

theorem Wiped.set (h : Wiped m) {id : Nat} {r : Region UInt8} (hl : m.live id = some r) (r' : Region UInt8) :
    Wiped { m with live := Function.update m.live id (some r') } :=
  ⟨h.sound.set hl r', h.zeroed⟩

theorem Wiped.free (h : Wiped m) {id : Nat} {r : Region UInt8} (hl : m.live id = some r)
    (hr : r.locked = true → r.cells = zeros) :
    Wiped { m with live := Function.update m.live id none, released := m.released ++ [(id, r)] } := by
  refine ⟨h.sound.free hl, ?_⟩
  intro x hx hlocked
  rcases List.mem_append.mp hx with hx | hx
  · exact h.zeroed x hx hlocked
  · rw [List.mem_singleton.mp hx] at hlocked ⊢
    exact hr hlocked

namespace GuardedKey

variable {g : Grant} (material : Key)

theorem new_refused (h : g.heap.malloc = false) : GuardedKey.new material g m = some (.error .allocFailed, m) := by
  unfold GuardedKey.new GuardedAllocation.new
  rw [h]
  rfl

theorem written (m : GuardedHeap) (material : Key) (junk : Nat → UInt8) :
    (m.alloc ((List.range keyBytes).map junk)).write m.next material.val =
      some { m with next := m.next + 1, live := Function.update m.live m.next (some ⟨material.val, false⟩) } := by
  have hl : (m.alloc ((List.range keyBytes).map junk)).live m.next = some ⟨(List.range keyBytes).map junk, false⟩ :=
    Function.update_self _ _ _
  rw [Memory.write_eq hl (by rw [material.property, List.length_map, List.length_range])]
  unfold Memory.alloc
  dsimp only
  rw [Function.update_idem]

theorem written_wiped (hm : Wiped m) (r : Region UInt8) :
    Wiped { m with next := m.next + 1, live := Function.update m.live m.next (some r) } := by
  have h := (hm.alloc r.cells).set (Function.update_self _ _ _) r
  unfold Memory.alloc at h
  dsimp only at h
  rw [Function.update_idem] at h
  exact h

theorem new_unlocked (hm : Wiped m) (h : g.heap.malloc = true) (hlock : g.heap.mlock = false) :
    ∃ m', GuardedKey.new material g m = some (.error .mlockFailed, m') ∧ Wiped m' ∧ m'.live = m.live := by
  have hwritten := written_wiped hm ⟨material.val, false⟩
  have hl : (Function.update m.live m.next (some (⟨material.val, false⟩ : Region UInt8))) m.next =
      some ⟨material.val, false⟩ := Function.update_self _ _ _
  refine ⟨_, ?_, hwritten.free hl (by simp), ?_⟩
  · unfold GuardedKey.new GuardedAllocation.new
    rw [h, if_pos rfl]
    dsimp only
    rw [written, Option.bind_eq_bind, Option.bind_some]
    unfold mlock
    rw [if_neg (by decide), hlock, if_neg (by simp), Option.bind_eq_bind, Option.bind_some]
    dsimp only
    unfold GuardedAllocation.drop
    rw [Memory.free_eq hl]
    rfl
  · dsimp only
    rw [Function.update_idem, ← hm.sound.fresh m.next (Nat.le_refl _), Function.update_eq_self]

theorem new_stored (hm : Wiped m) (h : g.heap.malloc = true) (hlock : g.heap.mlock = true) :
    ∃ m', GuardedKey.new material g m = some (.ok ⟨⟨m.next⟩⟩, m') ∧ Wiped m' ∧
      m'.live = Function.update m.live m.next (some (keyRegion material)) := by
  have hl : (Function.update m.live m.next (some (⟨material.val, false⟩ : Region UInt8))) m.next =
      some ⟨material.val, false⟩ := Function.update_self _ _ _
  refine ⟨_, ?_, written_wiped hm (keyRegion material), rfl⟩
  unfold GuardedKey.new GuardedAllocation.new
  rw [h, if_pos rfl]
  dsimp only
  rw [written, Option.bind_eq_bind, Option.bind_some]
  unfold mlock
  rw [if_neg (by decide), hlock, if_pos rfl, Memory.lock_eq hl]
  simp [keyRegion]

theorem drop_wipes (hm : Wiped m) {k : GuardedKey} {key : Key} (hk : m.live k.mem.ptr = some (keyRegion key)) :
    ∃ m', k.drop m = some m' ∧ Wiped m' ∧ ∀ j, m'.live j = if k.mem.ptr = j then none else m.live j := by
  have hlen : (keyRegion key).cells.length = keyBytes := key.property
  have hl : (Function.update m.live k.mem.ptr (some { keyRegion key with cells := zeros })) k.mem.ptr =
      some { keyRegion key with cells := zeros } := Function.update_self _ _ _
  have hwiped := hm.set hk { keyRegion key with cells := zeros }
  refine ⟨_, ?_, hwiped.free hl fun _ => rfl, ?_⟩
  · unfold GuardedKey.drop memzero
    rw [if_neg (by decide), Memory.wipe_eq hk, hlen]
    exact Memory.free_eq hl
  · intro j
    dsimp only
    rw [Function.update_idem, Function.update_apply]
    simp only [eq_comm]

end GuardedKey

/-! ## The store -/

namespace GuardedStore

def held (S : GuardedStore) (s : Slot) : Option Nat := S.entries[s]?.map (·.mem.ptr)

theorem held_update {S : GuardedStore} {entries : Std.TreeMap Slot GuardedKey Slot.cmp} {s : Slot}
    {v : Option GuardedKey} (he : ∀ s' : Slot, entries[s']? = if s' = s then v else S.entries[s']?) :
    held { S with entries } = Function.update S.held s (v.map (·.mem.ptr)) := by
  funext s'
  unfold held
  dsimp only
  rw [he, Function.update_apply]
  split <;> rfl

theorem dropAll_wipes (hm : Wiped m) {ks : List GuardedKey} (hnd : (ks.map (·.mem.ptr)).Nodup)
    (hks : ∀ k ∈ ks, ∃ key, m.live k.mem.ptr = some (keyRegion key)) :
    ∃ m', dropAll ks m = some m' ∧ Wiped m' ∧
      ∀ j, m'.live j = if j ∈ ks.map (·.mem.ptr) then none else m.live j := by
  induction ks generalizing m with
  | nil => exact ⟨m, rfl, hm, by simp⟩
  | cons k ks ih =>
    rw [List.map_cons] at hnd
    obtain ⟨hk, hnd⟩ := List.nodup_cons.mp hnd
    obtain ⟨key, hkey⟩ := hks k List.mem_cons_self
    obtain ⟨m₁, hdrop, hm₁, hlive₁⟩ := GuardedKey.drop_wipes hm hkey
    have hne : ∀ k' ∈ ks, k.mem.ptr ≠ k'.mem.ptr := fun k' hk' he => hk (he ▸ List.mem_map_of_mem hk')
    obtain ⟨m₂, hrest, hm₂, hlive₂⟩ := ih hm₁ hnd fun k' hk' => by
      obtain ⟨key', hkey'⟩ := hks k' (List.mem_cons_of_mem _ hk')
      exact ⟨key', by rw [hlive₁, if_neg (hne k' hk'), hkey']⟩
    refine ⟨m₂, ?_, hm₂, ?_⟩
    · rw [dropAll, hdrop]
      exact hrest
    · intro j
      rw [hlive₂, hlive₁, List.map_cons]
      by_cases hj : j ∈ ks.map (·.mem.ptr)
      · simp [hj]
      · by_cases hjk : k.mem.ptr = j
        · simp [hjk]
        · simp [hj, hjk, Ne.symm hjk]

end GuardedStore

/-- The store in guarded memory holds what the store of plain keys holds. -/
structure Guards (S : GuardedStore) (m : GuardedHeap) (store : KeyStore) : Prop where
  localId : S.localId = store.localId
  owns : Owns m S.held fun s => (store.slots s).map keyRegion
  wiped : Wiped m

namespace Guards

variable {S : GuardedStore} {store : KeyStore} (h : Guards S m store)
include h

theorem occupied (s : Slot) : S.entries[s]?.isSome = (store.slots s).isSome := by
  have hread := h.owns.reads s
  unfold GuardedStore.held at hread
  cases hs : S.entries[s]? with
  | none =>
    rw [hs] at hread
    cases hk : store.slots s with
    | none => rfl
    | some key =>
      rw [hk] at hread
      cases hread
  | some k =>
    have hl := h.owns.live s k.mem.ptr (by rw [GuardedStore.held, hs]; rfl)
    rw [hs] at hread
    cases hk : store.slots s with
    | none =>
      rw [hk] at hread
      change m.live k.mem.ptr = none at hread
      rw [hread] at hl
      cases hl
    | some key => rfl

theorem size : S.entries.size = store.entries.size := by
  rw [← Table.ncard_occupied S.entries, ← Table.ncard_occupied store.entries]
  congr 1
  ext s
  show S.entries[s]?.isSome = true ↔ store.entries[s]?.isSome = true
  rw [h.occupied s, KeyStore.slots, Option.isSome_map]

theorem contains (s : Slot) : S.entries.contains s = store.entries.contains s := by
  rw [Std.TreeMap.contains_eq_isSome_getElem?, Std.TreeMap.contains_eq_isSome_getElem?, h.occupied s,
    KeyStore.slots, Option.isSome_map]

theorem region {s : Slot} {k : GuardedKey} (hs : S.entries[s]? = some k) :
    ∃ key, store.slots s = some key ∧ m.live k.mem.ptr = some (keyRegion key) := by
  have hread := h.owns.reads s
  rw [GuardedStore.held, hs] at hread
  have hsome := h.occupied s
  rw [hs] at hsome
  obtain ⟨key, hkey⟩ := Option.isSome_iff_exists.mp hsome.symm
  rw [hkey] at hread
  exact ⟨key, hkey, hread⟩

theorem install (peer : UInt16) (epoch : Epoch) (material : Key) (g : Grant) :
    ∃ S' m', S.install peer epoch material g m = some ((store.install peer epoch material g.heap).1, S', m') ∧
      Guards S' m' (store.install peer epoch material g.heap).2 := by
  unfold GuardedStore.install KeyStore.install
  rw [h.contains, h.size]
  by_cases hfull : (!store.entries.contains (peer, epoch) && decide (maxEntries ≤ store.entries.size)) = true
  · rw [if_pos hfull, dif_pos hfull]
    exact ⟨S, m, rfl, h⟩
  · rw [if_neg hfull, dif_neg hfull]
    unfold StoredKey.new
    by_cases ha : g.heap.malloc = true
    · by_cases hl : g.heap.mlock = true
      · obtain ⟨m₁, hnew, hm₁, hlive₁⟩ := GuardedKey.new_stored material h.wiped ha hl
        have hins : ∀ s : Slot, (S.entries.insert (peer, epoch) (⟨⟨m.next⟩⟩ : GuardedKey))[s]? =
            if s = (peer, epoch) then some ⟨⟨m.next⟩⟩ else S.entries[s]? := fun s => Table.lookup_insert _ _ _ _
        have hfresh := h.wiped.sound.fresh m.next (Nat.le_refl _)
        have howns : ∀ {m'}, Wiped m' → (∀ j, m'.live j = if j = m.next then some (keyRegion material) else
            if S.held (peer, epoch) = some j then none else m.live j) →
            Guards { S with entries := S.entries.insert (peer, epoch) ⟨⟨m.next⟩⟩ } m'
              ⟨store.localId, store.entries.insert (peer, epoch) ⟨material⟩,
                KeyStore.insert_len_le _ store.len_le hfull⟩ := by
          intro m' hm' hlive
          refine ⟨h.localId, (h.owns.put hfresh hlive).congr rfl (GuardedStore.held_update hins) ?_, hm'⟩
          funext s
          rw [Function.update_apply, KeyStore.slots, Table.lookup_insert]
          split <;> rfl
        rw [hnew, if_pos ha, if_pos hl]
        cases hs : S.entries[(peer, epoch)]? with
        | none =>
          refine ⟨_, m₁, rfl, howns hm₁ ?_⟩
          intro j
          rw [hlive₁, GuardedStore.held, hs, Option.map_none, if_neg (c := none = some j) (by simp),
            Function.update_apply]
        | some k =>
          obtain ⟨key, -, hkey⟩ := h.region hs
          have hne : k.mem.ptr ≠ m.next := (h.wiped.sound.lt hkey).ne
          have hold : m₁.live k.mem.ptr = some (keyRegion key) := by rw [hlive₁, Function.update_of_ne hne, hkey]
          obtain ⟨m₂, hdrop, hm₂, hlive₂⟩ := GuardedKey.drop_wipes hm₁ hold
          refine ⟨_, m₂, ?_, howns hm₂ ?_⟩
          · dsimp only [Option.bind_eq_bind, Option.bind_some]
            rw [hdrop]
            rfl
          · intro j
            rw [hlive₂, hlive₁, GuardedStore.held, hs, Option.map_some, Function.update_apply]
            by_cases hj : j = m.next
            · rw [if_pos hj, if_pos hj, if_neg (hj ▸ hne)]
            · rw [if_neg hj, if_neg hj]
              simp only [Option.some.injEq]
      · obtain ⟨m', hnew, hm', hlive⟩ := GuardedKey.new_unlocked material h.wiped ha (by simpa using hl)
        rw [hnew, if_pos ha, if_neg hl]
        exact ⟨S, m', rfl, h.localId, h.owns.congr hlive rfl rfl, hm'⟩
    · rw [GuardedKey.new_refused material (by simpa using ha), if_neg ha]
      exact ⟨S, m, rfl, h⟩

theorem retire (peer : UInt16) (epoch : Epoch) :
    ∃ S' m', S.retire peer epoch m = some ((store.retire peer epoch).1, S', m') ∧
      Guards S' m' (store.retire peer epoch).2 := by
  have herase : ∀ s : Slot, (S.entries.erase (peer, epoch))[s]? =
      if s = (peer, epoch) then none else S.entries[s]? :=
    fun s => Table.lookup_erase _ _ _
  have hval : (fun s => ((store.retire peer epoch).2.slots s).map keyRegion) =
      Function.update (fun s => (store.slots s).map keyRegion) (peer, epoch) none := by
    rw [retire_slots]
    funext s
    by_cases hs : s = (peer, epoch)
    · subst hs
      rw [Function.update_self, Function.update_self]
      rfl
    · rw [Function.update_of_ne hs, Function.update_of_ne hs]
  have howns : ∀ {m'}, (∀ j, m'.live j = if S.held (peer, epoch) = some j then none else m.live j) → Wiped m' →
      Guards { S with entries := S.entries.erase (peer, epoch) } m' (store.retire peer epoch).2 := by
    intro m' hlive hm'
    exact ⟨h.localId, (h.owns.drop hlive).congr rfl (GuardedStore.held_update herase) hval, hm'⟩
  unfold GuardedStore.retire
  cases hs : S.entries[(peer, epoch)]? with
  | none =>
    have hfst : (store.retire peer epoch).1 = false := by
      rw [retire_fst, ← h.occupied, hs]
      rfl
    rw [hfst]
    refine ⟨_, m, rfl, howns ?_ h.wiped⟩
    intro j
    rw [GuardedStore.held, hs, Option.map_none, if_neg (by simp)]
  | some k =>
    have hfst : (store.retire peer epoch).1 = true := by
      rw [retire_fst, ← h.occupied, hs]
      rfl
    obtain ⟨key, -, hl⟩ := h.region hs
    obtain ⟨m', hdrop, hm', hlive⟩ := GuardedKey.drop_wipes h.wiped hl
    refine ⟨_, m', ?_, howns ?_ hm'⟩
    · dsimp only
      rw [hdrop, hfst]
      rfl
    · intro j
      rw [hlive, GuardedStore.held, hs, Option.map_some]
      simp only [Option.some.injEq]

theorem clear : ∃ S' m', S.clear m = some (S', m') ∧ Guards S' m' store.clear ∧ ∀ id, m'.live id = none := by
  have hmem : ∀ {k : GuardedKey}, k ∈ S.entries.toList.map (·.2) ↔ ∃ s : Slot, S.entries[s]? = some k := by
    intro k
    rw [List.mem_map]
    constructor
    · rintro ⟨⟨s, k'⟩, hx, rfl⟩
      exact ⟨s, Std.TreeMap.mem_toList_iff_getElem?_eq_some.mp hx⟩
    · rintro ⟨s, hs⟩
      exact ⟨(s, k), Std.TreeMap.mem_toList_iff_getElem?_eq_some.mpr hs, rfl⟩
  have hnd : ((S.entries.toList.map (·.2)).map (·.mem.ptr)).Nodup := by
    rw [List.map_map, List.nodup_map_iff_inj_on]
    · rintro ⟨s, k⟩ hx ⟨s', k'⟩ hx' he
      have hs := Std.TreeMap.mem_toList_iff_getElem?_eq_some.mp hx
      have hs' := Std.TreeMap.mem_toList_iff_getElem?_eq_some.mp hx'
      dsimp only [Function.comp] at he
      have hss : s = s' := h.owns.apart s s' k.mem.ptr (by rw [GuardedStore.held, hs]; rfl)
        (by rw [GuardedStore.held, hs', he]; rfl)
      subst hss
      rw [hs] at hs'
      cases hs'
      rfl
    · exact Std.TreeMap.distinct_keys_toList.imp fun hne he => hne (by rw [he]; exact Std.ReflCmp.compare_self)
  obtain ⟨m', hdrop, hm', hlive⟩ := GuardedStore.dropAll_wipes h.wiped hnd fun k hk => by
    obtain ⟨s, hs⟩ := hmem.mp hk
    obtain ⟨key, -, hl⟩ := h.region hs
    exact ⟨key, hl⟩
  have hnone : ∀ id, m'.live id = none := by
    intro id
    rw [hlive]
    split
    · rfl
    · rename_i hid
      by_contra hl
      obtain ⟨s, hs⟩ := h.owns.all id (Option.isSome_iff_ne_none.mpr hl)
      obtain ⟨k, hk, rfl⟩ := Option.map_eq_some_iff.mp hs
      exact hid (List.mem_map_of_mem (hmem.mpr ⟨s, hk⟩))
  refine ⟨{ S with entries := ∅ }, m', ?_, ⟨h.localId, ?_, hm'⟩, hnone⟩
  · unfold GuardedStore.clear
    rw [hdrop]
    rfl
  · have hheld : GuardedStore.held { S with entries := ∅ } = fun _ => none := by
      funext s
      simp [GuardedStore.held]
    rw [hheld, clear_slots]
    exact ⟨fun _ => rfl, by simp, by simp, by simp [hnone]⟩

end Guards

end

/-! ## The calls of the ABI -/

/-- The same on the store of plain keys. -/
def StoreUse.apply (st : Option KeyStore) : StoreUse → Option KeyStore
  | .configure id initRc =>
    match st with
    | some store => some store
    | none => (KeyStore.new id initRc).toOption
  | .install peer epoch material heap => st.map fun store => (store.install peer epoch material heap).2
  | .retire peer epoch => st.map fun store => (store.retire peer epoch).2
  | .clear => st.map (·.clear)
  | .shutdown => none

theorem step_storeUse (L : Libsodium) (s : Session) (c : Call) :
    (s.step L c).2.store = c.storeUse.elim s.store (·.apply s.store) := by
  cases c with
  | init env => exact (init_did s env).1
  | setLocalId nodeId initRc =>
    show (lunetPaxeSetLocalId s nodeId initRc).2.store = _
    unfold lunetPaxeSetLocalId Call.storeUse
    dsimp only
    cases checkU16 nodeId "node id" with
    | error m => rfl
    | ok id =>
      dsimp only [Option.elim, StoreUse.apply]
      cases hs : s.store with
      | some store => exact hs
      | none =>
        rw [if_neg (by simp)]
        cases KeyStore.new id initRc with
        | error e => exact hs
        | ok store => rfl
  | shutdown => rfl
  | keystoreSet peer epoch key heap =>
    show (lunetPaxeKeystoreSet s peer epoch key heap).2.store = _
    unfold lunetPaxeKeystoreSet Call.storeUse
    dsimp only
    cases checkU16 peer "peer node id" with
    | error m => rfl
    | ok peer =>
      cases checkEpoch epoch with
      | error m => rfl
      | ok epoch =>
        cases bufIn key "key" with
        | error m => rfl
        | ok bytes =>
          dsimp only
          by_cases hl : bytes.length = keyBytes
          · rw [if_neg (by simpa using hl)]
            cases tryInto keyBytes bytes with
            | none => rfl
            | some material =>
              dsimp only [Option.map_some, Option.elim, StoreUse.apply]
              cases hs : s.store with
              | none => exact hs
              | some store =>
                dsimp only [Option.map_some]
                rcases store.install peer epoch material heap with ⟨r, store'⟩
                cases r <;> rfl
          · rw [if_pos hl]
            have hno : tryInto keyBytes bytes = none := by
              unfold tryInto
              rw [dif_neg hl]
            rw [hno]
            rfl
  | keystoreRetire peer epoch =>
    show (lunetPaxeKeystoreRetire s peer epoch).2.store = _
    unfold lunetPaxeKeystoreRetire Call.storeUse
    dsimp only
    cases checkU16 peer "peer node id" with
    | error m => rfl
    | ok peer =>
      cases checkEpoch epoch with
      | error m => rfl
      | ok epoch =>
        dsimp only [Option.elim, StoreUse.apply]
        cases hs : s.store with
        | none => exact hs
        | some store => rfl
  | keystoreClear =>
    show (lunetPaxeKeystoreClear s).2.store = s.store.map (·.clear)
    unfold lunetPaxeKeystoreClear
    cases hs : s.store with
    | none => exact hs
    | some store => rfl
  | «seal» a => exact seal_store L s a
  | «open» a => exact open_store L s a
  | frameForUs frame => exact gate_store s frame
  | stats out => rfl
  | failPolicySet name => exact (failPolicySet_did s name).1

/-- The vault holds what the session's store holds. -/
def Vault.Guarded (v : Vault) (st : Option KeyStore) : Prop :=
  match v.store, st with
  | some S, some store => Guards S v.heap store
  | none, none => Wiped v.heap ∧ ∀ id, v.heap.live id = none
  | _, _ => False

theorem Vault.init_guarded : Guarded .init none := ⟨Wiped.empty, fun _ => rfl⟩

theorem GuardedStore.new_guards (id : UInt16) (initRc : Int) {m : GuardedHeap} (hm : Wiped m)
    (hnone : ∀ id, m.live id = none) :
    (∃ S store, GuardedStore.new id initRc = .ok S ∧ KeyStore.new id initRc = .ok store ∧ Guards S m store) ∨
      ∃ e, GuardedStore.new id initRc = .error e ∧ KeyStore.new id initRc = .error e := by
  unfold GuardedStore.new KeyStore.new
  cases sodiumInit initRc with
  | error e => exact Or.inr ⟨_, rfl, rfl⟩
  | ok _ =>
    refine Or.inl ⟨_, _, rfl, rfl, rfl, ?_, hm⟩
    have hheld : GuardedStore.held ⟨id, ∅⟩ = fun _ => none := by
      funext s
      simp [GuardedStore.held]
    have hval : (fun s => ((⟨id, ∅, KeyStore.empty_len_le⟩ : KeyStore).slots s).map keyRegion) = fun _ => none := by
      funext s
      simp [KeyStore.slots]
    rw [hheld, hval]
    exact ⟨fun _ => rfl, by simp, by simp, by simp [hnone]⟩

theorem Vault.use_guarded (junk : Nat → UInt8) {v : Vault} {st : Option KeyStore} (h : v.Guarded st)
    (u : StoreUse) :
    ∃ v', v.use junk u = some v' ∧ v'.Guarded (u.apply st) := by
  obtain ⟨vs, m⟩ := v
  cases vs with
  | none =>
    cases st with
    | some store => exact absurd h id
    | none =>
      cases u with
      | configure id initRc =>
        rcases GuardedStore.new_guards id initRc h.1 h.2 with ⟨S, store, hS, hstore, hg⟩ | ⟨e, hS, hstore⟩
        · refine ⟨⟨some S, m⟩, ?_, ?_⟩
          · unfold use
            dsimp only
            rw [hS]
          · unfold StoreUse.apply
            dsimp only
            rw [hstore]
            exact hg
        · refine ⟨⟨none, m⟩, ?_, ?_⟩
          · unfold use
            dsimp only
            rw [hS]
          · unfold StoreUse.apply
            dsimp only
            rw [hstore]
            exact h
      | _ => exact ⟨_, rfl, h⟩
  | some S =>
    cases st with
    | none => exact absurd h id
    | some store =>
      have hg : Guards S m store := h
      cases u with
      | configure id initRc => exact ⟨_, rfl, h⟩
      | install peer epoch material heap =>
        obtain ⟨S', m', hi, hg'⟩ := hg.install peer epoch material ⟨heap, junk⟩
        refine ⟨⟨some S', m'⟩, ?_, hg'⟩
        unfold use
        dsimp only
        rw [hi]
        rfl
      | retire peer epoch =>
        obtain ⟨S', m', hr, hg'⟩ := hg.retire peer epoch
        refine ⟨⟨some S', m'⟩, ?_, hg'⟩
        unfold use
        dsimp only
        rw [hr]
        rfl
      | clear =>
        obtain ⟨S', m', hc, hg', -⟩ := hg.clear
        refine ⟨⟨some S', m'⟩, ?_, hg'⟩
        unfold use
        dsimp only
        rw [hc]
        rfl
      | shutdown =>
        obtain ⟨S', m', hc, hg', hnone⟩ := hg.clear
        refine ⟨⟨none, m'⟩, ?_, hg'.wiped, hnone⟩
        unfold use
        dsimp only
        rw [hc]
        rfl

theorem Vault.run_guarded (L : Libsodium) (junk : Nat → UInt8) {v : Vault} {s : Session} (h : v.Guarded s.store)
    (cs : List Call) : ∃ v', v.run junk cs = some v' ∧ v'.Guarded (Mealy.run (Session.step L) s cs).store := by
  induction cs generalizing v s with
  | nil => exact ⟨v, rfl, h⟩
  | cons c cs ih =>
    obtain ⟨v₁, hstep, h₁⟩ : ∃ v₁, v.step junk c = some v₁ ∧ v₁.Guarded (s.step L c).2.store := by
      rw [step_storeUse, step]
      cases c.storeUse with
      | none => exact ⟨v, rfl, h⟩
      | some u => exact use_guarded junk h u
    obtain ⟨v', hrun, h'⟩ := ih h₁
    refine ⟨v', ?_, h'⟩
    rw [run, hstep]
    exact hrun

/-- What the store holds under a slot, as its readers see it. -/
def Vault.exposed (v : Vault) (slot : Slot) : Option Bytes :=
  v.store.bind fun S => S.entries[slot]?.bind (·.expose v.heap)

def Vault.held (v : Vault) (slot : Slot) : Option Nat := v.store.bind (·.held slot)

def Session.slots (s : Session) (slot : Slot) : Option Key := s.store.bind (·.slots slot)

theorem Vault.Guarded.owns {v : Vault} {s : Session} (h : v.Guarded s.store) :
    Wiped v.heap ∧ Owns v.heap v.held (fun slot => (s.slots slot).map keyRegion) := by
  obtain ⟨vs, m⟩ := v
  unfold Session.slots
  cases vs with
  | none =>
    cases hst : s.store with
    | some store =>
      rw [hst] at h
      exact absurd h id
    | none =>
      rw [hst] at h
      refine ⟨h.1, fun _ => rfl, by simp [held], by simp [held], ?_⟩
      intro id hid
      have hno : m.live id = none := h.2 id
      dsimp only at hid
      rw [hno] at hid
      cases hid
  | some S =>
    cases hst : s.store with
    | none =>
      rw [hst] at h
      exact absurd h id
    | some store =>
      rw [hst] at h
      have hg : Guards S m store := h
      exact ⟨hg.wiped, hg.owns⟩

/-- Whatever is called and however the host answers: no region is used after its
release, none is released twice, and what is live are the keys that are installed,
each locked in a region of its own. A region that was locked was wiped before. -/
theorem keys_guarded (L : Libsodium) (junk : Nat → UInt8) (cs : List Call) :
    ∃ v, Vault.run junk .init cs = some v ∧
      let s := Mealy.run (Session.step L) .start cs
      (∀ slot, v.exposed slot = (s.slots slot).map (·.val)) ∧
      (∀ id r, v.heap.live id = some r → r.locked = true ∧ ∃ slot, v.held slot = some id ∧
        ∀ slot', v.held slot' = some id → slot' = slot) ∧
      {id | (v.heap.live id).isSome}.ncard = {slot | (s.slots slot).isSome}.ncard ∧
      (∀ id, id ∈ v.heap.released.map (·.1) ↔ id < v.heap.next ∧ v.heap.live id = none) ∧
      (v.heap.released.map (·.1)).Nodup ∧
      ∀ x ∈ v.heap.released, x.2.locked = true → x.2.cells = zeros := by
  obtain ⟨v, hrun, hv⟩ := Vault.run_guarded L junk (s := .start) Vault.init_guarded cs
  obtain ⟨hw, howns⟩ := hv.owns
  refine ⟨v, hrun, ?_, ?_, ?_, hw.sound.ledger, hw.sound.once, hw.zeroed⟩
  · intro slot
    have hread := howns.reads slot
    have hexp : v.exposed slot = ((v.held slot).bind v.heap.live).map (·.cells) := by
      unfold Vault.exposed Vault.held
      cases v.store with
      | none => rfl
      | some S =>
        show S.entries[slot]?.bind _ = ((S.entries[slot]?.map _).bind _).map _
        cases S.entries[slot]? <;> rfl
    rw [hexp, hread, Option.map_map]
    rfl
  · intro id r hr
    obtain ⟨slot, hslot⟩ := howns.all id (Option.isSome_of_eq_some hr)
    have hread := howns.reads slot
    rw [hslot, Option.bind_some, hr] at hread
    obtain ⟨key, -, hkey⟩ := Option.map_eq_some_iff.mp hread.symm
    exact ⟨by rw [← hkey]; rfl, slot, hslot, fun slot' h' => howns.apart slot' slot id h' hslot⟩
  · rw [howns.ncard]
    simp only [Option.isSome_map]

end Paxe

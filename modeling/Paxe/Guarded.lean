import Paxe.Ffi
import Paxe.KeystoreSound
import Paxe.Lib.Regions

/-!
# Keys in guarded memory (`src/sodium.rs`, `src/keystore.rs`)

The keystore with what it does to libsodium's guarded heap: allocation, copy, lock,
wipe and release, in the order of the source, on every path. A use of a region that
was released, and a second release, are faults (`none`).
-/

namespace Paxe
open Wire Regions

abbrev GuardedHeap := Regions.Memory UInt8

/-! ## Secure memory -/

/-- What the host answers to the calls of one installation. The contents of a new
region are unspecified. -/
structure Grant where
  heap : Heap
  junk : Nat → UInt8

/-- The length is part of the type. -/
structure GuardedAllocation (len : Nat) where
  ptr : Nat
  deriving DecidableEq, Repr

section
variable {len : Nat}

namespace GuardedAllocation

def new (len : Nat) (g : Grant) (m : GuardedHeap) : Except SodiumError (GuardedAllocation len) × GuardedHeap :=
  if g.heap.malloc then (.ok ⟨m.next⟩, m.alloc ((List.range len).map g.junk)) else (.error .allocFailed, m)

def asSlice (a : GuardedAllocation len) (m : GuardedHeap) : Option Bytes := (m.live a.ptr).map (·.cells)

/-- `sodium_free`. -/
def drop (a : GuardedAllocation len) (m : GuardedHeap) : Option GuardedHeap := m.free a.ptr

end GuardedAllocation

def mlock (a : GuardedAllocation len) (g : Grant) (m : GuardedHeap) :
    Option (Except SodiumError Unit × GuardedHeap) :=
  if len = 0 then some (.ok (), m)
  else if g.heap.mlock then (m.lock a.ptr).map fun m => (.ok (), m)
  else some (.error .mlockFailed, m)

def memzero (a : GuardedAllocation len) (m : GuardedHeap) : Option GuardedHeap :=
  if len = 0 then some m else m.wipe a.ptr

end

/-! ## Keys -/

/-- `StoredKey`, by where its material is. -/
structure GuardedKey where
  mem : GuardedAllocation keyBytes
  deriving DecidableEq, Repr

namespace GuardedKey

def new (material : Key) (g : Grant) (m : GuardedHeap) : Option (Except SodiumError GuardedKey × GuardedHeap) :=
  match GuardedAllocation.new keyBytes g m with
  | (.error e, m) => some (.error e, m)
  | (.ok mem, m) => do
    let m ← m.write mem.ptr material.val
    match ← mlock mem g m with
    | (.error e, m) => do
      let m ← mem.drop m
      some (.error e, m)
    | (.ok _, m) => some (.ok ⟨mem⟩, m)

def expose (k : GuardedKey) (m : GuardedHeap) : Option Bytes := k.mem.asSlice m

def drop (k : GuardedKey) (m : GuardedHeap) : Option GuardedHeap := do
  let m ← memzero k.mem m
  k.mem.drop m

end GuardedKey

/-! ## The store -/

structure GuardedStore where
  localId : UInt16
  entries : Std.TreeMap Slot GuardedKey Slot.cmp

namespace GuardedStore

def new (localId : UInt16) (initRc : Int) : Except KeystoreError GuardedStore :=
  match sodiumInit initRc with
  | .error e => .error (.sodium e)
  | .ok _ => .ok ⟨localId, ∅⟩

def install (S : GuardedStore) (peer : UInt16) (epoch : Epoch) (material : Key) (g : Grant) (m : GuardedHeap) :
    Option (Except KeystoreError Unit × GuardedStore × GuardedHeap) :=
  if !S.entries.contains (peer, epoch) && decide (maxEntries ≤ S.entries.size) then some (.error .full, S, m)
  else do
    match ← GuardedKey.new material g m with
    | (.error e, m) => some (.error (.sodium e), S, m)
    | (.ok key, m) =>
      let entries := S.entries.insert (peer, epoch) key
      match S.entries[(peer, epoch)]? with
      | some replaced => do
        let m ← replaced.drop m
        some (.ok (), { S with entries }, m)
      | none => some (.ok (), { S with entries }, m)

def retire (S : GuardedStore) (peer : UInt16) (epoch : Epoch) (m : GuardedHeap) :
    Option (Bool × GuardedStore × GuardedHeap) :=
  let entries := S.entries.erase (peer, epoch)
  match S.entries[(peer, epoch)]? with
  | some removed => do
    let m ← removed.drop m
    some (true, { S with entries }, m)
  | none => some (false, { S with entries }, m)

def dropAll : List GuardedKey → GuardedHeap → Option GuardedHeap
  | [], m => some m
  | k :: ks, m => do
    let m ← k.drop m
    dropAll ks m

def clear (S : GuardedStore) (m : GuardedHeap) : Option (GuardedStore × GuardedHeap) := do
  let m ← dropAll (S.entries.toList.map (·.2)) m
  some ({ S with entries := ∅ }, m)

end GuardedStore

/-! ## `STORE` over the calls of the ABI -/

/-- What a call of the ABI does inside `STORE.with`, once its arguments are checked. -/
inductive StoreUse where
  | configure (id : UInt16) (initRc : Int)
  | install (peer : UInt16) (epoch : Epoch) (material : Key) (heap : Heap)
  | retire (peer : UInt16) (epoch : Epoch)
  | clear
  | shutdown

def Call.storeUse : Call → Option StoreUse
  | .setLocalId nodeId initRc =>
    match checkU16 nodeId "node id" with
    | .error _ => none
    | .ok id => some (.configure id initRc)
  | .keystoreSet peer epoch key heap =>
    match checkU16 peer "peer node id", checkEpoch epoch, bufIn key "key" with
    | .ok peer, .ok epoch, .ok key => (tryInto keyBytes key).map fun material => .install peer epoch material heap
    | _, _, _ => none
  | .keystoreRetire peer epoch =>
    match checkU16 peer "peer node id", checkEpoch epoch with
    | .ok peer, .ok epoch => some (.retire peer epoch)
    | _, _ => none
  | .keystoreClear => some .clear
  | .shutdown => some .shutdown
  | _ => none

structure Vault where
  store : Option GuardedStore
  heap : GuardedHeap

namespace Vault

def init : Vault := ⟨none, .empty⟩

def use (junk : Nat → UInt8) (v : Vault) : StoreUse → Option Vault
  | .configure id initRc =>
    match v.store with
    | some _ => some v
    | none =>
      match GuardedStore.new id initRc with
      | .ok S => some { v with store := some S }
      | .error _ => some v
  | .install peer epoch material heap =>
    match v.store with
    | none => some v
    | some S => (S.install peer epoch material ⟨heap, junk⟩ v.heap).map fun r => ⟨some r.2.1, r.2.2⟩
  | .retire peer epoch =>
    match v.store with
    | none => some v
    | some S => (S.retire peer epoch v.heap).map fun r => ⟨some r.2.1, r.2.2⟩
  | .clear =>
    match v.store with
    | none => some v
    | some S => (S.clear v.heap).map fun r => ⟨some r.1, r.2⟩
  | .shutdown =>
    match v.store with
    | none => some v
    | some S => (S.clear v.heap).map fun r => ⟨none, r.2⟩

def step (junk : Nat → UInt8) (v : Vault) (c : Call) : Option Vault :=
  match c.storeUse with
  | none => some v
  | some u => v.use junk u

def run (junk : Nat → UInt8) : Vault → List Call → Option Vault
  | v, [] => some v
  | v, c :: cs => (v.step junk c).bind fun v => run junk v cs

end Vault

end Paxe

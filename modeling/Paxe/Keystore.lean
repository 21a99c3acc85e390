import Paxe.Lib.Table
import Paxe.Sodium

/-!
# The keystore (`src/keystore.rs`)

Per-link keys under `(peer, epoch)` in an ordered map. The two queries that
are not plain lookups, `keyForSendCurrent` and `peerKnown`, walk the range of
one peer's slots, so they rest on the lexicographic order of slots.
-/

namespace Paxe
open Wire

def maxEntries : Nat := 1024
def maxEpoch : UInt8 := 31

structure Epoch where
  bits : UInt8
  bits_le : bits ≤ maxEpoch
  deriving DecidableEq, Repr

inductive KeystoreError where
  | invalidEpoch (bits : UInt8)
  | full
  | sodium (e : SodiumError)
  deriving DecidableEq, Repr

def KeystoreError.display : KeystoreError → String
  | .invalidEpoch bits => "invalid key epoch " ++ toString bits ++ ": must be 0-" ++ toString maxEpoch
  | .full => "keystore at capacity (" ++ toString maxEntries ++
      " entries); retire an epoch before installing more"
  | .sodium e => "secure-memory failure: " ++ e.display

def Epoch.new (bits : UInt8) : Except KeystoreError Epoch :=
  if h : bits > maxEpoch then .error (.invalidEpoch bits) else .ok ⟨bits, UInt8.not_lt.mp h⟩

/-- One key in guarded memory: the allocation has exactly the key's size. -/
structure StoredKey where
  mem : Key
  deriving DecidableEq, Repr

def StoredKey.new (material : Key) (heap : Heap) : Except SodiumError StoredKey :=
  if heap.malloc then
    if heap.mlock then .ok ⟨material⟩ else .error .mlockFailed
  else .error .allocFailed

def StoredKey.expose (k : StoredKey) : Bytes := k.mem.val

abbrev Slot := UInt16 × Epoch

/-- The derived order of `(u16, Epoch)`. -/
def Slot.cmp : Slot → Slot → Ordering :=
  compareLex (compareOn (·.1)) (compareOn (·.2.bits))

instance : Std.TransCmp Slot.cmp := inferInstanceAs (Std.TransCmp (compareLex _ _))

structure KeyStore where
  localId : UInt16
  entries : Std.TreeMap Slot StoredKey Slot.cmp
  len_le : entries.size ≤ maxEntries

namespace KeyStore

theorem empty_len_le : (∅ : Std.TreeMap Slot StoredKey Slot.cmp).size ≤ maxEntries := Nat.zero_le _

/-- `KeyStore::new` on the return code of its `sodium_init`. -/
def new (localId : UInt16) (initRc : Int) : Except KeystoreError KeyStore :=
  match sodiumInit initRc with
  | .error e => .error (.sodium e)
  | .ok _ => .ok ⟨localId, ∅, empty_len_le⟩

theorem insert_len_le {m : Std.TreeMap Slot StoredKey Slot.cmp} {s : Slot} (key : StoredKey)
    (hm : m.size ≤ maxEntries) (h : ¬ (!m.contains s && decide (maxEntries ≤ m.size)) = true) :
    (m.insert s key).size ≤ maxEntries := Table.size_insert_le key hm h

def install (store : KeyStore) (peer : UInt16) (epoch : Epoch) (material : Key) (heap : Heap) :
    Except KeystoreError Unit × KeyStore :=
  if h : !store.entries.contains (peer, epoch) && decide (maxEntries ≤ store.entries.size) then
    (.error .full, store)
  else
    match StoredKey.new material heap with
    | .error e => (.error (.sodium e), store)
    | .ok key => (.ok (), ⟨store.localId, store.entries.insert (peer, epoch) key,
        insert_len_le key store.len_le h⟩)

def keyForSend (store : KeyStore) (toId : UInt16) (epoch : Epoch) : Option StoredKey :=
  store.entries[(toId, epoch)]?

def keyForReceive (store : KeyStore) (fromId : UInt16) (epoch : Epoch) : Option StoredKey :=
  store.entries[(fromId, epoch)]?

/-- `entries.range(lo..=hi)`, in ascending order. -/
def range (store : KeyStore) (lo hi : Slot) : List (Slot × StoredKey) :=
  store.entries.toList.filter fun e => (Slot.cmp lo e.1).isLE && (Slot.cmp e.1 hi).isLE

def keyForSendCurrent (store : KeyStore) (toId : UInt16) : Option (Epoch × StoredKey) :=
  (store.range (toId, ⟨0, by decide⟩) (toId, ⟨maxEpoch, by decide⟩)).getLast?.map fun e => (e.1.2, e.2)

def peerKnown (store : KeyStore) (peer : UInt16) : Bool :=
  (store.range (peer, ⟨0, by decide⟩) (peer, ⟨maxEpoch, by decide⟩)).head?.isSome

def retire (store : KeyStore) (peer : UInt16) (epoch : Epoch) : Bool × KeyStore :=
  (store.entries.contains (peer, epoch), ⟨store.localId, store.entries.erase (peer, epoch),
    Nat.le_trans Std.TreeMap.size_erase_le store.len_le⟩)

def clear (store : KeyStore) : KeyStore := ⟨store.localId, ∅, empty_len_le⟩

def len (store : KeyStore) : Nat := store.entries.size

end KeyStore

end Paxe

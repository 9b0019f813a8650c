import GoVite.Lib.Store
import GoVite.Spec.Verifier.AccountBlock

/-! The storage writes of a call before they are saved (`vm_db/unsaved.go`) and the hash nodes compare of them
(`vm_db/state.go`). -/

namespace GoVite.VmDb
open KeyStore AccountBlocks

/-- `storage` is the in-memory database, iterated in key order. A deletion is stored as an empty value. -/
structure Unsaved where
  storage : Store Data Data
  deletedKeys : Finset Data
  keys : Finset Data
  storageDirty : Bool
  storageCache : List (Data × Data)

def newUnsaved : Unsaved := ⟨.empty, ∅, ∅, false, []⟩

namespace Unsaved

def getStorage (unsaved : Unsaved) : List (Data × Data) × Unsaved :=
  if unsaved.storageDirty then
    (unsaved.storage.entries, { unsaved with storageCache := unsaved.storage.entries, storageDirty := false })
  else (unsaved.storageCache, unsaved)

def setValue (unsaved : Unsaved) (key value : Data) : Unsaved :=
  { unsaved with
    storageDirty := true
    keys := insert key unsaved.keys
    deletedKeys := if value.length ≤ 0 then insert key unsaved.deletedKeys else unsaved.deletedKeys.erase key
    storage := unsaved.storage.set key value }

end Unsaved

/-- The storage may also be read between the writes. -/
inductive Call
  | setValue (key value : Data)
  | getStorage

def Unsaved.call (unsaved : Unsaved) : Call → Unsaved
  | .setValue key value => unsaved.setValue key value
  | .getStorage => unsaved.getStorage.2

def run (calls : List Call) : Unsaved := calls.foldl Unsaved.call newUnsaved

/-- Keys and values in key order, one after the other. -/
def hashSource (kvList : List (Data × Data)) : Data := kvList.flatMap fun kv => kv.1 ++ kv.2

variable (Hash256 : Data → Hash)

def Unsaved.getReceiptHash (unsaved : Unsaved) : Hash :=
  let kvList := unsaved.getStorage.1
  if kvList.length ≤ 0 then zeroHash else Hash256 (hashSource kvList)

def receiptHash (calls : List Call) : Hash := (run calls).getReceiptHash Hash256

end GoVite.VmDb

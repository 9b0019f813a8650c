import GoVite.Lib.Batch
import GoVite.Spec.Chain.Ledger

/-! The store of the state and index databases (`ledger/chain/db`): a disk, the records since the last flush, and the
batches they come from. -/

namespace GoVite.ChainDb
open KeyStore Chain

inductive DbError
  /-- panics -/
  | batchNotExisted (blockHash : Hash)
  | prepareRepeatedly
  | nilPointer
  deriving DecidableEq, Repr

/-- `UnconfirmedBatchs`: the batches in the order they were put. An element whose hash has been put again is out of the
map, and stays in the list. -/
abbrev UnconfirmedBatchs (κ α : Type) := List (Option Hash × Batch κ α)

namespace UnconfirmedBatchs

variable {κ α : Type}

def get (u : UnconfirmedBatchs κ α) (blockHash : Hash) : Option (Batch κ α) :=
  (u.find? fun e => e.1 = some blockHash).map Prod.snd

def put (u : UnconfirmedBatchs κ α) (blockHash : Hash) (batch : Batch κ α) : UnconfirmedBatchs κ α :=
  u.map (fun e => if e.1 = some blockHash then (none, e.2) else e) ++ [(some blockHash, batch)]

def remove (u : UnconfirmedBatchs κ α) (blockHash : Hash) : UnconfirmedBatchs κ α :=
  u.filter fun e => e.1 ≠ some blockHash

def all (u : UnconfirmedBatchs κ α) : Batch κ α := (u.map Prod.snd).flatten

end UnconfirmedBatchs

structure DbStore (κ α : Type) [LinearOrder κ] where
  disk : Store κ α
  memDb : Batch κ α
  snapshotBatch : Batch κ α
  flushingBatch : Option (Batch κ α)
  unconfirmedBatchs : UnconfirmedBatchs κ α

namespace DbStore

variable {κ α : Type} [LinearOrder κ] (s : DbStore κ α)

def new (disk : Store κ α) : DbStore κ α := ⟨disk, [], [], none, []⟩

/-- What `Get`, `Has` and the iterators see: the records of the memory database hide those on disk. -/
def view : Store κ α := Batch.replay s.memDb s.disk

def get (k : κ) : Option α := s.view.get? k

def putMemDb (batch : Batch κ α) : DbStore κ α := { s with memDb := s.memDb ++ batch }

def writeAccountBlockByHash (batch : Batch κ α) (blockHash : Hash) : DbStore κ α :=
  { s.putMemDb batch with unconfirmedBatchs := s.unconfirmedBatchs.put blockHash batch }

/-- The loop of `WriteSnapshotByHash`. -/
def confirmBatch (blockHash : Hash) : Except DbError (DbStore κ α) :=
  match s.unconfirmedBatchs.get blockHash with
  | none => .error (.batchNotExisted blockHash)
  | some batch => .ok { s with
      snapshotBatch := s.snapshotBatch ++ batch
      unconfirmedBatchs := s.unconfirmedBatchs.remove blockHash }

def writeSnapshotByHash (snapshotBatch : Batch κ α) (blockHashList : List Hash) : Except DbError (DbStore κ α) := do
  let s ← blockHashList.foldlM confirmBatch (s.putMemDb snapshotBatch)
  .ok { s with snapshotBatch := s.snapshotBatch ++ snapshotBatch }

def rollbackAccountBlocks (rollbackBatch : Batch κ α) (blockHashList : List Hash) : DbStore κ α :=
  { s.putMemDb rollbackBatch with unconfirmedBatchs := blockHashList.foldl .remove s.unconfirmedBatchs }

def rollbackSnapshot (rollbackBatch : Batch κ α) : DbStore κ α :=
  { s.putMemDb rollbackBatch with
    snapshotBatch := s.snapshotBatch ++ s.unconfirmedBatchs.all ++ rollbackBatch
    unconfirmedBatchs := [] }

def prepare : Except DbError (DbStore κ α) :=
  match s.flushingBatch with
  | some _ => .error .prepareRepeatedly
  | none => .ok { s with flushingBatch := some s.snapshotBatch, snapshotBatch := [] }

def commit : Except DbError (DbStore κ α) :=
  match s.flushingBatch with
  | none => .error .nilPointer
  | some batch => .ok { s with disk := Batch.replay batch s.disk }

end DbStore

end GoVite.ChainDb

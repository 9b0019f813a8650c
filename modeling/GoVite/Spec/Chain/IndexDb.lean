import Mathlib.Data.List.Lex
import GoVite.Spec.Chain.Db

/-! The index database (`ledger/chain/index`): where blocks are and which snapshot block confirms them. Keys and values
are the lists of their fields, each of a fixed width in the source. -/

namespace GoVite.ChainIndex
open KeyStore ChainDb Chain

abbrev DbKey := List ℕ
abbrev DbValue := List ℕ

def createAccountBlockHashKey (hash : Hash) : DbKey := [1, hash]
def createAccountBlockHeightKey (addr : Address) (height : ℕ) : DbKey := [2, addr, height]
def createReceiveKey (sendBlockHash : Hash) : DbKey := [3, sendBlockHash]
def createConfirmHeightKey (addr : Address) (height : ℕ) : DbKey := [4, addr, height]
def createOnRoadKey (toAddr : Address) (blockHash : Hash) : DbKey := [5, toAddr, blockHash]
def createSnapshotBlockHashKey (hash : Hash) : DbKey := [7, hash]
def createSnapshotBlockHeightKey (height : ℕ) : DbKey := [8, height]
def createAccountAddressKey (addr : Address) : DbKey := [9, addr]
def createAccountIdKey (accountId : ℕ) : DbKey := [10, accountId]

def maxUint64 : ℕ := 2 ^ 64 - 1

/-- The value that stands for a send block without a receive block: one byte, too short for a field. -/
def unreceivedFlag : DbValue := []

structure SnapshotBlock where
  hash : Hash
  height : ℕ
  snapshotContent : Store Address ℕ

structure SnapshotChunk where
  snapshotBlock : Option SnapshotBlock
  accountBlocks : List AccountBlock

structure IndexDb where
  store : DbStore DbKey DbValue
  latestAccountId : ℕ
  cache : Store DbKey DbValue
  sendCreateBlockHashCache : Store Hash ℕ
  accountCache : List Address

/-- A batch under construction, with the database whose caches it already changes. -/
structure Pending where
  db : IndexDb
  batch : Batch DbKey DbValue

namespace Pending
variable (p : Pending)

def put (key : DbKey) (value : DbValue) : Pending := { p with batch := p.batch ++ [(key, some value)] }

def delete (key : DbKey) : Pending := { p with batch := p.batch ++ [(key, none)] }

/-- Put an entry that `iDB.cache` keeps too. -/
def putCached (key : DbKey) (value : DbValue) : Pending :=
  { p.put key value with db := { p.db with cache := p.db.cache.set key value } }

def deleteCached (key : DbKey) : Pending :=
  { p.delete key with db := { p.db with cache := p.db.cache.erase key } }

def insertConfirmCache (blockHash : Hash) (snapshotHeight : ℕ) : Pending :=
  { p with db := { p.db with
      sendCreateBlockHashCache := p.db.sendCreateBlockHashCache.set blockHash snapshotHeight } }

def deleteConfirmCache (blockHash : Hash) : Pending :=
  { p with db := { p.db with sendCreateBlockHashCache := p.db.sendCreateBlockHashCache.erase blockHash } }

/-- `HasAccount` and, for a new account, `createAccount`. -/
def insertAccount (addr : Address) : Pending :=
  if addr ∈ p.db.accountCache then p
  else if (p.db.store.get (createAccountAddressKey addr)).isSome then
    { p with db := { p.db with accountCache := p.db.accountCache ++ [addr] } }
  else
    let id := p.db.latestAccountId + 1
    ({ p with db := { p.db with latestAccountId := id } }.put (createAccountAddressKey addr) [id]).put
      (createAccountIdKey id) [addr]

/-- What `insertAccountBlock` does for a send block, on its own or in a `SendBlockList`. -/
def insertSend (toAddress : Address) (hash : Hash) : Pending :=
  (p.putCached (createReceiveKey hash) unreceivedFlag).put (createOnRoadKey toAddress hash) []

def insertSendBlock (addrHeightValue : DbValue) (p : Pending) (s : SendBlock) : Pending :=
  let p := p.putCached (createReceiveKey s.hash) unreceivedFlag
  let p := p.putCached (createAccountBlockHashKey s.hash) addrHeightValue
  let p := p.put (createOnRoadKey s.toAddress s.hash) []
  if s.blockType = .sendCreate then p.insertConfirmCache s.hash 0 else p

def insertAccountBlock (b : AccountBlock) : Pending :=
  let p := p.insertAccount b.accountAddress
  let addrHeightValue := [b.accountAddress, b.height]
  let p := p.putCached (createAccountBlockHashKey b.hash) addrHeightValue
  let p := p.put (createAccountBlockHeightKey b.accountAddress b.height) [b.hash]
  let p :=
    if b.isReceiveBlock then
      if b.blockType = .genesisReceive then p
      else (p.putCached (createReceiveKey b.fromBlockHash) [b.hash]).delete
        (createOnRoadKey b.accountAddress b.fromBlockHash)
    else
      let p := p.insertSend b.toAddress b.hash
      if b.blockType = .sendCreate then p.insertConfirmCache b.hash 0 else p
  b.sendBlockList.foldl (insertSendBlock addrHeightValue) p

/-- `deleteAccountBlocks` for one block. The second component holds the send blocks deleted so far whose receive blocks
have not been, with the address they go to. -/
def deleteAccountBlock (acc : Pending × Store Hash Address) (b : AccountBlock) : Pending × Store Hash Address :=
  let p := acc.1.deleteCached (createAccountBlockHashKey b.hash)
  let p := p.deleteCached (createAccountBlockHeightKey b.accountAddress b.height)
  if b.isReceiveBlock then
    let acc := if (acc.2.get? b.fromBlockHash).isSome then
        (p.deleteCached (createReceiveKey b.fromBlockHash), acc.2.erase b.fromBlockHash)
      else
        ((p.put (createOnRoadKey b.accountAddress b.fromBlockHash) []).putCached (createReceiveKey b.fromBlockHash)
          unreceivedFlag, acc.2)
    b.sendBlockList.foldl (fun acc s =>
      let p := acc.1.deleteCached (createAccountBlockHashKey s.hash)
      (if s.blockType = .sendCreate then p.deleteConfirmCache s.hash else p, acc.2.set s.hash s.toAddress)) acc
  else
    (if b.blockType = .sendCreate then p.deleteConfirmCache b.hash else p, acc.2.set b.hash b.toAddress)

def deleteSnapshotBlock (s : SnapshotBlock) : Pending :=
  let p := p.deleteCached (createSnapshotBlockHashKey s.hash)
  let p := p.deleteCached (createSnapshotBlockHeightKey s.height)
  s.snapshotContent.entries.foldl (fun p e => p.delete (createConfirmHeightKey e.1 e.2)) p

def rollback (deletedSnapshotSegments : List SnapshotChunk) : Pending :=
  let acc := deletedSnapshotSegments.foldl (fun acc seg =>
    let acc := seg.accountBlocks.foldl deleteAccountBlock acc
    (seg.snapshotBlock.elim acc.1 acc.1.deleteSnapshotBlock, acc.2)) (p, .empty)
  acc.2.entries.foldl (fun p e =>
    (p.delete (createOnRoadKey e.2 e.1)).deleteCached (createReceiveKey e.1)) acc.1

end Pending

namespace IndexDb
variable (db : IndexDb)

def new : IndexDb := ⟨.new .empty, 0, .empty, .empty, []⟩

def pending : Pending := ⟨db, []⟩

def getValue (key : DbKey) : DbValue := ((db.cache.get? key).or (db.store.get key)).getD []

def getAddrHeightByHash (blockHash : Hash) : Option (Address × ℕ) :=
  match db.getValue (createAccountBlockHashKey blockHash) with
  | [addr, height] => some (addr, height)
  | _ => none

def getConfirmHeightByHash (blockHash : Hash) : ℕ :=
  match db.sendCreateBlockHashCache.get? blockHash with
  | some snapshotHeight => snapshotHeight
  | none =>
    match db.getAddrHeightByHash blockHash with
    | none => 0
    | some (addr, height) =>
      let entries := db.store.view.entries.filter fun e =>
        createConfirmHeightKey addr height ≤ e.1 && e.1 < createConfirmHeightKey addr maxUint64
      (entries.head?.map fun e => e.2.headD 0).getD 0

/-- The hash of the block that receives a send block; a value of another length is none. -/
def getReceivedBySend (sendBlockHash : Hash) : Option Hash :=
  match db.getValue (createReceiveKey sendBlockHash) with
  | [hash] => some hash
  | _ => none

def isReceived (sendBlockHash : Hash) : Bool :=
  (db.getValue (createReceiveKey sendBlockHash)).length = 1

/-- The body of the loop of `LoadAllHash`, an error if the key is not made of an address and a hash. -/
def loadHash (onRoadListMap : Store Address (List Hash)) (e : DbKey × DbValue) : Option (Store Address (List Hash)) :=
  match e.1 with
  | [_, addr, blockHash] => some (onRoadListMap.set addr (onRoadListMap.getD addr [] ++ [blockHash]))
  | _ => none

def loadAllHash : Option (Store Address (List Hash)) :=
  (db.store.view.entries.filter fun e => e.1.headD 0 = 5).foldlM loadHash .empty

def insertAccountBlock (b : AccountBlock) : IndexDb :=
  let p := db.pending.insertAccountBlock b
  { p.db with store := p.db.store.writeAccountBlockByHash p.batch b.hash }

/-- `InsertSnapshotBlock`; the places of blocks in the block files are given as numbers. -/
def insertSnapshotBlock (snapshotBlock : SnapshotBlock) (confirmedBlocks : List AccountBlock)
    (location : Hash → ℕ) : Except DbError IndexDb :=
  let p := db.pending.putCached (createSnapshotBlockHashKey snapshotBlock.hash) [snapshotBlock.height]
  let p := p.putCached (createSnapshotBlockHeightKey snapshotBlock.height)
    [snapshotBlock.hash, location snapshotBlock.hash]
  let p := snapshotBlock.snapshotContent.entries.foldl
    (fun p e => p.put (createConfirmHeightKey e.1 e.2) [snapshotBlock.height]) p
  let p := confirmedBlocks.foldl (fun p b =>
    let p := p.putCached (createAccountBlockHeightKey b.accountAddress b.height) [b.hash, location b.hash]
    if b.blockType = .sendCreate then p.insertConfirmCache b.hash snapshotBlock.height else p) p
  (p.db.store.writeSnapshotByHash p.batch (confirmedBlocks.map (·.hash))).map fun store => { p.db with store := store }

def rollbackAccountBlocks (accountBlocks : List AccountBlock) : IndexDb :=
  let p := db.pending.rollback [⟨none, accountBlocks⟩]
  { p.db with store := p.db.store.rollbackAccountBlocks p.batch (accountBlocks.map (·.hash)) }

def rollbackSnapshotBlocks (deletedSnapshotSegments : List SnapshotChunk)
    (unconfirmedBlocks : List AccountBlock) : IndexDb :=
  let p := db.pending.rollback deletedSnapshotSegments
  unconfirmedBlocks.foldl insertAccountBlock { p.db with store := p.db.store.rollbackSnapshot p.batch }

/-- `initCache`, for the hashes of the blocks that create the contracts of the chain. -/
def initCache (createBlockHashes : List Hash) : IndexDb :=
  createBlockHashes.foldl (fun db h =>
    { db with sendCreateBlockHashCache := db.sendCreateBlockHashCache.set h (db.getConfirmHeightByHash h) }) db

/-- Entries leave the caches when these are full or the entries too old. -/
def evict (keys : List DbKey) (hashes : List Hash) (accounts : List Address) : IndexDb :=
  { db with
    cache := keys.foldl .erase db.cache
    sendCreateBlockHashCache := hashes.foldl .erase db.sendCreateBlockHashCache
    accountCache := db.accountCache.filter (· ∉ accounts) }

def queryLatestAccountId (store : DbStore DbKey DbValue) : ℕ :=
  let entries := store.view.entries.filter fun e => createAccountIdKey 1 ≤ e.1 && e.1 < createAccountIdKey maxUint64
  (entries.getLast?.map fun e => (e.1.drop 1).headD 0).getD 0

/-- The node stops, which flushes the store, and starts with what is on disk and with new caches. -/
def restart (createBlockHashes : List Hash) : Except DbError IndexDb := do
  let store ← db.store.prepare
  let store ← store.commit
  let store := DbStore.new store.disk
  .ok (initCache ⟨store, queryLatestAccountId store, .empty, .empty, []⟩ createBlockHashes)

end IndexDb

/-! Runs -/

inductive IndexAction
  | insertAccountBlock (b : AccountBlock)
  | insertSnapshotBlock (hash : Hash) (confirmed : List AccountBlock) (location : Hash → ℕ)
  | rollbackAccountBlocks (deleted : List AccountBlock)
  | rollbackSnapshotBlocks (snapshots : ℕ) (recover : Bool)
  | evict (keys : List DbKey) (hashes : List Hash) (accounts : List Address)
  | restart (createBlockHashes : List Hash)

/-- The database, the chain it indexes and the hashes of the snapshot blocks of the chain. -/
structure IndexWorld where
  db : IndexDb
  ledger : Ledger AccountBlock
  snapshotHashes : List Hash

namespace IndexWorld
variable (w : IndexWorld)

def new : IndexWorld := ⟨.new, ⟨[], []⟩, []⟩

/-- The content of a snapshot block: of every account it confirms the height of the last block. -/
def contentOf (confirmed : List AccountBlock) : Store Address ℕ :=
  confirmed.foldl (fun m b => m.set b.accountAddress b.height) .empty

/-- The chunks a rollback is given: the snapshot blocks deleted, and at the end the unconfirmed blocks if there are
any. -/
def deletedSegments (snapshots : ℕ) : List SnapshotChunk :=
  let first := w.ledger.latestHeight - snapshots
  ((w.ledger.deleted snapshots).zip (w.snapshotHashes.drop first)).mapIdx (fun i c =>
    ⟨some ⟨c.2, first + 1 + i, contentOf c.1⟩, c.1⟩) ++
  if w.ledger.unconfirmed = [] then [] else [⟨none, w.ledger.unconfirmed⟩]

/-- The change of the chain; the unconfirmed blocks are not on disk, so that a restart loses them. -/
def ledgerAction : IndexAction → Option (LedgerAction AccountBlock)
  | .insertAccountBlock b => some (.insert b)
  | .insertSnapshotBlock _ confirmed _ => some (.snapshot confirmed)
  | .rollbackAccountBlocks deleted => some (.takeBack deleted)
  | .rollbackSnapshotBlocks n recover => some (.rollback n recover)
  | .evict _ _ _ => none
  | .restart _ => some (.takeBack w.ledger.unconfirmed)

def nextLedger (a : IndexAction) : Ledger AccountBlock :=
  (w.ledgerAction a).elim w.ledger (w.ledger.apply id)

def nextSnapshotHashes : IndexAction → List Hash
  | .insertSnapshotBlock hash _ _ => w.snapshotHashes ++ [hash]
  | .rollbackSnapshotBlocks n _ => w.snapshotHashes.take (w.ledger.latestHeight - n)
  | _ => w.snapshotHashes

def nextDb : IndexAction → Except DbError IndexDb
  | .insertAccountBlock b => .ok (w.db.insertAccountBlock b)
  | .insertSnapshotBlock hash confirmed location =>
    w.db.insertSnapshotBlock ⟨hash, w.ledger.latestHeight + 1, contentOf confirmed⟩ confirmed location
  | .rollbackAccountBlocks deleted => .ok (w.db.rollbackAccountBlocks deleted)
  | .rollbackSnapshotBlocks n recover =>
    .ok (w.db.rollbackSnapshotBlocks (w.deletedSegments n)
      (w.ledger.apply id (.rollback n recover)).unconfirmed)
  | .evict keys hashes accounts => .ok (w.db.evict keys hashes accounts)
  | .restart createBlockHashes => w.db.restart createBlockHashes

def step (a : IndexAction) : Except DbError IndexWorld :=
  (w.nextDb a).map fun db => ⟨db, w.nextLedger a, w.nextSnapshotHashes a⟩

/-- The block makes a contract, itself or by a send block in its list: its hash is the `CreateBlockHash` of the
contract. -/
def creates (b : AccountBlock) : Prop := b.blockType = .sendCreate ∨ ∃ s ∈ b.sendBlockList, s.blockType = .sendCreate

/-- The blocks the genesis snapshot block confirms; they set up contracts too. -/
def genesisBlocks (l : Ledger AccountBlock) : List AccountBlock := l.chunks.headD []

/-- What an action is given: only receive blocks make send blocks, and the contracts of the chain at a start were
created by its blocks. -/
def Proper : IndexAction → Prop
  | .insertAccountBlock b => b.sendBlockList ≠ [] → b.isReceiveBlock
  | .restart createBlockHashes => ∀ h ∈ createBlockHashes, ∃ b ∈ w.ledger.chunks.flatten,
      b.hash = h ∧ (creates b ∨ b ∈ genesisBlocks w.ledger)
  | _ => True

def Allows (a : IndexAction) : Prop :=
  (∀ la, w.ledgerAction a = some la → w.ledger.Allows id la) ∧ w.Proper a

/-- The states of the runs whose steps all meet `P`. -/
inductive Reachable (P : IndexWorld → IndexAction → Prop) : IndexWorld → Prop
  | new : Reachable P new
  | step {w w' : IndexWorld} {a : IndexAction} (hw : Reachable P w) (ha : w.Allows a) (hP : P w a)
      (h : w.step a = .ok w') : Reachable P w'

/-- The height of the snapshot block that confirms a block, 0 if there is none. -/
def confirmHeight (l : Ledger AccountBlock) (b : AccountBlock) : ℕ :=
  if b ∈ l.chunks.flatten then l.chunks.findIdx (fun c => b ∈ c) + 1 else 0

end IndexWorld

end GoVite.ChainIndex

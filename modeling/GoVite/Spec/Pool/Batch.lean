import GoVite.Lib.Store
import GoVite.Spec.Pool.SnapshotChain
import Mathlib.Logic.Function.Basic

/-! Batches of blocks to be inserted (`ledger/pool/batch`): levels inserted one after the other, a snapshot level with
one bucket or an account level with a bucket for each account, inserted in parallel. -/

namespace GoVite.Pool
open KeyStore

/-- A block as the batch sees it. A snapshot block has no owner. -/
structure Item where
  owner : Option Address
  hash : Hash
  prevHash : Hash
  height : ℕ
  keys : List Hash
  accounts : List Hash
  snapshot : Option Hash
  deriving DecidableEq, Repr

structure AccountPoolBlock where
  accountAddress : Address
  hash : Hash
  prevHash : Hash
  height : ℕ
  isReceiveBlock : Bool
  fromBlockHash : Hash
  sendBlockList : List Hash
  deriving DecidableEq, Repr

/-- `accountPoolBlock.ReferHashes` -/
def AccountPoolBlock.item (b : AccountPoolBlock) : Item where
  owner := some b.accountAddress
  hash := b.hash
  prevHash := b.prevHash
  height := b.height
  keys := b.hash :: b.sendBlockList
  accounts := (if b.isReceiveBlock then [b.fromBlockHash] else []) ++ (if 1 < b.height then [b.prevHash] else [])
  snapshot := none

structure SnapshotPoolBlock where
  hash : Hash
  prevHash : Hash
  height : ℕ
  snapshotContent : Store Address Hash

/-- `snapshotPoolBlock.ReferHashes` -/
def SnapshotPoolBlock.item (b : SnapshotPoolBlock) : Item where
  owner := none
  hash := b.hash
  prevHash := b.prevHash
  height := b.height
  keys := [b.hash]
  accounts := b.snapshotContent.values
  snapshot := if 1 < b.height then some b.prevHash else none

inductive MissingReference
  | accountOfSnapshot (r : Hash)
  | snapshot (r : Hash)
  | account (item r : Hash)
  deriving DecidableEq, Repr

inductive BatchError
  | arrivedToMax
  | reference (missing : MissingReference)
  | prevAndHash
  -- the call does not return
  | levelClosed | hasClosed | indexOutOfRange | nilLevel | nilOwner
  deriving DecidableEq, Repr

inductive LevelBuckets
  | account (sHash : Option Hash) (bs : Store Address (List Item))
  | snapshot (bu : List Item)

structure Level where
  index : ℕ
  closed : Bool
  buckets : LevelBuckets

def bucketAdd (bs : List Item) (b : Item) : Except BatchError (List Item) :=
  match bs.getLast? with
  | none => .ok [b]
  | some lastB => if lastB.hash ≠ b.prevHash then .error .prevAndHash else .ok (bs ++ [b])

namespace Level

def new (snapshot : Bool) (index : ℕ) (sHash : Option Hash) : Level where
  index := index
  closed := false
  buckets := if snapshot then .snapshot [] else .account sHash .empty

def isSnapshot (l : Level) : Bool :=
  match l.buckets with
  | .account _ _ => false
  | .snapshot _ => true

def bucket (l : Level) (owner : Option Address) : List Item :=
  match l.buckets, owner with
  | .account _ bs, some a => bs.getD a []
  | .snapshot bu, none => bu
  | .account _ _, none => []
  | .snapshot _, some _ => []

def add (l : Level) (b : Item) : Except BatchError Level :=
  if l.closed then .error .levelClosed
  else
    match l.buckets, b.owner with
    | .account sHash bs, some owner =>
      (bucketAdd (bs.getD owner []) b).map fun items => { l with buckets := .account sHash (bs.set owner items) }
    | .account _ _, none => .error .nilOwner
    | .snapshot bu, _ => (bucketAdd bu b).map fun items => { l with buckets := .snapshot items }

end Level

structure OwnerLevel where
  owner : Option Address
  level : ℕ
  deriving DecidableEq, Repr

structure Batch where
  num : ℕ
  current : ℤ
  lastSnapshot : ℤ
  all : Store Hash OwnerLevel
  ls : ℕ → Option Level
  maxLevel : ℕ

def newBatch (max : ℕ) : Batch where
  num := 0
  current := -1
  lastSnapshot := -1
  all := .empty
  ls := fun _ => none
  maxLevel := max

structure ChainReader where
  snapshotExists : Hash → Bool
  accountExists : Hash → Bool

namespace Batch

def setLevel (p : Batch) (i : ℕ) (l : Level) : Batch := { p with ls := Function.update p.ls i (some l) }

def addToAll (all : Store Hash OwnerLevel) (keys : List Hash) (l : OwnerLevel) : Store Hash OwnerLevel :=
  keys.foldl (fun all k => all.set k l) all

/-- The levels below `n` are closed, down to the last snapshot level. -/
def closeLevels (lastSnapshot : ℤ) (ls : ℕ → Option Level) : ℕ → Except BatchError (ℕ → Option Level)
  | 0 => .ok ls
  | n + 1 =>
    if lastSnapshot < n then
      match ls n with
      | none => .error .nilLevel
      | some l =>
        if l.closed then .error .hasClosed
        else closeLevels lastSnapshot (Function.update ls n (some { l with closed := true })) n
    else .ok ls

/-- The end of `addSnapshotItem`, whether the item was added or not. -/
def endSnapshot (p : Batch) (max : ℕ) (err : Option BatchError) : Batch × Option BatchError :=
  match closeLevels p.lastSnapshot p.ls max with
  | .error e => (p, some e)
  | .ok ls => ({ p with
      ls := ls
      current := if p.current < max then max else p.current
      lastSnapshot := max }, err)

def addToSnapshotLevel (p : Batch) (max : ℕ) (tmp : Level) (b : Item) : Batch × Option BatchError :=
  match tmp.add b with
  | .ok l => endSnapshot { p.setLevel max l with
      num := p.num + 1
      all := addToAll p.all b.keys ⟨b.owner, max⟩ } max none
  | .error .prevAndHash => endSnapshot p max (some .prevAndHash)
  | .error e => (p, some e)

def addSnapshotItem (chain : ChainReader) (p : Batch) (b : Item) : Batch × Option BatchError :=
  match b.accounts.find? fun r => (p.all.get? r).isNone && !chain.accountExists r with
  | some r => (p, some (.reference (.accountOfSnapshot r)))
  | none =>
    match b.snapshot.filter fun r => (p.all.get? r).isNone && !chain.snapshotExists r with
    | some r => (p, some (.reference (.snapshot r)))
    | none =>
      if p.current < 0 then
        -- the first level of the batch
        if p.maxLevel = 0 then (p, some .indexOutOfRange)
        else addToSnapshotLevel (p.setLevel 0 (.new true 0 none)) 0 (.new true 0 none) b
      else
        match p.ls p.current.toNat with
        | none => (p, some .nilLevel)
        | some tmp =>
          if tmp.isSnapshot then addToSnapshotLevel p p.current.toNat tmp b
          else if p.current + 1 > p.maxLevel - 1 then (p, some .arrivedToMax)
          else
            let max := (p.current + 1).toNat
            addToSnapshotLevel (p.setLevel max (.new true max none)) max (.new true max none) b

/-- One round of the loop over the references of an account item. -/
def referLevel (chain : ChainReader) (p : Batch) (b : Item) (owner : Address) (max : ℤ) (r : Hash) :
    Except BatchError ℤ :=
  match p.all.get? r with
  | none => if chain.accountExists r then .ok max else .error (.reference (.account b.hash r))
  | some tmp =>
    match p.ls tmp.level with
    | none => .error .nilLevel
    | some lv =>
      if lv.closed then .ok max
      else if max ≤ tmp.level then
        match tmp.owner with
        | none => .error .nilOwner
        | some o =>
          let max : ℤ := if o = owner then tmp.level else tmp.level + 1
          if max > p.maxLevel - 1 then .error .arrivedToMax else .ok max
      else if max > p.maxLevel - 1 then .error .arrivedToMax else .ok max

def addToAccountLevel (p : Batch) (max : ℕ) (tmp : Level) (b : Item) : Batch × Option BatchError :=
  match tmp.add b with
  | .ok l => ({ p.setLevel max l with
      num := p.num + 1
      all := addToAll p.all b.keys ⟨b.owner, max⟩
      current := if p.current < max then max else p.current }, none)
  | .error .prevAndHash => ({ p with current := if p.current < max then max else p.current }, some .prevAndHash)
  | .error e => (p, some e)

def addAccountItem (chain : ChainReader) (p : Batch) (b : Item) (owner : Address) (sHash : Option Hash) :
    Batch × Option BatchError :=
  match b.accounts.foldlM (referLevel chain p b owner) (-1) with
  | .error e => (p, some e)
  | .ok referred =>
    let max : ℤ := if referred < 0 then p.lastSnapshot + 1 else referred
    if max > p.maxLevel - 1 then (p, some .arrivedToMax)
    else if max > p.current then
      addToAccountLevel (p.setLevel max.toNat (.new false max.toNat sHash)) max.toNat (.new false max.toNat sHash) b
    else if 0 ≤ p.current then
      match p.ls p.current.toNat with
      | none => (p, some .nilLevel)
      | some tmp =>
        if tmp.isSnapshot then
          if p.current + 1 > p.maxLevel - 1 then (p, some .arrivedToMax)
          else
            let next := (p.current + 1).toNat
            addToAccountLevel (p.setLevel next (.new false next sHash)) next (.new false next sHash) b
        else if p.current > max then
          match p.ls max.toNat with
          | none => (p, some .nilLevel)
          | some tmp => addToAccountLevel p max.toNat tmp b
        else addToAccountLevel p max.toNat tmp b
    else addToAccountLevel (p.setLevel 0 (.new false 0 sHash)) 0 (.new false 0 sHash) b

end Batch

inductive BatchCall
  | addAItem (b : Item) (sHash : Option Hash)
  | addSItem (b : Item)
  deriving DecidableEq, Repr

def BatchCall.item : BatchCall → Item
  | .addAItem b _ => b
  | .addSItem b => b

def BatchCall.sHash : BatchCall → Option Hash
  | .addAItem _ sHash => sHash
  | .addSItem _ => none

namespace Batch

def step (chain : ChainReader) (p : Batch) (c : BatchCall) : Batch × Option BatchError :=
  match c.item.owner with
  | none => p.addSnapshotItem chain c.item
  | some owner => p.addAccountItem chain c.item owner c.sHash

def run (chain : ChainReader) (p : Batch) (calls : List BatchCall) : Batch :=
  calls.foldl (fun p c => (p.step chain c).1) p

/-- The items whose calls returned no error, in the order of the calls. -/
def accepted (chain : ChainReader) (p : Batch) : List BatchCall → List Item
  | [] => []
  | c :: rest =>
    (if (p.step chain c).2 = none then [c.item] else []) ++ accepted chain (p.step chain c).1 rest

def bucketItems (p : Batch) (level : ℕ) (owner : Option Address) : List Item :=
  ((p.ls level).map (·.bucket owner)).getD []

end Batch

end GoVite.Pool

import GoVite.Lib.Store
import GoVite.Spec.Chain.Ledger

/-! The unconfirmed blocks of the chain (`chain/unconfirmed.go`, `chain/delete.go`, `chain/insert.go`), and which of
them are deleted. -/

namespace GoVite.Chain
open KeyStore

def AccountBlock.isSendBlock (b : AccountBlock) : Bool :=
  match b.blockType with
  | .sendCreate | .sendCall | .sendReward | .sendRefund => true
  | _ => false

/-- The send blocks that are this block or in its list. -/
def AccountBlock.sentHashes (b : AccountBlock) : List Hash :=
  (if b.isSendBlock then [b.hash] else []) ++ b.sendBlockList.map (·.hash)

/-- `UnconfirmedPool.DeleteBlocks`. -/
def deleteBlocks (blocks gone : List AccountBlock) : List AccountBlock := Ledger.without id blocks gone

/-! Deleting a block -/

structure Dependencies where
  newAccountBlocks : List AccountBlock
  addrSet : List Address
  hashSet : List Hash

/-- The body of the loop of `computeDependencies`. -/
def Dependencies.next (d : Dependencies) (b : AccountBlock) : Dependencies :=
  if b.accountAddress ∈ d.addrSet then
    { d with
      newAccountBlocks := d.newAccountBlocks ++ [b]
      hashSet := d.hashSet ++ b.sentHashes }
  else if b.isReceiveBlock && b.fromBlockHash ∈ d.hashSet then
    ⟨d.newAccountBlocks ++ [b], d.addrSet ++ [b.accountAddress], d.hashSet ++ b.sendBlockList.map (·.hash)⟩
  else d

/-- What has to go with the first block, of the blocks after it. -/
def computeDependencies (first : AccountBlock) (rest : List AccountBlock) : List AccountBlock :=
  (rest.foldl Dependencies.next ⟨[first], [first.accountAddress], first.hashes⟩).newAccountBlocks

/-- The blocks from the one asked for on. -/
def planDeleteBlocks (blocks : List AccountBlock) (addr : Address) (toHeight : ℕ) (toHash : Option Hash) :
    List AccountBlock :=
  match toHash with
  | some hash => blocks.dropWhile fun b => b.hash ≠ hash
  | none =>
    if 0 < toHeight then blocks.dropWhile fun b => !(b.accountAddress = addr && b.height = toHeight) else []

inductive UnconfirmedError
  | notUnconfirmed | cantFind | lackBlock
  deriving DecidableEq, Repr

/-- `deleteAccountBlockByHeightOrHash`: the blocks deleted, and those left. -/
def deleteAccountBlockByHeightOrHash (blocks : List AccountBlock) (addr : Address) (toHeight : ℕ)
    (toHash : Option Hash) : Except UnconfirmedError (List AccountBlock × List AccountBlock) :=
  if blocks = [] then .error .notUnconfirmed
  else
    match planDeleteBlocks blocks addr toHeight toHash with
    | [] => .error .cantFind
    | first :: rest =>
      let needDeleteBlocks := computeDependencies first rest
      .ok (needDeleteBlocks, deleteBlocks blocks needDeleteBlocks)

/-! Inserting a snapshot block -/

/-- What the filter asks of other parts: upgrades, wrong producers, the quota a block uses and an account has. An answer
of none is an error. -/
structure Verdicts where
  isUpgradePoint : ℕ → Bool
  filterConsensusFailed : List AccountBlock → Option (List AccountBlock)
  calcBlockQuotaUsed : AccountBlock → ℕ → Option ℕ
  getStakeBeneficialAmount : Address → Option ℕ
  getSnapshotCurrentQuota : Address → ℕ → ℕ → Option ℕ

structure QuotaCaches where
  quotaUnused : Store Address ℕ
  quotaUsed : Store Address ℕ

/-- The quota of the account, from the cache if it is there. -/
def Verdicts.quotaUnused (V : Verdicts) (c : QuotaCaches) (addr : Address) (sbHeight : ℕ) : Option (ℕ × QuotaCaches) :=
  match c.quotaUnused.get? addr with
  | some quota => some (quota, c)
  | none => do
    let amount ← V.getStakeBeneficialAmount addr
    let quota ← V.getSnapshotCurrentQuota addr amount sbHeight
    some (quota, { c with quotaUnused := c.quotaUnused.set addr quota })

/-- `checkQuota`, of a block that uses `quota`: the caches after it and whether the quota is enough. -/
def Verdicts.checkQuota (V : Verdicts) (c : QuotaCaches) (b : AccountBlock) (quota sbHeight : ℕ) :
    Option (Bool × QuotaCaches) := do
  let (unused, c) ← V.quotaUnused c b.accountAddress sbHeight
  let used := (c.quotaUsed.getD b.accountAddress 0 + quota) % 2 ^ 64
  some (used ≤ unused, { c with quotaUsed := c.quotaUsed.set b.accountAddress used })

structure Filter where
  invalidBlocks : List AccountBlock
  invalidAddrSet : List Address
  invalidHashSet : List Hash
  caches : QuotaCaches

/-- Whether the block depends on an invalid one, or can be invalid by itself. -/
def Filter.dependenceOk (f : Filter) (b : AccountBlock) : Bool :=
  b.accountAddress ∉ f.invalidAddrSet &&
    !(b.isReceiveBlock && (b.blockType = .receiveError || b.fromBlockHash ∈ f.invalidHashSet))

/-- The quota part of the loop: whether the block is valid, and the caches. -/
def Verdicts.quotaOk (V : Verdicts) (c : QuotaCaches) (b : AccountBlock) (sbHeight : ℕ) : Bool × QuotaCaches :=
  match V.calcBlockQuotaUsed b sbHeight with
  | none => (false, c)
  | some quota => (V.checkQuota c b quota sbHeight).getD (false, c)

/-- The body of the loop of `filterUnconfirmedBlocks`. -/
def Filter.next (V : Verdicts) (invalidConsensus : List Hash) (sbHeight : ℕ) (f : Filter) (b : AccountBlock) : Filter :=
  let valid := f.dependenceOk b && b.hash ∉ invalidConsensus
  let (valid, caches) := if valid then V.quotaOk f.caches b sbHeight else (false, f.caches)
  if valid then { f with caches }
  else ⟨f.invalidBlocks ++ [b], f.invalidAddrSet ++ [b.accountAddress], f.invalidHashSet ++ b.sentHashes, caches⟩

/-- The blocks to be deleted once the snapshot block of the height is there. -/
def filterUnconfirmedBlocks (V : Verdicts) (blocks : List AccountBlock) (sbHeight : ℕ) (checkConsensus : Bool) :
    List AccountBlock :=
  if V.isUpgradePoint sbHeight then blocks
  else
    let filter (invalidConsensus : List Hash) :=
      (blocks.foldl (Filter.next V invalidConsensus sbHeight) ⟨[], [], [], ⟨.empty, .empty⟩⟩).invalidBlocks
    if checkConsensus then
      match V.filterConsensusFailed blocks with
      | none => blocks
      | some invalidBlocks => filter (invalidBlocks.map (·.hash))
    else filter []

/-- The loop of `getBlocksToBeConfirmed`: of each account the blocks up to the height in the snapshot content, once all
of these have been met. -/
def confirmLoop (content : Store Address ℕ) :
    List AccountBlock → ℕ → List AccountBlock → Option (List AccountBlock)
  | [], _, _ => none
  | b :: blocks, finishCount, confirmed =>
    let (finishCount, confirmed) := match content.get? b.accountAddress with
      | some height =>
        if b.height < height then (finishCount, confirmed ++ [b])
        else if b.height = height then (finishCount + 1, confirmed ++ [b])
        else (finishCount, confirmed)
      | none => (finishCount, confirmed)
    if content.keys.length ≤ finishCount then some confirmed else confirmLoop content blocks finishCount confirmed

def getBlocksToBeConfirmed (blocks : List AccountBlock) (content : Store Address ℕ) :
    Except UnconfirmedError (List AccountBlock) :=
  if content.keys = [] then .ok []
  else
    match confirmLoop content blocks 0 [] with
    | none => .error .lackBlock
    | some confirmed => .ok confirmed

/-- The unconfirmed blocks after `InsertSnapshotBlock`. -/
structure Inserted where
  confirmed : List AccountBlock
  /-- those left once the confirmed ones are gone -/
  unconfirmed : List AccountBlock
  invalid : List AccountBlock
  rest : List AccountBlock

def insertSnapshotBlock (V : Verdicts) (blocks : List AccountBlock) (sbHeight : ℕ) (content : Store Address ℕ) :
    Except UnconfirmedError Inserted := do
  let confirmed ← getBlocksToBeConfirmed blocks content
  let unconfirmed := deleteBlocks blocks confirmed
  let invalid := filterUnconfirmedBlocks V unconfirmed sbHeight true
  .ok ⟨confirmed, unconfirmed, invalid, deleteBlocks unconfirmed invalid⟩

end GoVite.Chain

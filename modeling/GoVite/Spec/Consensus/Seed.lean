import GoVite.Spec.Consensus.Group
import Mathlib.Data.List.Basic

/-! The seeds in snapshot blocks: a producer commits to a seed by its hash and reveals it in a later block
(`verifier/snapshot_verifier.go`, `consensus_impl.go`, `consensus_snapshot.go`, `chain/snapshot_block.go`). What is read
besides the snapshot chain is given with each block. -/

namespace GoVite.Consensus

structure HashHeight where
  hash : Hash
  height : ℕ
  deriving DecidableEq, Repr

structure SnapshotBlock where
  hash : Hash
  prevHash : Hash
  height : ℕ
  timestamp : ℤ
  producer : Address
  seed : ℕ
  seedHash : Option Hash
  snapshotContent : List (Address × HashHeight)
  deriving DecidableEq, Repr

/-- The blocks of the chain, newest first, over the genesis block. -/
structure SnapshotChain where
  genesis : SnapshotBlock
  above : List SnapshotBlock

/-- The group, the hash that commits to a seed (of the seed, a hash and a time in seconds) and the other
components that are asked. -/
structure SeedWorld where
  group : GroupInfo
  hashOfSeed : ℕ → Hash → ℤ → Hash

/-- The answers of the account chains and of the election while a block is verified. -/
structure Answers where
  getAccountBlockByHeight : Address → ℕ → Option (Option Hash)
  elected : ℕ → Option (List Address)

inductive SeedError
  | election
  | noSeedHeader
  | seedVerify (hash : Hash) (height : ℕ)
  deriving DecidableEq, Repr

inductive VerifyResult
  | fail | pending | success
  deriving DecidableEq, Repr

inductive VerifyError
  | genesisBlock (hash : Hash)
  | seedVerify (hash : Hash) (height : ℕ)
  | snapshotHeight (head : ℕ)
  | notNext (prevHash head : Hash)
  | timestamp
  | accountReader
  | accountFork (addr : Address) (block : HashHeight)
  | consensus (e : SeedError)
  | producer
  deriving DecidableEq, Repr

/-- `SnapshotBlockVerifyStat`. -/
structure VerifyStat where
  result : VerifyResult
  errMsg : Option VerifyError
  deriving DecidableEq, Repr

/-- How far the scans go back. -/
def seedScanCount : ℕ := 10 * 60

namespace SnapshotChain
variable (c : SnapshotChain)

def blocks : List SnapshotBlock := c.above ++ [c.genesis]

def getLatestSnapshotBlock : SnapshotBlock := c.above.headD c.genesis

def getSnapshotHeaderByHeight (height : ℕ) : Option SnapshotBlock :=
  c.blocks.find? fun b => b.height = height

end SnapshotChain

namespace SeedWorld
variable (W : SeedWorld)

/-- `ComputeSeedHash`; the time is taken in seconds. -/
def computeSeedHash (seed : ℕ) (prevHash : Hash) (timestamp : ℤ) : Hash :=
  W.hashOfSeed seed prevHash (timestamp / second)

/-- The loop of `GetLastUnpublishedSeedSnapshotHeader` over `n` heights from `h` down. -/
def scanUnpublished (W : SeedWorld) (c : SnapshotChain) (producer : Address) (beforeTime : ℤ) :
    ℕ → ℕ → List ℕ → Option SnapshotBlock
  | 0, _, _ => none
  | n + 1, h, seeds =>
    match c.getSnapshotHeaderByHeight h with
    | none => none
    | some header =>
      if header.producer ≠ producer then scanUnpublished W c producer beforeTime n (h - 1) seeds
      else
        match header.seedHash with
        | none => scanUnpublished W c producer beforeTime n (h - 1) seeds
        | some seedHash =>
          if beforeTime ≤ header.timestamp then
            scanUnpublished W c producer beforeTime n (h - 1) (header.seed :: seeds)
          else if ∃ seed ∈ seeds, W.computeSeedHash seed header.prevHash header.timestamp = seedHash then
            scanUnpublished W c producer beforeTime n (h - 1) (header.seed :: seeds)
          else some header

def getLastUnpublishedSeedSnapshotHeader (c : SnapshotChain) (producer : Address) (beforeTime : ℤ) :
    Option SnapshotBlock :=
  let headHeight := c.getLatestSnapshotBlock.height
  let tailHeight := if seedScanCount < headHeight then headHeight - seedScanCount else 1
  W.scanUnpublished c producer beforeTime (headHeight + 1 - tailHeight) headHeight []

/-- `ElectionTime`, which fails when the votes cannot be read. -/
def electionTime? (A : Answers) (t : ℤ) : Option ElectionResult :=
  let index := W.group.timeIndex.time2Index t
  (A.elected index).map (genElectionResult W.group index)

/-- `snapshotCs.VerifyProducer`. -/
def verifyElected (A : Answers) (address : Address) (t : ℤ) : Except SeedError Bool :=
  match W.electionTime? A t with
  | none => .error .election
  | some result => .ok (verifyProducer t address result)

def verifyProducerAndSeed (A : Answers) (c : SnapshotChain) (b : SnapshotBlock) : Except SeedError Bool :=
  match W.electionTime? A b.timestamp with
  | none => .error .election
  | some result =>
    if ¬verifyProducer b.timestamp b.producer result then .ok false
    else if b.seed = 0 then .ok true
    else
      match W.getLastUnpublishedSeedSnapshotHeader c b.producer result.sTime with
      | none => .error .noSeedHeader
      | some seedBlock =>
        if some (W.computeSeedHash b.seed seedBlock.prevHash seedBlock.timestamp) = seedBlock.seedHash then .ok true
        else .error (.seedVerify seedBlock.hash seedBlock.height)

/-- `consensus.VerifySnapshotProducer`: the verdict on the seed is computed and dropped. -/
def verifySnapshotProducer (A : Answers) (c : SnapshotChain) (b : SnapshotBlock) : Except SeedError Bool :=
  let _ := W.verifyProducerAndSeed A c b
  W.verifyElected A b.producer b.timestamp

/-- `getLastSeedBlock` of the snapshot verifier, which is not implemented. -/
def getLastSeedBlock (_ : SnapshotBlock) : Option SnapshotBlock := none

/-- The failures of `verifySelf`; the result is set only for a wrong genesis block. -/
def verifySelf (c : SnapshotChain) (b : SnapshotBlock) : Except VerifyStat Unit :=
  let head := c.getLatestSnapshotBlock
  let links : Except VerifyStat Unit :=
    if head.height + 1 ≠ b.height then .error ⟨.pending, some (.snapshotHeight head.height)⟩
    else if head.hash ≠ b.prevHash then .error ⟨.pending, some (.notNext b.prevHash head.hash)⟩
    else .ok ()
  if b.height = 1 ∧ b.hash ≠ c.genesis.hash then .error ⟨.fail, some (.genesisBlock b.hash)⟩
  else if b.seed ≠ 0 then
    match getLastSeedBlock b with
    | none => links
    | some seedBlock =>
      if some (W.computeSeedHash b.seed seedBlock.prevHash seedBlock.timestamp) = seedBlock.seedHash then links
      else .error ⟨.pending, some (.seedVerify seedBlock.hash seedBlock.height)⟩
  else links

/-- `verifyAccounts`: whether all referred account blocks are there. -/
def verifyAccounts (A : Answers) : List (Address × HashHeight) → Except VerifyStat Bool
  | [] => .ok true
  | (addr, block) :: rest =>
    match A.getAccountBlockByHeight addr block.height with
    | none => .error ⟨.pending, some .accountReader⟩
    | some none => (verifyAccounts A rest).map fun _ => false
    | some (some hash) =>
      if hash = block.hash then verifyAccounts A rest else .error ⟨.fail, some (.accountFork addr block)⟩

def verifyReferred (A : Answers) (c : SnapshotChain) (b : SnapshotBlock) : VerifyStat :=
  match W.verifySelf c b with
  | .error stat => stat
  | .ok () =>
    if b.timestamp ≤ c.getLatestSnapshotBlock.timestamp then ⟨.fail, some .timestamp⟩
    else
      match verifyAccounts A b.snapshotContent with
      | .error stat => stat
      | .ok false => ⟨.pending, none⟩
      | .ok true =>
        if b.height = 1 then ⟨.success, none⟩
        else
          match W.verifySnapshotProducer A c b with
          | .error e => ⟨.fail, some (.consensus e)⟩
          | .ok false => ⟨.fail, some .producer⟩
          | .ok true => ⟨.success, none⟩

/-- A block is added when it was verified with success. -/
def addVerified (c : SnapshotChain) (step : Answers × SnapshotBlock) : Option SnapshotChain :=
  if (W.verifyReferred step.1 c step.2).result = .success then some { c with above := step.2 :: c.above } else none

def run (c : SnapshotChain) (steps : List (Answers × SnapshotBlock)) : Option SnapshotChain :=
  steps.foldlM (W.addVerified) c

end SeedWorld

namespace SnapshotChain

/-- The loop of `GetRandomSeed` over `m` heights from `h` down: the blocks whose seeds it adds up. -/
def scanSeeds (c : SnapshotChain) (n : ℕ) : ℕ → ℕ → Option Hash → List SnapshotBlock → Option (List SnapshotBlock)
  | 0, _, _, summed => some summed
  | m + 1, h, prevHash, summed =>
    if n ≤ summed.length then some summed
    else
      match c.getSnapshotHeaderByHeight h with
      | none => none
      | some header =>
        if prevHash ≠ none ∧ prevHash ≠ some header.hash then none
        else if header.seed = 0 ∨ header.producer ∈ summed.map (·.producer) then
          scanSeeds c n m (h - 1) (some header.prevHash) summed
        else scanSeeds c n m (h - 1) (some header.prevHash) (header :: summed)

/-- The blocks whose seeds make up the random seed at a block of the chain. -/
def randomSeedBlocks (c : SnapshotChain) (headHeight n : ℕ) : Option (List SnapshotBlock) :=
  let tailHeight := if seedScanCount < headHeight then headHeight - seedScanCount else 1
  c.scanSeeds n (headHeight + 1 - tailHeight) headHeight none []

end SnapshotChain

end GoVite.Consensus

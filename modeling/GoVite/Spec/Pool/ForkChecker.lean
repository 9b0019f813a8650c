import GoVite.Spec.Pool.SnapshotChain
import Mathlib.Data.List.Dedup

/-! The fork checker of the snapshot pool (`pool_fork_checker.go`): which block is irreversible, and the switch of the
current chain to another branch. A branch is what `GetKnot` sees of it, from its head down. -/

namespace GoVite.Pool

inductive PoolError
  | longestChain | currentChain | nilBlock | blockNotExist | noIrreversibleInfo | proofHashFail
  | irreversiblePrinciple | deleteHeight | tailNotMatch | failVerifier | diverges
  deriving DecidableEq, Repr

structure IrreversibleInfo where
  point : Option SnapshotBlock
  proofPoint : Option SnapshotBlock
  deriving DecidableEq, Repr

structure Branch where
  id : ℕ
  knots : List SnapshotBlock
  deriving DecidableEq, Repr

namespace Branch

def headHeight (b : Branch) : ℕ := (b.knots.head?.map (·.height)).getD 0

def getKnot (b : Branch) (height : ℕ) : Option SnapshotBlock := b.knots.find? fun k => k.height = height

end Branch

structure SnapshotPool where
  chain : SnapshotChain
  current : Branch
  idIdx : ℕ
  irreversible : Option IrreversibleInfo

/-- `verifySnapshot` beyond the links and the timestamp: seeds, account blocks, the producer's turn. -/
abbrev SnapshotVerifier := SnapshotChain → SnapshotBlock → Bool

def checkIrreversible (c : SnapshotChain) (point proofPoint : SnapshotBlock) (irreversibleCnt : ℕ) : Bool :=
  if 1 + proofPoint.height - point.height < irreversibleCnt then false
  else
    -- the heights strictly between the two blocks
    match (List.range' (point.height + 1) (proofPoint.height - 1 - point.height)).mapM c.getSnapshotHeaderByHeight with
    | none => false
    | some between =>
      irreversibleCnt ≤ (proofPoint.producer :: point.producer :: between.map (·.producer)).dedup.length

/-- The loop of `getLatestIrreversible`, from the last block of a period to the last block before it. -/
def searchIrreversible (c : SnapshotChain) (ti : TimeIndex) (lastIdx irreversibleCnt : ℕ) (head : SnapshotBlock) :
    ℕ → SnapshotBlock → Except PoolError (Option IrreversibleInfo)
  | 0, _ => .error .diverges
  | fuel + 1, latest =>
    if latest.height ≤ irreversibleCnt then .ok (some ⟨none, some head⟩)
    else if ti.time2Index latest.timestamp < lastIdx then .ok none
    else
      match c.getSnapshotHeaderBeforeTime (ti.index2Time (ti.time2Index latest.timestamp)).1 with
      -- `block.Height` of a nil block: nothing is before the first period
      | none => .error .nilBlock
      | some block =>
        match c.getSnapshotHeaderByHeight (block.height + 1) with
        | none => .error .blockNotExist
        | some point =>
          if checkIrreversible c point latest irreversibleCnt then .ok (some ⟨some point, some head⟩)
          else searchIrreversible c ti lastIdx irreversibleCnt head fuel block

def irreversibleCnt (g : GroupInfo) : ℕ := g.nodeCount / 3 * 2 + 1

def getLatestIrreversible (g : GroupInfo) (c : SnapshotChain) (lastIdx : ℕ) :
    Except PoolError (Option IrreversibleInfo) :=
  if g.nodeCount < 3 then .ok none
  else
    searchIrreversible c (g.getPeriodTimeIndex c) lastIdx (irreversibleCnt g) c.getLatestSnapshotBlock
      c.blocks.length c.getLatestSnapshotBlock

def lastProofIndex (g : GroupInfo) (c : SnapshotChain) (lastProofPoint : Option SnapshotBlock) : ℕ :=
  match lastProofPoint with
  | none => 0
  | some proof =>
    match c.getSnapshotHeaderByHeight proof.height with
    | none => 0
    | some block => if block.hash = proof.hash then (g.getPeriodTimeIndex c).time2Index block.timestamp else 0

def getLatestIrreversibleBlock (g : GroupInfo) (c : SnapshotChain) (lastProofPoint : Option SnapshotBlock) :
    Except PoolError (Option IrreversibleInfo) :=
  getLatestIrreversible g c (lastProofIndex g c lastProofPoint)

namespace SnapshotPool

/-- The pool after the call, and the error it returns. -/
def updateIrreversibleBlock (g : GroupInfo) (s : SnapshotPool) : SnapshotPool × Option PoolError :=
  if g.nodeCount < 3 then (s, none)
  else
    match getLatestIrreversibleBlock g s.chain (s.irreversible.bind (·.proofPoint)) with
    | .error e => (s, some e)
    | .ok none => (s, if s.irreversible.isNone then some .noIrreversibleInfo else none)
    | .ok (some info) => ({ s with irreversible := some info }, none)

def checkIrreversiblePrinciple (s : SnapshotPool) (keyPoint : SnapshotBlock) : Except PoolError Unit :=
  match s.irreversible with
  | none => .ok ()
  | some info =>
    match info.proofPoint with
    | none => .ok ()
    | some proof =>
      match s.chain.getSnapshotHeaderByHeight proof.height with
      | none => .error .nilBlock
      | some block =>
        if block.hash ≠ proof.hash then .error .proofHashFail
        else
          match info.point with
          | none => .ok ()
          | some point => if point.height < keyPoint.height then .ok () else .error .irreversiblePrinciple

/-- The loop of `FindForkPointFromMain`, downwards from height `i`. -/
def findForkPoint (longer shorter : Branch) (i : ℕ) : Except PoolError SnapshotBlock :=
  match longer.getKnot i, shorter.getKnot i with
  | none, _ => .error .longestChain
  | some _, none => .error .currentChain
  | some longerBlock, some shorterBlock =>
    if longerBlock.hash = shorterBlock.hash then .ok longerBlock
    else
      match i with
      -- below height zero the height wraps around, and there is no such block
      | 0 => .error .longestChain
      | j + 1 => findForkPoint longer shorter j

def findForkKeyPoint (s : SnapshotPool) (target : Branch) : Except PoolError SnapshotBlock :=
  if s.current.headHeight < target.headHeight then findForkPoint target s.current s.current.headHeight
  else findForkPoint s.current target target.headHeight

/-- A verified block goes to disk. The current branch keeps its view if it holds the block; otherwise a new
branch becomes the current one (`RootHeadAdd`). -/
def insertSnapshotBlock (verify : SnapshotVerifier) (s : SnapshotPool) (b : SnapshotBlock) :
    SnapshotPool × Option PoolError :=
  if h : b.Follows s.chain.getLatestSnapshotBlock then
    if verify s.chain b then
      if s.current.getKnot b.height = some b then ({ s with chain := s.chain.add b h }, none)
      else ({ s with
        chain := s.chain.add b h
        current := ⟨s.idIdx + 1, b :: s.chain.blocks⟩
        idIdx := s.idIdx + 1 }, none)
    else (s, some .failVerifier)
  else (s, some .tailNotMatch)

/-- `insertTo`: the given blocks of the current branch, as far as they can be inserted. -/
def insertBlocks (verify : SnapshotVerifier) (s : SnapshotPool) : List SnapshotBlock → SnapshotPool × Option PoolError
  | [] => (s, none)
  | b :: rest =>
    match insertSnapshotBlock verify s b with
    | (s₁, none) => insertBlocks verify s₁ rest
    | (s₁, some e) => (s₁, some e)

/-- The blocks of the current branch over the disk up to a height, oldest first. -/
def pendingTo (s : SnapshotPool) (height : ℕ) : List SnapshotBlock :=
  (s.current.knots.filter fun b =>
    s.chain.getLatestSnapshotBlock.height < b.height ∧ b.height ≤ height).reverse

def snapshotFork (g : GroupInfo) (verify : SnapshotVerifier) (s : SnapshotPool) (target : Branch) (targetHeight : ℕ) :
    SnapshotPool × Option PoolError :=
  if s.current.id = target.id then (s, none)
  else
    match s.findForkKeyPoint target with
    | .error e => (s, some e)
    | .ok keyPoint =>
      if s.chain.getLatestSnapshotBlock.height < keyPoint.height then ({ s with current := target }, none)
      else
        match s.updateIrreversibleBlock g with
        | (s₁, some e) => (s₁, some e)
        | (s₁, none) =>
          match s₁.checkIrreversiblePrinciple keyPoint with
          | .error e => (s₁, some e)
          | .ok _ =>
            match s₁.chain.deleteSnapshotBlocksToHeight keyPoint.height with
            | none => (s₁, some .deleteHeight)
            | some chain =>
              let s₂ : SnapshotPool := { s₁ with chain := chain, current := target }
              insertBlocks verify s₂ (s₂.pendingTo targetHeight)

end SnapshotPool

/-- What happens to the pool: a block reaches the current branch or goes to disk, the point is refreshed, or the branch
is switched. -/
inductive PoolAction
  | addHead (b : SnapshotBlock)
  | insert (b : SnapshotBlock)
  | update
  | fork (target : Branch) (targetHeight : ℕ)

namespace SnapshotPool

def step (g : GroupInfo) (verify : SnapshotVerifier) (s : SnapshotPool) : PoolAction → SnapshotPool
  | .addHead b => { s with current := { s.current with knots := b :: s.current.knots } }
  | .insert b => (s.insertSnapshotBlock verify b).1
  | .update => (s.updateIrreversibleBlock g).1
  | .fork target targetHeight => (s.snapshotFork g verify target targetHeight).1

def run (g : GroupInfo) (verify : SnapshotVerifier) (s : SnapshotPool) (acts : List PoolAction) : SnapshotPool :=
  acts.foldl (step g verify) s

def start (c : SnapshotChain) : SnapshotPool := ⟨c, ⟨0, c.blocks⟩, 0, none⟩

def recordedPoint (s : SnapshotPool) : Option SnapshotBlock := s.irreversible.bind (·.point)

end SnapshotPool

end GoVite.Pool

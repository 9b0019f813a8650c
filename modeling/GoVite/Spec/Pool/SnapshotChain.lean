import Mathlib.Data.List.Chain
import Mathlib.Data.List.TakeWhile

/-! The snapshot chain on disk (`ledger/chain`) and the period index of its group (`consensus/core/time_index.go`).
Times are whole seconds. -/

namespace GoVite.Pool

abbrev Hash := ℕ
abbrev Address := ℕ

structure SnapshotBlock where
  hash : Hash
  prevHash : Hash
  height : ℕ
  timestamp : ℕ
  producer : Address
  deriving DecidableEq, Repr

/-- `b` is the next block over `head`, as `verifySelf` and `VerifyReferred` ask. -/
structure SnapshotBlock.Follows (b head : SnapshotBlock) : Prop where
  height : b.height = head.height + 1
  prevHash : b.prevHash = head.hash
  timestamp : head.timestamp < b.timestamp

instance (b head : SnapshotBlock) : Decidable (b.Follows head) :=
  decidable_of_iff (b.height = head.height + 1 ∧ b.prevHash = head.hash ∧ head.timestamp < b.timestamp)
    ⟨fun ⟨h₁, h₂, h₃⟩ => ⟨h₁, h₂, h₃⟩, fun ⟨h₁, h₂, h₃⟩ => ⟨h₁, h₂, h₃⟩⟩

/-- The blocks on disk, newest first. -/
structure SnapshotChain where
  genesis : SnapshotBlock
  above : List SnapshotBlock
  genesis_height : genesis.height = 1
  linked : (above ++ [genesis]).IsChain SnapshotBlock.Follows

namespace SnapshotChain
variable (c : SnapshotChain)

def blocks : List SnapshotBlock := c.above ++ [c.genesis]

def getLatestSnapshotBlock : SnapshotBlock := c.above.headD c.genesis

def getSnapshotHeaderByHeight (height : ℕ) : Option SnapshotBlock :=
  c.blocks.find? fun b => b.height = height

/-- The last block before a time. The source estimates a height and then searches by bisection, which
finds this block because timestamps increase. -/
def getSnapshotHeaderBeforeTime (t : ℕ) : Option SnapshotBlock :=
  c.blocks.find? fun b => b.timestamp < t

theorem linked_cons {c : SnapshotChain} {b : SnapshotBlock} (h : b.Follows c.getLatestSnapshotBlock) :
    ((b :: c.above) ++ [c.genesis]).IsChain SnapshotBlock.Follows := by
  have hl := c.linked
  unfold getLatestSnapshotBlock at h
  cases ha : c.above with
  | nil =>
    rw [ha] at h
    simpa using h
  | cons a rest =>
    rw [ha] at h hl
    exact List.isChain_cons_cons.mpr ⟨h, hl⟩

theorem linked_dropWhile (p : SnapshotBlock → Bool) :
    (c.above.dropWhile p ++ [c.genesis]).IsChain SnapshotBlock.Follows := by
  obtain ⟨pre, hpre⟩ := List.dropWhile_suffix p
  refine c.linked.suffix ⟨pre, ?_⟩
  rw [← List.append_assoc, hpre]

/-- `insertSnapshotBlock` of a block that was verified. -/
def add (b : SnapshotBlock) (h : b.Follows c.getLatestSnapshotBlock) : SnapshotChain where
  genesis := c.genesis
  above := b :: c.above
  genesis_height := c.genesis_height
  linked := linked_cons h

/-- `DeleteSnapshotBlocksToHeight`: the block at `toHeight` goes as well, the genesis block never does. -/
def deleteSnapshotBlocksToHeight (toHeight : ℕ) : Option SnapshotChain :=
  if c.getLatestSnapshotBlock.height < toHeight ∨ toHeight ≤ 1 then none
  else some {
    genesis := c.genesis
    above := c.above.dropWhile fun b => toHeight ≤ b.height
    genesis_height := c.genesis_height
    linked := c.linked_dropWhile _ }

end SnapshotChain

structure TimeIndex where
  genesisTime : ℕ
  interval : ℕ
  deriving DecidableEq, Repr

namespace TimeIndex

def index2Time (ti : TimeIndex) (index : ℕ) : ℕ × ℕ :=
  (ti.genesisTime + ti.interval * index, ti.genesisTime + ti.interval * (index + 1))

def time2Index (ti : TimeIndex) (t : ℕ) : ℕ := (t - ti.genesisTime) / ti.interval

end TimeIndex

/-- The snapshot consensus group: its number of nodes and the seconds of one round of all of them. -/
structure GroupInfo where
  nodeCount : ℕ
  planInterval : ℕ
  planInterval_pos : 0 < planInterval

/-- Periods are counted from the genesis block. -/
def GroupInfo.getPeriodTimeIndex (g : GroupInfo) (c : SnapshotChain) : TimeIndex where
  genesisTime := c.genesis.timestamp
  interval := g.planInterval

end GoVite.Pool

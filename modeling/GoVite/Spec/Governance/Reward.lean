import GoVite.Spec.Consensus.DayStats

/-! The rewards of block producers (`vm/contracts/contracts_governance.go`, `vm/util/consensus_reader.go`), paid for
whole days. Times are Unix times in seconds. -/

namespace GoVite.Governance
open KeyStore Consensus

abbrev Gid := ℕ
abbrev TokenTypeId := ℕ

def snapshotGid : Gid := 1

def attovPerVite : ℕ := 10 ^ 18
def sbpStakeAmountPreMainnet : ℕ := 500000 * attovPerVite
def sbpStakeAmountMainnet : ℕ := 1000000 * attovPerVite
def rewardPerBlock : ℤ := 951293759512937595
def rewardTimeLimit : ℤ := 3600

inductive VmError
  | invalidMethodParam | rewardIsNotDrained | dayStats (e : PointError)
  deriving DecidableEq, Repr

/-- How a call ends that does not return a result. -/
inductive Failure
  | error (e : VmError)
  | panic
  deriving DecidableEq, Repr

/-- A call that has no error to return can only panic. -/
def orPanic {α : Type} : Option α → Except Failure α
  | some a => .ok a
  | none => .error .panic

/-! One day -/

structure Reward where
  voteReward : ℤ
  blockReward : ℤ
  totalReward : ℤ
  blockNum : ℕ
  expectedBlockNum : ℕ
  deriving DecidableEq, Repr

def newZeroReward : Reward := ⟨0, 0, 0, 0, 0⟩

/-- The numbers of blocks are not added. -/
def Reward.add (r a : Reward) : Reward :=
  { r with
    voteReward := r.voteReward + a.voteReward
    blockReward := r.blockReward + a.blockReward
    totalReward := r.totalReward + a.totalReward }

/-- `big.Int.Quo`, which panics on a division by zero. -/
def quo (a b : ℤ) : Except Failure ℤ := if b = 0 then .error .panic else .ok (a.tdiv b)

def calcRewardByDayDetail (detail : DayStats) (name : Name) (stakeAmount : ℤ) : Except Failure Reward :=
  match detail.stats.get? name with
  | none => .ok newZeroReward
  | some self =>
    if self.exceptedBlockNum = 0 then .ok newZeroReward
    else do
      let tmp1 := (self.voteCnt + stakeAmount) * detail.blockTotal * 50 * rewardPerBlock * self.blockNum
      let tmp1 ← quo tmp1 (detail.stats.keys.length * stakeAmount + detail.voteSum)
      let tmp1 ← quo tmp1 self.exceptedBlockNum
      let voteReward ← quo tmp1 100
      let blockReward ← quo (self.blockNum * 50 * rewardPerBlock) 100
      .ok ⟨voteReward, blockReward, voteReward + blockReward, self.blockNum, self.exceptedBlockNum⟩

/-! The reader of the consensus -/

/-- An index with a time, and a flag. -/
structure TimeIndexed where
  index : ℕ
  time : ℤ
  flag : Bool
  deriving DecidableEq, Repr

structure ConsensusReader where
  getIndexByStartTime : ℤ → ℤ → Option TimeIndexed
  getIndexByEndTime : ℤ → ℤ → Option TimeIndexed
  getIndexByTime : ℤ → ℤ → Option ℕ
  getConsensusDetailByDay : ℕ → ℕ → Except Failure (List DayStats)

/-- `core.TimeIndex` of the days, in whole seconds. -/
structure DayIndex where
  genesisTime : ℤ
  interval : ℕ
  interval_pos : 0 < interval

namespace DayIndex

def startTime (ti : DayIndex) (index : ℕ) : ℤ := ti.genesisTime + ti.interval * index

def endTime (ti : DayIndex) (index : ℕ) : ℤ := ti.genesisTime + ti.interval * (index + 1 : ℕ)

def time2Index (ti : DayIndex) (t : ℤ) : ℕ := (t - ti.genesisTime).toNat / ti.interval

end DayIndex

namespace VMConsensusReader

def getIndexByStartTime (ti : DayIndex) (t genesisTime : ℤ) : TimeIndexed :=
  if t < 0 then ⟨0, 0, true⟩
  else if t ≤ genesisTime then ⟨0, genesisTime, false⟩
  else
    let index := ti.time2Index (t - 1) + 1
    ⟨index, ti.startTime index, false⟩

def getIndexByEndTime (ti : DayIndex) (t genesisTime : ℤ) : TimeIndexed :=
  if t < genesisTime then ⟨0, genesisTime, true⟩
  else
    let index := ti.time2Index t
    if index = 0 then ⟨0, genesisTime, true⟩ else ⟨index - 1, ti.endTime (index - 1), false⟩

def getIndexByTime (ti : DayIndex) (t genesisTime : ℤ) : ℕ := if t < genesisTime then 0 else ti.time2Index t

end VMConsensusReader

/-- The reader over the days and their statistics. -/
def vmConsensusReader (ti : DayIndex) (stats : ℕ → ℕ → Except VmError (List DayStats)) : ConsensusReader where
  getIndexByStartTime t genesisTime := some (VMConsensusReader.getIndexByStartTime ti t genesisTime)
  getIndexByEndTime t genesisTime := some (VMConsensusReader.getIndexByEndTime ti t genesisTime)
  getIndexByTime t genesisTime := some (VMConsensusReader.getIndexByTime ti t genesisTime)
  getConsensusDetailByDay startIndex endIndex := (stats startIndex endIndex).mapError .error

/-! The reward of a registration -/

structure Registration where
  name : Name
  blockProducingAddress : Address
  rewardWithdrawAddress : Address
  stakeAddress : Address
  amount : ℕ
  expirationHeight : ℕ
  rewardTime : ℤ
  revokeTime : ℤ
  hisAddrList : List Address
  deriving DecidableEq

def Registration.isActive (r : Registration) : Bool := r.revokeTime = 0

/-- Unix times of blocks are positive. -/
structure SnapshotBlock where
  height : ℕ
  timestamp : ℤ
  timestamp_pos : 0 < timestamp

/-- The genesis block, the length of a day, and the upgrades that matter here, of which the first is at a snapshot
block. -/
structure Network where
  genesis : SnapshotBlock
  dayLength : ℕ
  dayLength_pos : 0 < dayLength
  leafPoint : Option SnapshotBlock
  earthPoint : Option ℕ

/-- Days are counted from the genesis block. -/
def Network.dayIndex (N : Network) : DayIndex := ⟨N.genesis.timestamp, N.dayLength, N.dayLength_pos⟩

def Network.isLeafUpgrade (N : Network) (height : ℕ) : Bool := N.leafPoint.any fun p => p.height ≤ height

def Network.isEarthUpgrade (N : Network) (height : ℕ) : Bool := N.earthPoint.any fun p => p ≤ height

/-- The snapshot block a receive block is run at, and the height of the latest one. -/
structure VmEnvironment where
  snapshotBlock : SnapshotBlock
  latestHeight : ℕ

def getRewardTimeLimit (current : SnapshotBlock) : ℤ := current.timestamp - rewardTimeLimit

/-- The stake of a day, and the day of the upgrade once it has been looked up. -/
def getSnapshotGroupStakeAmount (N : Network) (env : VmEnvironment) (reader : ConsensusReader) (index forkIndex : ℕ) :
    Except Failure (ℕ × ℕ) :=
  match N.leafPoint with
  | none => .ok (sbpStakeAmountPreMainnet, 0)
  | some point =>
    if env.latestHeight < point.height then .ok (sbpStakeAmountPreMainnet, 0)
    else do
      let forkIndex ←
        if forkIndex = 0 then orPanic (reader.getIndexByTime point.timestamp N.genesis.timestamp) else .ok forkIndex
      .ok (if index ≤ forkIndex then sbpStakeAmountPreMainnet else sbpStakeAmountMainnet, forkIndex)

/-- The days to pay for: from `start` to `end`, if there are any. -/
structure Period where
  start : TimeIndexed
  finish : TimeIndexed
  drained : Bool

def Period.isEmpty (p : Period) : Bool := p.finish.flag || p.finish.index < p.start.index

def Period.days (p : Period) : List ℕ :=
  if p.isEmpty then [] else List.range' p.start.index (p.finish.index + 1 - p.start.index)

/-- The first part of `calcReward`: none if the reward time says that all is paid. -/
def rewardPeriod (N : Network) (reader : ConsensusReader) (old : Registration) (current : SnapshotBlock) :
    Except Failure (Option Period) := do
  let genesisTime := N.genesis.timestamp
  let start ← orPanic (reader.getIndexByStartTime old.rewardTime genesisTime)
  if start.flag then .ok none
  else
    let timeLimit := getRewardTimeLimit current
    if !old.isActive then
      let finish ← orPanic (reader.getIndexByEndTime old.revokeTime genesisTime)
      if finish.time ≤ timeLimit then .ok (some ⟨start, finish, true⟩)
      else
        let finish ← orPanic (reader.getIndexByEndTime timeLimit genesisTime)
        .ok (some ⟨start, finish, false⟩)
    else
      let finish ← orPanic (reader.getIndexByEndTime timeLimit genesisTime)
      .ok (some ⟨start, finish, false⟩)

structure CalcResult where
  startTime : ℤ
  endTime : ℤ
  reward : Option Reward
  drained : Bool
  deriving DecidableEq, Repr

/-- The loop over the details. -/
def addDay (N : Network) (env : VmEnvironment) (reader : ConsensusReader) (name : Name) (acc : Reward × ℕ)
    (detail : DayStats) : Except Failure (Reward × ℕ) := do
  let (stakeAmount, forkIndex) ← getSnapshotGroupStakeAmount N env reader detail.index acc.2
  let dayDetail ← calcRewardByDayDetail detail name stakeAmount
  .ok (acc.1.add dayDetail, forkIndex)

def calcReward (N : Network) (env : VmEnvironment) (reader : ConsensusReader) (old : Registration) :
    Except Failure CalcResult := do
  match ← rewardPeriod N reader old env.snapshotBlock with
  | none => .ok ⟨0, 0, none, true⟩
  | some p =>
    if p.isEmpty then .ok ⟨p.start.time, p.finish.time, some newZeroReward, p.drained⟩
    else
      let details ← reader.getConsensusDetailByDay p.start.index p.finish.index
      let (reward, _) ← details.foldlM (addDay N env reader old.name) (newZeroReward, 0)
      .ok ⟨p.start.time, p.finish.time, some reward, p.drained⟩

/-- `CalcReward`. A panic is recovered from, but the error is assigned to a variable of the deferred function, and the
results stay as they are: zero, and no error. -/
def recoverCalcReward (N : Network) (env : VmEnvironment) (reader : ConsensusReader) (old : Registration) :
    Except VmError CalcResult :=
  match calcReward N env reader old with
  | .ok result => .ok result
  | .error (.error e) => .error e
  | .error .panic => .ok ⟨0, 0, none, false⟩

def rewardDrained (reward : Option Reward) (drained : Bool) : Bool :=
  drained && reward.all fun r => r.totalReward = 0

def checkRewardDrained (N : Network) (env : VmEnvironment) (reader : ConsensusReader) (old : Registration) :
    Except VmError Bool :=
  (recoverCalcReward N env reader old).map fun r => rewardDrained r.reward r.drained

end GoVite.Governance

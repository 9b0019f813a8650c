import GoVite.Lib.BigFloat

/-! A consensus group and the slots of its producers (`consensus/core/group.go`, `time_index.go`, `result.go`). Times
and durations are numbers of nanoseconds, unbounded here. -/

namespace GoVite.Consensus
open BigFloat

abbrev Address := ℕ
abbrev Hash := ℕ

/-- In nanoseconds, as all times and durations. -/
def second : ℤ := 1000000000

/-- A float64 operation is the exact one, rounded to 53 bits. -/
def float64 (x : ℚ) : ℚ := roundPrec 53 x

/-- `time.Duration.Seconds`: whole seconds and the fraction are converted to floats and added. -/
def durationSeconds (d : ℤ) : ℚ :=
  float64 (float64 (d.tdiv second) + float64 (float64 (d.tmod second) / 1000000000))

/-- The conversion of a float to an integer drops the fraction. -/
def truncate (x : ℚ) : ℤ := if x < 0 then ⌈x⌉ else ⌊x⌋

structure TimeIndex where
  genesisTime : ℤ
  interval : ℤ

namespace TimeIndex

def index2Time (ti : TimeIndex) (index : ℕ) : ℤ × ℤ :=
  (ti.genesisTime + ti.interval * index, ti.genesisTime + ti.interval * (index + 1 : ℕ))

/-- The division is between unsigned numbers of 64 bits. -/
def time2Index (ti : TimeIndex) (t : ℤ) : ℕ :=
  let subSec := truncate (durationSeconds (t - ti.genesisTime))
  (subSec % 2 ^ 64).toNat / (truncate (durationSeconds ti.interval) % 2 ^ 64).toNat

end TimeIndex

/-- The fields of `types.ConsensusGroupInfo` that the elections and the plans use, with the seed of the group. -/
structure GroupInfo where
  genesisTime : ℤ
  nodeCount : ℕ
  interval : ℕ
  perCount : ℕ
  repeats : ℕ
  randCount : ℕ
  randRank : ℕ
  seed : ℕ

structure MemberPlan where
  sTime : ℤ
  eTime : ℤ
  member : Address
  deriving DecidableEq

/-- The variables of the loops in `GenPlanByAddress`. -/
structure PlanState where
  sTime : ℤ
  plans : List MemberPlan

namespace GroupInfo

def planInterval (g : GroupInfo) : ℕ := g.interval * g.nodeCount * g.perCount * g.repeats

def timeIndex (g : GroupInfo) : TimeIndex where
  genesisTime := g.genesisTime
  interval := second * g.planInterval

def addSlot (g : GroupInfo) (member : Address) (st : PlanState) : PlanState :=
  let etime := st.sTime + g.interval * second
  { sTime := etime, plans := st.plans ++ [⟨st.sTime, etime, member⟩] }

def addMember (g : GroupInfo) (st : PlanState) (member : Address) : PlanState := (g.addSlot member)^[g.perCount] st

/-- One round over the members; the slots of missing members are skipped. -/
def addRound (g : GroupInfo) (members : List Address) (st : PlanState) : PlanState :=
  let st := members.foldl g.addMember st
  if members.length < g.nodeCount then
    { st with sTime := st.sTime + g.interval * g.perCount * ((g.nodeCount : ℤ) - members.length) * second }
  else st

def genPlanByAddress (g : GroupInfo) (index : ℕ) (members : List Address) : List MemberPlan :=
  if g.nodeCount < members.length then []
  else ((g.addRound members)^[g.repeats] ⟨(g.timeIndex.index2Time index).1, []⟩).plans

end GroupInfo

structure ElectionResult where
  plans : List MemberPlan
  sTime : ℤ
  eTime : ℤ
  index : ℕ

def genElectionResult (g : GroupInfo) (index : ℕ) (members : List Address) : ElectionResult where
  plans := g.genPlanByAddress index members
  sTime := (g.timeIndex.index2Time index).1
  eTime := (g.timeIndex.index2Time index).2
  index := index

/-- `ElectionTime`, when `members` are the elected addresses of a period. -/
def electionTime (g : GroupInfo) (members : ℕ → List Address) (t : ℤ) : ElectionResult :=
  genElectionResult g (g.timeIndex.time2Index t) (members (g.timeIndex.time2Index t))

def verifyProducer (t : ℤ) (address : Address) (result : ElectionResult) : Bool :=
  result.plans.any fun plan => plan.member = address ∧ plan.sTime = t

end GoVite.Consensus

import GoVite.Spec.Consensus.Points

/-! The statistics of days by the names of producers (`consensus/consensus_snapshot.go`): what the producers of a day
did and the votes they had. -/

namespace GoVite.Consensus
open KeyStore

/-- `dayVoteStat`, of the votes at the proof block. -/
def dayVoteStat (R : Runtime) (randRank : ℕ) (votes : List Vote) : VoteContent :=
  let top := (R.sorting.sort ByBalance.less votes).take randRank
  ⟨(top.foldl (fun m v => m.set v.name v.balance) Store.empty).entries, (top.map (·.balance)).sum⟩

structure SbpStats where
  index : ℕ
  blockNum : ℕ
  exceptedBlockNum : ℕ
  voteCnt : ℤ
  name : Name

/-- A sum of balances is not negative. -/
structure DayStats where
  index : ℕ
  stats : Store Name SbpStats
  voteSum : ℤ
  blockTotal : ℕ
  voteSum_nonneg : 0 ≤ voteSum

/-- A point of a day, with votes that are balances. -/
structure DayPoint extends Point where
  total_nonneg : ∀ v ∈ votes, 0 ≤ v.total

/-- The fields of a registration that name its producers. -/
structure Register where
  name : Name
  hisAddrList : List Address

def registerMap (registers : List Register) : Store Address Name :=
  registers.foldl (fun m r => r.hisAddrList.foldl (fun m addr => m.set addr r.name) m) .empty

/-- The loop over `p.Sbps`; an address that is not registered has the empty name. -/
def countSbp (registerMap : Store Address Name) (acc : Store Name SbpStats × ℕ) (e : Address × Content) :
    Store Name SbpStats × ℕ :=
  let name := registerMap.getD e.1 []
  (match acc.1.get? name with
    | some sbp => acc.1.set name { sbp with
        blockNum := sbp.blockNum + e.2.factualNum
        exceptedBlockNum := sbp.exceptedBlockNum + e.2.expectedNum }
    | none => acc.1,
  acc.2 + e.2.factualNum)

/-- The loop over `p.Votes.Details`. -/
def voteStats (index : ℕ) (votes : VoteContent) : Store Name SbpStats :=
  votes.details.foldl (fun m d => m.set d.1 ⟨index, 0, 0, d.2, d.1⟩) .empty

def dayStatsOf (registers : List Register) (index : ℕ) (sbps : Sbps) (votes : VoteContent) (h : 0 ≤ votes.total) :
    DayStats :=
  let counted := sbps.entries.foldl (countSbp (registerMap registers)) (voteStats index votes, 0)
  ⟨index, counted.1, votes.total, counted.2, h⟩

/-- What `DayStats` reads of the array of days. -/
structure DayArray where
  getByIndex : ℕ → Except PointError DayPoint
  getByIndexWithProof : ℕ → Hash → Except PointError DayPoint

/-- The loop that reads the points, from the last day back: a point that is not empty proves the one before it. -/
def readDayPoint (array : DayArray) (acc : Store ℕ DayPoint × Option Hash) (i : ℕ) :
    Except PointError (Store ℕ DayPoint × Option Hash) := do
  let point ← match acc.2 with
    | none => array.getByIndex i
    | some proofHash => array.getByIndexWithProof i proofHash
  if point.isEmpty then .ok acc else .ok (acc.1.set i point, some point.prevHash)

/-- The statistics of a point, if it has votes. -/
def dayStatsOfPoint (registers : List Register) (index : ℕ) (p : DayPoint) : Option DayStats :=
  match h : p.votes with
  | none => none
  | some votes => some (dayStatsOf registers index p.sbps votes (p.total_nonneg votes h))

def dayStats (array : DayArray) (registers : List Register) (startIndex endIndex : ℕ) :
    Except PointError (List DayStats) := do
  let days := List.range' startIndex (endIndex + 1 - startIndex)
  let (points, _) ← days.reverse.foldlM (readDayPoint array) (.empty, none)
  .ok (days.filterMap fun i => (points.get? i).bind (dayStatsOfPoint registers i))

end GoVite.Consensus

import GoVite.Spec.Consensus.Election

/-! The statistics of producers (`consensus/consensus_point_array.go`, `rollback_proof.go`, `cdb/point.go`): a point for
each period, hour and day, kept in caches by index. A block is named by its hash; the chain is the list of its hashes,
newest first. -/

namespace GoVite.Consensus
open KeyStore

structure VoteContent where
  details : List (Name × ℤ)
  total : ℤ
  deriving DecidableEq

/-- The blocks behind the hashes, the consensus group, and what is computed from the state at a block: the elected
producers and the votes of a day. -/
structure BlockWorld where
  prevHash : Hash → Hash
  height : Hash → ℕ
  timestamp : Hash → ℤ
  producer : Hash → Address
  genesis : Hash
  group : GroupInfo
  elect : Hash → Option (List Address)
  dayVotes : Hash → Option VoteContent
  genesis_time : timestamp genesis = group.genesisTime
  planInterval_pos : 0 < group.planInterval

structure Content where
  expectedNum : ℕ
  factualNum : ℕ
  deriving DecidableEq, Repr

/-- The source adds `uint32`; the counts of a day are far below the end of it. -/
def Content.merge (a b : Content) : Content := ⟨a.expectedNum + b.expectedNum, a.factualNum + b.factualNum⟩

abbrev Sbps := Store Address Content

structure Point where
  prevHash : Hash
  hash : Hash
  sbps : Sbps
  votes : Option VoteContent

inductive PointError
  | blockNotExist | beforeTime | election | genPeriodPoint | hashNotMatch | votes
  deriving DecidableEq, Repr

/-- `AddNum`, on a new content if there is none. -/
def Sbps.addNum (m : Sbps) (a : Address) (n : Content) : Sbps := m.set a ((m.getD a ⟨0, 0⟩).merge n)

/-- `mergeMap`. -/
def Sbps.merge (m₁ m₂ : Sbps) : Sbps := m₂.entries.foldl (fun m e => m.addNum e.1 e.2) m₁

namespace Point

def empty (proofHash : Hash) : Point := ⟨proofHash, proofHash, .empty, none⟩

def isEmpty (p : Point) : Bool := p.hash = p.prevHash

def leftAppend (self p : Point) : Except PointError Point :=
  if p.hash ≠ self.prevHash then .error .hashNotMatch
  else .ok { self with prevHash := p.prevHash, sbps := self.sbps.merge p.sbps }

end Point

/-- The period cache, and the points in the database. -/
structure PointCaches where
  periods : ℕ → Option Point
  hours : ℕ → Option Point
  days : ℕ → Option Point

def PointCaches.new : PointCaches := ⟨fun _ => none, fun _ => none, fun _ => none⟩

namespace BlockWorld
variable (W : BlockWorld)

/-! Reading the chain. -/

def getSnapshotHeaderBeforeTime (c : List Hash) (t : ℤ) : Option Hash := c.find? fun h => W.timestamp h < t

/-- `count` headers from a block down. -/
def getSnapshotHeaders (c : List Hash) (endHash : Hash) (count : ℕ) : List Hash :=
  (c.dropWhile (· ≠ endHash)).take count

/-- The headers from a block down to a time, without the genesis block. -/
def getSnapshotHeadersAfterOrEqualTime (c : List Hash) (endHash : Hash) (startTime : ℤ) : List Hash :=
  let startHeader := (W.getSnapshotHeaderBeforeTime c startTime).getD W.genesis
  if W.height endHash ≤ W.height startHeader then []
  else getSnapshotHeaders c endHash (W.height endHash - W.height startHeader)

def proofEmpty (c : List Hash) (stime etime : ℤ) : Except PointError Bool :=
  match W.getSnapshotHeaderBeforeTime c etime with
  | none => .error .beforeTime
  | some block => if W.timestamp block < etime then .ok (W.timestamp block < stime) else .error .beforeTime

/-- The time before which the votes of a period are taken. -/
def genProofTime (index : ℕ) : ℤ :=
  if index < 2 then W.group.genesisTime + second else (W.group.timeIndex.index2Time (index - 2)).2

def electionIndex (c : List Hash) (index : ℕ) : Except PointError ElectionResult :=
  match W.getSnapshotHeaderBeforeTime c (W.genProofTime index) with
  | none => .error .beforeTime
  | some proofBlock =>
    match W.elect proofBlock with
    | none => .error .election
    | some members => .ok (genElectionResult W.group index members)

/-! The period array. -/

def countBlocks (blocks : List Hash) (m : Sbps) : Sbps := blocks.foldl (fun m h => m.addNum (W.producer h) ⟨0, 1⟩) m

def countPlans (plans : List MemberPlan) (m : Sbps) : Sbps := plans.foldl (fun m v => m.addNum v.member ⟨1, 0⟩) m

def genPeriodPoint (proofHash : Hash) (blocks : List Hash) (result : ElectionResult) : Except PointError Point :=
  match blocks.head?, blocks.getLast? with
  | some first, some last =>
    if proofHash ≠ first then .error .genPeriodPoint
    else .ok ⟨W.prevHash last, first, countPlans result.plans (W.countBlocks blocks .empty), none⟩
  | _, _ => .error .genPeriodPoint

def getByIndexWithProofFromChain (c : List Hash) (index : ℕ) (proofHash : Hash) : Except PointError Point :=
  let stime := (W.group.timeIndex.index2Time index).1
  if proofHash ∉ c then .error .blockNotExist
  else if W.timestamp proofHash < stime then .ok (.empty proofHash)
  else
    let blocks := W.getSnapshotHeadersAfterOrEqualTime c proofHash stime
    if blocks = [] then .ok (.empty proofHash)
    else do
      let result ← W.electionIndex c index
      W.genPeriodPoint proofHash blocks result

/-- The point is computed and put in the cache. -/
def loadPeriod (c : List Hash) (s : PointCaches) (index : ℕ) (proofHash : Hash) :
    Except PointError Point × PointCaches :=
  match W.getByIndexWithProofFromChain c index proofHash with
  | .error e => (.error e, s)
  | .ok p => (.ok p, { s with periods := Function.update s.periods index (some p) })

/-- `GetByIndexWithProof` of the period array. -/
def getPeriod (c : List Hash) (s : PointCaches) (index : ℕ) (proofHash : Hash) :
    Except PointError Point × PointCaches :=
  if proofHash = W.genesis then (.ok (.empty proofHash), s)
  else
    match s.periods index with
    | some point => if proofHash = point.hash then (.ok point, s) else W.loadPeriod c s index proofHash
    | none =>
      let window := W.group.timeIndex.index2Time index
      match W.proofEmpty c window.1 window.2 with
      | .error e => (.error e, s)
      | .ok true => (.ok (.empty proofHash), s)
      | .ok false => W.loadPeriod c s index proofHash

end BlockWorld

/-! The arrays over it. -/

inductive UpperLevel
  | hour | day
  deriving DecidableEq, Repr

def hourInterval : ℤ := 3600 * second

namespace UpperLevel

def timeIndex (W : BlockWorld) : UpperLevel → TimeIndex
  | .hour => ⟨W.group.genesisTime, hourInterval⟩
  | .day => ⟨W.group.genesisTime, 24 * hourInterval⟩

/-- How many points of the lower array make one point. -/
def rate (W : BlockWorld) : UpperLevel → ℕ
  | .hour => (hourInterval / (second * W.group.planInterval)).toNat
  | .day => 24

def stored (s : PointCaches) : UpperLevel → ℕ → Option Point
  | .hour => s.hours
  | .day => s.days

def store (s : PointCaches) (index : ℕ) (p : Option Point) : UpperLevel → PointCaches
  | .hour => { s with hours := Function.update s.hours index p }
  | .day => { s with days := Function.update s.days index p }

/-- The votes are added to the points of days that are not empty. -/
def addVotes (W : BlockWorld) (proofHash : Hash) (p : Point) : UpperLevel → Except PointError Point
  | .hour => .ok p
  | .day =>
    if p.isEmpty then .ok p
    else
      match W.dayVotes proofHash with
      | none => .error .votes
      | some votes => .ok { p with votes := some votes }

end UpperLevel

/-- `GetByIndexWithProof` of an array. -/
abbrev LinkedArray := PointCaches → ℕ → Hash → Except PointError Point × PointCaches

/-- The loop over the lower points, from `start + n` down to `start`. -/
def kernelLoop (lower : LinkedArray) (start : ℕ) :
    ℕ → PointCaches → Hash → Point → Except PointError Point × PointCaches
  | 0, s, _, result => (.ok result, s)
  | n + 1, s, proofHash, result =>
    match lower s (start + n) proofHash with
    | (.error e, s) => (.error e, s)
    | (.ok p, s) =>
      if p.isEmpty then kernelLoop lower start n s proofHash result
      else
        match result.leftAppend p with
        | .error e => (.error e, s)
        | .ok result => kernelLoop lower start n s p.prevHash result

namespace BlockWorld
variable (W : BlockWorld)

/-- `getByIndexWithProofFromKernel`, and what the caller does with the point. -/
def loadUpper (l : UpperLevel) (lower : LinkedArray)
    (s : PointCaches) (index : ℕ) (proofHash : Hash) : Except PointError Point × PointCaches :=
  let existed := (l.stored s index).isSome
  match kernelLoop lower (index * l.rate W) (l.rate W) s proofHash (.empty proofHash) with
  | (.error e, s) => (.error e, s)
  | (.ok p, s) =>
    match l.addVotes W proofHash p with
    | .error e => (.error e, s)
    | .ok p => (.ok p, l.store s index (if existed ∧ p.isEmpty then none else some p))

/-- `GetByIndexWithProof` of an hour or day array. -/
def getUpper (l : UpperLevel) (lower : LinkedArray)
    (c : List Hash) (s : PointCaches) (index : ℕ) (proofHash : Hash) : Except PointError Point × PointCaches :=
  match l.stored s index with
  | some point => if proofHash = point.hash then (.ok point, s) else W.loadUpper l lower s index proofHash
  | none =>
    let window := (l.timeIndex W).index2Time index
    match W.proofEmpty c window.1 window.2 with
    | .error e => (.error e, s)
    | .ok true => (.ok (.empty proofHash), s)
    | .ok false => W.loadUpper l lower s index proofHash

def getHour (c : List Hash) : LinkedArray :=
  W.getUpper .hour (W.getPeriod c) c

def getDay (c : List Hash) : LinkedArray :=
  W.getUpper .day (W.getHour c) c

end BlockWorld

inductive PointLevel
  | period
  | upper (l : UpperLevel)
  deriving DecidableEq, Repr

namespace PointLevel

def timeIndex (W : BlockWorld) : PointLevel → TimeIndex
  | .period => W.group.timeIndex
  | .upper l => l.timeIndex W

def getByIndexWithProof (W : BlockWorld) (c : List Hash) : PointLevel → LinkedArray
  | .period => W.getPeriod c
  | .upper .hour => W.getHour c
  | .upper .day => W.getDay c

/-- `ProofHash` of the end of a window. -/
def proofHash (W : BlockWorld) (c : List Hash) (l : PointLevel) (index : ℕ) : Except PointError Hash :=
  match W.getSnapshotHeaderBeforeTime c ((l.timeIndex W).index2Time index).2 with
  | none => .error .beforeTime
  | some block => .ok block

def getByIndex (W : BlockWorld) (c : List Hash) (l : PointLevel) (s : PointCaches) (index : ℕ) :
    Except PointError Point × PointCaches :=
  match l.proofHash W c index with
  | .error e => (.error e, s)
  | .ok hash => l.getByIndexWithProof W c s index hash

end PointLevel

/-- The chain changes, a point is asked for, or entries leave the period cache. -/
inductive PointAction
  | append (h : Hash)
  | rollback (n : ℕ)
  | getByIndex (l : PointLevel) (index : ℕ)
  | getByIndexWithProof (l : PointLevel) (index : ℕ) (proofHash : Hash)
  | evict (keep : ℕ → Bool)

structure PointState where
  chain : List Hash
  caches : PointCaches

namespace PointState
variable (W : BlockWorld)

def Follows (h head : Hash) : Prop :=
  W.prevHash h = head ∧ W.height h = W.height head + 1 ∧ W.timestamp head < W.timestamp h

/-- What the surroundings grant: appended blocks follow the head, the genesis block stays, and the proof is the last
block before the end of the window. -/
def Allowed (st : PointState) : PointAction → Prop
  | .append h => ∃ head rest, st.chain = head :: rest ∧ Follows W h head
  | .rollback n => n < st.chain.length
  | .getByIndexWithProof l index proofHash => l.proofHash W st.chain index = .ok proofHash
  | _ => True

def init : PointState := ⟨[W.genesis], .new⟩

def step (st : PointState) : PointAction → PointState
  | .append h => { st with chain := h :: st.chain }
  | .rollback n => { st with chain := st.chain.drop n }
  | .getByIndex l index => { st with caches := (l.getByIndex W st.chain st.caches index).2 }
  | .getByIndexWithProof l index proofHash =>
    { st with caches := (l.getByIndexWithProof W st.chain st.caches index proofHash).2 }
  | .evict keep =>
    { st with caches := { st.caches with periods := fun i => if keep i then st.caches.periods i else none } }

/-- The states of the runs in which every action is allowed. -/
inductive Reachable : PointState → Prop
  | init : Reachable (init W)
  | step {st : PointState} {a : PointAction} : Reachable st → Allowed W st a → Reachable (step W st a)

end PointState

/-! The rates of the last hour (`GetSuccessRateByHour`). -/

/-- `Rate`: the product is taken in 32 bits before it is widened. -/
def Content.rate (c : Content) : Int32 :=
  if c.expectedNum = 0 then -1
  else if c.factualNum = 0 then 0
  else .ofNat (c.factualNum * 1000000 % UInt32.size / c.expectedNum)

/-- The orders in which `range` visits the maps. -/
structure MapOrder where
  order : Sbps → List (Address × Content)
  perm (m : Sbps) : (order m).Perm m.entries

/-- What the period array replies for an index, with a proof hash or without. It is asked for each index once. -/
abbrev PeriodReader := ℕ → Option Hash → Except PointError (Option Point)

/-- Periods in an hour. -/
def hour : ℕ := 48

/-- The points the loop reads from its `i`-th turn on. -/
def hourPoints (reader : PeriodReader) (index : ℕ) : ℕ → ℕ → Option Hash → Except PointError (List Point)
  | 0, _, _ => .ok []
  | n + 1, i, prevHash =>
    if index < i then .ok []
    else
      match reader (index - i) prevHash with
      | .error e => .error e
      | .ok none => .ok []
      | .ok (some p) => (hourPoints reader index n (i + 1) (some p.prevHash)).map (p :: ·)

def getSuccessRateByHour (O : MapOrder) (reader : PeriodReader) (index : ℕ) : Except PointError SuccessRates :=
  (hourPoints reader index hour 0 none).map fun points =>
    let hourInfos := points.foldl (fun m p => (O.order p.sbps).foldl (fun m e => m.addNum e.1 e.2) m) .empty
    (O.order hourInfos).foldl (fun result e => result.set e.1 e.2.rate) .empty

end GoVite.Consensus

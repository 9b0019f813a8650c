import GoVite.Spec.Governance.Reward

/-! The methods of the governance contract by which a producer is registered, revoked and paid, and the runs of the
contract. -/

namespace GoVite.Governance
open KeyStore Consensus Function

def viteTokenId : TokenTypeId := 0x5649544520544F4B454E

def addressAsset : Address := 0x0501

structure SendBlock where
  accountAddress : Address
  amount : ℕ
  tokenId : TokenTypeId

/-- The data of a block the contract sends. -/
inductive CallData
  | none
  | reIssue (amount : ℤ) (receiveAddress : Address)
  | reIssueV2 (amount : ℤ) (receiveAddress : Address)
  deriving DecidableEq, Repr

structure CallBlock where
  toAddress : Address
  amount : ℕ
  data : CallData
  deriving DecidableEq, Repr

/-- The records these methods use. A consensus group is known by the stake height of its register condition. -/
structure GovernanceDb where
  registrations : Gid → Name → Option Registration
  hisNames : Address → Gid → Option Name
  groups : Gid → Option ℕ

namespace GovernanceDb

def setRegistration (db : GovernanceDb) (gid : Gid) (name : Name) (r : Registration) : GovernanceDb :=
  { db with registrations := update db.registrations gid (update (db.registrations gid) name (some r)) }

def setHisName (db : GovernanceDb) (addr : Address) (gid : Gid) (name : Name) : GovernanceDb :=
  { db with hisNames := update db.hisNames addr (update (db.hisNames addr) gid (some name)) }

end GovernanceDb

/-- Before the upgrade the address that withdraws rewards is not in the record, and is read as the stake address. -/
def packRegistration (isEarthUpgrade : Bool) (r : Registration) : Registration :=
  if isEarthUpgrade then r else { r with rewardWithdrawAddress := r.stakeAddress }

/-- How a receive fails: with an error, or through `DealWithErr`. The contract is then as it was. -/
inductive ReceiveError
  | returned (e : VmError)
  | panicked (e : VmError)
  deriving DecidableEq, Repr

def dealWithErr {α : Type} (x : Except VmError α) : Except ReceiveError α := x.mapError .panicked

abbrev Receipt := GovernanceDb × List CallBlock

/-- A method of the third version has no parameter for the group. -/
inductive Version
  | old (gid : Gid)
  | v3
  deriving DecidableEq, Repr

def Version.gid : Version → Gid
  | .old gid => gid
  | .v3 => snapshotGid

structure ParamRegister where
  version : Version
  sbpName : Name
  blockProducingAddress : Address
  rewardWithdrawAddress : Address

structure ParamCancelRegister where
  version : Version
  sbpName : Name

structure ParamReward where
  version : Version
  sbpName : Name
  receiveAddress : Address

section
variable (N : Network) (reader : ConsensusReader) (env : VmEnvironment)

/-- The addresses a name had so far, with the new one if it is new. -/
def addHisAddr (db : GovernanceDb) (gid : Gid) (name : Name) (addr : Address) (hisAddrList : List Address) :
    Except ReceiveError (GovernanceDb × List Address) :=
  match db.hisNames addr gid with
  | none => .ok (db.setHisName addr gid name, hisAddrList ++ [addr])
  | some hisName =>
    if hisName ≠ name then .error (.returned .invalidMethodParam) else .ok (db, hisAddrList)

/-- The check of an old registration of the name; the addresses it had. -/
def checkOld (send : SendBlock) : Option Registration → Except ReceiveError (List Address)
  | none => .ok []
  | some old => do
    if old.isActive || old.stakeAddress ≠ send.accountAddress then .error (.returned .invalidMethodParam)
    else
      let drained ← dealWithErr (checkRewardDrained N env reader old)
      if !drained then .error (.returned .rewardIsNotDrained) else .ok old.hisAddrList

/-- `MethodRegister.DoReceive`. -/
def register (db : GovernanceDb) (send : SendBlock) (param : ParamRegister) : Except ReceiveError Receipt := do
  let gid := param.version.gid
  let rewardWithdrawAddress := match param.version with
    | .v3 => param.rewardWithdrawAddress
    | .old _ => send.accountAddress
  let isLeafFork := N.isLeafUpgrade env.latestHeight
  if (!isLeafFork && send.amount ≠ sbpStakeAmountPreMainnet) || (isLeafFork && send.amount ≠ sbpStakeAmountMainnet) ||
      send.tokenId ≠ viteTokenId then .error (.returned .invalidMethodParam)
  else
    let rewardTime := if gid = snapshotGid then env.snapshotBlock.timestamp else 0
    let hisAddrList ← checkOld N reader env send (db.registrations gid param.sbpName)
    let (db, hisAddrList) ← addHisAddr db gid param.sbpName param.blockProducingAddress hisAddrList
    match db.groups gid with
    | none => .error (.returned .invalidMethodParam)
    | some stakeHeight =>
      .ok (db.setRegistration gid param.sbpName (packRegistration (N.isEarthUpgrade env.latestHeight)
        ⟨param.sbpName, param.blockProducingAddress, rewardWithdrawAddress, send.accountAddress, send.amount,
          env.snapshotBlock.height + stakeHeight, rewardTime, 0, hisAddrList⟩), [])

/-- `MethodRevoke.DoReceive`. -/
def revoke (db : GovernanceDb) (send : SendBlock) (param : ParamCancelRegister) : Except ReceiveError Receipt :=
  let gid := param.version.gid
  match db.registrations gid param.sbpName with
  | none => .error (.returned .invalidMethodParam)
  | some old => do
    if !old.isActive || old.stakeAddress ≠ send.accountAddress || env.snapshotBlock.height < old.expirationHeight then
      .error (.returned .invalidMethodParam)
    else
      let drained ← dealWithErr (checkRewardDrained N env reader old)
      .ok (db.setRegistration gid param.sbpName (packRegistration (N.isEarthUpgrade env.snapshotBlock.height)
          { old with
            amount := 0
            expirationHeight := 0
            rewardTime := if drained then -1 else old.rewardTime
            revokeTime := env.snapshotBlock.timestamp }),
        if 0 < old.amount then [⟨send.accountAddress, old.amount, .none⟩] else [])

/-- `MethodWithdrawReward.DoSend` lets only the snapshot group through. -/
def ParamReward.checked (param : ParamReward) : Bool := param.version.gid = snapshotGid

/-- `MethodWithdrawReward.DoReceive`. -/
def withdrawReward (db : GovernanceDb) (send : SendBlock) (param : ParamReward) : Except ReceiveError Receipt :=
  let gid := param.version.gid
  match db.registrations gid param.sbpName with
  | none => .error (.returned .invalidMethodParam)
  | some old => do
    if old.rewardTime = -1 ||
        (send.accountAddress ≠ old.stakeAddress && send.accountAddress ≠ old.rewardWithdrawAddress) then
      .error (.returned .invalidMethodParam)
    else
      let result ← dealWithErr (recoverCalcReward N env reader old)
      let endTime := if result.drained then -1 else result.endTime
      if endTime = old.rewardTime then .ok (db, [])
      else
        let db := db.setRegistration gid param.sbpName
          (packRegistration (N.isEarthUpgrade env.latestHeight) { old with rewardTime := endTime })
        match result.reward with
        | none => .ok (db, [])
        | some reward =>
          if 0 < reward.totalReward then
            let data := if N.isLeafUpgrade env.latestHeight then
                CallData.reIssueV2 reward.totalReward param.receiveAddress
              else CallData.reIssue reward.totalReward param.receiveAddress
            .ok (db, [⟨addressAsset, 0, data⟩])
          else .ok (db, [])

end

/-! Runs -/

inductive Request
  | register (param : ParamRegister)
  | revoke (param : ParamCancelRegister)
  | withdrawReward (param : ParamReward)

def Request.gid : Request → Gid
  | .register param => param.version.gid
  | .revoke param => param.version.gid
  | .withdrawReward param => param.version.gid

def Request.sbpName : Request → Name
  | .register param => param.sbpName
  | .revoke param => param.sbpName
  | .withdrawReward param => param.sbpName

def receive (N : Network) (reader : ConsensusReader) (env : VmEnvironment) (db : GovernanceDb) (send : SendBlock) :
    Request → Except ReceiveError Receipt
  | .register param => register N reader env db send param
  | .revoke param => revoke N reader env db send param
  | .withdrawReward param => withdrawReward N reader env db send param

/-- An amount the contract has had issued, and the rewards of days it is to consist of. -/
structure Issue where
  amount : ℤ
  rewards : List (ℕ × ℤ)
  deriving DecidableEq, Repr

def Issue.days (i : Issue) : List ℕ := i.rewards.map Prod.fst

def Issue.total (i : Issue) : ℤ := (i.rewards.map Prod.snd).sum

/-- The time of a name from a registration on: when it was revoked, the days asked for, and what was issued. -/
structure Term where
  registeredAt : ℤ
  revokedAt : Option ℤ
  coveredDays : List ℕ
  issues : List Issue
  deriving DecidableEq, Repr

def Term.issuedDays (t : Term) : List ℕ := t.issues.flatMap Issue.days

/-- The contract, what each name of the snapshot group has been through, the latest term first, and the time of the
last receive. -/
structure SbpWorld where
  db : GovernanceDb
  terms : Name → List Term
  time : ℤ

/-- Statistics of days, of which a read gives those of the days asked for, in order, as far as there are any. -/
structure SBPStatReader where
  dayStats : ℕ → ℕ → Except VmError (List DayStats)
  days : ∀ {first last details}, dayStats first last = .ok details →
    (details.map (·.index)).Sublist (List.range' first (last + 1 - first))

/-- One receive, with the statistics the consensus has at that time. -/
structure Receive where
  env : VmEnvironment
  stats : SBPStatReader
  send : SendBlock
  request : Request

def Receive.reader (N : Network) (r : Receive) : ConsensusReader := vmConsensusReader N.dayIndex r.stats.dayStats

/-- The reward of a name for the day of the statistics. -/
def rewardOf (N : Network) (env : VmEnvironment) (reader : ConsensusReader) (name : Name) (detail : DayStats) : ℤ :=
  match getSnapshotGroupStakeAmount N env reader detail.index 0 with
  | .error _ => 0
  | .ok (stakeAmount, _) => ((calcRewardByDayDetail detail name stakeAmount).toOption.map (·.totalReward)).getD 0

/-- What the contract has the asset contract issue. -/
def CallData.issued : CallData → Option ℤ
  | .none => .none
  | .reIssue amount _ => some amount
  | .reIssueV2 amount _ => some amount

/-- Each amount issued, next to the rewards that were asked for. -/
def issuesOf (calls : List CallBlock) (rewards : List (ℕ × ℤ)) : List Issue :=
  (calls.filterMap (·.data.issued)).map (⟨·, rewards⟩)

namespace SbpWorld

def new (groups : Gid → Option ℕ) : SbpWorld := ⟨⟨fun _ _ => none, fun _ _ => none, groups⟩, fun _ => [], 0⟩

/-- The days a withdrawal asks the rewards of. -/
def daysOf (N : Network) (reader : ConsensusReader) (current : SnapshotBlock) : Option Registration → List ℕ
  | none => []
  | some old =>
    match rewardPeriod N reader old current with
    | .ok (some p) => p.days
    | _ => []

/-- The statistics of some days in a row. -/
def detailsOf (stats : SBPStatReader) (days : List ℕ) : List DayStats :=
  match days.head?, days.getLast? with
  | some first, some last => (stats.dayStats first last).toOption.getD []
  | _, _ => []

section
variable (N : Network)

/-- The rewards of a name for some days in a row; a day without statistics has none. -/
def rewardsOf (r : Receive) (name : Name) (days : List ℕ) : List (ℕ × ℤ) :=
  days.map fun d =>
    (d, (((detailsOf r.stats days).find? (·.index = d)).map (rewardOf N r.env (r.reader N) name)).getD 0)

/-- What a successful receive means for the name. -/
def nextTerms (w : SbpWorld) (r : Receive) (calls : List CallBlock) (terms : List Term) : List Term :=
  match r.request with
  | .register _ => ⟨r.env.snapshotBlock.timestamp, none, [], issuesOf calls []⟩ :: terms
  | .revoke _ => terms.modifyHead fun t => { t with
      revokedAt := some r.env.snapshotBlock.timestamp
      issues := t.issues ++ issuesOf calls [] }
  | .withdrawReward param =>
    let days := daysOf N (r.reader N) r.env.snapshotBlock (w.db.registrations snapshotGid param.sbpName)
    terms.modifyHead fun t => { t with
      coveredDays := t.coveredDays ++ days
      issues := t.issues ++ issuesOf calls (rewardsOf N r param.sbpName days) }

/-- A receive that fails leaves the contract as it is. -/
def step (w : SbpWorld) (r : Receive) : SbpWorld :=
  match receive N (r.reader N) r.env w.db r.send r.request with
  | .error _ => { w with time := r.env.snapshotBlock.timestamp }
  | .ok (db, calls) =>
    ⟨db, if r.request.gid = snapshotGid then
        update w.terms r.request.sbpName (w.nextTerms N r calls (w.terms r.request.sbpName))
      else w.terms, r.env.snapshotBlock.timestamp⟩

/-- Times never decrease, and a withdrawal has been let through when it was sent. -/
def Allows (w : SbpWorld) (r : Receive) : Prop :=
  w.time ≤ r.env.snapshotBlock.timestamp ∧ ∀ param, r.request = .withdrawReward param → param.checked

/-- The states of the runs whose steps all meet `P`. -/
inductive Reachable (P : SbpWorld → Receive → Prop) : SbpWorld → Prop
  | new (groups : Gid → Option ℕ) : Reachable P (new groups)
  | step {w : SbpWorld} {r : Receive} (hw : Reachable P w) (ha : w.Allows r) (hP : P w r) :
      Reachable P (w.step N r)

end

end SbpWorld

end GoVite.Governance

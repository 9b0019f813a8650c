import GoVite.Spec.Governance.Sbp

/-! The stakes of the quota contract (`vm/contracts/contracts_quota.go`, `vm/contracts/abi/abi_quota.go`): records of
two formats, the sum of each beneficiary, and the old and new methods. -/

namespace GoVite.Quota
open KeyStore Consensus

def stakeAmountMin : ℕ := 134 * Governance.attovPerVite
def stakeHeightMax : ℕ := 3600 * 24 * 365

def noDelegateAddress : Address := 0
def noBid : UInt8 := 0

/-- A record as the variables `stakeInfo` and `stakeInfoV2` pack it. -/
inductive StakeRecord
  | stakeInfo (amount expirationHeight : ℕ) (beneficiary : Address) (isDelegated : Bool) (delegateAddress : Address)
    (bid : UInt8)
  | stakeInfoV2 (amount expirationHeight : ℕ) (beneficiary : Address) (id : Hash)
  deriving DecidableEq

structure StakeInfo where
  amount : ℕ
  expirationHeight : ℕ
  beneficiary : Address
  isDelegated : Bool
  delegateAddress : Address
  bid : UInt8
  id : Option Hash
  deriving DecidableEq

/-- The fields a format does not have are left at their zero values. -/
def unpackStakeInfo : StakeRecord → StakeInfo
  | .stakeInfo amount expirationHeight beneficiary isDelegated delegateAddress bid =>
    ⟨amount, expirationHeight, beneficiary, isDelegated, delegateAddress, bid, none⟩
  | .stakeInfoV2 amount expirationHeight beneficiary id =>
    ⟨amount, expirationHeight, beneficiary, false, noDelegateAddress, noBid, some id⟩

/-- The key of a record: the address of the staker and an index, ordered like its bytes. -/
abbrev StakeInfoKey := Address ×ₗ ℕ

def getStakeInfoKey (addr : Address) (index : ℕ) : StakeInfoKey := toLex (addr, index)

def getStakeAddrFromStakeInfoKey (key : StakeInfoKey) : Address := (ofLex key).1

def getIndexFromStakeInfoKey (key : StakeInfoKey) : ℕ := (ofLex key).2

/-- The keys of records, of ids and of beneficiaries have 29, 32 and 21 bytes. -/
structure QuotaDb where
  stakeInfos : Store StakeInfoKey StakeRecord := .empty
  ids : Store Hash StakeInfoKey := .empty
  beneficials : Store Address ℕ := .empty

/-- What a receive is run at, and the blocks a stake is locked for. -/
structure VmEnvironment where
  stakeHeight : ℕ
  height : ℕ
  snapshotHeight : ℕ

structure SendBlock where
  accountAddress : Address
  hash : Hash
  amount : ℕ
  tokenId : Governance.TokenTypeId

inductive CallData
  | none
  | delegateStake (stakeAddress beneficiary : Address) (amount : ℕ) (bid : UInt8) (success : Bool)
  | cancelDelegateStake (stakeAddress beneficiary : Address) (amount : ℕ) (bid : UInt8) (success : Bool)
  | stakeWithCallback (id : Hash) (success : Bool)
  | cancelStakeWithCallback (id : Hash) (success : Bool)
  deriving DecidableEq

structure CallBlock where
  toAddress : Address
  amount : ℕ
  data : CallData
  deriving DecidableEq

abbrev Receipt := QuotaDb × List CallBlock

namespace QuotaDb
variable (db : QuotaDb)

/-- The iterator over the records of a staker. -/
def stakeInfosOf (stakeAddr : Address) : List (StakeInfoKey × StakeRecord) :=
  db.stakeInfos.entries.filter fun e => getStakeAddrFromStakeInfoKey e.1 = stakeAddr

def maxIndex (stakeAddr : Address) : ℕ :=
  (db.stakeInfosOf stakeAddr).foldl (fun m e => max m (getIndexFromStakeInfoKey e.1)) 0

def getNextStakeInfoKey (stakeAddr : Address) (currentIndex : ℕ) : StakeInfoKey :=
  if db.maxIndex stakeAddr < currentIndex then getStakeInfoKey stakeAddr currentIndex
  else getStakeInfoKey stakeAddr (db.maxIndex stakeAddr + 1)

/-- The first record of the staker with these fields, or where to put one. -/
def getStakeInfo (stakeAddr beneficiary : Address) (isDelegated : Bool) (delegateAddr : Address)
    (bid : UInt8) (currentIndex : ℕ) : StakeInfoKey × Option StakeInfo :=
  match (db.stakeInfosOf stakeAddr).find? fun e =>
    let info := unpackStakeInfo e.2
    info.beneficiary = beneficiary && info.isDelegated = isDelegated && info.delegateAddress = delegateAddr &&
      info.bid = bid with
  | some e => (e.1, some (unpackStakeInfo e.2))
  | none => (db.getNextStakeInfoKey stakeAddr currentIndex, none)

def addBeneficial (beneficiary : Address) (amount : ℕ) : QuotaDb :=
  { db with beneficials := db.beneficials.set beneficiary (db.beneficials.getD beneficiary 0 + amount) }

def subBeneficial (beneficiary : Address) (amount : ℕ) : Except Governance.VmError QuotaDb :=
  match db.beneficials.get? beneficiary with
  | none => .error .invalidMethodParam
  | some old =>
    if old < amount then .error .invalidMethodParam
    else .ok { db with beneficials :=
      if old - amount = 0 then db.beneficials.erase beneficiary else db.beneficials.set beneficiary (old - amount) }

end QuotaDb

section
variable (env : VmEnvironment) (db : QuotaDb) (send : SendBlock)

def getStakeExpirationHeight (height : ℕ) : ℕ := env.snapshotHeight + height

def stakeNotDue (info : StakeInfo) : Bool := env.snapshotHeight < info.expirationHeight

/-- `MethodStake.DoReceive`. -/
def stake (beneficiary : Address) : Receipt :=
  let (key, old) := db.getStakeInfo send.accountAddress beneficiary false noDelegateAddress noBid env.height
  let amount := (old.map (·.amount)).getD 0 + send.amount
  let record := StakeRecord.stakeInfo amount (getStakeExpirationHeight env env.stakeHeight) beneficiary false
    noDelegateAddress noBid
  (({ db with stakeInfos := db.stakeInfos.set key record } : QuotaDb).addBeneficial beneficiary send.amount, [])

/-- `MethodDelegateStake.DoReceive`: the record stays locked for as long as it was. -/
def delegateStake (stakeAddress beneficiary : Address) (bid : UInt8) (stakeHeight : ℕ) : Receipt :=
  let (key, old) := db.getStakeInfo stakeAddress beneficiary true send.accountAddress bid env.height
  let amount := (old.map (·.amount)).getD 0 + send.amount
  let oldExpirationHeight := (old.map (·.expirationHeight)).getD 0
  let record := StakeRecord.stakeInfo amount (max oldExpirationHeight (getStakeExpirationHeight env stakeHeight))
    beneficiary true send.accountAddress bid
  (({ db with stakeInfos := db.stakeInfos.set key record } : QuotaDb).addBeneficial beneficiary send.amount,
    [⟨send.accountAddress, 0, .delegateStake stakeAddress beneficiary send.amount bid true⟩])

/-- What the two methods that cancel by fields do: a part of the amount is taken from the record found and from the sum
of its beneficiary. -/
def cancelPart (found : StakeInfoKey × Option StakeInfo) (beneficiary : Address) (amount : ℕ)
    (pack : StakeInfo → ℕ → StakeRecord) : Except Governance.VmError QuotaDb :=
  match found.2 with
  | none => .error .invalidMethodParam
  | some old =>
    if stakeNotDue env old || old.amount < amount || old.id.isSome then .error .invalidMethodParam
    else
      let left := old.amount - amount
      if left ≠ 0 && left < stakeAmountMin then .error .invalidMethodParam
      else do
        let db ← db.subBeneficial beneficiary amount
        .ok { db with stakeInfos :=
          if left = 0 then db.stakeInfos.erase found.1 else db.stakeInfos.set found.1 (pack old left) }

/-- `MethodCancelStake.DoReceive`. -/
def cancelStake (beneficiary : Address) (amount : ℕ) : Except Governance.VmError Receipt := do
  let db ← cancelPart env db
    (db.getStakeInfo send.accountAddress beneficiary false noDelegateAddress noBid env.height) beneficiary amount
    fun old left => .stakeInfo left old.expirationHeight old.beneficiary false noDelegateAddress noBid
  .ok (db, [⟨send.accountAddress, amount, .none⟩])

/-- `MethodCancelDelegateStake.DoReceive`. -/
def cancelDelegateStake (stakeAddress beneficiary : Address) (amount : ℕ)
    (bid : UInt8) : Except Governance.VmError Receipt := do
  let db ← cancelPart env db
    (db.getStakeInfo stakeAddress beneficiary true send.accountAddress bid env.height) beneficiary amount
    fun old left => .stakeInfo left old.expirationHeight old.beneficiary true old.delegateAddress bid
  .ok (db, [⟨send.accountAddress, amount, .cancelDelegateStake stakeAddress beneficiary amount bid true⟩])

/-- `MethodStakeV3.DoReceive`, which is run with and without a callback. -/
def stakeV3 (beneficiary : Address) (callbackHeight : Option ℕ) : Receipt :=
  let key := db.getNextStakeInfoKey send.accountAddress env.height
  let stakeHeight := callbackHeight.getD env.stakeHeight
  let record := StakeRecord.stakeInfoV2 send.amount (getStakeExpirationHeight env stakeHeight) beneficiary send.hash
  let db := ({ db with
    stakeInfos := db.stakeInfos.set key record
    ids := db.ids.set send.hash key } : QuotaDb).addBeneficial beneficiary send.amount
  (db, if callbackHeight.isSome then [⟨send.accountAddress, 0, .stakeWithCallback send.hash true⟩] else [])

/-- `MethodCancelStakeV3.DoReceive`. -/
def cancelStakeV3 (id : Hash) (callback : Bool) : Except Governance.VmError Receipt :=
  match db.ids.get? id with
  | none => .error .invalidMethodParam
  | some key =>
    match db.stakeInfos.get? key with
    | none => .error .invalidMethodParam
    | some record =>
      let info := unpackStakeInfo record
      if getStakeAddrFromStakeInfoKey key ≠ send.accountAddress || stakeNotDue env info then
        .error .invalidMethodParam
      else do
        let db ← db.subBeneficial info.beneficiary info.amount
        .ok ({ db with stakeInfos := db.stakeInfos.erase key, ids := db.ids.erase id },
          [⟨send.accountAddress, info.amount, if callback then .cancelStakeWithCallback id true else .none⟩])

end

/-! Runs -/

/-- `Pledge` and `Stake`, and the other old names, are run by the same methods. -/
inductive Request
  | stake (beneficiary : Address)
  | cancelStake (beneficiary : Address) (amount : ℕ)
  | delegateStake (stakeAddress beneficiary : Address) (bid : UInt8) (stakeHeight : ℕ)
  | cancelDelegateStake (stakeAddress beneficiary : Address) (amount : ℕ) (bid : UInt8)
  | stakeForQuota (beneficiary : Address)
  | stakeForQuotaWithCallback (beneficiary : Address) (stakeHeight : ℕ)
  | cancelQuotaStaking (id : Hash)
  | cancelQuotaStakingWithCallback (id : Hash)

/-- What `DoSend` of the method lets through. -/
def doSend (stakeHeight : ℕ) (send : SendBlock) : Request → Bool
  | .stake _ | .stakeForQuota _ => send.tokenId = Governance.viteTokenId && stakeAmountMin ≤ send.amount
  | .delegateStake _ _ _ height | .stakeForQuotaWithCallback _ height =>
    send.tokenId = Governance.viteTokenId && stakeAmountMin ≤ send.amount && stakeHeight ≤ height &&
      height ≤ stakeHeightMax
  | .cancelStake _ amount | .cancelDelegateStake _ _ amount _ => send.amount = 0 && stakeAmountMin ≤ amount
  | .cancelQuotaStaking _ | .cancelQuotaStakingWithCallback _ => send.amount = 0

def receive (env : VmEnvironment) (db : QuotaDb) (send : SendBlock) : Request → Except Governance.VmError Receipt
  | .stake beneficiary => .ok (stake env db send beneficiary)
  | .cancelStake beneficiary amount => cancelStake env db send beneficiary amount
  | .delegateStake stakeAddress beneficiary bid stakeHeight =>
    .ok (delegateStake env db send stakeAddress beneficiary bid stakeHeight)
  | .cancelDelegateStake stakeAddress beneficiary amount bid =>
    cancelDelegateStake env db send stakeAddress beneficiary amount bid
  | .stakeForQuota beneficiary => .ok (stakeV3 env db send beneficiary none)
  | .stakeForQuotaWithCallback beneficiary stakeHeight => .ok (stakeV3 env db send beneficiary (some stakeHeight))
  | .cancelQuotaStaking id => cancelStakeV3 env db send id false
  | .cancelQuotaStakingWithCallback id => cancelStakeV3 env db send id true

/-- The contract at a height, and what it received with stakes and paid with cancels so far. -/
structure QuotaWorld where
  db : QuotaDb
  height : ℕ
  received : ℕ
  paid : ℕ

structure Receive where
  env : VmEnvironment
  send : SendBlock
  request : Request

namespace QuotaWorld

def new : QuotaWorld := ⟨{}, 0, 0, 0⟩

/-- A receive that fails leaves the contract as it is, and what was sent is refunded. -/
def step (w : QuotaWorld) (r : Receive) : QuotaWorld :=
  match receive r.env w.db r.send r.request with
  | .error _ => { w with height := r.env.height }
  | .ok (db, calls) => ⟨db, r.env.height, w.received + r.send.amount, w.paid + (calls.map (·.amount)).sum⟩

/-- The heights of the contract's blocks increase, and the request has been let through when it was sent. -/
def Allows (w : QuotaWorld) (r : Receive) : Prop :=
  w.height < r.env.height ∧ doSend r.env.stakeHeight r.send r.request = true

inductive Reachable : QuotaWorld → Prop
  | new : Reachable new
  | step {w : QuotaWorld} {r : Receive} (hw : Reachable w) (ha : w.Allows r) : Reachable (w.step r)

end QuotaWorld

end GoVite.Quota

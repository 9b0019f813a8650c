import GoVite.Spec.Dex.Schedule

/-! Stakes of the second version (`fund_stake.go`, `fund_storage.go`, `contracts_dex_fund.go`): the fund contract keeps
a record of a stake until the quota contract says that it failed or was cancelled. -/

namespace GoVite.Dex
open KeyStore

def stakeForVIPAmount : ℕ := commonTokenPow * 10000
def stakeForSuperVIPAmount : ℕ := commonTokenPow * 1000000

/-- A call to the quota contract. The hash of the block that stakes is the id of the stake. -/
inductive QuotaCall
  | stakeWithCallback (id : Hash) (amount stakeHeight : ℕ)
  | cancelStakeWithCallback (id : Hash)
  deriving DecidableEq, Repr

section Records
variable (db : FundDb)

/-- The id without its first three bytes, which are taken by the prefix of the key. -/
def delegateStakeInfoKey (id : Hash) : ℕ := id % 2 ^ (8 * 29)

def getDelegateStakeInfo (id : Hash) : Option DelegateStakeInfo :=
  db.delegateStakeInfos.get? (delegateStakeInfoKey id)

def putDelegateStakeInfo (id : Hash) (info : DelegateStakeInfo) : FundDb :=
  { db with delegateStakeInfos := db.delegateStakeInfos.set (delegateStakeInfoKey id) info }

def saveDelegateStakeInfo (id : Hash) (stakeType : StakeType) (address principal : Address) (amount : ℕ) : FundDb :=
  putDelegateStakeInfo db id { stakeType := stakeType, address := address, principal := principal, amount := amount }

def confirmDelegateStakeInfo (id : Hash) (info : DelegateStakeInfo) (serialNo : ℕ) : FundDb :=
  putDelegateStakeInfo db id { info with status := .confirmed, serialNo := serialNo }

def deleteDelegateStakeInfo (id : Hash) : FundDb :=
  { db with delegateStakeInfos := db.delegateStakeInfos.erase (delegateStakeInfoKey id) }

/-- The storage and the serial number of the index. -/
def saveDelegateStakeAddressIndex (id : Hash) (stakeType : StakeType) (address : Address) : FundDb × ℕ :=
  let serialNo := ((db.delegateStakeIndexSerialNos.get? address).map (· + 1)).getD 1
  ({ db with
      delegateStakeIndexSerialNos := db.delegateStakeIndexSerialNos.set address serialNo
      delegateStakeAddressIndexes := db.delegateStakeAddressIndexes.set (toLex (address, serialNo)) (stakeType, id) },
    serialNo)

def deleteDelegateStakeAddressIndex (address : Address) (serialNo : ℕ) : FundDb :=
  { db with delegateStakeAddressIndexes := db.delegateStakeAddressIndexes.erase (toLex (address, serialNo)) }

def saveMiningStakedV2Amount (address : Address) (amount : ℕ) : FundDb :=
  { db with miningStakedV2Amounts :=
      if amount = 0 then db.miningStakedV2Amounts.erase address else db.miningStakedV2Amounts.set address amount }

end Records

section VIP

/-- `ReduceVipStakingHash`: the last hash moves to the place of the one that is removed. -/
def reduceVipStakingHash (stakingHashes : List Hash) (id : Hash) : Option (List Hash) :=
  (stakingHashes.idxOf? id).map fun i => (stakingHashes.set i (stakingHashes.getLast?.getD id)).dropLast

/-- A confirmed stake of one of the two kinds of VIP. A second one is cancelled at once. -/
def addVIPStaking (db : FundDb) (stakings : Store Address VIPStaking) (address : Address) (id : Hash) :
    Except DexError (Store Address VIPStaking × List QuotaCall) :=
  match stakings.get? address with
  | some vipStaking => .ok (stakings.set address { vipStaking with
      stakedTimes := vipStaking.stakedTimes + 1
      stakingHashes := vipStaking.stakingHashes ++ [id] }, [.cancelStakeWithCallback id])
  | none =>
    if db.dexTimestamp = 0 then .error .notSetTimestamp
    else .ok (stakings.set address ⟨db.dexTimestamp, 1, [id]⟩, [])

/-- A cancelled stake of one of the two kinds of VIP. -/
def removeVIPStaking (stakings : Store Address VIPStaking) (address : Address) (id : Hash) (notExists : DexError) :
    Except DexError (Store Address VIPStaking) :=
  match stakings.get? address with
  | none => .error notExists
  | some vipStaking =>
    if vipStaking.stakedTimes = 1 then .ok (stakings.erase address)
    else match reduceVipStakingHash vipStaking.stakingHashes id with
      | none => .error .invalidIdForStakeCallback
      | some stakingHashes => .ok (stakings.set address { vipStaking with
          stakedTimes := vipStaking.stakedTimes - 1
          stakingHashes := stakingHashes })

end VIP

section Requests
variable (db : FundDb)

/-- The checks of `stakeRequest` on the type. -/
def checkStakeType (stakeType : StakeType) (address principal : Address) : Except DexError Unit :=
  match stakeType with
  | .mining => .ok ()
  | .vip => if db.vipStaking address then .error .vipStakingExists else .ok ()
  | .superVIP => if db.superVIPStaking address then .error .superVipStakingExists else .ok ()
  | .principalSuperVIP => if db.superVIPStaking principal then .error .superVipStakingExists else .ok ()

/-- `HandleStakeAction` for a stake since the earth upgrade. -/
def handleStakeAction (stakeType : StakeType) (address principal : Address) (amount stakeHeight : ℕ)
    (id : Hash) : Except DexError (FundDb × List QuotaCall) := do
  let _ ← checkStakeType db stakeType address principal
  let r ← reduceAccount db address viteTokenId amount
  .ok (saveDelegateStakeInfo r.1 id stakeType address principal amount, [.stakeWithCallback id amount stakeHeight])

/-- The heights for which stakes are bound. -/
structure StakeParams where
  stakeHeight : ℕ
  dexVipStakeHeight : ℕ
  dexSuperVipStakeHeight : ℕ

def methodStakeForMining (params : StakeParams) (db : FundDb) (address : Address) (amount : ℕ) (id : Hash) :
    Except DexError (FundDb × List QuotaCall) :=
  handleStakeAction db .mining address 0 amount
    (if !db.heightPoint.isDexMiningUpgrade && db.heightPoint.isEarthUpgrade then 1 else params.stakeHeight) id

def methodStakeForVIP (params : StakeParams) (db : FundDb) (address : Address) (id : Hash) :
    Except DexError (FundDb × List QuotaCall) :=
  handleStakeAction db .vip address 0 stakeForVIPAmount params.dexVipStakeHeight id

def methodStakeForSVIP (params : StakeParams) (db : FundDb) (address : Address) (id : Hash) :
    Except DexError (FundDb × List QuotaCall) :=
  handleStakeAction db .superVIP address 0 stakeForSuperVIPAmount params.dexSuperVipStakeHeight id

def methodStakeForPrincipalSVIP (params : StakeParams) (db : FundDb) (address principal : Address) (id : Hash) :
    Except DexError (FundDb × List QuotaCall) :=
  handleStakeAction db .principalSuperVIP address principal stakeForSuperVIPAmount params.dexSuperVipStakeHeight id

/-- `MethodDexFundCancelStakeById.DoReceive`. -/
def doCancelStakeV2 (address : Address) (id : Hash) : Except DexError (List QuotaCall) :=
  match getDelegateStakeInfo db id with
  | none => .error .stakingInfoByIdNotExists
  | some info =>
    if info.status ≠ .confirmed then .error .stakingInfoByIdNotExists
    else if info.address ≠ address then .error .onlyOwnerAllow
    else .ok [.cancelStakeWithCallback id]

end Requests

section StakeCallback

/-- What the success of a stake changes, by its type. -/
def onStakeSuccess (db : FundDb) (reader : ConsensusReader) (id : Hash) (info : DelegateStakeInfo) :
    Except DexError (FundDb × List QuotaCall) :=
  match info.stakeType with
  | .mining => do
    let stakedAmount := db.miningStakedV2Amounts.getD info.address 0 + info.amount
    let db ← doChangeMiningStakedAmount (saveMiningStakedV2Amount db info.address stakedAmount) reader info.address
      info.amount (db.miningStakedAmounts.getD info.address 0 + stakedAmount)
    .ok (db, [])
  | .vip => do
    let r ← addVIPStaking db db.vipStakings info.address id
    .ok ({ db with vipStakings := r.1 }, r.2)
  | .superVIP => do
    let r ← addVIPStaking db db.superVIPStakings info.address id
    .ok ({ db with superVIPStakings := r.1 }, r.2)
  | .principalSuperVIP => do
    let r ← addVIPStaking db db.superVIPStakings info.principal id
    .ok ({ db with superVIPStakings := r.1 }, r.2)

/-- The checks of the amount that comes back with a failure. That for mining is the wrong way round: it
refuses the amount that was staked. -/
def checkFailedAmount (info : DelegateStakeInfo) (amount : ℕ) : Except DexError Unit :=
  match info.stakeType with
  | .mining => if info.amount = amount then .error .invalidAmountForStakeCallback else .ok ()
  | .vip => if stakeForVIPAmount ≠ amount then .error .invalidAmountForStakeCallback else .ok ()
  | .superVIP | .principalSuperVIP =>
    if stakeForSuperVIPAmount ≠ amount then .error .invalidAmountForStakeCallback else .ok ()

/-- `MethodDexFundDelegateStakeCallbackV2.DoReceive`; the amount is that of the block. -/
def methodDelegateStakeCallbackV2 (db : FundDb) (reader : ConsensusReader) (id : Hash) (success : Bool) (amount : ℕ) :
    Except DexError (FundDb × List QuotaCall) :=
  match getDelegateStakeInfo db id with
  | none => .error .stakingInfoByIdNotExists
  | some info =>
    if success then do
      let r ← onStakeSuccess db reader id info
      let index := saveDelegateStakeAddressIndex r.1 id info.stakeType info.address
      .ok (confirmDelegateStakeInfo index.1 id info index.2, r.2)
    else do
      let _ ← checkFailedAmount info amount
      .ok (deleteDelegateStakeInfo (depositAccount db info.address viteTokenId amount).1 id, [])

end StakeCallback

section CancelCallback

/-- What the cancellation of a stake changes besides the account, by its type. -/
def onCancelSuccess (db : FundDb) (reader : ConsensusReader) (id : Hash) (info : DelegateStakeInfo) (amount : ℕ) :
    Except DexError FundDb :=
  match info.stakeType with
  | .mining =>
    if info.amount ≠ amount then .error .invalidAmountForStakeCallback
    else
      let stakedAmount := db.miningStakedV2Amounts.getD info.address 0
      if stakedAmount < amount then .error .invalidAmountForStakeCallback
      else do
        let leaved := stakedAmount - amount
        let db ← addCancelStake (saveMiningStakedV2Amount db info.address leaved) reader info.address amount
        doChangeMiningStakedAmount db reader info.address (-amount) (db.miningStakedAmounts.getD info.address 0 + leaved)
  | .vip =>
    if stakeForVIPAmount ≠ amount then .error .invalidAmountForStakeCallback
    else do
      let stakings ← removeVIPStaking db.vipStakings info.address id .vipStakingNotExists
      .ok { db with vipStakings := stakings }
  | .superVIP =>
    if stakeForSuperVIPAmount ≠ amount then .error .invalidAmountForStakeCallback
    else do
      let stakings ← removeVIPStaking db.superVIPStakings info.address id .superVIPStakingNotExists
      .ok { db with superVIPStakings := stakings }
  | .principalSuperVIP =>
    if stakeForSuperVIPAmount ≠ amount then .error .invalidAmountForStakeCallback
    else do
      let stakings ← removeVIPStaking db.superVIPStakings info.principal id .superVIPStakingNotExists
      .ok { db with superVIPStakings := stakings }

/-- `ScheduleCancelStake` where its error is dropped. -/
def scheduleCancelStakeAnyway (db : FundDb) (address : Address) (amount : ℕ) : FundDb :=
  match scheduleCancelStake db address amount with
  | .ok r => r.1
  | .error _ => db

/-- A cancelled stake for mining is scheduled, the others are available again. -/
def payBackStake (db : FundDb) (info : DelegateStakeInfo) (amount : ℕ) : FundDb :=
  match info.stakeType with
  | .mining => scheduleCancelStakeAnyway db info.address amount
  | .vip | .superVIP | .principalSuperVIP => (depositAccount db info.address viteTokenId amount).1

/-- `MethodDexFundCancelDelegateStakeCallbackV2.DoReceive`; the amount is that of the block. -/
def methodCancelDelegateStakeCallbackV2 (db : FundDb) (reader : ConsensusReader) (id : Hash) (success : Bool) (amount : ℕ) :
    Except DexError FundDb :=
  match getDelegateStakeInfo db id with
  | none => .error .stakingInfoByIdNotExists
  | some info =>
    if success then do
      let db ← onCancelSuccess db reader id info amount
      .ok (deleteDelegateStakeAddressIndex (deleteDelegateStakeInfo (payBackStake db info amount) id) info.address
        info.serialNo)
    else .ok db

end CancelCallback
end GoVite.Dex

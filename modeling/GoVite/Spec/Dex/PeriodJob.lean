import GoVite.Spec.Dex.Mine
import GoVite.Spec.Dex.Schedule

/-! The jobs of a period (`MethodDexFundTriggerPeriodJob` in `contracts_dex_fund.go`), each done once for each period,
in order. -/

namespace GoVite.Dex
open KeyStore

/-- The numbers of the jobs. -/
def feeDividendJob : ℕ := 1
def operatorFeeDividendJob : ℕ := 2
def mineVxForFeeJob : ℕ := 3
def mineVxForStakingJob : ℕ := 4
def mineVxForMakerAndMaintainerJob : ℕ := 5
def finishVxUnlockJob : ℕ := 6
def finishCancelMiningStakeJob : ℕ := 7

section Mining
variable (A : Arith) (db : FundDb) (reader : ConsensusReader) (periodId : ℕ)

/-- The jobs that mine return the storage, what they left of the pool, and what is to be put back. -/
def runMineVxForFeeJob : Except DexError (FundDb × ℕ × ℕ) :=
  if db.vxMinePool = 0 then .error .noVxAvailable
  else do
    let r ← getVxToMineByPeriodId db periodId
    let amts := getVxAmountsForEqualItems A r.2 db.vxMinePool (feeMineRateArr db.heightPoint)
    let mined ← doMineVxForFee A r.1 reader periodId (itemOf amts.1)
    .ok (mined.1, amts.2, mined.2)

def runMineVxForStakingJob : Except DexError (FundDb × ℕ × ℕ) :=
  if db.vxMinePool = 0 then .error .noVxAvailable
  else do
    let r ← getVxToMineByPeriodId db periodId
    let amt := getVxAmountToMine A r.2 db.vxMinePool (feeStakingMineRate db.heightPoint)
    let mined ← doMineVxForStaking A r.1 reader periodId amt.1
    .ok (mined.1, amt.2, mined.2)

def runMineVxForMakerAndMaintainerJob : Except DexError (FundDb × ℕ × ℕ) :=
  if db.vxMinePool = 0 then .error .noVxAvailable
  else do
    let r ← getVxToMineByPeriodId db periodId
    let amts := getVxAmountsForEqualItems A r.2 db.vxMinePool (makerAndMaintainerArr db.heightPoint)
    let db ← doMineVxForMakerMineAndMaintainer r.1 reader periodId (itemOf amts.1)
    .ok (db, amts.2, 0)

end Mining

/-- What is left of the pool is saved, with the refund. -/
def saveVxMinePool (r : FundDb × ℕ × ℕ) : FundDb := { r.1 with vxMinePool := r.2.1 + r.2.2 }

/-- The job proper, without the checks. -/
def runPeriodJob (A : Arith) (db : FundDb) (reader : ConsensusReader) (bizType periodId : ℕ) :
    Except DexError (FundDb × List SendBlock) :=
  if bizType = feeDividendJob then doFeesDividend A db periodId
  else if bizType = operatorFeeDividendJob then .ok (doOperatorFeesDividend db periodId, [])
  else if bizType = finishVxUnlockJob then (doFinishVxUnlock db periodId).map fun db => (db, [])
  else if bizType = finishCancelMiningStakeJob then (doFinishCancelMiningStake db periodId).map fun db => (db, [])
  else if bizType = mineVxForFeeJob then (runMineVxForFeeJob A db reader periodId).map fun r => (saveVxMinePool r, [])
  else if bizType = mineVxForStakingJob then
    (runMineVxForStakingJob A db reader periodId).map fun r => (saveVxMinePool r, [])
  else if bizType = mineVxForMakerAndMaintainerJob then
    (runMineVxForMakerAndMaintainerJob A db reader periodId).map fun r => (saveVxMinePool r, [])
  else .ok (db, [])

def saveLastJobPeriodId (db : FundDb) (bizType periodId : ℕ) : FundDb :=
  { db with lastJobPeriodIds := Function.update db.lastJobPeriodIds bizType periodId }

def methodTriggerPeriodJob (A : Arith) (db : FundDb) (reader : ConsensusReader) (address : Address) (bizType periodId : ℕ) :
    Except DexError (FundDb × List SendBlock) :=
  if db.periodJobTrigger ≠ some address then .error .invalidSourceAddress
  else do
    let currentPeriodId ← db.getCurrentPeriodId reader
    let lastPeriodId := db.lastJobPeriodIds bizType
    if currentPeriodId ≤ periodId then .error .jobPeriodNotBeforeCurrent
    else if 0 < lastPeriodId ∧ periodId ≠ lastPeriodId + 1 then .error .jobPeriodNotExpected
    else do
      let r ← runPeriodJob A db reader bizType periodId
      .ok (saveLastJobPeriodId r.1 bizType periodId, r.2)

end GoVite.Dex

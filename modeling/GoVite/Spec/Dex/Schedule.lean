import GoVite.Spec.Dex.Accounts

/-! Locking VX for dividends, and what is given back seven periods later: unlocked VX and cancelled stakes
(`fund_storage.go`, `fund_finish_pendings.go`, `contracts_dex_fund.go`), both as a list of amounts by period. -/

namespace GoVite.Dex
open KeyStore

def schedulePeriods : ℕ := 7

section Lists

/-- An amount of the current period, which may have an entry already. -/
def addScheduled (scheduled : List AmountByPeriod) (currentPeriodId amount : ℕ) : List AmountByPeriod :=
  match scheduled.getLast? with
  | some last =>
    if last.period = currentPeriodId then replaceLast scheduled (last.amount + amount)
    else scheduled ++ [⟨currentPeriodId, amount⟩]
  | none => [⟨currentPeriodId, amount⟩]

/-- An empty list is deleted. -/
def updateScheduled (store : Store Address (List AmountByPeriod)) (address : Address) (scheduled : List AmountByPeriod) :
    Store Address (List AmountByPeriod) :=
  if scheduled = [] then store.erase address else store.set address scheduled

/-- The entries in front that are due in the period. The periods are days, far from overflowing. -/
def dueEntries (scheduled : List AmountByPeriod) (periodId : ℕ) : List AmountByPeriod :=
  scheduled.takeWhile fun e => e.period + schedulePeriods ≤ periodId

end Lists

/-- Where a list is kept, and how an account gets what is due. -/
structure ScheduleKind where
  scheduled : FundDb → Store Address (List AmountByPeriod)
  save : FundDb → Store Address (List AmountByPeriod) → FundDb
  finish : FundDb → Address → ℕ → Except DexError (FundDb × Account)

def vxUnlockKind : ScheduleKind where
  scheduled := FundDb.vxUnlocks
  save db vxUnlocks := { db with vxUnlocks := vxUnlocks }
  finish := finishVxUnlockForDividend

def cancelStakeKind : ScheduleKind where
  scheduled := FundDb.cancelStakes
  save db cancelStakes := { db with cancelStakes := cancelStakes }
  finish := finishCancelStake

namespace ScheduleKind

def add (k : ScheduleKind) (db : FundDb) (reader : ConsensusReader) (address : Address) (amount : ℕ) :
    Except DexError FundDb := do
  let currentPeriodId ← db.getCurrentPeriodId reader
  .ok (k.save db ((k.scheduled db).set address
    (addScheduled ((k.scheduled db).getD address []) currentPeriodId amount)))

/-- One round of the loop over the users. -/
def finishOf (k : ScheduleKind) (periodId : ℕ) (db : FundDb) (user : Address × List AmountByPeriod) : Except DexError FundDb :=
  let due := dueEntries user.2 periodId
  if due = [] then .ok db
  else do
    let r ← k.finish (k.save db (updateScheduled (k.scheduled db) user.1 (user.2.drop due.length))) user.1
      (due.map AmountByPeriod.amount).sum
    .ok r.1

def doFinish (k : ScheduleKind) (db : FundDb) (periodId : ℕ) : Except DexError FundDb :=
  if !db.heightPoint.isEarthUpgrade then .ok db
  else (k.scheduled db).entries.foldlM (k.finishOf periodId) db

end ScheduleKind

def addVxUnlock (db : FundDb) (reader : ConsensusReader) (address : Address) (amount : ℕ) : Except DexError FundDb :=
  vxUnlockKind.add db reader address amount

def addCancelStake (db : FundDb) (reader : ConsensusReader) (address : Address) (amount : ℕ) : Except DexError FundDb :=
  cancelStakeKind.add db reader address amount

def doFinishVxUnlock (db : FundDb) (periodId : ℕ) : Except DexError FundDb := vxUnlockKind.doFinish db periodId

def doFinishCancelMiningStake (db : FundDb) (periodId : ℕ) : Except DexError FundDb := cancelStakeKind.doFinish db periodId

section Method

inductive LockActionType
  | lockVx | unlockVx
  deriving DecidableEq, Repr

/-- `MethodDexFundLockVxForDividend.DoReceive`; the error of `DoSettleVxFunds` is dropped. -/
def methodLockVxForDividend (db : FundDb) (reader : ConsensusReader) (address : Address) (actionType : LockActionType)
    (amount : ℕ) : Except DexError FundDb :=
  match actionType with
  | .lockVx => do
    let r ← lockVxForDividend db address amount
    settleVxFundsAnyway r.1 reader address amount r.2
  | .unlockVx => do
    let r ← scheduleVxUnlockForDividend db address amount
    let db ← addVxUnlock r.1 reader address amount
    settleVxFundsAnyway db reader address (-amount) r.2

end Method
end GoVite.Dex

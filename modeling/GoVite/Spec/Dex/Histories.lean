import GoVite.Spec.Dex.FundDb

/-! Amounts by period (`fund_settle.go`, `fund_stake.go`, `fund_storage.go`). VX holdings and mining stakes keep the
same histories, per user and of the sum over the users whose amount reaches a threshold. -/

namespace GoVite.Dex
open KeyStore

def vxDividendThreshold : ℕ := commonTokenPow * 10
def stakeForMiningThreshold : ℕ := commonTokenPow * 134

/-- A user's entries after a change, and what the change adds to the sum (`nil` is zero). -/
structure UserChange where
  entries : List AmountByPeriod
  sumChange : ℤ
  needUpdate : Bool
  deriving DecidableEq, Repr

def replaceLast (entries : List AmountByPeriod) (amount : ℕ) : List AmountByPeriod :=
  match entries.getLast? with
  | none => []
  | some last => entries.dropLast ++ [{ last with amount := amount }]

/-- The first half of `DoSettleVxFunds` and `doChangeMiningStakedAmount`. -/
def changeUserAmount (threshold periodId : ℕ) (entries : List AmountByPeriod) (amtChange : ℤ) (newAmt : ℕ) : UserChange :=
  match entries.getLast? with
  | none =>
    if threshold ≤ newAmt then ⟨[⟨periodId, newAmt⟩], newAmt, true⟩ else ⟨[], 0, false⟩
  | some last =>
    if last.period = periodId then
      if threshold ≤ newAmt then
        ⟨replaceLast entries newAmt, if threshold ≤ last.amount then amtChange else newAmt, true⟩
      else
        -- a single entry of this period is cleared, otherwise it shadows the former one
        ⟨if 1 < entries.length then replaceLast entries newAmt else [],
          if threshold ≤ last.amount then -last.amount else 0, true⟩
    else
      if threshold ≤ newAmt then
        ⟨entries ++ [⟨periodId, newAmt⟩], if threshold ≤ last.amount then amtChange else newAmt, true⟩
      else if threshold ≤ last.amount then ⟨entries ++ [⟨periodId, newAmt⟩], -last.amount, true⟩
      else ⟨entries, 0, false⟩

/-- The second half: the sum follows. -/
def changeSum (periodId : ℕ) (sums : List AmountByPeriod) (sumChange : ℤ) : Except DexError (List AmountByPeriod) :=
  if sumChange = 0 then .ok sums
  else match sums.getLast? with
    | none => if 0 < sumChange then .ok [⟨periodId, sumChange.toNat⟩] else .error .sumInitiationNegative
    | some last =>
      let sumRes := last.amount + sumChange
      if sumRes < 0 then .error .sumUpdatedNegative
      else if last.period = periodId then .ok (replaceLast sums sumRes.toNat)
      else .ok (sums ++ [⟨periodId, sumRes.toNat⟩])

/-- The history of the user written back. -/
def Histories.saveUser (h : Histories) (address : Address) (c : UserChange) : Histories :=
  if c.entries ≠ [] ∧ c.needUpdate then { h with users := h.users.set address c.entries }
  else if c.entries = [] ∧ h.users.getD address [] ≠ [] then { h with users := h.users.erase address }
  else h

def Histories.change (h : Histories) (threshold periodId : ℕ) (address : Address) (amtChange : ℤ) (newAmt : ℕ) :
    Except DexError Histories := do
  let c := changeUserAmount threshold periodId (h.users.getD address []) amtChange newAmt
  let sums ← changeSum periodId h.sums c.sumChange
  .ok { h.saveUser address c with sums := sums }

/-- `getUserNewVxAmtWithForkCheck`. -/
def getUserNewVxAmt (db : FundDb) (account : Account) : ℕ :=
  if db.heightPoint.isEarthUpgrade then account.vxLocked else account.available + account.locked

/-- The histories of VX the current upgrade reads. -/
def FundDb.vxHistories (db : FundDb) : Histories :=
  if db.heightPoint.isEarthUpgrade then db.vxLockedFunds else db.vxFunds

def FundDb.saveVxHistories (db : FundDb) (h : Histories) : FundDb :=
  if db.heightPoint.isEarthUpgrade then { db with vxLockedFunds := h } else { db with vxFunds := h }

def doSettleVxFunds (db : FundDb) (reader : ConsensusReader) (address : Address) (amtChange : ℤ)
    (updatedVxAccount : Account) : Except DexError FundDb := do
  let periodId ← db.getCurrentPeriodId reader
  let h ← db.vxHistories.change vxDividendThreshold periodId address amtChange (getUserNewVxAmt db updatedVxAccount)
  .ok (db.saveVxHistories h)

/-- Where the source drops the error of `DoSettleVxFunds`: the history of the user is already written. -/
def settleVxFundsAnyway (db : FundDb) (reader : ConsensusReader) (address : Address) (amtChange : ℤ)
    (updatedVxAccount : Account) : Except DexError FundDb := do
  let periodId ← db.getCurrentPeriodId reader
  let h := db.vxHistories
  let newAmt := getUserNewVxAmt db updatedVxAccount
  match h.change vxDividendThreshold periodId address amtChange newAmt with
  | .ok h' => .ok (db.saveVxHistories h')
  | .error _ => .ok (db.saveVxHistories
      (h.saveUser address (changeUserAmount vxDividendThreshold periodId (h.users.getD address []) amtChange newAmt)))

def doChangeMiningStakedAmount (db : FundDb) (reader : ConsensusReader) (address : Address) (amtChange : ℤ)
    (updatedAmount : ℕ) : Except DexError FundDb := do
  let periodId ← db.getCurrentPeriodId reader
  let h ← db.miningStakings.change stakeForMiningThreshold periodId address amtChange updatedAmount
  .ok { db with miningStakings := h }

/-- The amount found for a period, the entries without the obsolete ones, and what to do with them. -/
structure PeriodMatch where
  found : Bool
  amount : ℕ
  entries : List AmountByPeriod
  needUpdate : Bool
  needDelete : Bool
  deriving DecidableEq, Repr

/-- `CheckUserVxFundsCanBeDelete`, `CheckMiningStakingsCanBeDelete`. -/
def canBeDelete (threshold : ℕ) (entries : List AmountByPeriod) : Bool :=
  match entries with
  | [e] => e.amount < threshold
  | _ => false

/-- The last entry not after the period. An entry of zero is an empty byte string and reads as none. -/
def matchByPeriod (threshold : ℕ) (entries : List AmountByPeriod) (periodId : ℕ) (checkDelete : Bool) : PeriodMatch :=
  let upTo := entries.takeWhile fun e => e.period ≤ periodId
  match upTo.getLast? with
  | none => ⟨false, 0, entries, false, checkDelete && canBeDelete threshold entries⟩
  | some last =>
    if last.amount = 0 then ⟨false, 0, entries, false, checkDelete && canBeDelete threshold entries⟩
    else
      let matchIndex := upTo.length - 1
      let kept := entries.drop matchIndex
      -- the matched entry goes too if the next period has its own
      let next := match kept with
        | _ :: e :: _ => e.period == periodId + 1
        | _ => false
      let kept := if next then kept.drop 1 else kept
      ⟨true, last.amount, kept, decide (0 < matchIndex) || next, checkDelete && canBeDelete threshold kept⟩

abbrev matchVxFundsByPeriod := matchByPeriod vxDividendThreshold
abbrev matchMiningStakingByPeriod := matchByPeriod stakeForMiningThreshold

end GoVite.Dex

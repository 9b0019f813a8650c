import GoVite.Spec.Dex.Accounts
import GoVite.Spec.Dex.Fees

/-! Division of the fees of the past periods (`fund_dividend.go`): dividend pools go to the holders of VX, operator fees
to the owners of the markets. A job also divides every earlier period that was not divided. -/

namespace GoVite.Dex
open KeyStore

def addressAsset : Address := 0x0501

/-- A send block that a call of the fund contract returns. -/
structure SendBlock where
  toAddress : Address
  tokenId : TokenId
  amount : ℕ
  deriving DecidableEq, Repr

section Periods

/-- The first loop of `GetNotFinishDividendDexFeesByPeriodMap`: back to a period that is stored. -/
def firstValidPeriod (dexFees : Store ℕ DexFeesByPeriod) : ℕ → ℕ
  | 0 => 0
  | periodId + 1 => if (dexFees.get? (periodId + 1)).isSome then periodId + 1 else firstValidPeriod dexFees periodId

/-- The second loop: from period to former period until one is divided or deleted. `none` when the
fuel runs out, which stands for a loop that does not end. -/
def notFinishedFrom (dexFees : Store ℕ DexFeesByPeriod) : ℕ → ℕ → Option (List (ℕ × DexFeesByPeriod))
  | 0, _ => none
  | fuel + 1, periodId =>
    match dexFees.get? periodId with
    | none => some []
    | some fees =>
      if fees.finishDividend then some []
      else if fees.lastValidPeriod = 0 then some [(periodId, fees)]
      else (notFinishedFrom dexFees fuel fees.lastValidPeriod).map ((periodId, fees) :: ·)

/-- A loop that goes on from more periods than are stored comes back to one of them and never ends. -/
def getNotFinishDividendDexFeesByPeriodMap (db : FundDb) (periodId : ℕ) : Option (List (ℕ × DexFeesByPeriod)) :=
  notFinishedFrom db.dexFees (db.dexFees.entries.length + 1) (firstValidPeriod db.dexFees periodId)

def deleteDexFees (db : FundDb) (periodId : ℕ) : FundDb := { db with dexFees := db.dexFees.erase periodId }

def markDexFeesFinishDividend (db : FundDb) (period : ℕ × DexFeesByPeriod) : FundDb :=
  if period.2.finishMine then deleteDexFees db period.1
  else saveDexFeesByPeriodId db period.1 { period.2 with finishDividend := true }

/-- What the period divides, added to the sums of the other periods. -/
def addDividends (A : Arith) (feeSumMap : Store TokenId ℕ) (period : ℕ × DexFeesByPeriod) : Store TokenId ℕ :=
  period.2.feesForDividend.foldl
    (fun sums f => sums.set f.token (sums.getD f.token 0 + (splitDividendPool A f).1)) feeSumMap

end Periods

section Proportion

/-- The part of one holder, and what is left for the next ones. -/
structure Proportion where
  proportionAmt : ℕ
  finished : Bool
  dividedReferAmt : ℕ
  toDivideLeaveAmt : ℕ
  deriving DecidableEq, Repr

/-- `DivideByProportion`; the last holder, or one whose part is not covered, takes the rest. The callers
pass a total that is not zero. -/
def divideByProportion (A : Arith) (totalReferAmt partReferAmt dividedReferAmt toDivideTotalAmt toDivideLeaveAmt : ℕ) :
    Proportion :=
  let dividedReferAmt := dividedReferAmt + partReferAmt
  let proportionAmt := A.roundAmount (A.proportionAmtF totalReferAmt partReferAmt toDivideTotalAmt)
  if toDivideLeaveAmt ≤ proportionAmt ∨ totalReferAmt ≤ dividedReferAmt then
    ⟨toDivideLeaveAmt, true, dividedReferAmt, 0⟩
  else ⟨proportionAmt, false, dividedReferAmt, toDivideLeaveAmt - proportionAmt⟩

end Proportion

section Holders

/-- What a job writes back after matching a period in the history of one user. -/
def Histories.saveMatched (h : Histories) (address : Address) (m : PeriodMatch) : Histories :=
  if m.needDelete then { h with users := h.users.erase address }
  else if m.needUpdate then { h with users := h.users.set address m.entries }
  else h

def Histories.saveMatchedSum (h : Histories) (m : PeriodMatch) : Histories :=
  if m.needUpdate then { h with sums := m.entries } else h

/-- `AmountWithToken`, with what is left of the amount and the VX that had its part. -/
structure DividingFee where
  token : TokenId
  amount : ℕ
  leaved : ℕ
  dividedVx : ℕ := 0
  deleted : Bool := false
  deriving DecidableEq, Repr

/-- `MapToAmountWithTokens` sorts the tokens downwards. -/
def dividingFees (feeSumMap : Store TokenId ℕ) : List DividingFee :=
  feeSumMap.entries.reverse.map fun e => { token := e.1, amount := e.2, leaved := e.2 }

/-- The part of a holder in one token, if it is not used up. -/
def DividingFee.divide (A : Arith) (vxSumAmt userVxAmount : ℕ) (f : DividingFee) : Option Proportion :=
  if f.deleted then none else some (divideByProportion A vxSumAmt userVxAmount f.dividedVx f.amount f.leaved)

def DividingFee.after (f : DividingFee) : Option Proportion → DividingFee
  | none => f
  | some p => { f with leaved := p.toDivideLeaveAmt, dividedVx := p.dividedReferAmt, deleted := p.finished }

/-- The parts of a holder in all tokens. -/
def userFeeDividend (A : Arith) (vxSumAmt userVxAmount : ℕ) (fees : List DividingFee) : List (TokenId × ℕ) :=
  fees.filterMap fun f => (f.divide A vxSumAmt userVxAmount).map fun p => (f.token, p.proportionAmt)

/-- The loop over the holders. -/
structure Dividing where
  db : FundDb
  fees : List DividingFee

/-- One round of the loop; it is over when every token is used up. -/
def divideToUser (A : Arith) (periodId vxSumAmt : ℕ) (s : Dividing) (user : Address × List AmountByPeriod) : Dividing :=
  if s.fees.all DividingFee.deleted then s
  else
    let m := matchVxFundsByPeriod user.2 periodId true
    if !m.found then s
    else
      let db := s.db.saveVxHistories (s.db.vxHistories.saveMatched user.1 m)
      if m.amount < vxDividendThreshold then { s with db := db }
      else
        { db := batchUpdateFund db user.1 (userFeeDividend A vxSumAmt m.amount s.fees)
          fees := s.fees.map fun f => f.after (f.divide A vxSumAmt m.amount) }

end Holders

/-- Since the earth upgrade the VITE to divide is burned; the sums without it, and the burning block. -/
def tryBurnVite (db : FundDb) (feeSumMap : Store TokenId ℕ) : Store TokenId ℕ × List SendBlock :=
  let amt := feeSumMap.getD viteTokenId 0
  if db.heightPoint.isEarthUpgrade ∧ amt ≠ 0 then (feeSumMap.erase viteTokenId, [⟨addressAsset, viteTokenId, amt⟩])
  else (feeSumMap, [])

/-- The division proper: the shares of the periods are summed up, the periods marked, and the sums go
to the holders. -/
def dividePeriods (A : Arith) (db : FundDb) (periodId vxSumAmt : ℕ) (periods : List (ℕ × DexFeesByPeriod)) :
    FundDb × List SendBlock :=
  let feeSumMap := periods.foldl (addDividends A) .empty
  let db := periods.foldl markDexFeesFinishDividend db
  let burnt := tryBurnVite db feeSumMap
  let s := db.vxHistories.users.entries.foldl (divideToUser A periodId vxSumAmt) ⟨db, dividingFees burnt.1⟩
  (s.db, burnt.2)

def doFeesDividend (A : Arith) (db : FundDb) (periodId : ℕ) : Except DexError (FundDb × List SendBlock) :=
  match getNotFinishDividendDexFeesByPeriodMap db periodId with
  | none => .error .notTerminating
  | some [] => .ok (db, [])
  | some periods =>
    -- a sum that was never written has no entries
    let m := matchVxFundsByPeriod db.vxHistories.sums periodId false
    if !m.found then .ok (db, [])
    else
      let db := db.saveVxHistories (db.vxHistories.saveMatchedSum m)
      if m.amount = 0 then .ok (db, [])
      else .ok (dividePeriods A db periodId m.amount periods)

section Operators

/-- The amounts of one operator by token, in all its markets. -/
def operatorFund (accounts : List OperatorFeeAccount) : Store TokenId ℕ :=
  accounts.foldl (fun fund acc => acc.marketFees.foldl
    (fun fund mkFee => fund.set acc.token (fund.getD acc.token 0 + mkFee.amount)) fund) .empty

def payOperator (db : FundDb) (entry : (ℕ ×ₗ Address) × List OperatorFeeAccount) : FundDb :=
  batchUpdateFund { db with operatorFees := db.operatorFees.erase entry.1 } (ofLex entry.1).2 (operatorFund entry.2).entries

def doOperatorFeesDividend (db : FundDb) (periodId : ℕ) : FundDb :=
  (db.operatorFees.entries.filter fun e => (ofLex e.1).1 = periodId).foldl payOperator db

end Operators
end GoVite.Dex

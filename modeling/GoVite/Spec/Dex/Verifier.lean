import GoVite.Spec.Dex.Fees

/-! What `VerifyDexFundBalance` adds up of the dividend pools of a token (`fund_verifier.go`). -/

namespace GoVite.Dex
open KeyStore

def sumPools (token : TokenId) (amount : FeeForDividend → ℕ) (fees : List FeeForDividend) : ℕ :=
  (fees.map fun f => if f.token = token then amount f else 0).sum

def poolOf (token : TokenId) (fees : DexFeesByPeriod) : ℕ :=
  sumPools token FeeForDividend.dividendPoolAmount fees.feesForDividend

/-- The part of the pool that the period divides. -/
def shareOf (A : Arith) (token : TokenId) (fees : DexFeesByPeriod) : ℕ :=
  sumPools token (fun f => (splitDividendPool A f).1) fees.feesForDividend

/-- What a period still has to divide: nothing if it is divided, the whole pool if it is the current one. -/
def undividedOf (A : Arith) (token : TokenId) (currentPeriodId periodId : ℕ) (fees : DexFeesByPeriod) : ℕ :=
  if fees.finishDividend then 0
  else if currentPeriodId ≠ periodId then shareOf A token fees else poolOf token fees

def accumulateFeeDividendPool (A : Arith) (db : FundDb) (currentPeriodId : ℕ) (token : TokenId) : ℕ :=
  db.dexFees.sum (undividedOf A token currentPeriodId)

end GoVite.Dex

import GoVite.Spec.Dex.PlaceOrder

/-! Fees (`fund_settle.go`, `fund_storage.go`): base fees go into the dividend pool of the current period. In a
new period what is not divided of a pool rolls over. -/

namespace GoVite.Dex
open KeyStore

/-- What the period divides of a pool, and what rolls on. -/
def splitDividendPool (A : Arith) (dividend : FeeForDividend) : ℕ × ℕ :=
  if !dividend.notRoll then
    let toDividendAmt := A.calculateAmountForRate dividend.dividendPoolAmount perPeriodDividendRate
    (toDividendAmt, subBigIntAbs dividend.dividendPoolAmount toDividendAmt)
  else (dividend.dividendPoolAmount, 0)

/-- The pool of the next period; since the earth upgrade the VITE pool is divided whole. -/
def rolledFee (A : Arith) (db : FundDb) (former : FeeForDividend) : FeeForDividend :=
  { token := former.token
    notRoll := former.token == viteTokenId && db.heightPoint.isEarthUpgrade
    dividendPoolAmount := (splitDividendPool A former).2 }

/-- The storage with the roll noted, and the pools of the new period, which the caller saves. -/
def rollAndGentNewDexFeesByPeriod (A : Arith) (db : FundDb) (periodId : ℕ) : Except DexError (FundDb × DexFeesByPeriod) :=
  let formerId := db.lastDexFeesPeriodId
  let db' := { db with lastDexFeesPeriodId := periodId }
  if 0 < formerId then
    match db.dexFees.get? formerId with
    | none => .error .noDexFeesFoundForValidPeriod
    | some former => .ok (db', {
        lastValidPeriod := formerId
        feesForDividend := former.feesForDividend.map (rolledFee A db) })
  else .ok (db', { feesForDividend := [{ token := viteTokenId }] })

def saveDexFeesByPeriodId (db : FundDb) (periodId : ℕ) (dexFees : DexFeesByPeriod) : FundDb :=
  { db with dexFees := db.dexFees.set periodId dexFees }

def doRollPeriod (A : Arith) (db : FundDb) (newPeriodId : ℕ) : Except DexError FundDb := do
  let rolled ← rollAndGentNewDexFeesByPeriod A db newPeriodId
  .ok (saveDexFeesByPeriodId rolled.1 newPeriodId rolled.2)

/-- Difference of two `uint64`. -/
def subUint64 (a b : ℕ) : ℕ := (a + (2 ^ 64 - b % 2 ^ 64)) % 2 ^ 64

def setDexTimestamp (A : Arith) (db : FundDb) (reader : ConsensusReader) (timestamp : ℕ) : Except DexError FundDb :=
  if timestamp ≤ db.dexTimestamp then .error .invalidTimestampFromTimeOracle
  else
    let oldPeriod := reader.getIndexByTime db.dexTimestamp
    let newPeriod := reader.getIndexByTime timestamp
    if newPeriod = oldPeriod then .ok { db with dexTimestamp := timestamp }
    else if 1 < subUint64 newPeriod oldPeriod ∧ db.heightPoint.isDexRobotUpgrade ∧ 0 < db.dexTimestamp then
      .error .oracleTimestampExceedPeriodGap
    else do
      let db ← doRollPeriod A db newPeriod
      .ok { db with dexTimestamp := timestamp }

section Mining

def isValidFeeForMine (userFee : FeeAccount) (mineThreshold : ℕ) : Bool :=
  mineThreshold ≤ userFee.baseAmount + userFee.inviteBonusAmount

/-- What a fee of a user adds to the sums for mining, if the user counts for them. -/
structure MineSum where
  needAddSum : Bool := false
  base : ℕ := 0
  invitee : ℕ := 0

def MineSum.add (a b : MineSum) : MineSum :=
  if b.needAddSum then ⟨true, a.base + b.base, a.invitee + b.invitee⟩ else a

/-- A sum that is not to be added reads as nothing. -/
def MineSum.of (needAddSum : Bool) (base invitee : ℕ) : MineSum :=
  if needAddSum then ⟨true, base, invitee⟩ else {}

/-- The fee account of a type with the amounts added; a user that becomes valid adds all of it. -/
def addUserFee (fees : List FeeAccount) (quoteTokenType : QuoteTokenType) (base invitee mineThreshold : ℕ) :
    List FeeAccount × MineSum :=
  match fees with
  | [] =>
    let uf : FeeAccount := { quoteTokenType := quoteTokenType, baseAmount := base, inviteBonusAmount := invitee }
    ([uf], .of (isValidFeeForMine uf mineThreshold) base invitee)
  | f :: fs =>
    if f.quoteTokenType = quoteTokenType then
      let uf := { f with baseAmount := f.baseAmount + base, inviteBonusAmount := f.inviteBonusAmount + invitee }
      let valid := isValidFeeForMine uf mineThreshold
      (uf :: fs, if isValidFeeForMine f mineThreshold then .of valid base invitee
        else .of valid uf.baseAmount uf.inviteBonusAmount)
    else
      let r := addUserFee fs quoteTokenType base invitee mineThreshold
      (f :: r.1, r.2)

/-- The fees of the period, if the last entry is of it. -/
def currentFees (userFees : List FeesByPeriod) (periodId : ℕ) : List FeeAccount :=
  match userFees.getLast? with
  | some last => if last.period = periodId then last.fees else []
  | none => []

/-- The entries with that of the period replaced, or appended if there is none. -/
def replaceCurrentFees (userFees : List FeesByPeriod) (periodId : ℕ) (fees : List FeeAccount) : List FeesByPeriod :=
  match userFees.getLast? with
  | some last => (if last.period = periodId then userFees.dropLast else userFees) ++ [{ fees := fees, period := periodId }]
  | none => [{ fees := fees, period := periodId }]

def innerSettleUserFee (A : Arith) (db : FundDb) (periodId mineThreshold : ℕ) (address : Address) (tokenDecimals : ℤ)
    (quoteTokenType : QuoteTokenType) (baseTokenFee inviteBonusTokenFee : ℕ) : FundDb × MineSum :=
  let base := A.normalizeToQuoteTokenTypeAmount baseTokenFee tokenDecimals quoteTokenType
  let invitee := A.normalizeToQuoteTokenTypeAmount inviteBonusTokenFee tokenDecimals quoteTokenType
  let userFees := db.userFees.getD address []
  let r := addUserFee (currentFees userFees periodId) quoteTokenType base invitee mineThreshold
  ({ db with userFees := db.userFees.set address (replaceCurrentFees userFees periodId r.1) }, r.2)

/-- Base fees count for the payer, and a share of them for the inviter and the invitee. -/
def settleUserFees (A : Arith) (db : FundDb) (periodId : ℕ) (tokenDecimals : ℤ) (quoteTokenType : QuoteTokenType)
    (mineThreshold : ℕ) (address : Address) (baseFee : ℕ) : FundDb × MineSum :=
  match db.inviterByInvitee.get? address with
  | none => innerSettleUserFee A db periodId mineThreshold address tokenDecimals quoteTokenType baseFee 0
  | some inviter =>
    let inviteeBonus := if db.heightPoint.isEarthUpgrade then A.calculateAmountForRate baseFee inviteeBonusRate else 0
    let r := innerSettleUserFee A db periodId mineThreshold address tokenDecimals quoteTokenType baseFee inviteeBonus
    let r' := innerSettleUserFee A r.1 periodId mineThreshold inviter tokenDecimals quoteTokenType 0
      (A.calculateAmountForRate baseFee inviterBonusRate)
    (r'.1, r.2.add r'.2)

/-- The mining part of the loop over the fee actions. -/
def settleMineFees (A : Arith) (periodId : ℕ) (tokenDecimals : ℤ) (quoteTokenType : QuoteTokenType) (mineThreshold : ℕ)
    (acc : FundDb × MineSum) (feeAction : Address × FeeSettle) : FundDb × MineSum :=
  let r := settleUserFees A acc.1 periodId tokenDecimals quoteTokenType mineThreshold feeAction.1 feeAction.2.baseFee
  (r.1, acc.2.add r.2)

def addFeeForMine (fees : List FeeForMine) (quoteTokenType : QuoteTokenType) (sum : MineSum) : List FeeForMine :=
  match fees with
  | [] => [⟨quoteTokenType, sum.base, sum.invitee⟩]
  | f :: fs =>
    if f.quoteTokenType = quoteTokenType then
      { f with baseAmount := f.baseAmount + sum.base, inviteBonusAmount := f.inviteBonusAmount + sum.invitee } :: fs
    else f :: addFeeForMine fs quoteTokenType sum

end Mining

/-- The pool of a token with an amount added; a pool opened by a fee rolls on. -/
def addFeeForDividend (fees : List FeeForDividend) (token : TokenId) (amount : ℕ) : List FeeForDividend :=
  match fees with
  | [] => [{ token := token, dividendPoolAmount := amount }]
  | f :: fs =>
    if f.token = token then { f with dividendPoolAmount := f.dividendPoolAmount + amount } :: fs
    else f :: addFeeForDividend fs token amount

/-- The pools of the current period, rolled first if they are not there yet. -/
def currentDexFees (A : Arith) (db : FundDb) (periodId : ℕ) : Except DexError (FundDb × DexFeesByPeriod) :=
  match db.dexFees.get? periodId with
  | some dexFees => .ok (db, dexFees)
  | none => rollAndGentNewDexFeesByPeriod A db periodId

/-- `feeForDividend` is a fee that is not an order's, such as the donation for a new market. -/
def settleFeesWithTokenId (A : Arith) (db : FundDb) (reader : ConsensusReader) (allowMining : Bool) (tokenId : TokenId)
    (feeTokenDecimals : ℤ) (quoteTokenType : QuoteTokenType) (feeActions : List (Address × FeeSettle))
    (feeForDividend : Option ℕ) : Except DexError FundDb :=
  if feeActions = [] ∧ feeForDividend = none then .ok db
  else do
    let periodId ← db.getCurrentPeriodId reader
    let current ← currentDexFees A db periodId
    let incBaseSumForDividend := (feeActions.map fun a => a.2.baseFee).sum
    let mined := if allowMining then
        feeActions.foldl (settleMineFees A periodId feeTokenDecimals quoteTokenType (db.getMineThreshold quoteTokenType))
          (current.1, {})
      else (current.1, {})
    .ok (saveDexFeesByPeriodId mined.1 periodId { current.2 with
      feesForDividend := addFeeForDividend current.2.feesForDividend tokenId
        (incBaseSumForDividend + feeForDividend.getD 0)
      feesForMine := if mined.2.needAddSum then addFeeForMine current.2.feesForMine quoteTokenType mined.2
        else current.2.feesForMine })

end GoVite.Dex

import GoVite.Spec.Dex.Dividend

/-! Mining of VX (`fund_mine.go`): each period a part of the mine pool goes to fees, stakes, makers and the maintainer;
what cannot be given out returns to the pool. -/

namespace GoVite.Dex
open BigFloat KeyStore

section Amounts

def preheatMinedAmtPerPeriod : ℕ := commonTokenPow * 10000
def vxMineDust : ℕ := commonTokenPow * 100

/-- The parts of a rate, in units of `total`; every field has one part. -/
structure MineRate (φ : Type) where
  totalRate : ℚ
  total : ℕ
  fields : List (φ × ℕ)
  fields_ne_nil : fields ≠ [] := by decide
  fields_nodup : (fields.map Prod.fst).Nodup := by decide

inductive MineFor
  | maker | maintainer
  deriving DecidableEq, Repr

def feeMineRateArr (hp : HeightPoint) : MineRate QuoteTokenType :=
  { totalRate := if hp.isVersion12Upgrade then 5 / 10 else if hp.isVersion10Upgrade then 55 / 100 else 6 / 10
    total := 4
    fields := [(.vite, 1), (.eth, 1), (.btc, 1), (.usd, 1)] }

def makerAndMaintainerArr (hp : HeightPoint) : MineRate MineFor :=
  if hp.isVersion12Upgrade then { totalRate := 4 / 10, total := 8, fields := [(.maker, 3), (.maintainer, 5)] }
  else if hp.isVersion10Upgrade then { totalRate := 25 / 100, total := 5, fields := [(.maker, 3), (.maintainer, 2)] }
  else { totalRate := 2 / 10, total := 2, fields := [(.maker, 1), (.maintainer, 1)] }

def feeStakingMineRate (hp : HeightPoint) : ℚ := if hp.isVersion12Upgrade then 1 / 10 else 2 / 10

/-- A factor of the default precision of `big.Float`. -/
def mulMinedRate (amount : ℕ) (rate : ℚ) : ℕ := ⌊roundPrec (max 64 (amount.log2 + 1)) (amount * roundPrec 64 rate)⌋.toNat

/-- `GetVxAmountByPeriodIndex`: the amount grows for ninety periods and shrinks from then on. -/
def getVxAmountByPeriodIndex : ℕ → ℕ
  | 0 => preheatMinedAmtPerPeriod
  | i + 1 =>
    if i + 1 < 90 then mulMinedRate (getVxAmountByPeriodIndex i) (10180435 / 10 ^ 7)
    else if i + 1 = 90 then preheatMinedAmtPerPeriod * 5
    else mulMinedRate (getVxAmountByPeriodIndex i) (99810276 / 10 ^ 8)

/-- The first normally mined period is noted when it is first asked for. -/
def getVxToMineByPeriodId (db : FundDb) (periodId : ℕ) : Except DexError (FundDb × ℕ) :=
  if !db.normalMineStarted then .ok (db, preheatMinedAmtPerPeriod)
  else if db.firstMinedVxPeriodId = 0 then
    .ok ({ db with firstMinedVxPeriodId := periodId }, getVxAmountByPeriodIndex 0)
  else if periodId < db.firstMinedVxPeriodId then .error .invalidMinedAmount
  else .ok (db, getVxAmountByPeriodIndex (periodId - db.firstMinedVxPeriodId))

/-- A rate of the amount of a period. -/
def rateOfAmount (A : Arith) (toDivideTotal : ℕ) (rate : ℚ) : ℕ :=
  A.roundAmount (setBig (setBig toDivideTotal * setBig rate))

/-- The loop over the fields, on what is left of the pool. -/
def amountForItems {φ : Type} (amount : ℕ) : List (φ × ℕ) → ℕ → List (φ × ℕ) × ℕ
  | [], vxAmtLeaved => ([], vxAmtLeaved)
  | (field, rate) :: fields, vxAmtLeaved =>
    let amt := min (amount * rate) vxAmtLeaved
    let r := amountForItems amount fields (vxAmtLeaved - amt)
    ((field, amt) :: r.1, r.2)

def addToFirst {φ : Type} (extra : ℕ) : List (φ × ℕ) → List (φ × ℕ)
  | [] => []
  | (field, amt) :: items => (field, amt + extra) :: items

/-- `GetVxAmountsForEqualItems` on a pool that is not empty; the items and what is left of the pool. -/
def getVxAmountsForEqualItems {φ : Type} (A : Arith) (toDivideTotal vxPool : ℕ) (mr : MineRate φ) : List (φ × ℕ) × ℕ :=
  let amountSum := rateOfAmount A toDivideTotal mr.totalRate
  let r := amountForItems (min amountSum vxPool / mr.total) mr.fields vxPool
  if vxPool < amountSum ∨ r.2 ≤ vxMineDust then (addToFirst r.2 r.1, 0) else r

/-- `GetVxAmountToMine` on a pool that is not empty. -/
def getVxAmountToMine (A : Arith) (toDivideTotal vxPool : ℕ) (rate : ℚ) : ℕ × ℕ :=
  let amount := min (rateOfAmount A toDivideTotal rate) vxPool
  let vxAmtLeaved := vxPool - amount
  if 0 < vxAmtLeaved ∧ vxAmtLeaved ≤ vxMineDust then (amount + vxAmtLeaved, 0) else (amount, vxAmtLeaved)

def itemOf {φ : Type} [DecidableEq φ] (items : List (φ × ℕ)) (field : φ) : ℕ :=
  ((items.find? fun item => item.1 = field).map Prod.snd).getD 0

end Amounts

/-- `OnVxMined`; before the earth upgrade the error of `DoSettleVxFunds` is dropped. -/
def onVxMined (db : FundDb) (reader : ConsensusReader) (address : Address) (amount : ℕ) : Except DexError FundDb :=
  if db.heightPoint.isEarthUpgrade then
    if db.autoLockMinedVx address then
      let r := lockMinedVx db address amount
      doSettleVxFunds r.1 reader address amount r.2
    else .ok (depositAccount db address vxTokenId amount).1
  else
    let r := depositAccount db address vxTokenId amount
    settleVxFundsAnyway r.1 reader address amount r.2

section Fees

/-- `MarkDexFeesFinishMine` with the former periods. The error stands for a loop that does not end. -/
def markFinishMine (dexFees : Store ℕ DexFeesByPeriod) : ℕ → ℕ → Except DexError (Store ℕ DexFeesByPeriod)
  | 0, _ => .error .notTerminating
  | fuel + 1, periodId =>
    match dexFees.get? periodId with
    | none => .ok dexFees
    | some fees =>
      let marked := if fees.finishDividend then dexFees.erase periodId
        else dexFees.set periodId { fees with finishMine := true }
      if 0 < fees.lastValidPeriod then markFinishMine marked fuel fees.lastValidPeriod else .ok marked

/-- Per quote token type: the sum of the fees, absent once used up, the fees that had their part, and
the VX that is left. -/
structure FeeMining where
  db : FundDb
  feeSum : QuoteTokenType → Option ℕ
  dividedFee : QuoteTokenType → ℕ
  toDivideVxLeave : QuoteTokenType → ℕ

/-- The part for one amount of a user, which may use up the type. -/
def FeeMining.divide (A : Arith) (amtForMarkets : QuoteTokenType → ℕ) (t : QuoteTokenType) (feeSumAmt fee : ℕ)
    (s : FeeMining) : Except DexError (FeeMining × ℕ) :=
  if feeSumAmt = 0 then .error .invalidMinedAmount
  else
    let p := divideByProportion A feeSumAmt fee (s.dividedFee t) (amtForMarkets t) (s.toDivideVxLeave t)
    .ok ({ s with
      feeSum := if p.finished then Function.update s.feeSum t none else s.feeSum
      dividedFee := Function.update s.dividedFee t p.dividedReferAmt
      toDivideVxLeave := Function.update s.toDivideVxLeave t p.toDivideLeaveAmt }, p.proportionAmt)

/-- The part for one amount, unless it is empty or the type is used up. -/
def FeeMining.divideFee (A : Arith) (amtForMarkets : QuoteTokenType → ℕ) (t : QuoteTokenType) (fee : ℕ)
    (s : FeeMining × ℕ) : Except DexError (FeeMining × ℕ) :=
  match s.1.feeSum t with
  | none => .ok s
  | some feeSumAmt =>
    if fee = 0 then .ok s
    else do
      let r ← s.1.divide A amtForMarkets t feeSumAmt fee
      .ok (r.1, s.2 + r.2)

/-- The parts for the fees of a user in one type; the second component adds up what was mined. -/
def mineFeeAccount (A : Arith) (amtForMarkets : QuoteTokenType → ℕ) (s : FeeMining × ℕ) (feeAccount : FeeAccount) :
    Except DexError (FeeMining × ℕ) :=
  let t := feeAccount.quoteTokenType
  if !isValidFeeForMine feeAccount (s.1.db.getMineThreshold t) then .ok s
  else do
    let s ← FeeMining.divideFee A amtForMarkets t feeAccount.baseAmount s
    FeeMining.divideFee A amtForMarkets t feeAccount.inviteBonusAmount s

def saveUserFees (db : FundDb) (address : Address) (fees : List FeesByPeriod) : FundDb :=
  if fees = [] then { db with userFees := db.userFees.erase address }
  else { db with userFees := db.userFees.set address fees }

/-- One round of the loop over the users: fees of earlier periods are dropped, fees of the period used. -/
def mineForFeesOf (A : Arith) (reader : ConsensusReader) (periodId : ℕ) (amtForMarkets : QuoteTokenType → ℕ)
    (s : FeeMining) (user : Address × List FeesByPeriod) : Except DexError FeeMining :=
  match user.2.dropWhile fun f => f.period < periodId with
  | [] => .ok { s with db := saveUserFees s.db user.1 [] }
  | first :: rest =>
    if first.period ≠ periodId then .ok { s with db := saveUserFees s.db user.1 (first :: rest) }
    else do
      let r ← first.fees.foldlM (mineFeeAccount A amtForMarkets) (s, 0)
      let db ← if 0 < r.2 then onVxMined r.1.db reader user.1 r.2 else .ok r.1.db
      .ok { r.1 with db := saveUserFees db user.1 rest }

def feeSumMap (fees : List FeeForMine) (t : QuoteTokenType) : Option ℕ :=
  (fees.reverse.find? fun f => f.quoteTokenType = t).map fun f => f.baseAmount + f.inviteBonusAmount

def accumulateAmount (amounts : QuoteTokenType → ℕ) : ℕ := amounts .vite + amounts .eth + amounts .btc + amounts .usd

/-- The storage and the VX to refund. -/
def doMineVxForFee (A : Arith) (db : FundDb) (reader : ConsensusReader) (periodId : ℕ) (amtForMarkets : QuoteTokenType → ℕ) :
    Except DexError (FundDb × ℕ) :=
  match db.dexFees.get? periodId with
  | none => .ok (db, accumulateAmount amtForMarkets)
  | some fees => do
    let dexFees ← markFinishMine db.dexFees (db.dexFees.entries.length + 1) periodId
    let s ← db.userFees.entries.foldlM (mineForFeesOf A reader periodId amtForMarkets)
      { db := { db with dexFees := dexFees }
        feeSum := feeSumMap fees.feesForMine
        dividedFee := fun _ => 0
        toDivideVxLeave := amtForMarkets }
    .ok (s.db, accumulateAmount s.toDivideVxLeave)

end Fees

section Staking

/-- The loop over the stakers. -/
structure StakeMining where
  db : FundDb
  dividedStaked : ℕ := 0
  amtLeaved : ℕ
  finished : Bool := false

def mineForStakingOf (A : Arith) (reader : ConsensusReader) (periodId dexMiningStakedAmount amountToMine : ℕ)
    (s : StakeMining) (user : Address × List AmountByPeriod) : Except DexError StakeMining :=
  if s.finished then .ok s
  else
    let m := matchMiningStakingByPeriod user.2 periodId true
    if !m.found then .ok s
    else
      let db := { s.db with miningStakings := s.db.miningStakings.saveMatched user.1 m }
      if m.amount < stakeForMiningThreshold then .ok { s with db := db }
      else do
        let p := divideByProportion A dexMiningStakedAmount m.amount s.dividedStaked amountToMine s.amtLeaved
        let db ← if 0 < p.proportionAmt then onVxMined db reader user.1 p.proportionAmt else .ok db
        .ok ⟨db, p.dividedReferAmt, p.toDivideLeaveAmt, p.finished⟩

/-- The storage and the VX to refund. -/
def doMineVxForStaking (A : Arith) (db : FundDb) (reader : ConsensusReader) (periodId amountToMine : ℕ) :
    Except DexError (FundDb × ℕ) :=
  let m := matchMiningStakingByPeriod db.miningStakings.sums periodId false
  if !m.found then .ok (db, amountToMine)
  else
    let db := { db with miningStakings := db.miningStakings.saveMatchedSum m }
    if m.amount = 0 then .ok (db, amountToMine)
    else do
      let s ← db.miningStakings.users.entries.foldlM (mineForStakingOf A reader periodId m.amount amountToMine)
        { db := db, amtLeaved := amountToMine }
      .ok (s.db, s.amtLeaved)

end Staking

section Operation

def doMineVxForMaker (db : FundDb) (periodId amount : ℕ) : Except DexError FundDb :=
  match db.makerMiningAdmin with
  | none => .error .notSetMakerMiningAdmin
  | some _ => .ok { db with makerMiningPools := db.makerMiningPools.set periodId amount }

def doMineVxForMaintainer (db : FundDb) (reader : ConsensusReader) (amount : ℕ) : Except DexError FundDb :=
  match db.maintainer with
  | none => .error .notSetMaintainer
  | some maintainer => onVxMined db reader maintainer amount

def doMineVxForMakerMineAndMaintainer (db : FundDb) (reader : ConsensusReader) (periodId : ℕ) (amounts : MineFor → ℕ) :
    Except DexError FundDb := do
  let db ← if 0 < amounts .maker then doMineVxForMaker db periodId (amounts .maker) else .ok db
  if 0 < amounts .maintainer then doMineVxForMaintainer db reader (amounts .maintainer) else .ok db

end Operation
end GoVite.Dex

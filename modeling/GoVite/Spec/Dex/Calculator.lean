import Mathlib.Data.Nat.Digits.Defs
import GoVite.Lib.BigFloat
import GoVite.Spec.Dex.Types

/-! The number handling of `calculator.go` and the amount formulas of `matcher.go`. Those that go through `big.Float`
are collected in `Arith`: the source's 120-bit floats (`goArith`) or any others. -/

namespace GoVite.Dex
open BigFloat

/-- `SubBigIntAbs` drops the sign of the difference. -/
def subBigIntAbs (a b : ℕ) : ℕ := ((a : ℤ) - b).natAbs

/-- Result, amount actually subtracted, and whether `sub` exceeded `amt`. -/
def safeSubBigInt (amt sub : ℕ) : ℕ × ℕ × Bool :=
  if sub > amt then (0, amt, true) else (subBigIntAbs amt sub, sub, false)

def bigFloatPrec : ℕ := 120
def rateCardinalNum : ℕ := 100000
def baseFeeRate : ℤ := 200
def vipReduceFeeRate : ℤ := 100
def maxOperatorFeeRate : ℤ := 200
def perPeriodDividendRate : ℤ := 1000
def inviterBonusRate : ℤ := 5000
def inviteeBonusRate : ℤ := 2500

/-- `10 ^ 18`, one unit of VITE, VX and ETH. -/
def commonTokenPow : ℕ := 10 ^ 18

/-- Per quote token type: its decimals and the default thresholds. -/
structure QuoteTokenTypeInfo where
  decimals : ℤ
  defaultTradeThreshold : ℕ
  defaultMineThreshold : ℕ
  defaultMarketOrderAmtThreshold : ℕ

def quoteTokenTypeInfos : QuoteTokenType → QuoteTokenTypeInfo
  | .vite => ⟨18, commonTokenPow * 100, commonTokenPow * 2, commonTokenPow * 8000000⟩
  | .eth => ⟨18, commonTokenPow / 100, commonTokenPow / 5000, commonTokenPow * 200⟩
  | .btc => ⟨8, 50000, 1000, 1000000000⟩
  | .usd => ⟨6, 1000000, 20000, 100000000000⟩

structure Arith where
  calculateRawAmountF : ℕ → Price → ℤ → ℚ
  calculateRawQuantityF : ℕ → Price → ℤ → ℚ
  roundAmount : ℚ → ℕ
  floorQuantity : ℚ → ℕ
  calculateAmountForRate : ℕ → ℤ → ℕ
  /-- Total and part of what is referred to, and the amount to divide in proportion. -/
  proportionAmtF : ℕ → ℕ → ℕ → ℚ
  normalizeToQuoteTokenTypeAmount : ℕ → ℤ → QuoteTokenType → ℕ

namespace Arith

def calculateRawAmount (A : Arith) (quantity : ℕ) (price : Price) (decimalsDiff : ℤ) : ℕ :=
  A.roundAmount (A.calculateRawAmountF quantity price decimalsDiff)

def calculateRawQuantity (A : Arith) (amount : ℕ) (price : Price) (decimalsDiff : ℤ) : ℕ :=
  A.floorQuantity (A.calculateRawQuantityF amount price decimalsDiff)

end Arith

/-- The decimal number `BytesToPrice` prints. -/
def bytesToPrice (price : Price) : ℚ := price.left.val + price.right.val / 10 ^ 12

/-- The text of a positive rate. A slice of Go is `(text.take j).drop i`. -/
def cardinalRateToString (rawRate : ℕ) : List Char :=
  let rateStr := Nat.toDigits 10 rawRate
  let cardinalLen := (Nat.toDigits 10 rateCardinalNum).length
  let i := rateStr.length - cardinalLen + 1
  if cardinalLen ≤ rateStr.length then rateStr.take i ++ '.' :: (rateStr.take cardinalLen).drop i
  else '0' :: '.' :: (List.replicate (cardinalLen - 1 - rateStr.length) '0' ++ rateStr)

/-- The decimal number `CardinalRateToString` prints: `rate / 100000`, kept to six digits. -/
def cardinalRate (rate : ℕ) : ℚ :=
  let unit := 10 ^ ((Nat.digits 10 rate).length - 6)
  ((rate / unit * unit : ℕ) : ℚ) / rateCardinalNum

def setBig (x : ℚ) : ℚ := roundPrec bigFloatPrec x

def adjustForDecimalsDiff (sourceAmountF : ℚ) (decimalsDiff : ℤ) : ℚ :=
  if decimalsDiff = 0 then sourceAmountF
  else if 0 < decimalsDiff then setBig (sourceAmountF / setBig (10 ^ decimalsDiff.natAbs))
  else setBig (sourceAmountF * setBig (10 ^ decimalsDiff.natAbs))

def roundAmount (amountF : ℚ) : ℕ := ⌊setBig (amountF + 1 / 2)⌋.toNat

def floorQuantity (quantityF : ℚ) : ℕ := ⌊quantityF⌋.toNat

def calculateRawAmountF (quantity : ℕ) (price : Price) (decimalsDiff : ℤ) : ℚ :=
  adjustForDecimalsDiff (setBig (setBig (bytesToPrice price) * setBig quantity)) decimalsDiff

def calculateRawQuantityF (amount : ℕ) (price : Price) (decimalsDiff : ℤ) : ℚ :=
  adjustForDecimalsDiff (setBig (setBig amount / setBig (bytesToPrice price))) decimalsDiff

def calculateAmountForRate (amount : ℕ) (rate : ℤ) : ℕ :=
  if 0 < rate then roundAmount (setBig (setBig amount * setBig (cardinalRate rate.toNat))) else 0

def adjustAmountForDecimalsDiff (amount : ℕ) (decimalsDiff : ℤ) : ℕ :=
  roundAmount (adjustForDecimalsDiff (setBig amount) decimalsDiff)

/-- An amount of a quote token in the decimals of its type. -/
def normalizeToQuoteTokenTypeAmount (amount : ℕ) (tokenDecimals : ℤ) (quoteTokenType : QuoteTokenType) : ℕ :=
  if amount = 0 then 0
  else adjustAmountForDecimalsDiff amount (tokenDecimals - (quoteTokenTypeInfos quoteTokenType).decimals)

def proportionAmtF (totalReferAmt partReferAmt toDivideTotalAmt : ℕ) : ℚ :=
  setBig (setBig toDivideTotalAmt * setBig (setBig partReferAmt / setBig totalReferAmt))

def goArith : Arith where
  calculateRawAmountF := calculateRawAmountF
  calculateRawQuantityF := calculateRawQuantityF
  roundAmount := roundAmount
  floorQuantity := floorQuantity
  calculateAmountForRate := calculateAmountForRate
  proportionAmtF := proportionAmtF
  normalizeToQuoteTokenTypeAmount := normalizeToQuoteTokenTypeAmount

end GoVite.Dex

import GoVite.Spec.Dex.PlaceOrder

/-! Bounds on the fees the 120-bit floats give: a rounded fee stays far below the amount it is taken from. -/

namespace GoVite.Dex
open BigFloat Nat

/-- Rates above one percent are never used for a fee or a dividend. -/
def Arith.FeeWithin (A : Arith) : Prop := ∀ amount rate, rate ≤ 1000 → A.calculateAmountForRate amount rate ≤ amount

/-- Fee and operator fee together stay within the amount. -/
def Arith.FeeHalf (A : Arith) : Prop := ∀ amount rate, rate ≤ 200 → 2 * A.calculateAmountForRate amount rate ≤ amount

theorem setBig_nonneg {x : ℚ} (hx : 0 ≤ x) : 0 ≤ setBig x := roundPrec_nonneg hx

/-- A coarse form of the unit roundoff. -/
theorem setBig_le {x : ℚ} (hx : 0 ≤ x) : setBig x ≤ x * (1 + 1 / 10000) := by
  have h := roundPrec_le (p := bigFloatPrec) hx le_rfl
  have heps : (1 : ℚ) + 1 / 2 ^ bigFloatPrec ≤ 1 + 1 / 10000 := by norm_num [bigFloatPrec]
  exact h.trans (mul_le_mul_of_nonneg_left heps hx)

theorem cardinalRate_le (rate : ℕ) : cardinalRate rate ≤ rate / 100000 := by
  unfold cardinalRate rateCardinalNum
  have h : ((rate / 10 ^ ((digits 10 rate).length - 6) * 10 ^ ((digits 10 rate).length - 6) : ℕ) : ℚ)
      ≤ rate := by exact_mod_cast div_mul_le_self _ _
  linarith

theorem cardinalRate_nonneg (rate : ℕ) : 0 ≤ cardinalRate rate := by
  unfold cardinalRate
  positivity

theorem roundAmount_le {x : ℚ} (hx : 0 ≤ x) : (roundAmount x : ℚ) ≤ (x + 1 / 2) * (1 + 1 / 10000) := by
  have hnn : 0 ≤ setBig (x + 1 / 2) := setBig_nonneg (by linarith)
  have hfloor : ((⌊setBig (x + 1 / 2)⌋.toNat : ℕ) : ℚ) = ⌊setBig (x + 1 / 2)⌋ := by
    exact_mod_cast congrArg (Int.cast : ℤ → ℚ) (Int.toNat_of_nonneg (Int.floor_nonneg.2 hnn))
  rw [roundAmount, hfloor]
  exact (Int.floor_le _).trans (setBig_le (by linarith))

/-- Before rounding, a fee is the exact product up to three roundings. -/
theorem setBig_mul_rate_le (amount rate : ℕ) :
    setBig (setBig amount * setBig (cardinalRate rate)) ≤ amount * (rate / 100000) * (1 + 1 / 1000) := by
  have ha := setBig_le (x := (amount : ℚ)) (cast_nonneg _)
  have hr := setBig_le (cardinalRate_nonneg rate)
  have hc := cardinalRate_le rate
  have ha0 : 0 ≤ setBig (amount : ℚ) := setBig_nonneg (cast_nonneg _)
  have hr0 := setBig_nonneg (cardinalRate_nonneg rate)
  have hr' : setBig (cardinalRate rate) ≤ rate / 100000 * (1 + 1 / 10000) := by linarith
  have hprod : setBig (amount : ℚ) * setBig (cardinalRate rate)
      ≤ (amount * (1 + 1 / 10000)) * (rate / 100000 * (1 + 1 / 10000)) :=
    mul_le_mul ha hr' hr0 (by positivity)
  have hout := setBig_le (mul_nonneg ha0 hr0)
  nlinarith

theorem calculateAmountForRate_le (amount : ℕ) (rate : ℤ) :
    (calculateAmountForRate amount rate : ℚ) ≤
      (amount * (rate.toNat / 100000) * (1 + 1 / 1000) + 1 / 2) * (1 + 1 / 10000) := by
  unfold calculateAmountForRate
  split_ifs with h
  · have hnn : 0 ≤ setBig (setBig (amount : ℚ) * setBig (cardinalRate rate.toNat)) :=
      setBig_nonneg (mul_nonneg (setBig_nonneg (cast_nonneg _)) (setBig_nonneg (cardinalRate_nonneg _)))
    have hmul := setBig_mul_rate_le amount rate.toNat
    have hround := roundAmount_le hnn
    nlinarith
  · have hpos : (0 : ℚ) ≤ amount * (rate.toNat / 100000) := by positivity
    nlinarith

theorem goArith_feeWithin : goArith.FeeWithin := by
  intro amount rate hrate
  have h := calculateAmountForRate_le amount rate
  have hr : (rate.toNat : ℚ) ≤ 1000 := by exact_mod_cast (by omega : rate.toNat ≤ 1000)
  have hmul : (amount : ℚ) * (rate.toNat / 100000) ≤ amount * (1 / 100) :=
    mul_le_mul_of_nonneg_left (by linarith) (Nat.cast_nonneg _)
  have hlt : (calculateAmountForRate amount rate : ℚ) < amount + 1 := by
    nlinarith
  exact Nat.lt_succ_iff.1 (by exact_mod_cast hlt)

theorem goArith_feeHalf : goArith.FeeHalf := by
  intro amount rate hrate
  have h := calculateAmountForRate_le amount rate
  have hr : (rate.toNat : ℚ) ≤ 200 := by exact_mod_cast (by omega : rate.toNat ≤ 200)
  have hmul : (amount : ℚ) * (rate.toNat / 100000) ≤ amount * (1 / 500) :=
    mul_le_mul_of_nonneg_left (by linarith) (cast_nonneg _)
  change 2 * calculateAmountForRate amount rate ≤ amount
  by_cases hsmall : amount < 200
  · -- below the rounding threshold there is no fee at all
    have ha : (amount : ℚ) < 200 := by exact_mod_cast hsmall
    have hlt : (calculateAmountForRate amount rate : ℚ) < 1 := by nlinarith
    have hzero : calculateAmountForRate amount rate = 0 := lt_one_iff.1 (by exact_mod_cast hlt)
    omega
  · have ha : (200 : ℚ) ≤ amount := by exact_mod_cast not_lt.1 hsmall
    have hle : (2 * calculateAmountForRate amount rate : ℚ) ≤ amount := by nlinarith
    exact_mod_cast hle

/-- The exact product with the rate, rounded half up. -/
def amountForRateHalfUp (amount : ℕ) (rate : ℤ) : ℕ := (2 * (amount * rate.toNat) + 100000) / 200000

theorem amountForRateHalfUp_half (amount : ℕ) (rate : ℤ) (hrate : rate ≤ 200) :
    2 * amountForRateHalfUp amount rate ≤ amount := by
  have hr : amount * rate.toNat ≤ amount * 200 := mul_le_mul_left _ (by omega)
  unfold amountForRateHalfUp
  omega

/-- The fee rate of a market buy after `float32` rounding. -/
theorem adjustedFeeRate_le {rate : ℤ} (h0 : 0 < rate) (h : rate ≤ 400) : adjustedFeeRate rate ≤ 1000 := by
  obtain ⟨r, rfl⟩ : ∃ r : ℕ, rate = r := ⟨rate.toNat, by omega⟩
  have hr : roundPrec 24 ((r : ℤ) : ℚ) = r := by
    exact roundPrec_natCast (by omega)
  have hc : roundPrec 24 (rateCardinalNum : ℚ) = 100000 := by
    rw [roundPrec_natCast (by decide)]
    norm_num [rateCardinalNum]
  have hsum : roundPrec 24 ((100000 : ℚ) + r) = 100000 + r := by
    have hs := roundPrec_natCast (p := 24) (n := 100000 + r) (by omega)
    push_cast at hs
    exact hs
  have hq0 : (0 : ℚ) ≤ (r : ℚ) / (100000 + r) := by positivity
  have hr400 : (r : ℚ) ≤ 400 := by exact_mod_cast h
  have hq : (r : ℚ) / (100000 + r) ≤ 400 / 100000 := by
    rw [div_le_div_iff₀ (by positivity) (by norm_num)]
    nlinarith [(cast_nonneg r : (0 : ℚ) ≤ r)]
  have h1 := roundPrec_le (p := 24) hq0 hq
  have h10 := roundPrec_nonneg (p := 24) hq0
  have h2 := roundPrec_le (p := 24) (mul_nonneg h10 (by norm_num : (0 : ℚ) ≤ 100000))
    (mul_le_mul_of_nonneg_right h1 (by norm_num : (0 : ℚ) ≤ 100000))
  have hfloor : ⌊roundPrec 24 (roundPrec 24 ((r : ℚ) / (100000 + r)) * 100000)⌋ ≤ 999 := by
    refine Int.floor_le_iff.2 (h2.trans_lt ?_)
    norm_num
  unfold adjustedFeeRate
  dsimp only
  rw [hr, hc, hsum]
  omega

end GoVite.Dex

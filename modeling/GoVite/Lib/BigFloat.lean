import Mathlib.Data.Int.Log
import Mathlib.Data.Rat.Floor
import Mathlib.Tactic.Positivity

/-! Binary floating point with a fixed number of mantissa bits and an unbounded exponent, rounding to the nearest value
and to even on a tie. A float is the rational it stands for, so an operation is the exact one, then `roundPrec`. -/

namespace BigFloat
open Int

/-- The nearest integer, the even one on a tie. -/
def roundHalfEven (q : ℚ) : ℤ :=
  let f := ⌊q⌋
  if q - f < 1 / 2 then f else if 1 / 2 < q - f then f + 1 else if f % 2 = 0 then f else f + 1

/-- The weight of the last of `p` mantissa bits of `x`. -/
def ulp (p : ℕ) (x : ℚ) : ℚ := 2 ^ (log 2 |x| + 1 - p)

/-- The float with `p` mantissa bits nearest to `x`. -/
def roundPrec (p : ℕ) (x : ℚ) : ℚ := if x = 0 then 0 else roundHalfEven (x / ulp p x) * ulp p x

theorem roundHalfEven_bounds (q : ℚ) : q - 1 / 2 ≤ roundHalfEven q ∧ (roundHalfEven q : ℚ) ≤ q + 1 / 2 := by
  have h1 := floor_le q
  have h2 := lt_floor_add_one q
  unfold roundHalfEven
  dsimp only
  split_ifs with ha hb hc
  · constructor <;> linarith
  · push_cast
    constructor <;> linarith
  · constructor <;> linarith
  · push_cast
    constructor <;> linarith

variable {q : ℚ}

theorem roundHalfEven_nonneg (h : 0 ≤ q) : 0 ≤ roundHalfEven q := by
  have hf : 0 ≤ ⌊q⌋ := floor_nonneg.2 h
  unfold roundHalfEven
  dsimp only
  split_ifs <;> omega

theorem roundHalfEven_intCast (n : ℤ) : roundHalfEven n = n := by
  unfold roundHalfEven
  norm_num

theorem ulp_pos (p : ℕ) (x : ℚ) : 0 < ulp p x := zpow_pos two_pos _

variable {p : ℕ} {x : ℚ}

/-- Half the last bit is at most the unit roundoff of the value. -/
theorem ulp_le (hx : 0 < x) : ulp p x / 2 ≤ x / 2 ^ p := by
  have hlog : (2 : ℚ) ^ log 2 x ≤ x := by exact_mod_cast zpow_log_le_self (by norm_num) hx
  have hexp : ulp p x = 2 ^ log 2 x * 2 / 2 ^ p := by
    rw [ulp, abs_of_pos hx, zpow_sub₀ two_ne_zero, zpow_add₀ two_ne_zero, zpow_one, zpow_natCast]
  calc ulp p x / 2 = 2 ^ log 2 x / 2 ^ p := by rw [hexp]; ring
    _ ≤ x / 2 ^ p := div_le_div_of_nonneg_right hlog (by positivity)

theorem roundPrec_nonneg (hx : 0 ≤ x) : 0 ≤ roundPrec p x := by
  unfold roundPrec
  split_ifs
  · exact le_rfl
  · have hq : (0 : ℚ) ≤ roundHalfEven (x / ulp p x) := by
      exact_mod_cast roundHalfEven_nonneg (div_nonneg hx (ulp_pos p x).le)
    exact mul_nonneg hq (ulp_pos p x).le

theorem roundPrec_bounds (hx : 0 ≤ x) : x - x / 2 ^ p ≤ roundPrec p x ∧ roundPrec p x ≤ x + x / 2 ^ p := by
  rcases hx.eq_or_lt with rfl | hpos
  · simp [roundPrec]
  have hu := ulp_pos p x
  have hhalf := ulp_le (p := p) hpos
  obtain ⟨hlo, hhi⟩ := roundHalfEven_bounds (x / ulp p x)
  have hx' : x / ulp p x * ulp p x = x := div_mul_cancel₀ x hu.ne'
  rw [roundPrec, if_neg hpos.ne']
  constructor
  · calc x - x / 2 ^ p ≤ x - ulp p x / 2 := by linarith
      _ = (x / ulp p x - 1 / 2) * ulp p x := by rw [sub_mul, hx']; ring
      _ ≤ _ := mul_le_mul_of_nonneg_right hlo hu.le
  · calc (roundHalfEven (x / ulp p x) : ℚ) * ulp p x ≤ (x / ulp p x + 1 / 2) * ulp p x :=
          mul_le_mul_of_nonneg_right hhi hu.le
      _ = x + ulp p x / 2 := by rw [add_mul, hx']; ring
      _ ≤ x + x / 2 ^ p := by linarith

theorem roundPrec_le {y : ℚ} (hx : 0 ≤ x) (hxy : x ≤ y) : roundPrec p x ≤ y * (1 + 1 / 2 ^ p) :=
  calc roundPrec p x ≤ x + x / 2 ^ p := (roundPrec_bounds hx).2
    _ = x * (1 + 1 / 2 ^ p) := by ring
    _ ≤ y * (1 + 1 / 2 ^ p) := mul_le_mul_of_nonneg_right hxy (by positivity)

/-- Integers that fit the mantissa are exact. -/
theorem roundPrec_natCast {n : ℕ} (hn : n < 2 ^ p) : roundPrec p n = n := by
  rcases Nat.eq_zero_or_pos n with rfl | hpos
  · simp [roundPrec]
  have hlog : log 2 |(n : ℚ)| = Nat.log 2 n := by
    rw [abs_of_nonneg (Nat.cast_nonneg n)]
    exact log_natCast 2 n
  have hlt : Nat.log 2 n < p := Nat.log_lt_of_lt_pow hpos.ne' hn
  obtain ⟨k, hk⟩ : ∃ k : ℕ, (k : ℤ) = p - (Nat.log 2 n + 1) := ⟨p - (Nat.log 2 n + 1), by omega⟩
  have hulp : ulp p n = 1 / 2 ^ k := by
    rw [ulp, hlog, show (Nat.log 2 n : ℤ) + 1 - p = -k by omega, zpow_neg, zpow_natCast, one_div]
  have hint : (n : ℚ) / ulp p n = ((n * 2 ^ k : ℕ) : ℤ) := by
    rw [hulp]
    push_cast
    field_simp
  rw [roundPrec, if_neg (by exact_mod_cast hpos.ne'), hint, roundHalfEven_intCast, ← hint,
    div_mul_cancel₀ _ (ulp_pos p n).ne']

/-! Rounding a whole number and a fraction. -/

theorem le_roundHalfEven {n : ℤ} (h : (n : ℚ) ≤ q) : n ≤ roundHalfEven q := by
  have hfloor : n ≤ ⌊q⌋ := le_floor.2 h
  unfold roundHalfEven
  dsimp only
  split_ifs <;> omega

theorem roundHalfEven_le {n : ℤ} (h : q ≤ n) : roundHalfEven q ≤ n := by
  obtain ⟨-, hhi⟩ := roundHalfEven_bounds q
  have hlt : (roundHalfEven q : ℚ) < n + 1 := by linarith
  exact lt_add_one_iff.1 (by exact_mod_cast hlt)

/-- A tie goes to the even number. -/
theorem even_le_roundHalfEven_iff {n : ℤ} (hn : n % 2 = 0) : n ≤ roundHalfEven q ↔ (n : ℚ) - 1 / 2 ≤ q := by
  constructor
  · intro h
    obtain ⟨-, hhi⟩ := roundHalfEven_bounds q
    have hcast : (n : ℚ) ≤ roundHalfEven q := by exact_mod_cast h
    linarith
  · intro h
    by_cases hle : (n : ℚ) ≤ q
    · exact le_roundHalfEven hle
    have hfloor : ⌊q⌋ = n - 1 := by
      rw [floor_eq_iff]
      push_cast
      constructor <;> linarith
    unfold roundHalfEven
    rw [hfloor]
    push_cast
    rw [if_neg (by linarith)]
    split_ifs <;> omega

/-- A fraction does not change the weight of the last bit. -/
theorem ulp_add_fraction {n k : ℕ} (hn : 1 ≤ n) (hk : Nat.log 2 n + 1 + k = p) (h0 : 0 ≤ q) (h1 : q < 1) :
    ulp p (n + q) = 1 / 2 ^ k := by
  have hone : (1 : ℚ) ≤ n := by exact_mod_cast hn
  have hfloor : ⌊(n : ℚ) + q⌋₊ = n := by
    rw [Nat.floor_eq_iff (by linarith)]
    constructor <;> linarith
  have hlog : log 2 |(n : ℚ) + q| = Nat.log 2 n := by
    rw [abs_of_nonneg (by linarith), log_of_one_le_right 2 (by linarith), hfloor]
  rw [ulp, hlog, show (Nat.log 2 n : ℤ) + 1 - p = -k by omega, zpow_neg, zpow_natCast, one_div]

/-- Rounding to `k` bits after the point reaches the next whole number from half a last bit below it. -/
theorem floor_roundPrec_add {n k : ℕ} (hn : 1 ≤ n) (hk : Nat.log 2 n + 1 + k = p) (hpos : 1 ≤ k)
    (h0 : 0 ≤ q) (h1 : q < 1) :
    ⌊roundPrec p (n + q)⌋ = if 1 - 1 / 2 ^ (k + 1) ≤ q then (n : ℤ) + 1 else n := by
  have hone : (1 : ℚ) ≤ n := by exact_mod_cast hn
  have hpow : (0 : ℚ) < 2 ^ k := by positivity
  set y : ℚ := (n + q) * 2 ^ k with hy
  have hround : roundPrec p (n + q) = roundHalfEven y / 2 ^ k := by
    have hscaled : ((n : ℚ) + q) / (1 / 2 ^ k) = y := by
      rw [hy]
      field_simp
    rw [roundPrec, if_neg (by linarith), ulp_add_fraction hn hk h0 h1, hscaled, mul_one_div]
  have hlow : (n : ℤ) * 2 ^ k ≤ roundHalfEven y := by
    apply le_roundHalfEven
    push_cast
    exact mul_le_mul_of_nonneg_right (by linarith) hpow.le
  have hhigh : roundHalfEven y ≤ ((n : ℤ) + 1) * 2 ^ k := by
    apply roundHalfEven_le
    push_cast
    exact mul_le_mul_of_nonneg_right (by linarith) hpow.le
  have heven : (((n : ℤ) + 1) * 2 ^ k) % 2 = 0 := by
    obtain ⟨j, rfl⟩ : ∃ j, k = j + 1 := ⟨k - 1, by omega⟩
    rw [pow_succ, ← mul_assoc]
    exact mul_emod_left _ 2
  have hreach : ((n : ℤ) + 1) * 2 ^ k ≤ roundHalfEven y ↔ 1 - 1 / 2 ^ (k + 1) ≤ q := by
    rw [even_le_roundHalfEven_iff heven]
    push_cast
    have hhalf : (1 : ℚ) / 2 ^ (k + 1) * 2 ^ k = 1 / 2 := by
      rw [pow_succ]
      field_simp
    constructor
    · intro h
      have : (1 - 1 / 2 ^ (k + 1)) * 2 ^ k ≤ q * 2 ^ k := by linarith
      exact le_of_mul_le_mul_right this hpow
    · intro h
      have := mul_le_mul_of_nonneg_right h hpow.le
      linarith
  rw [hround, floor_eq_iff]
  split_ifs with h
  · have heq : roundHalfEven y = ((n : ℤ) + 1) * 2 ^ k := le_antisymm hhigh (hreach.2 h)
    rw [heq]
    push_cast
    rw [mul_div_cancel_right₀ _ hpow.ne']
    constructor <;> linarith
  · have hlt : roundHalfEven y < ((n : ℤ) + 1) * 2 ^ k := lt_of_not_ge fun hge => h (hreach.1 hge)
    have hlow' : (n : ℚ) * 2 ^ k ≤ roundHalfEven y := by exact_mod_cast hlow
    have hlt' : (roundHalfEven y : ℚ) < (n + 1) * 2 ^ k := by exact_mod_cast hlt
    exact ⟨(le_div_iff₀ hpow).2 hlow', (div_lt_iff₀ hpow).2 hlt'⟩

end BigFloat

import Mathlib.Data.Nat.Digits.Lemmas
import GoVite.Spec.Dex.Calculator

/-! The text of a rate has six digits of it at most, so a longer rate is denoted if the others are zeros. -/

namespace GoVite.Dex
open List Nat

/-- What a text with a decimal point denotes. -/
def decimalValue (text : List Char) : ℚ :=
  let fraction := (text.dropWhile (· ≠ '.')).tail
  ofDigitChars 10 (text.takeWhile (· ≠ '.')) 0 + ofDigitChars 10 fraction 0 / 10 ^ fraction.length

theorem decimalValue_point {a b : List Char} (ha : '.' ∉ a) :
    decimalValue (a ++ '.' :: b) = ofDigitChars 10 (a ++ b) 0 / 10 ^ b.length := by
  have hall : ∀ c ∈ a, decide (c ≠ '.') = true := fun c hc => decide_eq_true fun h => ha (h ▸ hc)
  have happend : ofDigitChars 10 (a ++ b) 0 = 10 ^ b.length * ofDigitChars 10 a 0 + ofDigitChars 10 b 0 := by
    rw [ofDigitChars_append]
    exact ofDigitChars_eq_ofDigitChars_zero
  rw [decimalValue, takeWhile_append_of_pos hall, dropWhile_append_of_pos hall, happend]
  simp
  field_simp

theorem point_notMem_toDigits {n : ℕ} : '.' ∉ toDigits 10 n := fun h => by
  cases isDigit_of_mem_toDigits (by decide) (by decide) h

/-- The digits of a number without its last ones. -/
theorem toDigits_split {m n : ℕ} (h : 10 ^ m ≤ n) :
    ∃ last, last.length = m ∧ toDigits 10 n = toDigits 10 (n / 10 ^ m) ++ last := by
  induction m with
  | zero => exact ⟨[], rfl, by simp⟩
  | succ m ih =>
    obtain ⟨last, hlast, heq⟩ := ih ((Nat.pow_le_pow_right (by decide) m.le_succ).trans h)
    have hbase : 10 ≤ n / 10 ^ m := by
      rw [Nat.le_div_iff_mul_le (by positivity), ← pow_succ']
      exact h
    rw [toDigits_of_base_le (by decide) hbase, Nat.div_div_eq_div_mul, ← pow_succ, append_assoc] at heq
    exact ⟨_, by simp [hlast], heq⟩

variable {rate : ℕ}

theorem length_toDigits (hpos : 0 < rate) : (toDigits 10 rate).length = (digits 10 rate).length := by
  refine eq_of_forall_ge_iff fun k => ?_
  rw [digits_length_le_iff (by decide)]
  cases k with
  | zero => simp; omega
  | succ k => exact length_toDigits_le_iff (by decide) k.succ_pos

/-- The text denotes the rate kept to six digits. -/
theorem decimalValue_cardinalRateToString (hpos : 0 < rate) (hmax : rate < 2 ^ 31) :
    decimalValue (cardinalRateToString rate) = cardinalRate rate := by
  have hlen := length_toDigits hpos
  have hten : (digits 10 rate).length ≤ 10 := (digits_length_le_iff (by decide) _).2 (by omega)
  have hsix : (toDigits 10 rateCardinalNum).length = 6 := rfl
  unfold cardinalRateToString cardinalRate
  simp only [hsix, hlen]
  split_ifs with h
  · obtain ⟨m, hm⟩ := Nat.exists_eq_add_of_le h
    have hpow : 10 ^ m ≤ rate := by
      rw [← not_lt, ← digits_length_le_iff (by decide)]
      omega
    obtain ⟨last, hlast, heq⟩ := toDigits_split hpow
    have hfirst : (toDigits 10 rate).take 6 = toDigits 10 (rate / 10 ^ m) := by
      rw [heq, take_left']
      have hlength := congrArg List.length heq
      rw [length_append, hlen] at hlength
      omega
    have hjoin : (toDigits 10 rate).take (m + 1) ++ ((toDigits 10 rate).take 6).drop (m + 1)
        = (toDigits 10 rate).take 6 := by
      have htake : (toDigits 10 rate).take (m + 1) = ((toDigits 10 rate).take 6).take (m + 1) := by
        rw [take_take, min_eq_left (by omega)]
      rw [htake, take_append_drop]
    have hsize : (((toDigits 10 rate).take 6).drop (m + 1)).length = 5 - m := by
      simp [hlen]
      omega
    rw [hm, Nat.add_sub_cancel_left, decimalValue_point fun hmem => point_notMem_toDigits (mem_of_mem_take hmem), hjoin,
      hsize, hfirst, ofDigitChars_ten_toDigits, div_eq_div_iff (by positivity) (by norm_num [rateCardinalNum])]
    have hfive : rateCardinalNum = 10 ^ m * 10 ^ (5 - m) := by
      rw [← pow_add, Nat.add_sub_cancel' (by omega)]
      rfl
    rw [hfive]
    push_cast
    ring
  · have hzero : (digits 10 rate).length - 6 = 0 := by omega
    have htext := decimalValue_point (a := ['0'])
      (b := replicate (6 - 1 - (digits 10 rate).length) '0' ++ toDigits 10 rate) (by decide)
    have hlength : (replicate (6 - 1 - (digits 10 rate).length) '0' ++ toDigits 10 rate).length = 5 := by
      simp [hlen]
      omega
    rw [hlength] at htext
    refine htext.trans ?_
    norm_num [hzero, ofDigitChars_append, ofDigitChars_replicate_zero, ofDigitChars_cons, rateCardinalNum]

/-- The text of a positive `int32` denotes the rate if and only if its digits after the sixth are zeros. -/
theorem cardinalRateToString_exact_iff (hpos : 0 < rate) (hmax : rate < 2 ^ 31) :
    decimalValue (cardinalRateToString rate) = rate / 100000 ↔ 10 ^ ((digits 10 rate).length - 6) ∣ rate := by
  have hnum : (100000 : ℚ) = rateCardinalNum := by norm_num [rateCardinalNum]
  have hne : (rateCardinalNum : ℚ) ≠ 0 := by norm_num [rateCardinalNum]
  rw [decimalValue_cardinalRateToString hpos hmax, dvd_iff_div_mul_eq, cardinalRate, hnum, div_left_inj' hne, Nat.cast_inj]

theorem cardinalRateToString_fee_exact : decimalValue (cardinalRateToString 200) = (200 : ℕ) / 100000 :=
  (cardinalRateToString_exact_iff (by decide) (by decide)).2 (by simp)

/-- The text of `1234567` loses the last digit. -/
theorem cardinalRateToString_loses : cardinalRateToString 1234567 = ['1', '2', '.', '3', '4', '5', '6'] ∧
    decimalValue (cardinalRateToString 1234567) ≠ 1234567 / 100000 := by
  decide +kernel

end GoVite.Dex

import Mathlib.Data.List.GetD
import Mathlib.Order.Bounds.Basic
import Mathlib.Tactic.Set
import GoVite.Lib.Except
import GoVite.Spec.Quota.Pow

/-! A proof of work of the computed difficulty is the cheapest one that gives the quota. -/

namespace GoVite.Quota
open List ExceptRules Nat

/-! The tables. -/

section Tables
variable (S : SectionList) {i j x y : ℕ}

theorem SectionList.lt (h : i < j) (hj : j ≤ sectionLen) : S.list.getD i 0 < S.list.getD j 0 := by
  have hlen := S.length_eq
  rw [getD_eq_getElem _ _ (by omega), getD_eq_getElem _ _ (by omega)]
  exact pairwise_iff_getElem.1 S.increasing i j _ _ h

/-- The search keeps the entry at `left` at most `x`, unless it is the first, and those above `right` greater. -/
theorem search_greatest {left right : ℕ} (hle : left ≤ right) (hright : right ≤ sectionLen)
    (hlow : left = 0 ∨ S.list.getD left 0 ≤ x) (hhigh : ∀ j, right < j → j ≤ sectionLen → x < S.list.getD j 0) :
    IsGreatest {i | i ≤ sectionLen ∧ (i = 0 ∨ S.list.getD i 0 ≤ x)} (getIndexInBigIntList x S.list left right) := by
  -- what bounds the indexes from above is the first entry greater than `x`
  have hmax : ∀ k ≤ sectionLen, (k = 0 ∨ S.list.getD k 0 ≤ x) → (∀ j, k < j → j ≤ sectionLen → x < S.list.getD j 0) →
      IsGreatest {i | i ≤ sectionLen ∧ (i = 0 ∨ S.list.getD i 0 ≤ x)} k := by
    refine fun k hk hx habove => ⟨⟨hk, hx⟩, fun i ⟨hi, hix⟩ => ?_⟩
    by_contra hlt
    have := habove i (by omega) hi
    omega
  fun_induction getIndexInBigIntList x S.list left right with
  | case1 left right h =>
    obtain rfl : left = right := by omega
    rw [getExactIndex, if_pos hlow]
    exact hmax left hright hlow hhigh
  | case2 left right h mid heq =>
    exact hmax mid (by omega) (.inr heq.le) fun j hj hjl => heq ▸ S.lt hj hjl
  | case3 left right h mid hne hlt ih =>
    refine ih (by omega) (by omega) hlow fun j hj hjl => ?_
    rcases (show mid ≤ j by omega).eq_or_lt with rfl | hmid
    · exact hlt
    · exact hlt.trans (S.lt hmid hjl)
  | case4 left right h mid hne hlt ih => exact ih (by omega) hright (.inr (by omega)) hhigh

theorem getIndex_greatest (x : ℕ) :
    IsGreatest {i | i ≤ sectionLen ∧ (i = 0 ∨ S.list.getD i 0 ≤ x)} (getIndexInBigIntList x S.list 0 sectionLen) :=
  search_greatest S (zero_le _) le_rfl (.inl rfl) fun j hj hjl => absurd hjl (by omega)

theorem le_getIndex_iff (hi : 0 < i) (hlen : i ≤ sectionLen) :
    i ≤ getIndexInBigIntList x S.list 0 sectionLen ↔ S.list.getD i 0 ≤ x := by
  obtain ⟨⟨hmax, hx⟩, hub⟩ := getIndex_greatest S x
  refine ⟨fun h => ?_, fun h => hub ⟨hlen, .inr h⟩⟩
  rcases h.eq_or_lt with rfl | hlt
  · exact hx.resolve_left (by omega)
  · exact (S.lt hlt hmax).le.trans (hx.resolve_left (by omega))

theorem sectionQuota_eq (qc : ℕ) (isCongestion : Bool) (hx : x ≠ 0) : sectionQuota S qc isCongestion x =
    getIndexInBigIntList (calcStakeParam qc isCongestion x) S.list 0 sectionLen * quotaForSection := by
  rw [sectionQuota, if_neg hx, calcQuotaByIndex, if_pos (getIndex_greatest S _).1.1]

theorem sectionQuota_mono {qc qc' : ℕ} (hqc : qc ≤ qc') (isCongestion : Bool) (h : x ≤ y) :
    sectionQuota S qc isCongestion x ≤ sectionQuota S qc' isCongestion y := by
  by_cases hx : x = 0
  · simp [sectionQuota, hx]
  · rw [sectionQuota_eq S _ _ hx, sectionQuota_eq S _ _ (by omega)]
    obtain ⟨⟨hmax, hle⟩, -⟩ := getIndex_greatest S (calcStakeParam qc isCongestion x)
    refine mul_le_mul_right _ ((getIndex_greatest S _).2 ⟨hmax, hle.imp_right fun h' => ?_⟩)
    refine h'.trans ?_
    unfold calcStakeParam
    split_ifs
    · exact Nat.div_le_div_right (Nat.mul_le_mul h hqc)
    · exact h

/-- A quota is reached where the section of the target begins. -/
theorem le_sectionQuota_iff {q : ℕ} (hq : 0 < q) (hi : getIndexByQuota q = .ok i) (qc : ℕ) (isCongestion : Bool) :
    q ≤ sectionQuota S qc isCongestion x ↔ S.list.getD i 0 ≤ calcStakeParam qc isCongestion x := by
  simp only [getIndexByQuota] at hi
  split_ifs at hi with hlimit
  obtain rfl := Except.ok.inj hi
  simp only [quotaForSection] at *
  have hstart := S.lt (i := 0) (j := (q + 280 - 1) / 280) (by omega) (by omega)
  by_cases hx : x = 0
  · have hzero : calcStakeParam qc isCongestion 0 = 0 := by simp [calcStakeParam]
    simp only [hx, sectionQuota, if_pos]
    omega
  · rw [sectionQuota_eq S _ _ hx, ← le_getIndex_iff S (by omega) (by omega), quotaForSection]
    omega

end Tables

/-! The cheapest proof of work. -/

section Target
variable {qc : ℕ} (target : ℕ)

theorem le_calcStakeParam_iff (n : ℕ) : target ≤ calcStakeParam qc true n ↔ target * qcDivision ≤ n * qc := by
  rw [calcStakeParam, if_pos rfl, le_div_iff_mul_le (by decide)]

/-- The quotient is the target or one less: one more turn is enough. -/
theorem targetLoop_least (hqc : 0 < qc) (fuel : ℕ) : ∃ k ≤ 1, targetLoop qc true target (fuel + 2) (target * qcDivision / qc) =
      .ok (target * qcDivision / qc + k) ∧
    IsLeast {n | target ≤ calcStakeParam qc true n} (target * qcDivision / qc + k) := by
  have hbelow := div_mul_le_self (target * qcDivision) qc
  have habove := lt_mul_of_div_lt (lt_succ_self (target * qcDivision / qc)) hqc
  set n := target * qcDivision / qc
  have hlow : ∀ m, target ≤ calcStakeParam qc true m → n ≤ m := fun m hm =>
    le_of_mul_le_mul_right (hbelow.trans ((le_calcStakeParam_iff target m).1 hm)) hqc
  by_cases hn : target ≤ calcStakeParam qc true n
  · exact ⟨0, zero_le 1, by rw [targetLoop, if_pos hn]; rfl, hn, hlow⟩
  · have hn' : target ≤ calcStakeParam qc true (n + 1) := by
      rw [le_calcStakeParam_iff]
      exact habove.le
    refine ⟨1, le_rfl, by rw [targetLoop, if_neg hn, targetLoop, if_pos hn'], hn', fun m hm => ?_⟩
    exact lt_of_le_of_ne (hlow m hm) fun heq => hn (heq ▸ hm)

end Target

/-- The difficulty is the least that gives the quota, the search finds the last section up to an amount, quotas grow with
the amount and the ratio, and the loop makes at most one correction. -/
theorem pow_difficulty_least (C : QuotaConfig) {qc : ℕ} (hqc : 0 < qc) (isCongestion : Bool) (fuel : ℕ) :
    (∀ q current d, current < q → calcPoWDifficulty C (fuel + 2) qc isCongestion q current = .ok d →
      IsLeast {d | q ≤ calcPoWQuota C qc isCongestion d} d) ∧
    (∀ (S : SectionList) (x : ℕ), IsGreatest {i | i ≤ sectionLen ∧ (i = 0 ∨ S.list.getD i 0 ≤ x)}
      (getIndexInBigIntList x S.list 0 sectionLen)) ∧
    (∀ qc' x y, qc ≤ qc' → x ≤ y → calcPoWQuota C qc isCongestion x ≤ calcPoWQuota C qc' isCongestion y ∧
      calcStakeQuota C qc isCongestion x ≤ calcStakeQuota C qc' isCongestion y) ∧
    ∀ target, ∃ k ≤ 1, targetLoop qc true target (fuel + 2) (target * qcDivision / qc) =
      .ok (target * qcDivision / qc + k) := by
  refine ⟨fun q current d hq h => ?_, getIndex_greatest, fun qc' x y hqc' hxy =>
    ⟨sectionQuota_mono _ hqc' _ hxy, sectionQuota_mono _ hqc' _ hxy⟩, fun target => ?_⟩
  · unfold calcPoWDifficulty at h
    by_cases hlimit : quotaLimitForBlock < q
    · rw [if_pos hlimit] at h
      cases h
    · rw [if_neg hlimit, if_neg (by omega)] at h
      obtain ⟨i, hi, h⟩ := bind_ok h
      have hset : {d | q ≤ calcPoWQuota C qc isCongestion d} =
          {d | C.difficultyList.list.getD i 0 ≤ calcStakeParam qc isCongestion d} :=
        Set.ext fun d => le_sectionQuota_iff C.difficultyList (by omega) hi qc isCongestion
      rw [hset]
      cases isCongestion with
      | false =>
        obtain rfl := Except.ok.inj h
        exact isLeast_Ici
      | true =>
        obtain ⟨n, hn, h⟩ := bind_ok h
        obtain ⟨k, -, hloop, hleast⟩ := targetLoop_least (C.difficultyList.list.getD i 0) hqc fuel
        obtain rfl := Except.ok.inj (hn.symm.trans hloop)
        split_ifs at h
        obtain rfl := Except.ok.inj h
        exact hleast
  · obtain ⟨k, hk, hloop, -⟩ := targetLoop_least target hqc fuel
    exact ⟨k, hk, hloop⟩

/-- The sections begin at the numbers. -/
def sampleSections : SectionList := ⟨range (sectionLen + 1), length_range, pairwise_lt_range⟩

theorem pow_difficulty_least_halved :
    IsLeast {d | 300 ≤ calcPoWQuota ⟨sampleSections, sampleSections⟩ (qcDivision / 2) true d} 4 :=
  (pow_difficulty_least ⟨sampleSections, sampleSections⟩ (by decide) true 0).1 300 0 4 (by decide) (by decide +kernel)

end GoVite.Quota

import GoVite.Proofs.Dex.MinePool
import GoVite.Sanity.Dex.MineFees

/-! What the period jobs read and pay: histories that are trimmed, and amounts divided in proportion. -/

namespace GoVite.Dex
open KeyStore List

section Lookups
variable {threshold p : ℕ} {entries : List AmountByPeriod} {checkDelete : Bool}

theorem takeWhile_period_eq (h : entries.Pairwise fun a b => a.period < b.period) :
    entries.takeWhile (fun e => e.period ≤ p) = entries.filter fun e => e.period ≤ p := by
  induction h with
  | nil => rfl
  | @cons e entries hlater _ ih =>
    by_cases he : e.period ≤ p
    · rw [takeWhile_cons_of_pos (by simpa using he), filter_cons_of_pos (by simpa using he), ih]
    · rw [takeWhile_cons_of_neg (by simpa using he), filter_cons_of_neg (by simpa using he), eq_comm,
        filter_eq_nil_iff]
      intro x hx
      have hlt := hlater x hx
      simp only [decide_eq_true_eq]
      omega

theorem matchByPeriod_found_iff : (matchByPeriod threshold entries p checkDelete).found = true ↔ amountAt entries p ≠ 0 := by
  refine ⟨fun h => (matchByPeriod_amount ▸ matchByPeriod_pos h).ne', fun h => ?_⟩
  unfold amountAt at h
  unfold matchByPeriod
  dsimp only
  cases hlast : (entries.takeWhile fun e => e.period ≤ p).getLast? with
  | none => exact absurd (by rw [hlast]; rfl) h
  | some last =>
    rw [hlast] at h
    dsimp only
    rw [if_neg (by simpa using h)]

/-- A match does not change what is read after the period, found or not. -/
theorem matchByPeriod_amountAt {q : ℕ} (hq : p < q) :
    amountAt (matchByPeriod threshold entries p checkDelete).entries q = amountAt entries q := by
  by_cases hfound : (matchByPeriod threshold entries p checkDelete).found = true
  · have hkeeps := (matchByPeriod_keeps hfound 0).amountAt q hq
    simpa [counted] using hkeeps
  · have hzero : ¬amountAt entries p ≠ 0 := fun h => hfound (matchByPeriod_found_iff.2 h)
    unfold amountAt at hzero
    unfold matchByPeriod
    dsimp only
    cases hlast : (entries.takeWhile fun e => e.period ≤ p).getLast? with
    | none => rfl
    | some last =>
      rw [hlast] at hzero
      dsimp only
      rw [if_pos (by simpa using hzero)]

/-- For histories of VX and of stakes alike: the amount is that of the last entry not after the period, none
is found if there is no such entry or it is empty, and later lookups read the same from what is left. A
history that may be deleted is below the threshold in every later lookup. -/
theorem matchByPeriod_preserves_lookups (threshold : ℕ) (entries : List AmountByPeriod)
    (hincreasing : entries.Pairwise fun a b => a.period < b.period) (p : ℕ) (checkDelete : Bool) :
    let last := (entries.filter fun e => e.period ≤ p).getLast?
    let m := matchByPeriod threshold entries p checkDelete
    m.amount = (last.map AmountByPeriod.amount).getD 0 ∧
    (m.found = false ↔ last = none ∨ ∃ e, last = some e ∧ e.amount = 0) ∧
    ∀ q b, p < q →
      (matchByPeriod threshold m.entries q b).found = (matchByPeriod threshold entries q b).found ∧
      (matchByPeriod threshold m.entries q b).amount = (matchByPeriod threshold entries q b).amount ∧
      (m.needDelete = true → (matchByPeriod threshold entries q b).amount < threshold) := by
  intro last m
  have hread : amountAt entries p = (last.map AmountByPeriod.amount).getD 0 := by
    rw [amountAt, takeWhile_period_eq hincreasing]
  refine ⟨matchByPeriod_amount.trans hread, ?_, fun q b hq => ⟨?_, ?_, fun hdelete => ?_⟩⟩
  · rw [← Bool.not_eq_true, matchByPeriod_found_iff, hread]
    cases last <;> simp
  · rw [Bool.eq_iff_iff, matchByPeriod_found_iff, matchByPeriod_found_iff, matchByPeriod_amountAt hq]
  · rw [matchByPeriod_amount, matchByPeriod_amount, matchByPeriod_amountAt hq]
  · have hcan := (Bool.and_eq_true_iff.1 (matchByPeriod_needDelete ▸ hdelete)).2
    rw [matchByPeriod_amount, ← matchByPeriod_amountAt hq]
    exact amountAt_lt_of_canBeDelete hcan q

/-- The entry of period 3 gives way to that of period 6 and then counts as nothing. -/
theorem matchByPeriod_preserves_lookups_trimmed :
    (matchByPeriod vxDividendThreshold [⟨3, vxDividendThreshold⟩, ⟨6, 7⟩] 5 true).entries = [⟨6, 7⟩] ∧
    (matchByPeriod vxDividendThreshold [⟨6, 7⟩] 8 true).amount = 7 :=
  ⟨by decide, ((matchByPeriod_preserves_lookups vxDividendThreshold [⟨3, vxDividendThreshold⟩, ⟨6, 7⟩] (by decide) 5
    true).2.2 8 true (by decide)).2.1⟩

end Lookups

section Division
variable {A : Arith}

/-- `DivideByProportion` called on the parts in order until it is finished: the shares, what is left, and
whether it finished. -/
def divideParts (A : Arith) (totalReferAmt toDivideTotalAmt : ℕ) : List ℕ → ℕ → ℕ → List ℕ × ℕ × Bool
  | [], _, leave => ([], leave, false)
  | part :: parts, divided, leave =>
    let p := divideByProportion A totalReferAmt part divided toDivideTotalAmt leave
    if p.finished then ([p.proportionAmt], p.toDivideLeaveAmt, true)
    else
      let rest := divideParts A totalReferAmt toDivideTotalAmt parts p.dividedReferAmt p.toDivideLeaveAmt
      (p.proportionAmt :: rest.1, rest.2)

theorem divideParts_exact (totalReferAmt total : ℕ) (parts : List ℕ) (divided leave : ℕ) :
    (divideParts A totalReferAmt total parts divided leave).1.sum +
      (divideParts A totalReferAmt total parts divided leave).2.1 = leave ∧
    ((divideParts A totalReferAmt total parts divided leave).2.2 = true →
      (divideParts A totalReferAmt total parts divided leave).2.1 = 0) ∧
    (divided < totalReferAmt → totalReferAmt ≤ divided + parts.sum →
      (divideParts A totalReferAmt total parts divided leave).2.2 = true) := by
  induction parts generalizing divided leave with
  | nil => exact ⟨Nat.zero_add _, nofun, fun hlt hle => absurd hle (by simpa using hlt)⟩
  | cons part parts ih =>
    obtain ⟨hadd, hrefer, hleave⟩ :=
      divideByProportion_spec rfl
    unfold divideParts
    dsimp only
    split_ifs with hfinished
    · exact ⟨by simpa using hadd, fun _ => hleave hfinished, fun _ _ => rfl⟩
    · obtain ⟨hsum, hzero, htotal⟩ := ih (divided + part)
        (divideByProportion A totalReferAmt part divided total leave).toDivideLeaveAmt
      rw [hrefer]
      refine ⟨by dsimp only; rw [sum_cons]; omega, hzero, fun _ hle => htotal ?_ (by rw [sum_cons] at hle; omega)⟩
      by_contra hnot
      unfold divideByProportion at hfinished
      exact hfinished (by rw [if_pos (.inr (not_lt.1 hnot))])

/-- Fewer parts are paid as they are at the start of more parts. -/
theorem divideParts_take (totalReferAmt total : ℕ) (parts : List ℕ) (divided leave k : ℕ) :
    (divideParts A totalReferAmt total (parts.take k) divided leave).1 =
      (divideParts A totalReferAmt total parts divided leave).1.take k := by
  induction parts generalizing divided leave k with
  | nil => simp [divideParts]
  | cons part parts ih =>
    cases k with
    | zero => rfl
    | succ k =>
      rw [take_succ_cons]
      unfold divideParts
      dsimp only
      split_ifs
      · rw [take_succ_cons, take_nil]
      · rw [ih, take_succ_cons]

end Division

section Dividends
variable {A : Arith} {w : Account → ℕ} (hw : CountsAvailable w) (token : TokenId)

/-- What is left of a token. -/
def leavedOf (token : TokenId) (fees : List DividingFee) : ℕ :=
  (fees.map fun f => if f.token = token then f.leaved else 0).sum

include hw in
theorem tokenSum_batchUpdateFund (db : FundDb) (address : Address) (amounts : List (TokenId × ℕ)) :
    tokenSum (batchUpdateFund db address amounts) token w =
      tokenSum db token w + (amounts.map fun e => if e.1 = token then e.2 else 0).sum := by
  unfold batchUpdateFund
  induction amounts generalizing db with
  | nil => rfl
  | cons e amounts ih =>
    rw [foldl_cons, ih, tokenSum_depositAccount hw, map_cons, sum_cons, Nat.add_assoc]

theorem leavedOf_after (vxSumAmt userVxAmount : ℕ) (fees : List DividingFee) :
    ((userFeeDividend A vxSumAmt userVxAmount fees).map fun e => if e.1 = token then e.2 else 0).sum +
      leavedOf token (fees.map fun f => f.after (f.divide A vxSumAmt userVxAmount)) = leavedOf token fees := by
  unfold userFeeDividend leavedOf
  induction fees with
  | nil => rfl
  | cons f fees ih =>
    cases hdivide : f.divide A vxSumAmt userVxAmount with
    | none =>
      simp only [filterMap_cons, hdivide, Option.map_none, map_cons, sum_cons, DividingFee.after.eq_1]
      omega
    | some p =>
      have hadd : p.proportionAmt + p.toDivideLeaveAmt = f.leaved := by
        unfold DividingFee.divide at hdivide
        split_ifs at hdivide
        cases hdivide
        exact (divideByProportion_spec rfl).1
      simp only [filterMap_cons, hdivide, Option.map_some, map_cons, sum_cons, DividingFee.after.eq_2]
      split_ifs <;> omega

include hw in
theorem divideToUser_paid (periodId vxSumAmt : ℕ) (s : Dividing) (user : Address × List AmountByPeriod) :
    tokenSum (divideToUser A periodId vxSumAmt s user).db token w +
      leavedOf token (divideToUser A periodId vxSumAmt s user).fees = tokenSum s.db token w + leavedOf token s.fees := by
  have hsaved (h : Histories) : tokenSum (s.db.saveVxHistories h) token w = tokenSum s.db token w :=
    tokenSum_congr (by rw [saveVxHistories_frame]) token w
  unfold divideToUser
  dsimp only
  split_ifs
  · rfl
  · rfl
  · dsimp only
    rw [hsaved]
  · dsimp only
    rw [tokenSum_batchUpdateFund hw, hsaved, Nat.add_assoc, leavedOf_after]

theorem leavedOf_dividingFees (feeSumMap : Store TokenId ℕ) :
    leavedOf token (dividingFees feeSumMap) = feeSumMap.getD token 0 := by
  have hsum : leavedOf token (dividingFees feeSumMap) = feeSumMap.sum fun t amt => if t = token then amt else 0 := by
    simp [leavedOf, dividingFees, Store.sum, Function.comp_def]
  have hrest : (feeSumMap.erase token).sum (fun t amt => if t = token then amt else 0) = 0 := by
    refine Store.sum_eq_zero fun t amt hget => if_neg ?_
    rintro rfl
    simp at hget
  rw [hsum, Store.sum_erase _ token, hrest, Store.getD]
  cases feeSumMap.get? token <;> simp

/-- What a dividend job divides of each token: the shares of its periods, without what is burned. -/
def toDivide (A : Arith) (db : FundDb) (periodId : ℕ) : Store TokenId ℕ :=
  (tryBurnVite db ((dividedPeriods db periodId).foldl (addDividends A) .empty)).1

include hw in
theorem doFeesDividend_paid {db : FundDb} {periodId : ℕ} {r : FundDb × List SendBlock}
    (h : doFeesDividend A db periodId = .ok r) :
    tokenSum r.1 token w ≤ tokenSum db token w + (toDivide A db periodId).getD token 0 := by
  rcases doFeesDividend_cases h with ⟨rfl, -⟩ | ⟨periods, -, -, hperiods, -, -, rfl⟩
  · exact Nat.le_add_right _ _
  · have hfold (s : Dividing) (vxSumAmt : ℕ) (users : List (Address × List AmountByPeriod)) :
        tokenSum (users.foldl (divideToUser A periodId vxSumAmt) s).db token w ≤ tokenSum s.db token w + leavedOf token s.fees := by
      induction users generalizing s with
      | nil => exact Nat.le_add_right _ _
      | cons u users ih => exact (ih _).trans_eq (divideToUser_paid hw token periodId vxSumAmt s u)
    unfold dividePeriods
    dsimp only
    refine (hfold _ _ _).trans_eq ?_
    dsimp only
    rw [leavedOf_dividingFees, markPeriods_frame, saveVxHistories_frame, toDivide, hperiods]
    rfl

end Dividends

/-- With any rounding the shares paid so far and what is left are the total after each of the parts; parts that reach
the reference total are paid all of it. No job credits more of a token than it divides. -/
theorem proportional_division_exact (A : Arith) :
    (∀ totalReferAmt total : ℕ, 0 < totalReferAmt → ∀ parts : List ℕ, (∀ part ∈ parts, 0 < part) →
      let d := divideParts A totalReferAmt total parts 0 total
      (∀ k, (d.1.take k).sum + (divideParts A totalReferAmt total (parts.take k) 0 total).2.1 = total) ∧
      d.1.sum + d.2.1 = total ∧ (totalReferAmt ≤ parts.sum → d.2.2 = true ∧ d.1.sum = total)) ∧
    (∀ (db : FundDb) (periodId : ℕ) (r : FundDb × List SendBlock), doFeesDividend A db periodId = .ok r → ∀ token,
      tokenSum r.1 token Account.available ≤ tokenSum db token Account.available + (toDivide A db periodId).getD token 0) ∧
    ∀ (db : FundDb) (reader : ConsensusReader) (periodId amountToMine : ℕ) (r : FundDb × ℕ),
      doMineVxForStaking A db reader periodId amountToMine = .ok r → vxHeld r.1 + r.2 = vxHeld db + amountToMine := by
  refine ⟨fun totalReferAmt total hpos parts _ => ?_, fun db periodId r h token => ?_,
    fun db reader periodId amountToMine r h => ?_⟩
  · obtain ⟨hsum, hzero, hfinished⟩ := divideParts_exact totalReferAmt total parts 0 total
    refine ⟨fun k => ?_, hsum, fun hle => ?_⟩
    · rw [← divideParts_take]
      exact (divideParts_exact totalReferAmt total (parts.take k) 0 total).1
    have hdone := hfinished hpos (by simpa using hle)
    rw [hzero hdone] at hsum
    exact ⟨hdone, hsum⟩
  · exact doFeesDividend_paid ⟨rfl, fun _ _ => rfl⟩ token h
  · obtain ⟨credits, hcredits, hsum⟩ := doMineVxForStaking_credits h
    have hheld := hcredits.tokenSum_eq countsVx_held vxTokenId
    rw [if_pos rfl] at hheld
    unfold vxHeld
    omega

theorem proportional_division_exact_rounded :
    divideParts goArith 3 10 [1, 1, 1] 0 10 = ([3, 3, 4], 0, true) ∧ (divideParts goArith 3 10 [1, 1, 1] 0 10).1.sum = 10 :=
  ⟨by decide +kernel, (((proportional_division_exact goArith).1 3 10 (by decide) [1, 1, 1] (by decide)).2.2 (by decide)).2⟩

end GoVite.Dex

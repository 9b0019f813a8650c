import GoVite.Sanity.Dex.Accounts
import GoVite.Sanity.Dex.Calculator
import GoVite.Sanity.Dex.Dividend
import GoVite.Spec.Dex.Verifier

/-! The dividend pools: what a fee adds, what a roll moves, which periods a dividend job collects and what
marking them does. -/

namespace GoVite.Dex
open KeyStore ExceptRules List Store

section Amounts
variable {A : Arith} {token : TokenId}

/-- What a period divides is within its pool. -/
def Arith.DividendWithin (A : Arith) : Prop := ∀ amount, A.calculateAmountForRate amount perPeriodDividendRate ≤ amount

theorem goArith_dividendWithin : goArith.DividendWithin := fun amount => goArith_feeWithin amount perPeriodDividendRate le_rfl

theorem splitDividendPool_add (hA : A.DividendWithin) (f : FeeForDividend) :
    (splitDividendPool A f).1 + (splitDividendPool A f).2 = f.dividendPoolAmount := by
  have hle := hA f.dividendPoolAmount
  unfold splitDividendPool
  split_ifs
  · unfold subBigIntAbs
    dsimp only
    omega
  · exact Nat.add_zero _

variable {amount amount' total : FeeForDividend → ℕ}

theorem sumPools_add (h : ∀ f, amount f + amount' f = total f) (fees : List FeeForDividend) :
    sumPools token amount fees + sumPools token amount' fees = sumPools token total fees := by
  unfold sumPools
  rw [← sum_map_add]
  congr 1
  refine map_congr_left fun f _ => ?_
  split_ifs
  · exact h f
  · rfl

theorem shareOf_le_poolOf (hA : A.DividendWithin) (token : TokenId) (fees : DexFeesByPeriod) : shareOf A token fees ≤ poolOf token fees := by
  unfold shareOf poolOf
  rw [← sumPools_add (splitDividendPool_add hA)]
  exact Nat.le_add_right _ _

theorem sumPools_addFeeForDividend (fees : List FeeForDividend) (t : TokenId) (amount : ℕ) :
    sumPools token FeeForDividend.dividendPoolAmount (addFeeForDividend fees t amount) =
      sumPools token FeeForDividend.dividendPoolAmount fees + if t = token then amount else 0 := by
  induction fees with
  | nil => simp [addFeeForDividend, sumPools]
  | cons f fees ih =>
    unfold addFeeForDividend
    unfold sumPools at ih ⊢
    split_ifs with hf ht ht
    · simp only [map_cons, sum_cons]
      rw [hf, if_pos ht, if_pos ht]
      omega
    · simp only [map_cons]
      rw [hf, if_neg ht, if_neg ht]
      omega
    · simp only [map_cons, sum_cons, ih, if_pos ht]
      omega
    · simp only [map_cons, sum_cons, ih, if_neg ht]
      omega

variable (feeSumMap : Store TokenId ℕ)

/-- The sums of a dividend job are the shares of the periods. -/
theorem addDividends_getD (period : ℕ × DexFeesByPeriod) :
    (addDividends A feeSumMap period).getD token 0 = feeSumMap.getD token 0 + shareOf A token period.2 := by
  unfold addDividends shareOf sumPools
  generalize period.2.feesForDividend = fees
  induction fees generalizing feeSumMap with
  | nil => rfl
  | cons f fees ih =>
    rw [foldl_cons, ih, getD_set, map_cons, sum_cons]
    split_ifs with h h' h'
    · rw [h]
      dsimp only
      omega
    · exact absurd h.symm h'
    · exact absurd h'.symm h
    · omega

theorem sumDividends_getD (periods : List (ℕ × DexFeesByPeriod)) :
    (periods.foldl (addDividends A) feeSumMap).getD token 0 =
      feeSumMap.getD token 0 + (periods.map fun e => shareOf A token e.2).sum := by
  induction periods generalizing feeSumMap with
  | nil => rfl
  | cons e periods ih =>
    rw [foldl_cons, ih, addDividends_getD, map_cons, sum_cons, Nat.add_assoc]

end Amounts

variable {e : ℕ × DexFeesByPeriod} {periods : List (ℕ × DexFeesByPeriod)} {q : ℕ}

section Walk
variable {dexFees : Store ℕ DexFeesByPeriod} {p fuel : ℕ}

theorem firstValidPeriod_le (dexFees : Store ℕ DexFeesByPeriod) (p : ℕ) : firstValidPeriod dexFees p ≤ p := by
  induction p with
  | zero => exact le_rfl
  | succ p ih =>
    unfold firstValidPeriod
    split_ifs
    · exact le_rfl
    · exact ih.trans (Nat.le_succ p)

/-- No period between the first valid one and the period asked for is stored. -/
theorem firstValidPeriod_between (hlt : firstValidPeriod dexFees p < q) (hle : q ≤ p) : dexFees.get? q = none := by
  induction p with
  | zero =>
    omega
  | succ p ih =>
    unfold firstValidPeriod at hlt
    split_ifs at hlt with hstored
    · omega
    · rcases Nat.lt_or_eq_of_le hle with hle | rfl
      · exact ih hlt (Nat.lt_succ_iff.1 hle)
      · exact Option.not_isSome_iff_eq_none.1 hstored

section
variable (h : notFinishedFrom dexFees fuel q = some periods)
include h

/-- A walk that ends collects nothing, or a period that is not divided and what it collects from there. -/
theorem notFinishedFrom_cases :
    periods = [] ∨ ∃ fees rest, dexFees.get? q = some fees ∧ fees.finishDividend = false ∧ periods = (q, fees) :: rest ∧
      (rest = [] ∨ ∃ fuel', fuel = fuel' + 1 ∧ notFinishedFrom dexFees fuel' fees.lastValidPeriod = some rest) := by
  cases fuel with
  | zero => cases h
  | succ fuel =>
    unfold notFinishedFrom at h
    cases hq : dexFees.get? q with
    | none =>
      rw [hq] at h
      exact .inl (Option.some.inj h).symm
    | some fees =>
      rw [hq] at h
      dsimp only at h
      split_ifs at h with hfinish hlast
      · exact .inl (Option.some.inj h).symm
      · exact .inr ⟨fees, [], rfl, by simpa using hfinish, (Option.some.inj h).symm, .inl rfl⟩
      · obtain ⟨rest, hrest, rfl⟩ := Option.map_eq_some_iff.1 h
        exact .inr ⟨fees, rest, rfl, by simpa using hfinish, rfl, .inr ⟨fuel, rfl, hrest⟩⟩

/-- More fuel does not change where the walk ends. -/
theorem notFinishedFrom_unique {fuel' : ℕ} {periods' : List (ℕ × DexFeesByPeriod)} (h' : notFinishedFrom dexFees fuel' q = some periods') :
    periods = periods' := by
  induction fuel generalizing fuel' q periods periods' with
  | zero => cases h
  | succ fuel ih =>
    cases fuel' with
    | zero => cases h'
    | succ fuel' =>
      unfold notFinishedFrom at h h'
      cases hq : dexFees.get? q with
      | none =>
        rw [hq] at h h'
        exact Option.mem_unique h h'
      | some fees =>
        rw [hq] at h h'
        dsimp only at h h'
        split_ifs at h h' with hfinish hlast
        · exact Option.mem_unique h h'
        · exact Option.mem_unique h h'
        · obtain ⟨rest, hrest, rfl⟩ := Option.map_eq_some_iff.1 h
          obtain ⟨rest', hrest', rfl⟩ := Option.map_eq_some_iff.1 h'
          rw [ih hrest hrest']

/-- The periods a walk collects are stored and not divided, and from each of them it goes on in the same way. -/
theorem notFinishedFrom_mem (he : e ∈ periods) : (dexFees.get? e.1 = some e.2 ∧ e.2.finishDividend = false) ∧
    ∃ fuel' rest, notFinishedFrom dexFees fuel' e.1 = some rest ∧ rest <:+ periods := by
  induction periods generalizing fuel q with
  | nil => cases he
  | cons e' periods ih =>
    obtain hnil | ⟨fees, rest, hq, hfinish, heq, hrest⟩ := notFinishedFrom_cases h
    · cases hnil
    · obtain ⟨rfl, rfl⟩ := List.cons.inj heq
      rcases mem_cons.1 he with rfl | he
      · exact ⟨⟨hq, hfinish⟩, fuel, _, h, suffix_rfl⟩
      · rcases hrest with rfl | ⟨fuel', -, hwalk⟩
        · cases he
        · obtain ⟨hstored, fuel'', rest, hwalk', hsuffix⟩ := ih hwalk he
          exact ⟨hstored, fuel'', rest, hwalk', hsuffix.trans (suffix_cons _ _)⟩

/-- A walk that ends does not come back to a period. -/
theorem notFinishedFrom_nodup : (periods.map Prod.fst).Nodup := by
  induction periods generalizing fuel q with
  | nil => exact nodup_nil
  | cons e periods ih =>
    obtain hnil | ⟨fees, rest, hq, hfinish, heq, hrest⟩ := notFinishedFrom_cases h
    · cases hnil
    · obtain ⟨rfl, rfl⟩ := List.cons.inj heq
      rcases hrest with rfl | ⟨fuel', -, hwalk⟩
      · exact nodup_singleton q
      · refine nodup_cons.2 ⟨fun hmem => ?_, ih hwalk⟩
        obtain ⟨e, he, rfl⟩ := mem_map.1 hmem
        obtain ⟨-, fuel'', rest, hwalk', hsuffix⟩ := notFinishedFrom_mem hwalk he
        have hlen := hsuffix.length_le
        rw [← notFinishedFrom_unique h hwalk', length_cons] at hlen
        omega

end

end Walk

section Marking
variable {db : FundDb} {period : ℕ × DexFeesByPeriod}

theorem mark_get?_ne (hq : q ≠ period.1) :
    (markDexFeesFinishDividend db period).dexFees.get? q = db.dexFees.get? q := by
  unfold markDexFeesFinishDividend
  split_ifs
  · exact get?_erase_ne _ hq
  · exact get?_set_ne _ _ hq

variable {fees : DexFeesByPeriod}

/-- A marked period is deleted or says that it is divided. -/
theorem mark_get?_self (h : (markDexFeesFinishDividend db period).dexFees.get? period.1 = some fees) :
    fees = { period.2 with finishDividend := true } := by
  unfold markDexFeesFinishDividend at h
  split_ifs at h
  · rw [deleteDexFees, get?_erase_self] at h
    cases h
  · rw [saveDexFeesByPeriodId, get?_set_self] at h
    exact (Option.some.inj h).symm

variable {w : ℕ → DexFeesByPeriod → ℕ}

/-- Marking takes the weight of the period out of every sum over periods that are not divided. -/
theorem mark_sum (hw : ∀ q fees, fees.finishDividend = true → w q fees = 0)
    (hstored : db.dexFees.get? period.1 = some period.2) :
    (markDexFeesFinishDividend db period).dexFees.sum w + w period.1 period.2 = db.dexFees.sum w := by
  unfold markDexFeesFinishDividend
  split_ifs
  · rw [db.dexFees.sum_erase period.1 w, hstored]
    rfl
  · have hset := db.dexFees.sum_set period.1 { period.2 with finishDividend := true } w
    rw [hw period.1 { period.2 with finishDividend := true } rfl, hstored] at hset
    exact hset

theorem marks_get?_ne (hq : q ∉ periods.map Prod.fst) :
    (periods.foldl markDexFeesFinishDividend db).dexFees.get? q = db.dexFees.get? q := by
  induction periods generalizing db with
  | nil => rfl
  | cons e periods ih =>
    rw [map_cons, mem_cons, not_or] at hq
    rw [foldl_cons, ih hq.2, mark_get?_ne hq.1]

theorem mark_stored (hnotin : e.1 ∉ periods.map Prod.fst) (h : ∀ e' ∈ periods, db.dexFees.get? e'.1 = some e'.2) :
    ∀ e' ∈ periods, (markDexFeesFinishDividend db e).dexFees.get? e'.1 = some e'.2 := by
  intro e' he'
  rw [mark_get?_ne fun heq => hnotin (heq ▸ mem_map_of_mem he'), h e' he']

/-- Marking adds no period and does not change where a period points to. -/
theorem marks_get?_old (hnodup : (periods.map Prod.fst).Nodup) (hstored : ∀ e ∈ periods, db.dexFees.get? e.1 = some e.2)
    (h : (periods.foldl markDexFeesFinishDividend db).dexFees.get? q = some fees) :
    ∃ fees', db.dexFees.get? q = some fees' ∧ fees.lastValidPeriod = fees'.lastValidPeriod := by
  induction periods generalizing db with
  | nil => exact ⟨fees, h, rfl⟩
  | cons e periods ih =>
    obtain ⟨hnotin, hnodup⟩ := nodup_cons.1 hnodup
    obtain ⟨hself, hrest⟩ := forall_mem_cons.1 hstored
    obtain ⟨fees', hmarked, hlast⟩ := ih hnodup (mark_stored hnotin hrest) h
    by_cases hq : q = e.1
    · rw [hq] at hmarked ⊢
      refine ⟨e.2, hself, ?_⟩
      rw [hlast, mark_get?_self hmarked]
    · rw [mark_get?_ne hq] at hmarked
      exact ⟨fees', hmarked, hlast⟩

theorem marks_get?_mem (hnodup : (periods.map Prod.fst).Nodup)
    (hq : q ∈ periods.map Prod.fst) (h : (periods.foldl markDexFeesFinishDividend db).dexFees.get? q = some fees) :
    fees.finishDividend = true := by
  induction periods generalizing db with
  | nil => cases hq
  | cons e periods ih =>
    obtain ⟨hnotin, hnodup⟩ := nodup_cons.1 hnodup
    rcases mem_cons.1 hq with rfl | hq
    · rw [foldl_cons, marks_get?_ne hnotin] at h
      rw [mark_get?_self h]
    · exact ih hnodup hq h

theorem marks_sum (hw : ∀ q fees, fees.finishDividend = true → w q fees = 0)
    (hnodup : (periods.map Prod.fst).Nodup) (hstored : ∀ e ∈ periods, db.dexFees.get? e.1 = some e.2) :
    (periods.foldl markDexFeesFinishDividend db).dexFees.sum w + (periods.map fun e => w e.1 e.2).sum = db.dexFees.sum w := by
  induction periods generalizing db with
  | nil => rfl
  | cons e periods ih =>
    obtain ⟨hnotin, hnodup⟩ := nodup_cons.1 hnodup
    obtain ⟨hself, hrest⟩ := forall_mem_cons.1 hstored
    have hfold := ih hnodup (mark_stored hnotin hrest)
    have hmark := mark_sum hw hself
    rw [foldl_cons, map_cons, sum_cons]
    omega

end Marking

section Rolling
variable {A : Arith} {reader : ConsensusReader} {db db' : FundDb} {periodId : ℕ} {r : FundDb × DexFeesByPeriod}

/-- A roll starts with an empty pool, or carries on what the former period does not divide. -/
theorem roll_cases (h : rollAndGentNewDexFeesByPeriod A db periodId = .ok r) :
    r.1 = { db with lastDexFeesPeriodId := periodId } ∧
    (db.lastDexFeesPeriodId = 0 ∧ r.2 = { feesForDividend := [{ token := viteTokenId }] } ∨
      ∃ former, db.lastDexFeesPeriodId ≠ 0 ∧ db.dexFees.get? db.lastDexFeesPeriodId = some former ∧
        r.2 = { lastValidPeriod := db.lastDexFeesPeriodId, feesForDividend := former.feesForDividend.map (rolledFee A db) }) := by
  unfold rollAndGentNewDexFeesByPeriod at h
  dsimp only at h
  split_ifs at h with hlast
  · split at h
    · cases h
    · rename_i former hformer
      cases h
      exact ⟨rfl, .inr ⟨former, hlast.ne', hformer, rfl⟩⟩
  · cases h
    exact ⟨rfl, .inl ⟨by omega, rfl⟩⟩

theorem roll_finishDividend (h : rollAndGentNewDexFeesByPeriod A db periodId = .ok r) :
    r.2.finishDividend = false ∧ r.2.lastValidPeriod = db.lastDexFeesPeriodId := by
  obtain ⟨-, ⟨hlast, heq⟩ | ⟨former, -, -, heq⟩⟩ := roll_cases h
  · rw [heq, hlast]
    exact ⟨rfl, rfl⟩
  · rw [heq]
    exact ⟨rfl, rfl⟩

theorem setDexTimestamp_cases {timestamp : ℕ} (h : setDexTimestamp A db reader timestamp = .ok db') :
    db.dexTimestamp < timestamp ∧
    (reader.getIndexByTime timestamp = reader.getIndexByTime db.dexTimestamp ∧ db' = { db with dexTimestamp := timestamp } ∨
      ∃ rolled, reader.getIndexByTime timestamp ≠ reader.getIndexByTime db.dexTimestamp ∧
        rollAndGentNewDexFeesByPeriod A db (reader.getIndexByTime timestamp) = .ok rolled ∧
        db' = { saveDexFeesByPeriodId rolled.1 (reader.getIndexByTime timestamp) rolled.2 with dexTimestamp := timestamp }) := by
  obtain ⟨hlt, h⟩ := guard_ok h
  refine ⟨not_le.1 hlt, ?_⟩
  dsimp only at h
  split_ifs at h with hsame hgap
  · exact .inl ⟨hsame, (Except.ok.inj h).symm⟩
  · obtain ⟨db₁, hroll, h⟩ := bind_ok h
    obtain ⟨rolled, hrolled, hsave⟩ := bind_ok hroll
    cases hsave
    exact .inr ⟨rolled, hsame, hrolled, (Except.ok.inj h).symm⟩

theorem settleMineFees_frame {tokenDecimals : ℤ} {quoteTokenType : QuoteTokenType} {mineThreshold : ℕ}
    (feeActions : List (Address × FeeSettle)) (acc : FundDb × MineSum) :
    (feeActions.foldl (settleMineFees A periodId tokenDecimals quoteTokenType mineThreshold) acc).1 =
      { acc.1 with userFees :=
        (feeActions.foldl (settleMineFees A periodId tokenDecimals quoteTokenType mineThreshold) acc).1.userFees } := by
  induction feeActions generalizing acc with
  | nil => rfl
  | cons a feeActions ih =>
    have hone : (settleMineFees A periodId tokenDecimals quoteTokenType mineThreshold acc a).1 =
        { acc.1 with userFees := (settleMineFees A periodId tokenDecimals quoteTokenType mineThreshold acc a).1.userFees } := by
      unfold settleMineFees settleUserFees
      split <;> rfl
    rw [foldl_cons, ih, hone]

section Settle
variable {allowMining : Bool} {tokenId : TokenId} {feeTokenDecimals : ℤ} {quoteTokenType : QuoteTokenType}
  {feeActions : List (Address × FeeSettle)} {feeForDividend : Option ℕ}

/-- The mining part of the settlement, from the pools of the current period. -/
def minedFees (A : Arith) (db : FundDb) (allowMining : Bool) (periodId : ℕ) (feeTokenDecimals : ℤ)
    (quoteTokenType : QuoteTokenType) (feeActions : List (Address × FeeSettle)) (current : FundDb) : FundDb × MineSum :=
  if allowMining then
    feeActions.foldl (settleMineFees A periodId feeTokenDecimals quoteTokenType (db.getMineThreshold quoteTokenType))
      (current, {})
  else (current, {})

variable
  (h : settleFeesWithTokenId A db reader allowMining tokenId feeTokenDecimals quoteTokenType feeActions feeForDividend = .ok db')
include h

/-- What a settlement writes: the current pools, rolled first if they are not there, and the fees of users. -/
theorem settleFeesWithTokenId_ok : feeActions = [] ∧ feeForDividend = none ∧ db' = db ∨
    ∃ periodId current mined, db.getCurrentPeriodId reader = .ok periodId ∧ currentDexFees A db periodId = .ok current ∧
      mined = minedFees A db allowMining periodId feeTokenDecimals quoteTokenType feeActions current.1 ∧
      db' = saveDexFeesByPeriodId mined.1 periodId { current.2 with
        feesForDividend := addFeeForDividend current.2.feesForDividend tokenId
          ((feeActions.map fun a => a.2.baseFee).sum + feeForDividend.getD 0)
        feesForMine := if mined.2.needAddSum then addFeeForMine current.2.feesForMine quoteTokenType mined.2
          else current.2.feesForMine } := by
  unfold settleFeesWithTokenId at h
  by_cases hempty : feeActions = [] ∧ feeForDividend = none
  · rw [if_pos hempty] at h
    exact .inl ⟨hempty.1, hempty.2, (Except.ok.inj h).symm⟩
  · rw [if_neg hempty] at h
    obtain ⟨periodId, hperiod, h⟩ := bind_ok h
    obtain ⟨current, hcurrent, h⟩ := bind_ok h
    exact .inr ⟨periodId, current, _, hperiod, hcurrent, rfl, (Except.ok.inj h).symm⟩

theorem settleFeesWithTokenId_cases : feeActions = [] ∧ feeForDividend = none ∧ db' = db ∨
    ∃ periodId current, db.getCurrentPeriodId reader = .ok periodId ∧ currentDexFees A db periodId = .ok current ∧
      ∃ feesForMine userFees, db' = saveDexFeesByPeriodId { current.1 with userFees := userFees } periodId
        { current.2 with
          feesForDividend := addFeeForDividend current.2.feesForDividend tokenId
            ((feeActions.map fun a => a.2.baseFee).sum + feeForDividend.getD 0)
          feesForMine := feesForMine } := by
  obtain hempty | ⟨periodId, current, mined, hperiod, hcurrent, hmined, hdb'⟩ := settleFeesWithTokenId_ok h
  · exact .inl hempty
  · have hframe : mined.1 = { current.1 with userFees := mined.1.userFees } := by
      rw [hmined]
      unfold minedFees
      split_ifs
      · rw [settleMineFees_frame]
      · rfl
    rw [hframe] at hdb'
    exact .inr ⟨periodId, current, hperiod, hcurrent, _, _, hdb'⟩

end Settle
end Rolling

end GoVite.Dex

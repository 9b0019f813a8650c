import GoVite.Sanity.Dex.Mine
import GoVite.Sanity.Dex.Pools

/-! The pools of the current period are open and the latest, and change by what a call adds or hands out. -/

namespace GoVite.Dex
open KeyStore ExceptRules List Option Store

section Open

/-- The pools of period `n` are there, open and the latest, and every period points back. -/
structure OpenAt (dexFees : Store ℕ DexFeesByPeriod) (n : ℕ) : Prop where
  current : ∃ fees, dexFees.get? n = some fees ∧ fees.finishDividend = false
  latest : ∀ q fees, dexFees.get? q = some fees → q ≤ n
  former : ∀ q fees, dexFees.get? q = some fees → fees.lastValidPeriod < q ∨ fees.lastValidPeriod = 0

/-- There are no pools yet, or those of the current period are open. -/
def PoolsOpen (reader : ConsensusReader) (db : FundDb) : Prop :=
  db.lastDexFeesPeriodId = 0 ∧ db.dexFees = .empty ∨
    db.dexTimestamp ≠ 0 ∧ db.lastDexFeesPeriodId = reader.getIndexByTime db.dexTimestamp ∧
      OpenAt db.dexFees (reader.getIndexByTime db.dexTimestamp)

/-- The clock does not go back to an earlier period. -/
def ForwardTo (reader : ConsensusReader) (db : FundDb) (timestamp : ℕ) : Prop :=
  db.dexTimestamp ≠ 0 → reader.getIndexByTime db.dexTimestamp ≤ reader.getIndexByTime timestamp

/-- All that is to be divided of a token, now. -/
def undivided (A : Arith) (reader : ConsensusReader) (db : FundDb) (token : TokenId) : ℕ :=
  accumulateFeeDividendPool A db (reader.getIndexByTime db.dexTimestamp) token

variable {A : Arith} {reader : ConsensusReader} {db db' : FundDb} {dexFees : Store ℕ DexFeesByPeriod} {token : TokenId}
  {n : ℕ} {fees : DexFeesByPeriod}

theorem undividedOf_current (h : fees.finishDividend = false) : undividedOf A token n n fees = poolOf token fees := by
  simp [undividedOf, h]

theorem undividedOf_past {q : ℕ} (h : fees.finishDividend = false) (hq : n ≠ q) :
    undividedOf A token n q fees = shareOf A token fees := by
  simp [undividedOf, h, hq]

theorem undividedOf_finished {q : ℕ} (h : fees.finishDividend = true) : undividedOf A token n q fees = 0 := by
  simp [undividedOf, h]

theorem undividedOf_addFee (h : fees.finishDividend = false) (tokenId : TokenId) (amount : ℕ)
    (feesForMine : List FeeForMine) :
    undividedOf A token n n { fees with
      feesForDividend := addFeeForDividend fees.feesForDividend tokenId amount, feesForMine := feesForMine } =
    poolOf token fees + if tokenId = token then amount else 0 := by
  rw [undividedOf_current (by exact h)]
  exact sumPools_addFeeForDividend _ _ _

theorem OpenAt.roll {m : ℕ} (h : OpenAt dexFees m) (hlt : m < n)
    (hfinish : fees.finishDividend = false) (hlast : fees.lastValidPeriod = m) : OpenAt (dexFees.set n fees) n where
  current := ⟨fees, dexFees.get?_set_self n fees, hfinish⟩
  latest := forall_set le_rfl fun q fees' hq => (h.latest q fees' hq).trans hlt.le
  former := forall_set (.inl (by rw [hlast]; exact hlt)) h.former

theorem OpenAt.first (hfinish : fees.finishDividend = false) (hlast : fees.lastValidPeriod = 0) :
    OpenAt (Store.empty.set n fees) n where
  current := ⟨fees, get?_set_self _ n fees, hfinish⟩
  latest := forall_set le_rfl fun q fees' hq => by cases hq
  former := forall_set (.inr hlast) fun q fees' hq => by cases hq

theorem OpenAt.update {fees' : DexFeesByPeriod} (h : OpenAt dexFees n) (hstored : dexFees.get? n = some fees)
    (hfinish : fees'.finishDividend = fees.finishDividend) (hlast : fees'.lastValidPeriod = fees.lastValidPeriod) :
    OpenAt (dexFees.set n fees') n where
  current := by
    obtain ⟨fees'', hstored', hopen⟩ := h.current
    obtain rfl := mem_unique hstored hstored'
    exact ⟨fees', dexFees.get?_set_self n fees', hfinish.trans hopen⟩
  latest := forall_set le_rfl h.latest
  former := forall_set (by rw [hlast]; exact h.former n fees hstored) h.former

/-- A roll moves what is not divided to the new period, if the former period is found. -/
theorem OpenAt.roll_sum (A : Arith) (token : TokenId) {m : ℕ} {former : DexFeesByPeriod} (h : OpenAt dexFees m) (hlt : m < n)
    (hformer : dexFees.get? m = some former) (hfinish : fees.finishDividend = false) :
    (dexFees.set n fees).sum (undividedOf A token n) + poolOf token former =
      dexFees.sum (undividedOf A token m) + shareOf A token former + poolOf token fees := by
  have hopen : former.finishDividend = false := by
    obtain ⟨former', hformer', hopen⟩ := h.current
    obtain rfl := mem_unique hformer hformer'
    exact hopen
  have hfresh : dexFees.get? n = none := by
    refine eq_none_iff_forall_ne_some.2 fun fees' hn => ?_
    exact absurd (h.latest n fees' hn) (not_le.2 hlt)
  have hset := dexFees.sum_set n fees (undividedOf A token n)
  have hold := dexFees.sum_erase m (undividedOf A token m)
  have hnew := dexFees.sum_erase m (undividedOf A token n)
  have hrest : (dexFees.erase m).sum (undividedOf A token n) = (dexFees.erase m).sum (undividedOf A token m) := by
    refine sum_congr fun q fees' hq => ?_
    obtain ⟨heq, hq⟩ := get?_erase_cases hq
    have hqn : n ≠ q := by
      rintro rfl
      rw [hfresh] at hq
      cases hq
    unfold undividedOf
    rw [if_pos hqn, if_pos (Ne.symm heq)]
  rw [hfresh, map_none, getD_none, undividedOf_current hfinish] at hset
  rw [hformer, map_some, getD_some, undividedOf_current hopen] at hold
  rw [hformer, map_some, getD_some, undividedOf_past hopen hlt.ne'] at hnew
  omega

/-- A new timestamp keeps the pools open. What is to be divided stays the same unless period zero ends. -/
theorem PoolsOpen.setDexTimestamp (hA : A.DividendWithin) (h : PoolsOpen reader db) {timestamp : ℕ}
    (hforward : ForwardTo reader db timestamp) (hset : setDexTimestamp A db reader timestamp = .ok db') :
    PoolsOpen reader db' ∧ ∀ token, undivided A reader db' token ≤ undivided A reader db token ∧
      ((db.dexTimestamp ≠ 0 → 0 < reader.getIndexByTime db.dexTimestamp) →
        undivided A reader db' token = undivided A reader db token) := by
  obtain ⟨hlt, ⟨hsame, rfl⟩ | ⟨rolled, hne, hroll, rfl⟩⟩ := setDexTimestamp_cases hset
  · refine ⟨?_, fun token => ?_⟩
    · rcases h with h | ⟨htime, h⟩
      · exact .inl h
      · refine .inr ⟨Nat.ne_zero_of_lt hlt, ?_⟩
        rw [hsame]
        exact h
    · unfold undivided
      rw [hsame]
      exact ⟨le_rfl, fun _ => rfl⟩
  · have hfees := roll_finishDividend hroll
    obtain ⟨hdb, hcases⟩ := roll_cases hroll
    unfold undivided accumulateFeeDividendPool saveDexFeesByPeriodId
    rw [hdb]
    dsimp only
    rcases h with ⟨hlast, hempty⟩ | ⟨htime, hlast, hopen⟩
    · -- nothing was rolled before
      rw [hempty]
      refine ⟨.inr ⟨Nat.ne_zero_of_lt hlt, rfl, .first hfees.1 (hfees.2.trans hlast)⟩, fun token => ?_⟩
      have hsum := Store.empty.sum_set (reader.getIndexByTime timestamp) rolled.2
        (undividedOf A token (reader.getIndexByTime timestamp))
      obtain ⟨-, hpools⟩ | ⟨former, hne', -⟩ := hcases
      · have hzero : poolOf token rolled.2 = 0 := by
          rw [hpools]
          simp [poolOf, sumPools]
        rw [undividedOf_current hfees.1, hzero, get?_empty, map_none] at hsum
        exact ⟨hsum.le, fun _ => hsum⟩
      · exact absurd hlast hne'
    · have hlt' : reader.getIndexByTime db.dexTimestamp < reader.getIndexByTime timestamp :=
        lt_of_le_of_ne (hforward htime) hne.symm
      refine ⟨.inr ⟨Nat.ne_zero_of_lt hlt, rfl, hopen.roll hlt' hfees.1 (hfees.2.trans hlast)⟩, fun token => ?_⟩
      obtain ⟨former, hformer, -⟩ := hopen.current
      have hsum := hopen.roll_sum A token hlt' hformer hfees.1
      obtain ⟨hzero, hpools⟩ | ⟨former', -, hformer', hpools⟩ := hcases
      · -- the pools of period zero are not found: only their share stays
        have hempty : poolOf token rolled.2 = 0 := by
          rw [hpools]
          simp [poolOf, sumPools]
        have hle := shareOf_le_poolOf hA token former
        refine ⟨by omega, fun hpos => ?_⟩
        rw [← hlast, hzero] at hpos
        exact absurd (hpos htime) (lt_irrefl 0)
      · rw [hlast, hformer] at hformer'
        obtain rfl := some.inj hformer'
        have hsplit : shareOf A token former + poolOf token rolled.2 = poolOf token former := by
          have hsecond : poolOf token rolled.2 =
              sumPools token (fun f => (splitDividendPool A f).2) former.feesForDividend := by
            unfold poolOf sumPools
            rw [hpools, List.map_map]
            rfl
          rw [hsecond]
          exact sumPools_add (splitDividendPool_add hA) former.feesForDividend
        have heq : (db.dexFees.set (reader.getIndexByTime timestamp) rolled.2).sum
            (undividedOf A token (reader.getIndexByTime timestamp)) =
            db.dexFees.sum (undividedOf A token (reader.getIndexByTime db.dexTimestamp)) := by omega
        exact ⟨heq.le, fun _ => heq⟩

section Settle
variable {allowMining : Bool} {tokenId : TokenId} {feeTokenDecimals : ℤ} {quoteTokenType : QuoteTokenType}
  {feeActions : List (Address × FeeSettle)} {feeForDividend : Option ℕ} (h : PoolsOpen reader db)
  (hok : settleFeesWithTokenId A db reader allowMining tokenId feeTokenDecimals quoteTokenType feeActions feeForDividend = .ok db')
include h hok

/-- Fees are added to the open pools, or to the first ones. -/
theorem PoolsOpen.settleFees_cases : feeActions = [] ∧ feeForDividend = none ∧ db' = db ∨
    ∃ fees feesForMine, db.dexTimestamp ≠ 0 ∧ fees.finishDividend = false ∧
      (db.dexFees = .empty ∧ fees = { feesForDividend := [{ token := viteTokenId }] } ∨
        OpenAt db.dexFees (reader.getIndexByTime db.dexTimestamp) ∧
          db.dexFees.get? (reader.getIndexByTime db.dexTimestamp) = some fees) ∧
      db' = { db with
        userFees := db'.userFees
        lastDexFeesPeriodId := reader.getIndexByTime db.dexTimestamp
        dexFees := db.dexFees.set (reader.getIndexByTime db.dexTimestamp) { fees with
          feesForDividend := addFeeForDividend fees.feesForDividend tokenId
            ((feeActions.map fun a => a.2.baseFee).sum + feeForDividend.getD 0)
          feesForMine := feesForMine } } := by
  obtain ⟨hactions, hdonation, rfl⟩ | ⟨periodId, current, hperiod, hcurrent, feesForMine, userFees, rfl⟩ :=
    settleFeesWithTokenId_cases hok
  · exact .inl ⟨hactions, hdonation, rfl⟩
  · obtain ⟨htime, rfl⟩ := getCurrentPeriodId_ok hperiod
    unfold currentDexFees at hcurrent
    rcases h with ⟨hlast, hempty⟩ | ⟨-, hlast, hopen⟩
    · rw [hempty] at hcurrent
      obtain ⟨hdb, ⟨-, hpools⟩ | ⟨-, hne, -⟩⟩ := roll_cases hcurrent
      · refine .inr ⟨current.2, feesForMine, htime, (roll_finishDividend hcurrent).1, .inl ⟨hempty, hpools⟩, ?_⟩
        rw [hdb]
        rfl
      · exact absurd hlast hne
    · obtain ⟨fees, hstored, hfinish⟩ := hopen.current
      rw [hstored] at hcurrent
      obtain rfl := Except.ok.inj hcurrent
      refine .inr ⟨fees, feesForMine, htime, hfinish, .inr ⟨hopen, hstored⟩, ?_⟩
      rw [← hlast]
      rfl

/-- What is to be divided grows by the fees. -/
theorem PoolsOpen.settleFees :
    PoolsOpen reader db' ∧ ∀ token, undivided A reader db' token = undivided A reader db token +
      if tokenId = token then (feeActions.map fun a => a.2.baseFee).sum + feeForDividend.getD 0 else 0 := by
  obtain ⟨rfl, rfl, rfl⟩ | ⟨fees, feesForMine, htime, hfinish, hfees, hdb⟩ := h.settleFees_cases hok
  · refine ⟨h, fun token => ?_⟩
    split_ifs <;> rfl
  · unfold undivided accumulateFeeDividendPool
    rw [hdb]
    dsimp only
    rcases hfees with ⟨hempty, hpools⟩ | ⟨hopen, hstored⟩
    · rw [hempty]
      refine ⟨.inr ⟨htime, rfl, .first hfinish (by rw [hpools])⟩, fun token => ?_⟩
      rw [sum_set_eq, undividedOf_addFee hfinish, hpools, erase_of_get?_none (get?_empty _)]
      simp [poolOf, sumPools]
    · refine ⟨.inr ⟨htime, rfl, hopen.update hstored rfl rfl⟩, fun token => ?_⟩
      have hset := db.dexFees.sum_set (reader.getIndexByTime db.dexTimestamp)
        { fees with
          feesForDividend := addFeeForDividend fees.feesForDividend tokenId
            ((feeActions.map fun a => a.2.baseFee).sum + feeForDividend.getD 0)
          feesForMine := feesForMine } (undividedOf A token (reader.getIndexByTime db.dexTimestamp))
      rw [hstored, map_some, getD_some, undividedOf_current hfinish, undividedOf_addFee hfinish] at hset
      omega

end Settle
end Open

section Dividing
variable {A : Arith} {reader : ConsensusReader} {db : FundDb} {dexFees : Store ℕ DexFeesByPeriod} {n p q fuel : ℕ}
  {periods : List (ℕ × DexFeesByPeriod)}

theorem firstValidPeriod_eq (h : firstValidPeriod dexFees p ≠ 0) : (dexFees.get? (firstValidPeriod dexFees p)).isSome := by
  induction p with
  | zero => exact absurd rfl h
  | succ p ih =>
    unfold firstValidPeriod at h ⊢
    split_ifs at h ⊢ with hstored
    · exact hstored
    · exact ih h

theorem OpenAt.walk_le (h : OpenAt dexFees n) (hwalk : notFinishedFrom dexFees fuel q = some periods)
    {e : ℕ × DexFeesByPeriod} (he : e ∈ periods) : e.1 ≤ q := by
  induction periods generalizing fuel q with
  | nil => cases he
  | cons e' periods ih =>
    obtain hnil | ⟨fees, rest, hq, -, heq, hrest⟩ := notFinishedFrom_cases hwalk
    · cases hnil
    · obtain ⟨rfl, rfl⟩ := List.cons.inj heq
      rcases mem_cons.1 he with rfl | he
      · exact le_rfl
      · rcases hrest with rfl | ⟨fuel', -, hwalk'⟩
        · cases he
        · refine (ih hwalk' he).trans ?_
          rcases h.former q fees hq with hlt | hzero
          · exact hlt.le
          · rw [hzero]
            exact Nat.zero_le q

/-- The walk ends with fuel for every stored period. -/
theorem OpenAt.walk_ends (h : OpenAt dexFees n) (hfuel : (dexFees.keys.filter (· ≤ q)).length < fuel) :
    ∃ periods, notFinishedFrom dexFees fuel q = some periods := by
  induction fuel generalizing q with
  | zero => cases hfuel
  | succ fuel ih =>
    unfold notFinishedFrom
    cases hq : dexFees.get? q with
    | none => exact ⟨[], rfl⟩
    | some fees =>
      dsimp only
      by_cases hfinish : fees.finishDividend = true
      · rw [if_pos hfinish]
        exact ⟨[], rfl⟩
      · rw [if_neg hfinish]
        by_cases hlast : fees.lastValidPeriod = 0
        · rw [if_pos hlast]
          exact ⟨_, rfl⟩
        · rw [if_neg hlast]
          have hlt : fees.lastValidPeriod < q := (h.former q fees hq).resolve_right hlast
          -- the period itself is no longer counted
          have hless : (dexFees.keys.filter (· ≤ fees.lastValidPeriod)).length < (dexFees.keys.filter (· ≤ q)).length := by
            have hsub : dexFees.keys.filter (· ≤ fees.lastValidPeriod) ⊆ (dexFees.keys.filter (· ≤ q)).erase q := by
              intro k hk
              obtain ⟨hmem, hle⟩ := mem_filter.1 hk
              have hle : k ≤ fees.lastValidPeriod := by simpa using hle
              refine (mem_erase_of_ne (hle.trans_lt hlt).ne).2 (mem_filter.2 ⟨hmem, ?_⟩)
              simpa using hle.trans hlt.le
            have hmem : q ∈ dexFees.keys.filter (· ≤ q) := by
              refine mem_filter.2 ⟨?_, by simp⟩
              by_contra hnot
              rw [get?_eq_none_iff.2 hnot] at hq
              cases hq
            have hlen := ((dexFees.keys_nodup.filter _).subperm hsub).length_le
            have hpos := length_pos_of_mem hmem
            rw [length_erase_of_mem hmem] at hlen
            omega
          obtain ⟨rest, hrest⟩ := ih (Nat.lt_of_lt_of_le hless (Nat.lt_succ_iff.1 hfuel))
          rw [hrest]
          exact ⟨_, rfl⟩

theorem PoolsOpen.walk_ends (h : PoolsOpen reader db) (p : ℕ) :
    ∃ periods, getNotFinishDividendDexFeesByPeriodMap db p = some periods := by
  unfold getNotFinishDividendDexFeesByPeriodMap
  rcases h with ⟨-, hempty⟩ | ⟨-, -, hopen⟩
  · rw [hempty]
    exact ⟨[], rfl⟩
  · refine hopen.walk_ends (Nat.lt_succ_of_le ?_)
    refine (length_filter_le _ _).trans ?_
    rw [Store.keys, length_map]

/-- Marking what a walk from a past period collected keeps the current pools open. -/
theorem OpenAt.marks (h : OpenAt db.dexFees n) (hwalk : notFinishedFrom db.dexFees fuel q = some periods) (hq : q < n) :
    OpenAt (periods.foldl markDexFeesFinishDividend db).dexFees n := by
  have hnodup := notFinishedFrom_nodup hwalk
  have hstored := fun e he => (notFinishedFrom_mem (e := e) hwalk he).1.1
  constructor
  case current =>
    obtain ⟨fees, hn, hopen⟩ := h.current
    refine ⟨fees, ?_, hopen⟩
    rw [marks_get?_ne, hn]
    intro hmem
    obtain ⟨e, he, heq⟩ := mem_map.1 hmem
    have hle := h.walk_le hwalk he
    omega
  case latest =>
    intro q' fees hq'
    obtain ⟨fees', hold, -⟩ := marks_get?_old hnodup hstored hq'
    exact h.latest q' fees' hold
  case former =>
    intro q' fees hq'
    obtain ⟨fees', hold, hlast⟩ := marks_get?_old hnodup hstored hq'
    rw [hlast]
    exact h.former q' fees' hold

variable {r : FundDb × List SendBlock}

theorem doFeesDividend_marks (h : doFeesDividend A db p = .ok r) :
    ∃ db₁ : FundDb, db₁.dexFees = db.dexFees ∧
      r.1.dexFees = ((dividedPeriods db p).foldl markDexFeesFinishDividend db₁).dexFees := by
  rcases doFeesDividend_cases h with ⟨rfl, hnone⟩ | ⟨periods, hperiods, -, hdivided, -, -, rfl⟩
  · rw [hnone]
    exact ⟨db, rfl, rfl⟩
  · unfold dividePeriods
    dsimp only
    rw [hdivided, divideToUsers_frame]
    refine ⟨_, ?_, rfl⟩
    rw [saveVxHistories_frame]

/-- The periods a job divides are found by a walk back from its period. -/
theorem PoolsOpen.dividedPeriods_cases (h : PoolsOpen reader db) (p : ℕ) :
    dividedPeriods db p = [] ∨ OpenAt db.dexFees (reader.getIndexByTime db.dexTimestamp) ∧
      ∃ fuel, notFinishedFrom db.dexFees fuel (firstValidPeriod db.dexFees p) = some (dividedPeriods db p) := by
  obtain ⟨periods, hperiods⟩ := h.walk_ends p
  unfold dividedPeriods
  rw [hperiods]
  split_ifs
  · rcases h with ⟨-, hempty⟩ | ⟨-, -, hopen⟩
    · rw [getNotFinishDividendDexFeesByPeriodMap, hempty] at hperiods
      exact .inl (some.inj hperiods).symm
    · exact .inr ⟨hopen, _, hperiods⟩
  · exact .inl rfl

/-- A dividend job for a past period keeps the pools open and takes what it divides out of them. -/
theorem PoolsOpen.doFeesDividend (h : PoolsOpen reader db) (hp : p < reader.getIndexByTime db.dexTimestamp)
    (hok : doFeesDividend A db p = .ok r) :
    PoolsOpen reader r.1 ∧ ∀ token, undivided A reader r.1 token +
      ((dividedPeriods db p).foldl (addDividends A) .empty).getD token 0 = undivided A reader db token := by
  have hframe := doFeesDividend_frame hok
  have htime : r.1.dexTimestamp = db.dexTimestamp := by rw [hframe]
  have hlast : r.1.lastDexFeesPeriodId = db.lastDexFeesPeriodId := by rw [hframe]
  obtain ⟨db₁, hdb₁, hmarked⟩ := doFeesDividend_marks hok
  unfold PoolsOpen undivided accumulateFeeDividendPool
  rw [htime, hlast, hmarked]
  rcases h.dividedPeriods_cases p with hnone | ⟨hopen, fuel, hwalk⟩
  · rw [hnone, foldl_nil, hdb₁]
    exact ⟨h, fun _ => rfl⟩
  · rw [← hdb₁] at hopen hwalk
    have hlt := (firstValidPeriod_le db₁.dexFees p).trans_lt hp
    constructor
    · rcases h with ⟨-, hempty⟩ | ⟨hset, hlast', -⟩
      · obtain ⟨fees, hstored, -⟩ := hopen.current
        rw [hdb₁, hempty] at hstored
        cases hstored
      · exact .inr ⟨hset, hlast', hopen.marks hwalk hlt⟩
    · intro token
      rw [sumDividends_getD, ← hdb₁, ← marks_sum (fun _ _ => undividedOf_finished) (notFinishedFrom_nodup hwalk)
        fun e he => (notFinishedFrom_mem hwalk he).1.1]
      congr 1
      rw [Store.getD, get?_empty, getD_none, Nat.zero_add]
      congr 1
      refine map_congr_left fun e he => (undividedOf_past (notFinishedFrom_mem hwalk he).1.2 ?_).symm
      have hle := hopen.walk_le hwalk he
      omega

end Dividing

section Mining
variable {A : Arith} {reader : ConsensusReader} {db : FundDb} {dexFees dexFees' dexFees'' : Store ℕ DexFeesByPeriod}

/-- What a mining job may do to the periods: delete those that are divided, and note that others are mined. -/
def MineMarked (dexFees dexFees' : Store ℕ DexFeesByPeriod) : Prop :=
  ∀ q, dexFees'.get? q = dexFees.get? q ∨
    ∃ fees, dexFees.get? q = some fees ∧ (fees.finishDividend = true ∧ dexFees'.get? q = none ∨
      fees.finishDividend = false ∧ dexFees'.get? q = some { fees with finishMine := true })

theorem MineMarked.refl (dexFees : Store ℕ DexFeesByPeriod) : MineMarked dexFees dexFees := fun _ => .inl rfl

theorem MineMarked.trans (h : MineMarked dexFees dexFees') (h' : MineMarked dexFees' dexFees'') :
    MineMarked dexFees dexFees'' := by
  intro q
  rcases h' q with heq | ⟨fees', hq', hcases⟩
  · rw [heq]
    exact h q
  · rcases h q with heq | ⟨fees, hq, ⟨-, hnone⟩ | ⟨hopen, hmined⟩⟩
    · rw [← heq]
      exact .inr ⟨fees', hq', hcases⟩
    · rw [hnone] at hq'
      cases hq'
    · obtain rfl := mem_unique hmined hq'
      rcases hcases with ⟨hfinish, -⟩ | ⟨-, hmined'⟩
      · rw [hopen] at hfinish
        cases hfinish
      · exact .inr ⟨fees, hq, .inr ⟨hopen, hmined'⟩⟩

variable {periodId fuel : ℕ}

theorem markFinishMine_marked (h : markFinishMine dexFees fuel periodId = .ok dexFees') :
    MineMarked dexFees dexFees' := by
  induction fuel generalizing dexFees periodId with
  | zero => cases h
  | succ fuel ih =>
    unfold markFinishMine at h
    cases hstored : dexFees.get? periodId with
    | none =>
      rw [hstored] at h
      obtain rfl := Except.ok.inj h
      exact .refl dexFees
    | some fees =>
      rw [hstored] at h
      dsimp only at h
      have hone : MineMarked dexFees (if fees.finishDividend then dexFees.erase periodId
          else dexFees.set periodId { fees with finishMine := true }) := by
        intro q
        by_cases hq : q = periodId
        · rw [hq]
          refine .inr ⟨fees, hstored, ?_⟩
          split_ifs with hfinish
          · exact .inl ⟨hfinish, get?_erase_self _ _⟩
          · exact .inr ⟨by simpa using hfinish, get?_set_self _ _ _⟩
        · left
          split_ifs
          · exact get?_erase_ne _ hq
          · exact get?_set_ne _ _ hq
      by_cases hlast : 0 < fees.lastValidPeriod
      · rw [if_pos hlast] at h
        exact hone.trans (ih h)
      · rw [if_neg hlast] at h
        obtain rfl := Except.ok.inj h
        exact hone

section
variable {n q : ℕ} {fees : DexFeesByPeriod} (h : MineMarked dexFees dexFees')
include h

theorem MineMarked.old (hq : dexFees'.get? q = some fees) : ∃ fees', dexFees.get? q = some fees' ∧
    fees'.finishDividend = fees.finishDividend ∧ fees'.lastValidPeriod = fees.lastValidPeriod := by
  rcases h q with heq | ⟨fees', hq', ⟨-, hnone⟩ | ⟨-, hmined⟩⟩
  · exact ⟨fees, heq.symm.trans hq, rfl, rfl⟩
  · rw [hnone] at hq
    cases hq
  · obtain rfl := mem_unique hmined hq
    exact ⟨fees', hq', rfl, rfl⟩

theorem MineMarked.stays_open (hq : dexFees.get? q = some fees) (hopen : fees.finishDividend = false) :
    ∃ fees', dexFees'.get? q = some fees' ∧ fees'.finishDividend = false := by
  rcases h q with heq | ⟨fees', hq', ⟨hfinish, -⟩ | ⟨hopen', hmined⟩⟩
  · exact ⟨fees, heq.trans hq, hopen⟩
  · obtain rfl := mem_unique hq hq'
    rw [hopen] at hfinish
    cases hfinish
  · exact ⟨_, hmined, hopen'⟩

theorem MineMarked.openAt (hopen : OpenAt dexFees n) : OpenAt dexFees' n where
  current := by
    obtain ⟨fees, hn, hfinish⟩ := hopen.current
    exact h.stays_open hn hfinish
  latest q fees hq := by
    obtain ⟨fees', hq', -⟩ := h.old hq
    exact hopen.latest q fees' hq'
  former q fees hq := by
    obtain ⟨fees', hq', -, hlast⟩ := h.old hq
    rw [← hlast]
    exact hopen.former q fees' hq'

end

theorem MineMarked.sum_undividedOf (h : MineMarked dexFees dexFees') (token : TokenId) (n : ℕ) :
    dexFees'.sum (undividedOf A token n) = dexFees.sum (undividedOf A token n) := by
  refine sum_eq_of_weights fun q => ?_
  rcases h q with heq | ⟨fees, hq, ⟨hfinish, hnone⟩ | ⟨hopen, hmined⟩⟩
  · rw [heq]
  · rw [hq, hnone, map_some, undividedOf_finished hfinish]
    rfl
  · rw [hq, hmined]
    rfl

variable {amtForMarkets : QuoteTokenType → ℕ} {r : FundDb × ℕ}

theorem doMineVxForFee_marked
    (h : doMineVxForFee A db reader periodId amtForMarkets = .ok r) : MineMarked db.dexFees r.1.dexFees := by
  rcases (doMineVxForFee_frame h).2 with heq | ⟨fuel, hmark⟩
  · rw [heq]
    exact .refl _
  · exact markFinishMine_marked hmark

/-- Mining for fees leaves what is to be divided alone. -/
theorem PoolsOpen.doMineVxForFee (h : PoolsOpen reader db)
    (hok : doMineVxForFee A db reader periodId amtForMarkets = .ok r) :
    PoolsOpen reader r.1 ∧ ∀ token, undivided A reader r.1 token = undivided A reader db token := by
  have hmarked := doMineVxForFee_marked hok
  have hframe := (doMineVxForFee_frame hok).1
  have htime : r.1.dexTimestamp = db.dexTimestamp := by rw [hframe]
  have hlast : r.1.lastDexFeesPeriodId = db.lastDexFeesPeriodId := by rw [hframe]
  unfold PoolsOpen undivided accumulateFeeDividendPool
  rw [htime, hlast]
  refine ⟨?_, fun token => hmarked.sum_undividedOf token _⟩
  rcases h with ⟨hzero, hempty⟩ | ⟨hset, hlast', hopen⟩
  · refine .inl ⟨hzero, ext_get? fun q => ?_⟩
    rcases hmarked q with heq | ⟨fees, hq, -⟩
    · rw [heq, hempty]
    · rw [hempty] at hq
      cases hq
  · exact .inr ⟨hset, hlast', hmarked.openAt hopen⟩

end Mining
end GoVite.Dex

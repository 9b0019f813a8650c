import GoVite.Sanity.Dex.MineFees

/-! The fees for mining: those of the users whose fees reach the threshold, by which the mining divides. -/

namespace GoVite.Dex
open KeyStore ExceptRules

variable (A : Arith) (reader : ConsensusReader) (periodId : ℕ)

/-- The storage at the start of a period: the users have paid in earlier periods only. -/
structure PeriodStart (db : FundDb) : Prop where
  current : db.getCurrentPeriodId reader = .ok periodId
  sorted : ∀ a, ((db.userFees.getD a []).map FeesByPeriod.period).Pairwise (· < ·)
  past : ∀ a, ∀ f ∈ db.userFees.getD a [], f.period < periodId
  types : ∀ a q, ((feesAt (db.userFees.getD a []) q).map FeeAccount.quoteTokenType).Nodup
  recorded : RecordedOnce db
  none : feesForMineOf db periodId = []

/-- The runs from the start of a period: settlements of any fees, the clock, and whatever else leaves the
fees and the thresholds alone. -/
inductive FeeRun : FundDb → Prop
  | start {db : FundDb} (h : PeriodStart reader periodId db) : FeeRun db
  | settleFees {db db' : FundDb} (hrun : FeeRun db) {allowMining : Bool} {tokenId : TokenId}
      {feeTokenDecimals : ℤ} {t : QuoteTokenType} {feeActions : List (Address × FeeSettle)} {feeForDividend : Option ℕ}
      (h : settleFeesWithTokenId A db reader allowMining tokenId feeTokenDecimals t feeActions feeForDividend = .ok db') :
    FeeRun db'
  | setTimestamp {db db' : FundDb} (hrun : FeeRun db) {timestamp : ℕ}
      (hforward : reader.getIndexByTime db.dexTimestamp ≤ reader.getIndexByTime timestamp)
      (h : setDexTimestamp A db reader timestamp = .ok db') : FeeRun db'
  | other {db db' : FundDb} (hrun : FeeRun db) (hfees : db'.userFees = db.userFees)
      (hdexFees : db'.dexFees = db.dexFees)
      (hthresholds : db'.mineThresholds = db.mineThresholds) (htime : db'.dexTimestamp = db.dexTimestamp) :
    FeeRun db'

structure Tracked (db : FundDb) : Prop where
  started : db.dexTimestamp ≠ 0
  current : periodId ≤ reader.getIndexByTime db.dexTimestamp
  inOrder : FeesInOrder db (reader.getIndexByTime db.dexTimestamp)
  recorded : RecordedOnce db
  total : ∀ t, recordedTotal db periodId t = userTotal db periodId t

variable {A} {reader} {periodId} {db db' : FundDb}

theorem PeriodStart.tracked (h : PeriodStart reader periodId db) : Tracked reader periodId db := by
  obtain ⟨hstarted, hcurrent⟩ := getCurrentPeriodId_ok h.current
  constructor
  case started => exact hstarted
  case current => exact hcurrent.le
  case inOrder =>
    rw [← hcurrent]
    exact ⟨fun a => ⟨h.sorted a, fun f hf => (h.past a f hf).le⟩, h.types⟩
  case recorded => exact h.recorded
  case total =>
    intro t
    unfold recordedTotal userTotal
    rw [h.none, Store.sum_eq_zero]
    · rfl
    · intro a userFees hget
      have hpast := h.past a
      rw [Store.getD_of_get? hget] at hpast
      rw [feesAt_eq_nil fun f hf => (hpast f hf).ne]
      rfl

theorem Tracked.settleFees (h : Tracked reader periodId db) {allowMining : Bool} {tokenId : TokenId}
    {feeTokenDecimals : ℤ} {t : QuoteTokenType} {feeActions : List (Address × FeeSettle)} {feeForDividend : Option ℕ}
    (hsettle : settleFeesWithTokenId A db reader allowMining tokenId feeTokenDecimals t feeActions feeForDividend = .ok db') :
    Tracked reader periodId db' := by
  have hperiod : db.getCurrentPeriodId reader = .ok (reader.getIndexByTime db.dexTimestamp) := if_neg h.started
  obtain ⟨htime, hinOrder, hrecorded, sum, htotal⟩ := settleFees_totals hperiod h.inOrder h.recorded hsettle
  rw [← htime] at hinOrder
  refine ⟨htime ▸ h.started, htime ▸ h.current, hinOrder, hrecorded, fun t' => ?_⟩
  rw [(htotal periodId t').1, (htotal periodId t').2, h.total t']

theorem FeesInOrder.later {current later : ℕ} (h : FeesInOrder db current) (hle : current ≤ later) : FeesInOrder db later :=
  ⟨fun a => ⟨(h.inOrder a).sorted, fun f hf => ((h.inOrder a).past f hf).trans hle⟩, h.types⟩

theorem roll_feesForMine {r : FundDb × DexFeesByPeriod} {n : ℕ} (h : rollAndGentNewDexFeesByPeriod A db n = .ok r) :
    r.2.feesForMine = [] := by
  obtain ⟨-, ⟨-, heq⟩ | ⟨former, -, -, heq⟩⟩ := roll_cases h
  · rw [heq]
  · rw [heq]

/-- What keeps the fees of users and the thresholds, and the records of the period, keeps the totals. -/
theorem totals_congr (db db' : FundDb) (hfees : db'.userFees = db.userFees) (hthresholds : db'.mineThresholds = db.mineThresholds)
    (hrecords : feesForMineOf db' periodId = feesForMineOf db periodId) (t : QuoteTokenType) :
    recordedTotal db' periodId t = recordedTotal db periodId t ∧ userTotal db' periodId t = userTotal db periodId t := by
  unfold recordedTotal userTotal FundDb.getMineThreshold
  rw [hfees, hthresholds, hrecords]
  exact ⟨rfl, rfl⟩

/-- A new period is recorded without fees for mining; the periods before keep theirs. -/
theorem Tracked.setTimestamp (h : Tracked reader periodId db) {timestamp : ℕ}
    (hforward : reader.getIndexByTime db.dexTimestamp ≤ reader.getIndexByTime timestamp)
    (hset : setDexTimestamp A db reader timestamp = .ok db') : Tracked reader periodId db' := by
  obtain ⟨hlt, ⟨hsame, rfl⟩ | ⟨rolled, hne, hroll, rfl⟩⟩ := setDexTimestamp_cases hset
  · refine ⟨Nat.ne_zero_of_lt hlt, h.current.trans hforward, ?_, h.recorded, h.total⟩
    exact ⟨(h.inOrder.later hforward).inOrder, h.inOrder.types⟩
  · have hframe := (roll_cases hroll).1
    have hrecords : ∀ q, feesForMineOf
        { saveDexFeesByPeriodId rolled.1 (reader.getIndexByTime timestamp) rolled.2 with dexTimestamp := timestamp } q =
        if q = reader.getIndexByTime timestamp then [] else feesForMineOf db q := by
      intro q
      refine (feesForMineOf_save rolled.1 (reader.getIndexByTime timestamp) rolled.2 q).trans ?_
      rw [roll_feesForMine hroll, hframe]
      rfl
    constructor
    case started => exact Nat.ne_zero_of_lt hlt
    case current => exact h.current.trans hforward
    case inOrder =>
      rw [hframe]
      exact ⟨(h.inOrder.later hforward).inOrder, h.inOrder.types⟩
    case recorded =>
      intro q
      rw [hrecords]
      split_ifs
      · exact List.nodup_nil
      · exact h.recorded q
    case total =>
      intro t
      have hearlier : periodId ≠ reader.getIndexByTime timestamp :=
        (h.current.trans_lt (lt_of_le_of_ne hforward hne.symm)).ne
      obtain ⟨hrecorded, huser⟩ := totals_congr db _ (by rw [hframe]; rfl) (by rw [hframe]; rfl)
        ((hrecords periodId).trans (if_neg hearlier)) t
      rw [hrecorded, huser, h.total]

theorem Tracked.other (h : Tracked reader periodId db) (hfees : db'.userFees = db.userFees)
    (hdexFees : db'.dexFees = db.dexFees) (hthresholds : db'.mineThresholds = db.mineThresholds)
    (htime : db'.dexTimestamp = db.dexTimestamp) : Tracked reader periodId db' := by
  have hrecords : ∀ q, feesForMineOf db' q = feesForMineOf db q := by
    intro q
    unfold feesForMineOf
    rw [hdexFees]
  constructor
  case started => exact htime ▸ h.started
  case current => exact htime ▸ h.current
  case inOrder =>
    rw [htime]
    constructor
    · rw [hfees]
      exact h.inOrder.inOrder
    · rw [hfees]
      exact h.inOrder.types
  case recorded =>
    intro q
    rw [hrecords]
    exact h.recorded q
  case total =>
    intro t
    obtain ⟨hrecorded, huser⟩ := totals_congr db db' hfees hthresholds (hrecords periodId) t
    rw [hrecorded, huser, h.total]

theorem FeeRun.tracked (h : FeeRun A reader periodId db) : Tracked reader periodId db := by
  induction h with
  | start h => exact h.tracked
  | settleFees _ h ih => exact ih.settleFees h
  | setTimestamp _ hforward h ih => exact ih.setTimestamp hforward h
  | other _ hfees hdexFees hthresholds htime ih => exact ih.other hfees hdexFees hthresholds htime

/-- In every run the fees recorded for mining are those of the users valid for it, of every type, for base fees and
invite bonus alike; and mining divides by all of them, unless the VX of the type is used up before. -/
theorem mining_fee_totals (A : Arith) (reader : ConsensusReader) (periodId : ℕ) (db : FundDb)
    (hrun : FeeRun A reader periodId db) :
    (∀ t, recordedTotal db periodId t = userTotal db periodId t) ∧
    ∀ (amtForMarkets : QuoteTokenType → ℕ) (r : FundDb × ℕ), doMineVxForFee A db reader periodId amtForMarkets = .ok r →
      db.dexFees.get? periodId = none ∧ r = (db, accumulateAmount amtForMarkets) ∨
      ∃ dexFees s, mineForFees A reader db periodId amtForMarkets dexFees = .ok s ∧
        r = (s.db, accumulateAmount s.toDivideVxLeave) ∧
        ∀ t, s.dividedFee t ≤ together (recordedTotal db periodId t) ∧
          (s.dividedFee t = together (recordedTotal db periodId t) ∨ s.toDivideVxLeave t = 0) := by
  have htracked := hrun.tracked
  refine ⟨htracked.total, fun amtForMarkets r hmine => ?_⟩
  obtain hnone | ⟨dexFees, s, hloop, hr⟩ := doMineVxForFee_ok hmine
  · exact .inl hnone
  · exact .inr ⟨dexFees, s, hloop, hr, fun t =>
      mineForFees_handed htracked.inOrder htracked.recorded (htracked.total t) hloop⟩

/-- The storage of an exchange in period one that nobody has used. -/
def sampleStart : FundDb := { heightPoint := ⟨12⟩, dexTimestamp := 86400 }

def sampleFees : List (Address × FeeSettle) :=
  [(1, ⟨3 * commonTokenPow, 0⟩), (2, ⟨3 * commonTokenPow, 0⟩), (3, ⟨3 * commonTokenPow, 0⟩)]

/-- The end of a mine pool of five: two are for the fees in VITE. -/
def sampleAmounts : QuoteTokenType → ℕ
  | .vite => 2
  | _ => 1

theorem sampleStart_periodStart : PeriodStart (.daily 0) 1 sampleStart where
  current := by decide +kernel
  sorted a := List.Pairwise.nil
  past a f hf := absurd hf List.not_mem_nil
  types a q := List.nodup_nil
  recorded q := List.nodup_nil
  none := by rfl

theorem sample_settled : ∃ db, FeeRun goArith (.daily 0) 1 db ∧
    settleFeesWithTokenId goArith sampleStart (.daily 0) true viteTokenId 18 .vite sampleFees none = .ok db := by
  cases h : settleFeesWithTokenId goArith sampleStart (.daily 0) true viteTokenId 18 .vite sampleFees none with
  | error e =>
    have hok : (settleFeesWithTokenId goArith sampleStart (.daily 0) true viteTokenId 18 .vite sampleFees none).isOk = true := by
      decide +kernel
    rw [h] at hok
    cases hok
  | ok db => exact ⟨db, .settleFees (.start sampleStart_periodStart) h, rfl⟩

theorem mining_fee_totals_three_users : ∃ db, FeeRun goArith (.daily 0) 1 db ∧
    settleFeesWithTokenId goArith sampleStart (.daily 0) true viteTokenId 18 .vite sampleFees none = .ok db ∧
    recordedTotal db 1 .vite = userTotal db 1 .vite := by
  obtain ⟨db, hrun, hsettle⟩ := sample_settled
  exact ⟨db, hrun, hsettle, (mining_fee_totals goArith (.daily 0) 1 db hrun).1 .vite⟩

/-- What the loop handed to the division, and the recorded total. -/
def sampleHanded : Except DexError (ℕ × ℕ) := do
  let db ← settleFeesWithTokenId goArith sampleStart (.daily 0) true viteTokenId 18 .vite sampleFees none
  let dexFees ← markFinishMine db.dexFees (db.dexFees.entries.length + 1) 1
  let s ← mineForFees goArith (.daily 0) db 1 sampleAmounts dexFees
  .ok (s.dividedFee .vite, together (recordedTotal db 1 .vite))

/-- Two of three equal fees use up the two VX of their type, as each part rounds up; the third is not handed to the
division. -/
theorem mining_fee_totals_used_up_early : ∃ db dexFees s, FeeRun goArith (.daily 0) 1 db ∧
    mineForFees goArith (.daily 0) db 1 sampleAmounts dexFees = .ok s ∧
    doMineVxForFee goArith db (.daily 0) 1 sampleAmounts = .ok (s.db, accumulateAmount s.toDivideVxLeave) ∧
    s.dividedFee .vite = 6 * commonTokenPow ∧ together (recordedTotal db 1 .vite) = 9 * commonTokenPow := by
  have hsample : sampleHanded = .ok (6 * commonTokenPow, 9 * commonTokenPow) := by decide +kernel
  obtain ⟨db, hsettle, h⟩ := bind_ok hsample
  obtain ⟨dexFees, hmark, h⟩ := bind_ok h
  obtain ⟨s, hloop, h⟩ := bind_ok h
  obtain ⟨hdivided, htotal⟩ := Prod.mk.inj (Except.ok.inj h)
  refine ⟨db, dexFees, s, .settleFees (.start sampleStart_periodStart) hsettle, hloop, ?_, hdivided, htotal⟩
  cases hget : db.dexFees.get? 1 with
  | none =>
    unfold recordedTotal feesForMineOf at htotal
    rw [hget] at htotal
    cases htotal
  | some fees =>
    rw [doMineVxForFee_eq hget, hmark]
    change (do
      let s ← mineForFees goArith (.daily 0) db 1 sampleAmounts dexFees
      Except.ok (s.db, accumulateAmount s.toDivideVxLeave)) = _
    rw [hloop]
    rfl

end GoVite.Dex

import GoVite.Sanity.Dex.OpenPools

/-! What is ever added to the dividend pools is handed out once, or still to be divided, as long as no timestamp lies in
period zero: a roll out of period zero, which is stored like no period at all, loses the rest of its pools. -/

namespace GoVite.Dex
open KeyStore ExceptRules List Option Store Prod

section Links
variable {dexFees dexFees' : Store ℕ DexFeesByPeriod} {n p q fuel : ℕ}

def IsOpen (dexFees : Store ℕ DexFeesByPeriod) (q : ℕ) : Prop :=
  ∃ fees, dexFees.get? q = some fees ∧ fees.finishDividend = false

/-- An open period points to the open period before it, and the divided periods are before the open ones. -/
structure Linked (dexFees : Store ℕ DexFeesByPeriod) : Prop where
  positive : ∀ q fees, dexFees.get? q = some fees → 0 < q
  link : ∀ q fees, dexFees.get? q = some fees → fees.finishDividend = false → ∀ r, IsOpen dexFees r → r < q →
    r ≤ fees.lastValidPeriod ∧ IsOpen dexFees fees.lastValidPeriod
  order : ∀ q fees, dexFees.get? q = some fees → fees.finishDividend = true → ∀ r, IsOpen dexFees r → q < r

theorem Linked.empty : Linked .empty where
  positive q fees hq := by
    cases hq
  link q fees hq := by
    cases hq
  order q fees hq := by
    cases hq

theorem Linked.set {fees' : DexFeesByPeriod} (h : Linked dexFees) (hpos : 0 < n)
    (hlatest : ∀ q fees, dexFees.get? q = some fees → q ≤ n) (hopen : fees'.finishDividend = false)
    (hlink : ∀ r, IsOpen dexFees r → r < n → r ≤ fees'.lastValidPeriod ∧ IsOpen dexFees fees'.lastValidPeriod) :
    Linked (dexFees.set n fees') := by
  have hold : ∀ r, IsOpen (dexFees.set n fees') r → r = n ∨ IsOpen dexFees r := by
    rintro r ⟨fees, hr, hopen⟩
    exact (get?_set_cases hr).imp And.left fun hr => ⟨fees, hr.2, hopen⟩
  have hnew : ∀ r, IsOpen dexFees r → IsOpen (dexFees.set n fees') r := by
    rintro r ⟨fees, hr, hopen'⟩
    by_cases heq : r = n
    · exact ⟨fees', by rw [heq, get?_set_self], hopen⟩
    · exact ⟨fees, by rw [get?_set_ne _ _ heq, hr], hopen'⟩
  constructor
  case positive => exact forall_set hpos h.positive
  case link =>
    intro q fees hq hfees r hr hlt
    obtain ⟨rfl, rfl⟩ | ⟨-, hq⟩ := get?_set_cases hq
    · obtain ⟨hle, hlast⟩ := hlink r ((hold r hr).resolve_left hlt.ne) hlt
      exact ⟨hle, hnew _ hlast⟩
    · have hqn := hlatest q fees hq
      obtain ⟨hle, hlast⟩ := h.link q fees hq hfees r ((hold r hr).resolve_left (by omega)) hlt
      exact ⟨hle, hnew _ hlast⟩
  case order =>
    intro q fees hq hfinish r hr
    obtain ⟨-, rfl⟩ | ⟨heq, hq'⟩ := get?_set_cases hq
    · rw [hopen] at hfinish
      cases hfinish
    · rcases hold r hr with rfl | hr
      · exact (hlatest q fees hq').lt_of_ne heq
      · exact h.order q fees hq' hfinish r hr

/-- The walk from an open period collects every open period up to it. -/
theorem Linked.walk {periods : List (ℕ × DexFeesByPeriod)} (h : Linked dexFees)
    (hq : IsOpen dexFees q) (hwalk : notFinishedFrom dexFees fuel q = some periods) {r : ℕ} (hr : IsOpen dexFees r)
    (hle : r ≤ q) : r ∈ periods.map fst := by
  induction fuel generalizing q periods with
  | zero => cases hwalk
  | succ fuel ih =>
    obtain ⟨fees, hstored, hopen⟩ := hq
    unfold notFinishedFrom at hwalk
    rw [hstored] at hwalk
    dsimp only at hwalk
    rw [hopen, if_neg Bool.false_ne_true] at hwalk
    rcases hle.eq_or_lt with rfl | hlt
    · split_ifs at hwalk
      · rw [← some.inj hwalk]
        exact mem_singleton_self r
      · obtain ⟨rest, -, rfl⟩ := map_eq_some_iff.1 hwalk
        exact mem_cons_self
    · obtain ⟨hlast, hformer⟩ := h.link q fees hstored hopen r hr hlt
      have hne : fees.lastValidPeriod ≠ 0 := by
        obtain ⟨fees', hr, -⟩ := hr
        have := h.positive r fees' hr
        omega
      rw [if_neg hne] at hwalk
      obtain ⟨rest, hrest, rfl⟩ := map_eq_some_iff.1 hwalk
      exact mem_cons_of_mem _ (ih hformer hrest hlast)

variable {db : FundDb} {periods : List (ℕ × DexFeesByPeriod)}

theorem isOpen_marks (hnodup : (periods.map fst).Nodup) :
    IsOpen (periods.foldl markDexFeesFinishDividend db).dexFees q ↔ IsOpen db.dexFees q ∧ q ∉ periods.map fst := by
  by_cases hmem : q ∈ periods.map fst
  · constructor
    · rintro ⟨fees, hq, hopen⟩
      rw [marks_get?_mem hnodup hmem hq] at hopen
      cases hopen
    · rintro ⟨-, hnot⟩
      exact absurd hmem hnot
  · unfold IsOpen
    rw [marks_get?_ne hmem]
    exact ⟨fun hq => ⟨hq, hmem⟩, fun hq => hq.1⟩

/-- Every open period up to the job's period is found by the walk from the first valid one. -/
theorem Linked.collects (h : Linked dexFees)
    (hwalk : notFinishedFrom dexFees fuel (firstValidPeriod dexFees p) = some periods) (hq : IsOpen dexFees q) (hle : q ≤ p) :
    q ∈ periods.map fst := by
  obtain ⟨fees, hstored, hopen⟩ := hq
  have hfirst : q ≤ firstValidPeriod dexFees p := by
    by_contra hnot
    rw [firstValidPeriod_between (not_le.1 hnot) hle] at hstored
    cases hstored
  have hne : firstValidPeriod dexFees p ≠ 0 := ((h.positive q fees hstored).trans_le hfirst).ne'
  obtain ⟨first, hvalid⟩ := isSome_iff_exists.1 (firstValidPeriod_eq hne)
  cases hfinish : first.finishDividend with
  | true => exact absurd (h.order _ first hvalid hfinish q ⟨fees, hstored, hopen⟩) (not_lt.2 hfirst)
  | false => exact h.walk ⟨first, hvalid, hfinish⟩ hwalk ⟨fees, hstored, hopen⟩ hfirst

theorem Linked.marks (h : Linked db.dexFees) (hat : OpenAt db.dexFees n)
    (hwalk : notFinishedFrom db.dexFees fuel (firstValidPeriod db.dexFees p) = some periods) :
    Linked (periods.foldl markDexFeesFinishDividend db).dexFees := by
  have hnodup := notFinishedFrom_nodup hwalk
  have hstored := fun e he => (notFinishedFrom_mem (e := e) hwalk he).1.1
  -- what is not collected lies after what is collected
  have hafter : ∀ q r, q ∈ periods.map fst → IsOpen db.dexFees r → r ∉ periods.map fst → q < r := by
    intro q r hq hr hnot
    by_contra hle
    obtain ⟨e, he, rfl⟩ := mem_map.1 hq
    have hfirst := hat.walk_le hwalk he
    have := firstValidPeriod_le db.dexFees p
    exact hnot (h.collects hwalk hr (by omega))
  constructor
  case positive =>
    intro q fees hq
    obtain ⟨fees', hold, -⟩ := marks_get?_old hnodup hstored hq
    exact h.positive q fees' hold
  case link =>
    intro q fees hq hopen r hr hlt
    have hnot : q ∉ periods.map fst := fun hmem => by
      rw [marks_get?_mem hnodup hmem hq] at hopen
      cases hopen
    rw [marks_get?_ne hnot] at hq
    obtain ⟨hr, hrnot⟩ := (isOpen_marks hnodup).1 hr
    obtain ⟨hle, hlast⟩ := h.link q fees hq hopen r hr hlt
    refine ⟨hle, (isOpen_marks hnodup).2 ⟨hlast, fun hmem => ?_⟩⟩
    exact absurd (hafter _ r hmem hr hrnot) (not_lt.2 hle)
  case order =>
    intro q fees hq hfinish r hr
    obtain ⟨hr, hrnot⟩ := (isOpen_marks hnodup).1 hr
    by_cases hmem : q ∈ periods.map fst
    · exact hafter q r hmem hr hrnot
    · rw [marks_get?_ne hmem] at hq
      exact h.order q fees hq hfinish r hr

theorem Linked.mineMarked (h : Linked dexFees) (hmarked : MineMarked dexFees dexFees') : Linked dexFees' := by
  have hisOpen : ∀ q, IsOpen dexFees' q ↔ IsOpen dexFees q := by
    intro q
    constructor
    · rintro ⟨fees, hq, hopen⟩
      obtain ⟨fees', hq', hfinish, -⟩ := hmarked.old hq
      exact ⟨fees', hq', hfinish.trans hopen⟩
    · rintro ⟨fees, hq, hopen⟩
      exact hmarked.stays_open hq hopen
  constructor
  case positive =>
    intro q fees hq
    obtain ⟨fees', hq', -⟩ := hmarked.old hq
    exact h.positive q fees' hq'
  case link =>
    intro q fees hq hopen r hr hlt
    obtain ⟨fees', hq', hfinish, hlast⟩ := hmarked.old hq
    rw [← hlast, hisOpen]
    exact h.link q fees' hq' (hfinish.trans hopen) r ((hisOpen r).1 hr) hlt
  case order =>
    intro q fees hq hfinished r hr
    obtain ⟨fees', hq', hfinish, -⟩ := hmarked.old hq
    exact h.order q fees' hq' (hfinish.trans hfinished) r ((hisOpen r).1 hr)

end Links

/-- The fund contract, what was ever added to the pools and handed to dividends of each token, and the
periods that were divided. -/
structure Pools where
  db : FundDb
  added : TokenId → ℕ := fun _ => 0
  handed : TokenId → ℕ := fun _ => 0
  divided : List ℕ := []

open Pools

/-- What `SettleFees` is called with; a donation has no fee actions. -/
structure FeeCall where
  allowMining : Bool
  tokenId : TokenId
  feeTokenDecimals : ℤ
  quoteTokenType : QuoteTokenType
  feeActions : List (Address × FeeSettle)
  feeForDividend : Option ℕ

def FeeCall.amount (c : FeeCall) : ℕ := (c.feeActions.map fun a => a.2.baseFee).sum + c.feeForDividend.getD 0

variable (A : Arith) (reader : ConsensusReader) (allowed : ℕ → Prop) (s : Pools)

namespace Pools

def settleFees (c : FeeCall) : Pools :=
  match settleFeesWithTokenId A s.db reader c.allowMining c.tokenId c.feeTokenDecimals c.quoteTokenType c.feeActions
    c.feeForDividend with
  | .ok db => { s with db := db, added := fun token => s.added token + if c.tokenId = token then c.amount else 0 }
  | .error _ => s

def clock (timestamp : ℕ) : Pools :=
  match setDexTimestamp A s.db reader timestamp with
  | .ok db => { s with db := db }
  | .error _ => s

def Past (periodId : ℕ) : Prop := s.db.dexTimestamp ≠ 0 ∧ periodId < reader.getIndexByTime s.db.dexTimestamp

/-- What a job adds up for the periods it divides is handed out. -/
def dividend (periodId : ℕ) : Pools :=
  match doFeesDividend A s.db periodId with
  | .ok r => { s with
      db := r.1
      handed := fun token => s.handed token + ((dividedPeriods s.db periodId).foldl (addDividends A) .empty).getD token 0
      divided := (dividedPeriods s.db periodId).map Prod.fst ++ s.divided }
  | .error _ => s

def mine (periodId : ℕ) (amtForMarkets : QuoteTokenType → ℕ) : Pools :=
  match doMineVxForFee A s.db reader periodId amtForMarkets with
  | .ok r => { s with db := r.1 }
  | .error _ => s

end Pools

/-- Fees, donations, timestamps, dividend jobs and mining jobs in any order, from a new contract; other
calls do not touch the pools. Every timestamp is `allowed`, and none goes back to an earlier period. -/
inductive PoolRun : Pools → Prop
  | start {db : FundDb} (htime : db.dexTimestamp = 0) (hlast : db.lastDexFeesPeriodId = 0) (hempty : db.dexFees = .empty) :
    PoolRun { db := db }
  | settleFees {s : Pools} (hrun : PoolRun s) (c : FeeCall) : PoolRun (s.settleFees A reader c)
  | setTimestamp {s : Pools} (hrun : PoolRun s) (timestamp : ℕ) (hallowed : allowed timestamp)
      (hforward : ForwardTo reader s.db timestamp) :
    PoolRun (s.clock A reader timestamp)
  | dividend {s : Pools} (hrun : PoolRun s) (periodId : ℕ) (hpast : s.Past reader periodId) :
    PoolRun (s.dividend A periodId)
  | mine {s : Pools} (hrun : PoolRun s) (periodId : ℕ) (amtForMarkets : QuoteTokenType → ℕ)
      (hpast : s.Past reader periodId) :
    PoolRun (s.mine A reader periodId amtForMarkets)
  | other {s : Pools} (hrun : PoolRun s) (db : FundDb) (hfees : db.dexFees = s.db.dexFees)
      (hlast : db.lastDexFeesPeriodId = s.db.lastDexFeesPeriodId) (htime : db.dexTimestamp = s.db.dexTimestamp) :
    PoolRun { s with db := db }

/-- Every amount that was added is handed out or still to be divided, no period was divided twice, and a
job can always be done, after which, if there are holders of VX, no period up to the job's is left. -/
structure Pools.Conserved : Prop where
  total : ∀ token, s.added token =
    s.handed token + accumulateFeeDividendPool A s.db (reader.getIndexByTime s.db.dexTimestamp) token
  once : s.divided.Nodup
  finished : ∀ q fees, s.db.dexFees.get? q = some fees → (fees.finishDividend = true ↔ q ∈ s.divided)
  noneSkipped : ∀ p, s.Past reader p → ∃ r, doFeesDividend A s.db p = .ok r ∧
    ((matchVxFundsByPeriod s.db.vxHistories.sums p false).found = true →
      ∀ q fees, q ≤ p → r.1.dexFees.get? q = some fees → fees.finishDividend = true)

structure Pools.Inv : Prop where
  opened : PoolsOpen reader s.db
  linked : Linked s.db.dexFees
  later : s.db.dexTimestamp ≠ 0 → 0 < reader.getIndexByTime s.db.dexTimestamp
  total : ∀ token, s.added token = s.handed token + undivided A reader s.db token
  once : s.divided.Nodup
  finished : ∀ q fees, s.db.dexFees.get? q = some fees → (fees.finishDividend = true ↔ q ∈ s.divided)
  past : ∀ q ∈ s.divided, s.Past reader q

namespace Pools
variable {A} {reader} {s}

theorem Inv.start {db : FundDb} (htime : db.dexTimestamp = 0) (hlast : db.lastDexFeesPeriodId = 0)
    (hempty : db.dexFees = .empty) : Inv A reader { db := db } where
  opened := .inl ⟨hlast, hempty⟩
  linked := hempty ▸ Linked.empty
  later h := absurd htime h
  total token := by
    unfold undivided accumulateFeeDividendPool
    rw [hempty]
    rfl
  once := nodup_nil
  finished q fees hq := by
    rw [hempty] at hq
    cases hq
  past q hq := by
    cases hq

theorem Inv.write (h : Inv A reader s) {s' : Pools} {fees' : DexFeesByPeriod} (hopened : PoolsOpen reader s'.db)
    (hfees : s'.db.dexFees = s.db.dexFees.set (reader.getIndexByTime s'.db.dexTimestamp) fees')
    (hpos : 0 < reader.getIndexByTime s'.db.dexTimestamp)
    (hlatest : ∀ q fees, s.db.dexFees.get? q = some fees → q ≤ reader.getIndexByTime s'.db.dexTimestamp)
    (hopen : fees'.finishDividend = false)
    (hlink : ∀ r, IsOpen s.db.dexFees r → r < reader.getIndexByTime s'.db.dexTimestamp →
      r ≤ fees'.lastValidPeriod ∧ IsOpen s.db.dexFees fees'.lastValidPeriod)
    (hdivided : s'.divided = s.divided) (hpast : ∀ q, s.Past reader q → s'.Past reader q)
    (htotal : ∀ token, s'.added token = s'.handed token + undivided A reader s'.db token) : Inv A reader s' where
  opened := hopened
  linked := by
    rw [hfees]
    exact h.linked.set hpos hlatest hopen hlink
  later _ := hpos
  total := htotal
  once := hdivided ▸ h.once
  finished q fees hq := by
    rw [hdivided]
    rw [hfees] at hq
    obtain ⟨heq, rfl⟩ | ⟨-, hq⟩ := get?_set_cases hq
    · rw [hopen]
      refine ⟨fun hfinish => absurd hfinish Bool.false_ne_true, fun hmem => ?_⟩
      exact absurd heq (hpast q (h.past q hmem)).2.ne
    · exact h.finished q fees hq
  past q hq := hpast q (h.past q (hdivided ▸ hq))

theorem Inv.settleFees (h : Inv A reader s) (c : FeeCall) : Inv A reader (s.settleFees A reader c) := by
  unfold Pools.settleFees
  split
  · rename_i db hok
    obtain ⟨hopened, hsum⟩ := h.opened.settleFees hok
    have htotal : ∀ token, s.added token + (if c.tokenId = token then c.amount else 0) =
        s.handed token + undivided A reader db token := by
      intro token
      rw [hsum, h.total, Nat.add_assoc]
      rfl
    obtain ⟨-, -, rfl⟩ | ⟨fees, feesForMine, htime, hfinish, hfees, hdb⟩ := h.opened.settleFees_cases hok
    · exact ⟨h.opened, h.linked, h.later, htotal, h.once, h.finished, h.past⟩
    · have hnow : db.dexTimestamp = s.db.dexTimestamp := by rw [hdb]
      have hstore := congrArg FundDb.dexFees hdb
      rw [← hnow] at hstore htime
      refine h.write hopened hstore ?_ ?_ hfinish ?_ rfl ?_ htotal
      · rw [hnow] at htime ⊢
        exact h.later htime
      · intro q fees' hq
        rcases hfees with ⟨hempty, -⟩ | ⟨hat, -⟩
        · rw [hempty] at hq
          cases hq
        · rw [hnow]
          exact hat.latest q fees' hq
      · intro r hr hlt
        rcases hfees with ⟨hempty, -⟩ | ⟨-, hstored⟩
        · obtain ⟨fees', hr, -⟩ := hr
          rw [hempty] at hr
          cases hr
        · rw [hnow] at hlt
          exact h.linked.link _ fees hstored hfinish r hr hlt
      · intro q hq
        unfold Past
        rw [hnow]
        exact hq
  · exact h

theorem Inv.clock (hA : A.DividendWithin) (h : Inv A reader s) {timestamp : ℕ} (hlater : 0 < reader.getIndexByTime timestamp)
    (hforward : ForwardTo reader s.db timestamp) : Inv A reader (s.clock A reader timestamp) := by
  unfold Pools.clock
  split
  · rename_i db hok
    obtain ⟨hopened, hsum⟩ := h.opened.setDexTimestamp hA hforward hok
    have htotal : ∀ token, s.added token = s.handed token + undivided A reader db token := fun token => by
      rw [(hsum token).2 h.later, h.total]
    obtain ⟨hlt, ⟨hsame, rfl⟩ | ⟨rolled, hne, hroll, rfl⟩⟩ := setDexTimestamp_cases hok
    · refine ⟨hopened, h.linked, fun _ => hlater, htotal, h.once, h.finished, fun q hq => ?_⟩
      exact ⟨Nat.ne_zero_of_lt hlt, hsame ▸ (h.past q hq).2⟩
    · have hfees := roll_finishDividend hroll
      obtain ⟨hdb, -⟩ := roll_cases hroll
      have hstore : (saveDexFeesByPeriodId rolled.1 (reader.getIndexByTime timestamp) rolled.2).dexFees =
          s.db.dexFees.set (reader.getIndexByTime timestamp) rolled.2 := by
        rw [hdb]
        rfl
      have hpast : ∀ q, s.Past reader q → q < reader.getIndexByTime timestamp := fun q hq =>
        hq.2.trans_le (hforward hq.1)
      refine h.write hopened hstore hlater ?_ hfees.1 ?_ rfl ?_ htotal
      · intro q fees hq
        rcases h.opened with ⟨-, hempty⟩ | ⟨htime, -, hat⟩
        · rw [hempty] at hq
          cases hq
        · exact (hat.latest q fees hq).trans (hforward htime)
      · intro r hr _
        rcases h.opened with ⟨-, hempty⟩ | ⟨-, hlast, hat⟩
        · obtain ⟨fees, hr, -⟩ := hr
          rw [hempty] at hr
          cases hr
        · rw [hfees.2, hlast]
          obtain ⟨fees, hstored, -⟩ := hr
          exact ⟨hat.latest r fees hstored, hat.current⟩
      · exact fun q hq => ⟨Nat.ne_zero_of_lt hlt, hpast q hq⟩
  · exact h

section
variable (h : Inv A reader s)
include h

theorem Inv.dividend {p : ℕ} (hpast : s.Past reader p) : Inv A reader (s.dividend A p) := by
  unfold Pools.dividend
  split
  · rename_i r hok
    obtain ⟨hopened, hsum⟩ := h.opened.doFeesDividend hpast.2 hok
    have htime : r.1.dexTimestamp = s.db.dexTimestamp := by rw [doFeesDividend_frame hok]
    have htotal : ∀ token, s.added token =
        s.handed token + ((dividedPeriods s.db p).foldl (addDividends A) .empty).getD token 0 +
          undivided A reader r.1 token := fun token => by
      rw [h.total, ← hsum token]
      omega
    have hpast' : ∀ q, s.Past reader q → r.1.dexTimestamp ≠ 0 ∧ q < reader.getIndexByTime r.1.dexTimestamp := by
      rw [htime]
      exact fun q hq => hq
    obtain ⟨db₁, hdb₁, hmarked⟩ := doFeesDividend_marks hok
    rcases h.opened.dividedPeriods_cases p with hnone | ⟨hat, fuel, hwalk⟩
    · rw [hnone] at hmarked htotal ⊢
      rw [foldl_nil, hdb₁] at hmarked
      refine ⟨hopened, hmarked ▸ h.linked, ?_, htotal, h.once, ?_, fun q hq => hpast' q (h.past q hq)⟩
      · rw [htime]
        exact h.later
      · rw [hmarked]
        exact h.finished
    · have hnodup := notFinishedFrom_nodup hwalk
      have hstored := fun e he => (notFinishedFrom_mem (e := e) hwalk he).1
      constructor
      case opened => exact hopened
      case linked =>
        rw [hmarked]
        rw [← hdb₁] at hat hwalk
        exact Linked.marks (hdb₁ ▸ h.linked) hat hwalk
      case later =>
        rw [htime]
        exact h.later
      case total => exact htotal
      case once =>
        refine nodup_append.2 ⟨hnodup, h.once, fun q hq q' hq' heq => ?_⟩
        obtain ⟨e, he, rfl⟩ := mem_map.1 hq
        have hfinish := (h.finished e.1 e.2 (hstored e he).1).2 (heq ▸ hq')
        rw [(hstored e he).2] at hfinish
        cases hfinish
      case finished =>
        intro q fees hq
        rw [hmarked] at hq
        rw [mem_append]
        by_cases hmem : q ∈ (dividedPeriods s.db p).map fst
        · exact ⟨fun _ => .inl hmem, fun _ => marks_get?_mem hnodup hmem hq⟩
        · rw [marks_get?_ne hmem, hdb₁] at hq
          rw [h.finished q fees hq]
          exact ⟨.inr, fun hor => hor.resolve_left hmem⟩
      case past =>
        intro q hq
        rcases mem_append.1 hq with hq | hq
        · obtain ⟨e, he, rfl⟩ := mem_map.1 hq
          refine hpast' e.1 ⟨hpast.1, ?_⟩
          exact ((hat.walk_le hwalk he).trans (firstValidPeriod_le _ p)).trans_lt hpast.2
        · exact hpast' q (h.past q hq)
  · exact h

theorem Inv.mine (p : ℕ) (amtForMarkets : QuoteTokenType → ℕ) : Inv A reader (s.mine A reader p amtForMarkets) := by
  unfold Pools.mine
  split
  · rename_i r hok
    obtain ⟨hopened, hsum⟩ := h.opened.doMineVxForFee hok
    have hmarked := doMineVxForFee_marked hok
    have htime : r.1.dexTimestamp = s.db.dexTimestamp := by rw [(doMineVxForFee_frame hok).1]
    constructor
    case opened => exact hopened
    case linked => exact h.linked.mineMarked hmarked
    case later =>
      rw [htime]
      exact h.later
    case total =>
      intro token
      rw [hsum]
      exact h.total token
    case once => exact h.once
    case finished =>
      intro q fees hq
      obtain ⟨fees', hq', hfinish, -⟩ := hmarked.old hq
      rw [← hfinish]
      exact h.finished q fees' hq'
    case past =>
      unfold Past
      rw [htime]
      exact h.past
  · exact h

theorem Inv.other {db : FundDb} (hfees : db.dexFees = s.db.dexFees)
    (hlast : db.lastDexFeesPeriodId = s.db.lastDexFeesPeriodId) (htime : db.dexTimestamp = s.db.dexTimestamp) :
    Inv A reader { s with db := db } := by
  obtain ⟨hopened, hlinked, hlater, htotal, honce, hfinished, hpast⟩ := h
  unfold PoolsOpen at hopened
  unfold undivided accumulateFeeDividendPool at htotal
  unfold Past at hpast
  rw [← hfees, ← hlast, ← htime] at hopened
  rw [← hfees] at hlinked hfinished
  rw [← htime] at hlater
  rw [← hfees, ← htime] at htotal
  rw [← htime] at hpast
  exact ⟨hopened, hlinked, hlater, htotal, honce, hfinished, hpast⟩

/-- A job that can be done leaves no period up to its own, if there are holders of VX. -/
theorem Inv.noneSkipped (p : ℕ) : ∃ r, doFeesDividend A s.db p = .ok r ∧
    ((matchVxFundsByPeriod s.db.vxHistories.sums p false).found = true →
      ∀ q fees, q ≤ p → r.1.dexFees.get? q = some fees → fees.finishDividend = true) := by
  obtain ⟨periods, hperiods⟩ := h.opened.walk_ends p
  obtain ⟨r, hok⟩ : ∃ r, doFeesDividend A s.db p = .ok r := by
    rw [doFeesDividend, hperiods]
    cases periods with
    | nil => exact ⟨_, rfl⟩
    | cons e periods =>
      dsimp only
      split_ifs <;> exact ⟨_, rfl⟩
  refine ⟨r, hok, fun hfound q fees hle hq => ?_⟩
  have hdivided : dividedPeriods s.db p = periods := by
    unfold dividedPeriods
    rw [if_pos hfound, hperiods, getD_some]
  obtain ⟨db₁, hdb₁, hmarked⟩ := doFeesDividend_marks hok
  rw [hmarked, hdivided] at hq
  by_cases hmem : q ∈ periods.map fst
  · exact marks_get?_mem (notFinishedFrom_nodup hperiods) hmem hq
  · rw [marks_get?_ne hmem, hdb₁] at hq
    by_contra hopen
    exact hmem (h.linked.collects hperiods ⟨fees, hq, by simpa using hopen⟩ hle)

theorem Inv.conserved : s.Conserved A reader :=
  ⟨h.total, h.once, h.finished, fun p _ => h.noneSkipped p⟩

end

end Pools

theorem PoolRun.inv {A : Arith} {reader : ConsensusReader} {s : Pools} (hA : A.DividendWithin)
    (h : PoolRun A reader (fun t => 0 < reader.getIndexByTime t) s) : s.Inv A reader := by
  induction h with
  | start htime hlast hempty => exact .start htime hlast hempty
  | settleFees _ c ih => exact ih.settleFees c
  | setTimestamp _ timestamp hlater hforward ih => exact ih.clock hA hlater hforward
  | dividend _ periodId hpast ih => exact ih.dividend hpast
  | mine _ periodId amtForMarkets _ ih => exact ih.mine periodId amtForMarkets
  | other _ db hfees hlast htime ih => exact ih.other hfees hlast htime

/-- In every run without a timestamp in period zero the pools are conserved. -/
theorem dividend_pools_conserved (A : Arith) (hA : A.DividendWithin) (reader : ConsensusReader) (s : Pools)
    (h : PoolRun A reader (fun t => 0 < reader.getIndexByTime t) s) : s.Conserved A reader := (h.inv hA).conserved

def sampleDonation : FeeCall :=
  { allowMining := false, tokenId := 7, feeTokenDecimals := 18, quoteTokenType := .vite, feeActions := []
    feeForDividend := some 10000 }

/-- A donation at the first timestamp, and a timestamp of the next day. -/
def sampleRolled (start : ℕ) : Pools :=
  clock goArith (.daily 1000) (settleFees goArith (.daily 1000)
    (clock goArith (.daily 1000)
      { db := { heightPoint := ⟨12⟩, vxLockedFunds := { sums := [⟨0, 20 * commonTokenPow⟩] } } } start)
    sampleDonation) (start + 86400)

theorem sampleRolled_run {allowed : ℕ → Prop} {start : ℕ} (h : allowed start) (h' : allowed (start + 86400))
    (hforward : ForwardTo (.daily 1000) (settleFees goArith (.daily 1000) (clock goArith (.daily 1000)
      { db := { heightPoint := ⟨12⟩, vxLockedFunds := { sums := [⟨0, 20 * commonTokenPow⟩] } } } start)
      sampleDonation).db (start + 86400)) : PoolRun goArith (.daily 1000) allowed (sampleRolled start) := by
  apply PoolRun.setTimestamp
  · apply PoolRun.settleFees
    apply PoolRun.setTimestamp
    · exact .start rfl rfl rfl
    · exact h
    · exact fun h => absurd rfl h
  · exact h'
  · exact hforward

theorem dividend_pools_conserved_divided : (dividend goArith (sampleRolled 90000) 1).handed 7 = 100 ∧
    (dividend goArith (sampleRolled 90000) 1).divided = [1] ∧
    (dividend goArith (sampleRolled 90000) 1).Conserved goArith (.daily 1000) := by
  refine ⟨by decide +kernel, by decide +kernel, ?_⟩
  apply dividend_pools_conserved goArith goArith_dividendWithin
  apply PoolRun.dividend
  · apply sampleRolled_run
    · decide +kernel
    · decide +kernel
    · intro _
      decide +kernel
  · exact ⟨by decide +kernel, by decide +kernel⟩

/-- On the first day of the chain the pools are those of period zero, and ninety-nine parts of them are
lost when it ends. -/
theorem dividend_pools_period_zero : ∃ s, PoolRun goArith (.daily 1000) (fun _ => True) s ∧ s.added 7 = 10000 ∧
    s.handed 7 = 0 ∧ accumulateFeeDividendPool goArith s.db ((ConsensusReader.daily 1000).getIndexByTime s.db.dexTimestamp) 7 = 100 ∧
    ¬s.Conserved goArith (.daily 1000) := by
  have hadded : (sampleRolled 2000).added 7 = 10000 := by decide +kernel
  have hhanded : (sampleRolled 2000).handed 7 = 0 := by decide +kernel
  have hleft : accumulateFeeDividendPool goArith (sampleRolled 2000).db
      ((ConsensusReader.daily 1000).getIndexByTime (sampleRolled 2000).db.dexTimestamp) 7 = 100 := by decide +kernel
  refine ⟨sampleRolled 2000, ?_, hadded, hhanded, hleft, fun hconserved => ?_⟩
  · apply sampleRolled_run
    · trivial
    · trivial
    · intro _
      decide +kernel
  · have htotal := hconserved.total 7
    omega

end GoVite.Dex

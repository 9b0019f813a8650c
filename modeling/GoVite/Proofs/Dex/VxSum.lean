import GoVite.Sanity.Dex.Accounts
import GoVite.Sanity.Dex.Dividend

/-! The sum over all holders of VX, kept by period, is always the sum of what the holders have, and so is the sum of the
stakes for mining, whatever the jobs drop from the histories. -/

namespace GoVite.Dex
open KeyStore ExceptRules

/-- The fund contract, the amounts its users have by the calls so far, and the periods of the jobs so far. -/
structure Holdings where
  db : FundDb
  amounts : Store Address ℕ := .empty
  given : List ℕ := []

open Holdings

variable (A : Arith) (reader : ConsensusReader) (s : Holdings)

namespace Holdings

/-- A user's account is settled with the difference to the amount the user had. -/
def settleVx (address : Address) (updatedVxAccount : Account) : Except DexError FundDb :=
  doSettleVxFunds s.db reader address (getUserNewVxAmt s.db updatedVxAccount - s.amounts.getD address 0) updatedVxAccount

def changeStake (address : Address) (updatedAmount : ℕ) : Except DexError FundDb :=
  doChangeMiningStakedAmount s.db reader address (updatedAmount - s.amounts.getD address 0) updatedAmount

def changed (address : Address) (newAmt : ℕ) : Except DexError FundDb → Holdings
  | .ok db => { s with db := db, amounts := s.amounts.set address newAmt }
  | .error _ => s

def clock (timestamp : ℕ) : Holdings :=
  match setDexTimestamp A s.db reader timestamp with
  | .ok db => { s with db := db }
  | .error _ => s

/-- A job is done for past periods only; `gives` says whether there is something to give for the period. -/
def job (periodId : ℕ) (gives : Bool) : Except DexError FundDb → Holdings
  | .ok db =>
    match s.db.getCurrentPeriodId reader with
    | .ok current =>
      if periodId < current then { s with db := db, given := if gives then periodId :: s.given else s.given } else s
    | .error _ => s
  | .error _ => s

/-- A dividend job needs periods that are not divided yet and holders of VX. -/
def dividesFees (db : FundDb) (periodId : ℕ) : Bool := !(dividedPeriods db periodId).isEmpty

def minesForStaking (db : FundDb) (periodId : ℕ) : Bool :=
  (matchMiningStakingByPeriod db.miningStakings.sums periodId false).found

def settled (address : Address) (updatedVxAccount : Account) : Holdings :=
  s.changed address (getUserNewVxAmt s.db updatedVxAccount) (s.settleVx reader address updatedVxAccount)

def restaked (address : Address) (updatedAmount : ℕ) : Holdings :=
  s.changed address updatedAmount (s.changeStake reader address updatedAmount)

def divided (periodId : ℕ) : Holdings :=
  s.job reader periodId (dividesFees s.db periodId) ((doFeesDividend A s.db periodId).map Prod.fst)

def mined (periodId amountToMine : ℕ) : Holdings :=
  s.job reader periodId (minesForStaking s.db periodId)
    ((doMineVxForStaking A s.db reader periodId amountToMine).map Prod.fst)

/-- The clock does not go back to an earlier period. -/
def Forward (timestamp : ℕ) : Prop :=
  s.db.dexTimestamp ≠ 0 → reader.getIndexByTime s.db.dexTimestamp ≤ reader.getIndexByTime timestamp

/-- The last sum is what the users have, as far as it counts, and the sum matched for a period after
those of the jobs is the sum of what is matched for the users. -/
structure SumAgrees (threshold : ℕ) (s : Holdings) (h : Histories) : Prop where
  last : lastAmount h.sums = s.amounts.sum fun _ amount => counted threshold amount
  matched : ∀ q, (∀ p ∈ s.given, p < q) → (matchByPeriod threshold h.sums q false).amount =
    h.users.sum fun _ entries => counted threshold (matchByPeriod threshold entries q true).amount

/-- The invariant of a run, for the histories that `histories` reads: they are tracked in the current
period, and in any period before the first timestamp. -/
def Agree (reader : ConsensusReader) (threshold : ℕ) (histories : FundDb → Histories) (s : Holdings) : Prop :=
  ∀ c, (s.db.dexTimestamp ≠ 0 → reader.getIndexByTime s.db.dexTimestamp ≤ c) →
    Tracks threshold (histories s.db) s.amounts c s.given

variable {A} {reader} {s} {threshold : ℕ} {histories : FundDb → Histories}

theorem Agree.of_now {s' : Holdings} (htime : s'.db.dexTimestamp ≠ 0)
    (h : Tracks threshold (histories s'.db) s'.amounts (reader.getIndexByTime s'.db.dexTimestamp) s'.given) :
    Agree reader threshold histories s' := fun _ hc => h.later (hc htime)

section
variable (h : Agree reader threshold histories s)
include h

theorem Agree.now :
    Tracks threshold (histories s.db) s.amounts (reader.getIndexByTime s.db.dexTimestamp) s.given :=
  h _ fun _ => le_rfl

theorem Agree.sumAgrees : SumAgrees threshold s (histories s.db) := by
  refine ⟨h.now.lastAmount_amounts, fun q hq => ?_⟩
  simp only [matchByPeriod_amount]
  exact h.now.matched q hq

theorem Agree.clock {timestamp : ℕ} (hforward : s.Forward reader timestamp)
    (hkeeps : ∀ db, setDexTimestamp A s.db reader timestamp = .ok db → histories db = histories s.db) :
    Agree reader threshold histories (s.clock A reader timestamp) := by
  unfold Holdings.clock
  cases hset : setDexTimestamp A s.db reader timestamp with
  | error e => exact h
  | ok db =>
    obtain ⟨hlt, hdb⟩ := setDexTimestamp_ok hset
    have htime : db.dexTimestamp = timestamp := by rw [hdb]
    intro c hc
    rw [hkeeps db hset]
    rw [htime] at hc
    exact h c fun hset => (hforward hset).trans (hc (Nat.ne_zero_of_lt hlt))

variable {res : Except DexError FundDb}

theorem Agree.job {periodId : ℕ} {gives : Bool}
    (htrims : ∀ db, res = .ok db → Trims threshold periodId (histories s.db) (histories db))
    (hkeeps : ∀ db, res = .ok db → gives = false → histories db = histories s.db)
    (htime : ∀ db, res = .ok db → db.dexTimestamp = s.db.dexTimestamp) :
    Agree reader threshold histories (s.job reader periodId gives res) := by
  cases res with
  | error e => exact h
  | ok db =>
    unfold job
    cases hcurrent : s.db.getCurrentPeriodId reader with
    | error e => exact h
    | ok current =>
      obtain ⟨hset, rfl⟩ := getCurrentPeriodId_ok hcurrent
      dsimp only
      by_cases hpast : periodId < reader.getIndexByTime s.db.dexTimestamp
      · rw [if_pos hpast]
        have htime := htime db rfl
        refine Agree.of_now (by rw [htime]; exact hset) ?_
        rw [htime]
        cases gives with
        | true => exact h.now.trim (htrims db rfl) hpast
        | false =>
          rw [hkeeps db rfl rfl]
          exact h.now
      · rw [if_neg hpast]
        exact h

variable {address : Address} {newAmt : ℕ}

/-- A call that changes the amount of a user by its difference: the histories change as they should. -/
theorem Agree.changed
    (hchange : ∀ db, res = .ok db → ∃ periodId h', s.db.getCurrentPeriodId reader = .ok periodId ∧
      (histories s.db).change threshold periodId address (newAmt - s.amounts.getD address 0) newAmt = .ok h' ∧
      histories db = h' ∧ db.dexTimestamp = s.db.dexTimestamp) :
    Agree reader threshold histories (s.changed address newAmt res) := by
  cases res with
  | error e => exact h
  | ok db =>
    obtain ⟨periodId, h', hcurrent, hchanged, hdb, htime⟩ := hchange db rfl
    obtain ⟨hset, rfl⟩ := getCurrentPeriodId_ok hcurrent
    obtain ⟨h'', hok, htracks⟩ := h.now.change address newAmt
    obtain rfl : h'' = h' := Except.ok.inj (hok.symm.trans hchanged)
    refine Agree.of_now (by dsimp only [changed]; rw [htime]; exact hset) ?_
    dsimp only [changed]
    rw [htime, hdb]
    exact htracks

theorem Agree.change_error {e : DexError} {save : Histories → FundDb}
    (herror : (do
      let periodId ← s.db.getCurrentPeriodId reader
      let h' ← (histories s.db).change threshold periodId address (newAmt - s.amounts.getD address 0) newAmt
      .ok (save h')) = .error e) : e = .notSetTimestamp := by
  cases hcurrent : s.db.getCurrentPeriodId reader with
  | error e' =>
    rw [hcurrent] at herror
    obtain rfl := Except.error.inj herror
    unfold FundDb.getCurrentPeriodId at hcurrent
    split_ifs at hcurrent
    exact (Except.error.inj hcurrent).symm
  | ok periodId =>
    obtain ⟨-, rfl⟩ := getCurrentPeriodId_ok hcurrent
    obtain ⟨h', hok, -⟩ := h.now.change address newAmt
    rw [hcurrent] at herror
    change (do
      let h' ← (histories s.db).change threshold _ address (newAmt - s.amounts.getD address 0) newAmt
      .ok (save h')) = .error e at herror
    rw [hok] at herror
    cases herror

end

end Holdings

/-- Calls of `DoSettleVxFunds`, dividend jobs and timestamps in any order, from a contract without VX. -/
inductive VxRun : Holdings → Prop
  | start {db : FundDb} (hempty : db.vxHistories = {}) : VxRun { db := db }
  | settle {s : Holdings} (hrun : VxRun s) (address : Address) (updatedVxAccount : Account) :
    VxRun (s.settled reader address updatedVxAccount)
  | setTimestamp {s : Holdings} (hrun : VxRun s) (timestamp : ℕ) (hforward : s.Forward reader timestamp) :
    VxRun (s.clock A reader timestamp)
  | dividend {s : Holdings} (hrun : VxRun s) (periodId : ℕ) : VxRun (s.divided A reader periodId)

/-- The same with `doChangeMiningStakedAmount` and the mining for stakes. -/
inductive StakeRun : Holdings → Prop
  | start {db : FundDb} (hempty : db.miningStakings = {}) : StakeRun { db := db }
  | change {s : Holdings} (hrun : StakeRun s) (address : Address) (updatedAmount : ℕ) :
    StakeRun (s.restaked reader address updatedAmount)
  | setTimestamp {s : Holdings} (hrun : StakeRun s) (timestamp : ℕ) (hforward : s.Forward reader timestamp) :
    StakeRun (s.clock A reader timestamp)
  | mine {s : Holdings} (hrun : StakeRun s) (periodId amountToMine : ℕ) :
    StakeRun (s.mined A reader periodId amountToMine)

variable {A} {reader} {s}

theorem VxRun.agree (h : VxRun A reader s) : s.Agree reader vxDividendThreshold FundDb.vxHistories := by
  induction h with
  | start hempty =>
    intro c _
    rw [hempty]
    exact .empty _ c
  | settle hrun address account ih =>
    refine ih.changed fun db hdb => ?_
    obtain ⟨periodId, hcurrent, hdb⟩ := bind_ok hdb
    obtain ⟨h', hchange, hdb⟩ := bind_ok hdb
    cases hdb
    refine ⟨periodId, h', hcurrent, hchange, vxHistories_saveVxHistories _ _, ?_⟩
    rw [saveVxHistories_frame]
  | setTimestamp hrun timestamp hforward ih =>
    refine ih.clock hforward fun db hset => ?_
    rw [(setDexTimestamp_ok hset).2]
    rfl
  | dividend hrun periodId ih =>
    refine ih.job (fun db hdb => ?_) (fun db hdb hgives => ?_) fun db hdb => ?_
    all_goals obtain ⟨r, hr, rfl⟩ := map_ok hdb
    · exact doFeesDividend_trims hr
    · rcases doFeesDividend_cases hr with ⟨rfl, -⟩ | ⟨periods, -, hne, hperiods, -⟩
      · rfl
      · simp [dividesFees, hperiods, hne] at hgives
    · rw [doFeesDividend_frame hr]

theorem StakeRun.agree (h : StakeRun A reader s) : s.Agree reader stakeForMiningThreshold FundDb.miningStakings := by
  induction h with
  | start hempty =>
    intro c _
    rw [hempty]
    exact .empty _ c
  | change hrun address updatedAmount ih =>
    refine ih.changed fun db hdb => ?_
    obtain ⟨periodId, hcurrent, hdb⟩ := bind_ok hdb
    obtain ⟨h', hchange, hdb⟩ := bind_ok hdb
    cases hdb
    exact ⟨periodId, h', hcurrent, hchange, rfl, rfl⟩
  | setTimestamp hrun timestamp hforward ih =>
    refine ih.clock hforward fun db hset => ?_
    rw [(setDexTimestamp_ok hset).2]
  | mine hrun periodId amountToMine ih =>
    refine ih.job (fun db hdb => ?_) (fun db hdb hgives => ?_) fun db hdb => ?_
    all_goals obtain ⟨r, hr, rfl⟩ := map_ok hdb
    · exact (doMineVxForStaking_ok hr).2
    · unfold minesForStaking at hgives
      rw [doMineVxForStaking, if_pos (by simpa using hgives)] at hr
      cases hr
      rfl
    · rw [(doMineVxForStaking_ok hr).1]

/-- In every state of a run the VX sum agrees with the holders of VX, and settling any account fails only
if no timestamp was ever set; the same for the stakes for mining. -/
theorem sums_agree_with_users (A : Arith) (reader : ConsensusReader) (s : Holdings) :
    (VxRun A reader s → s.SumAgrees vxDividendThreshold s.db.vxHistories ∧
      ∀ address account e, s.settleVx reader address account = .error e → e = .notSetTimestamp) ∧
    (StakeRun A reader s → s.SumAgrees stakeForMiningThreshold s.db.miningStakings ∧
      ∀ address updatedAmount e, s.changeStake reader address updatedAmount = .error e → e = .notSetTimestamp) := by
  constructor
  · intro h
    exact ⟨h.agree.sumAgrees, fun _ _ _ herror => h.agree.change_error herror⟩
  · intro h
    exact ⟨h.agree.sumAgrees, fun _ _ _ herror => h.agree.change_error herror⟩

/-- A day after genesis one holder has enough VX to count and one has not. -/
def sampleHolders : Holdings :=
  settled (.daily 0) (settled (.daily 0)
    (clock goArith (.daily 0) { db := { heightPoint := ⟨12⟩ } } 86400)
    1 { vxLocked := 20 * commonTokenPow }) 2 { vxLocked := 5 * commonTokenPow }

/-- Another day later the first holder has less, and the fees of the day before are divided. -/
def sampleDivided : Holdings :=
  divided goArith (.daily 0) (settled (.daily 0)
    (clock goArith (.daily 0) sampleHolders (2 * 86400)) 1 { vxLocked := 15 * commonTokenPow }) 1

theorem sampleDivided_run : VxRun goArith (.daily 0) sampleDivided := by
  apply VxRun.dividend
  apply VxRun.settle
  apply VxRun.setTimestamp
  · apply VxRun.settle
    apply VxRun.settle
    apply VxRun.setTimestamp
    · exact .start rfl
    · exact fun h => absurd rfl h
  · intro _
    decide +kernel

def sampleStaked : Holdings :=
  mined goArith (.daily 0) (clock goArith (.daily 0) (restaked (.daily 0)
    (clock goArith (.daily 0) { db := { heightPoint := ⟨12⟩ } } 86400) 1 (200 * commonTokenPow)) (2 * 86400))
    1 commonTokenPow

theorem sampleStaked_run : StakeRun goArith (.daily 0) sampleStaked := by
  apply StakeRun.mine
  apply StakeRun.setTimestamp
  · apply StakeRun.change
    apply StakeRun.setTimestamp
    · exact .start rfl
    · exact fun h => absurd rfl h
  · intro _
    decide +kernel

theorem sums_agree_with_users_divided :
    (lastAmount sampleDivided.db.vxHistories.sums = 15 * commonTokenPow ∧ sampleDivided.given = [1] ∧
      sampleDivided.SumAgrees vxDividendThreshold sampleDivided.db.vxHistories) ∧
    (lastAmount sampleStaked.db.miningStakings.sums = 200 * commonTokenPow ∧ sampleStaked.given = [1] ∧
      sampleStaked.SumAgrees stakeForMiningThreshold sampleStaked.db.miningStakings) := by
  constructor
  · refine ⟨by decide +kernel, by decide +kernel, ?_⟩
    exact ((sums_agree_with_users goArith (.daily 0) sampleDivided).1 sampleDivided_run).1
  · refine ⟨by decide +kernel, by decide +kernel, ?_⟩
    exact ((sums_agree_with_users goArith (.daily 0) sampleStaked).2 sampleStaked_run).1

end GoVite.Dex

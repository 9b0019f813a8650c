import GoVite.Lib.Except
import GoVite.Sanity.Dex.Histories
import GoVite.Spec.Dex.Mine

/-! What the jobs of a period leave alone, and what they do to the histories they match. -/

namespace GoVite.Dex
open KeyStore ExceptRules List

variable (db : FundDb) {reader : ConsensusReader}

section Frames

theorem batchUpdateFund_frame (address : Address) (amounts : List (TokenId × ℕ)) :
    batchUpdateFund db address amounts = { db with accounts := (batchUpdateFund db address amounts).accounts } := by
  unfold batchUpdateFund
  induction amounts generalizing db with
  | nil => rfl
  | cons e amounts ih =>
    rw [foldl_cons, ih]
    rfl

theorem markDexFeesFinishDividend_frame (period : ℕ × DexFeesByPeriod) :
    markDexFeesFinishDividend db period = { db with dexFees := (markDexFeesFinishDividend db period).dexFees } := by
  unfold markDexFeesFinishDividend
  split_ifs <;> rfl

theorem markPeriods_frame (periods : List (ℕ × DexFeesByPeriod)) : periods.foldl markDexFeesFinishDividend db =
      { db with dexFees := (periods.foldl markDexFeesFinishDividend db).dexFees } := by
  induction periods generalizing db with
  | nil => rfl
  | cons p periods ih =>
    rw [foldl_cons, ih, markDexFeesFinishDividend_frame]

theorem saveVxHistories_frame (h : Histories) : db.saveVxHistories h =
    { db with vxFunds := (db.saveVxHistories h).vxFunds, vxLockedFunds := (db.saveVxHistories h).vxLockedFunds } := by
  unfold FundDb.saveVxHistories
  split_ifs <;> rfl

@[simp] theorem vxHistories_saveVxHistories (h : Histories) : (db.saveVxHistories h).vxHistories = h := by
  unfold FundDb.saveVxHistories FundDb.vxHistories
  cases hearth : db.heightPoint.isEarthUpgrade <;> simp [hearth]

/-- `db` with the accounts and the histories of VX of `db'`. -/
abbrev FundDb.withVx (db db' : FundDb) : FundDb :=
  { db with accounts := db'.accounts, vxFunds := db'.vxFunds, vxLockedFunds := db'.vxLockedFunds }

variable {db db' : FundDb} {address : Address} {amtChange : ℤ} {account : Account}

theorem doSettleVxFunds_frame (h : doSettleVxFunds db reader address amtChange account = .ok db') :
    db' = { db with vxFunds := db'.vxFunds, vxLockedFunds := db'.vxLockedFunds } := by
  obtain ⟨periodId, -, h⟩ := bind_ok h
  obtain ⟨histories, -, h⟩ := bind_ok h
  cases h
  exact saveVxHistories_frame db histories

theorem settleVxFundsAnyway_frame (h : settleVxFundsAnyway db reader address amtChange account = .ok db') :
    db' = { db with vxFunds := db'.vxFunds, vxLockedFunds := db'.vxLockedFunds } := by
  obtain ⟨periodId, -, h⟩ := bind_ok h
  dsimp only at h
  split at h <;> cases h <;> exact saveVxHistories_frame db _

/-- Mined VX goes to an account and to the histories of VX. -/
theorem onVxMined_frame {amount : ℕ} (h : onVxMined db reader address amount = .ok db') : db' = db.withVx db' := by
  unfold onVxMined at h
  split_ifs at h
  · rw [doSettleVxFunds_frame h]
    rfl
  · cases h
    rfl
  · rw [settleVxFundsAnyway_frame h]
    rfl

end Frames

variable {h : Histories} {users : List (Address × List AmountByPeriod)} {A : Arith} {periodId : ℕ}

section Holders
variable (A : Arith) (periodId : ℕ) (db : FundDb) (vxSumAmt : ℕ) (periods : List (ℕ × DexFeesByPeriod)) (s : Dividing)
  (user : Address × List AmountByPeriod)

/-- A round of the division writes accounts and the histories of VX. -/
theorem divideToUser_frame : (divideToUser A periodId vxSumAmt s user).db =
    s.db.withVx (divideToUser A periodId vxSumAmt s user).db := by
  unfold divideToUser
  dsimp only
  split_ifs
  · rfl
  · rfl
  · rw [saveVxHistories_frame]
  · rw [batchUpdateFund_frame, saveVxHistories_frame]

/-- The whole division among the users trims the histories of VX. -/
theorem divideToUsers_trims (ht : Trims vxDividendThreshold periodId h s.db.vxHistories)
    (husers : ∀ u ∈ users, h.users.get? u.1 = some u.2) :
    Trims vxDividendThreshold periodId h (users.foldl (divideToUser A periodId vxSumAmt) s).db.vxHistories := by
  induction users generalizing s with
  | nil => exact ht
  | cons u users ih =>
    obtain ⟨hu, hrest⟩ := forall_mem_cons.1 husers
    refine ih _ ?_ hrest
    unfold divideToUser
    dsimp only
    split_ifs with hall hfound hvalid
    · exact ht
    · exact ht
    · rw [vxHistories_saveVxHistories]
      exact ht.saveMatched hu (by simpa using hfound)
    · rw [batchUpdateFund_frame]
      change Trims _ _ _ (FundDb.saveVxHistories _ _).vxHistories
      rw [vxHistories_saveVxHistories]
      exact ht.saveMatched hu (by simpa using hfound)

theorem divideToUsers_frame (users : List (Address × List AmountByPeriod)) :
    (users.foldl (divideToUser A periodId vxSumAmt) s).db =
      s.db.withVx (users.foldl (divideToUser A periodId vxSumAmt) s).db := by
  induction users generalizing s with
  | nil => rfl
  | cons u users ih => rw [foldl_cons, ih, divideToUser_frame]

theorem dividePeriods_trims
    (ht : Trims vxDividendThreshold periodId h db.vxHistories) (husers : db.vxHistories.users = h.users) :
    Trims vxDividendThreshold periodId h (dividePeriods A db periodId vxSumAmt periods).1.vxHistories := by
  have hmarked : (periods.foldl markDexFeesFinishDividend db).vxHistories = db.vxHistories := by
    rw [markPeriods_frame]
    rfl
  refine divideToUsers_trims A periodId vxSumAmt _ (hmarked ▸ ht) fun u hu => ?_
  rw [← husers, ← hmarked]
  exact Store.get?_eq_some_iff.2 hu

end Holders

section Jobs
variable {db : FundDb}

/-- The periods a dividend job divides: none without holders of VX. -/
def dividedPeriods (db : FundDb) (periodId : ℕ) : List (ℕ × DexFeesByPeriod) :=
  if (matchVxFundsByPeriod db.vxHistories.sums periodId false).found then
    (getNotFinishDividendDexFeesByPeriodMap db periodId).getD []
  else []

variable {r : FundDb × List SendBlock}

/-- A dividend job either leaves everything alone, or matches the sum and divides. -/
theorem doFeesDividend_cases (h : doFeesDividend A db periodId = .ok r) :
    let m := matchVxFundsByPeriod db.vxHistories.sums periodId false
    r = (db, []) ∧ dividedPeriods db periodId = [] ∨
    ∃ periods, getNotFinishDividendDexFeesByPeriodMap db periodId = some periods ∧ periods ≠ [] ∧
      dividedPeriods db periodId = periods ∧ m.found = true ∧ 0 < m.amount ∧
      r = dividePeriods A (db.saveVxHistories (db.vxHistories.saveMatchedSum m)) periodId m.amount periods := by
  intro m
  unfold doFeesDividend at h
  unfold dividedPeriods
  split at h
  · cases h
  · rename_i hperiods
    refine .inl ⟨(Except.ok.inj h).symm, ?_⟩
    rw [hperiods]
    split_ifs <;> rfl
  · rename_i periods hne hperiods
    dsimp only at h
    have hpos : m.found = true → 0 < m.amount := matchByPeriod_pos
    split_ifs at h with hfound hzero
    · exact .inl ⟨(Except.ok.inj h).symm, if_neg (by simpa using hfound)⟩
    · exact absurd hzero (hpos (by simpa using hfound)).ne'
    · have hfound : m.found = true := by simpa using hfound
      refine .inr ⟨periods, hperiods, hne, ?_, hfound, Nat.pos_of_ne_zero hzero, (Except.ok.inj h).symm⟩
      rw [if_pos hfound, hperiods, Option.getD_some]

theorem doFeesDividend_frame (h : doFeesDividend A db periodId = .ok r) :
    r.1 = { db.withVx r.1 with dexFees := r.1.dexFees } := by
  rcases doFeesDividend_cases h with ⟨rfl, -⟩ | ⟨periods, -, -, -, -, -, rfl⟩
  · rfl
  · unfold dividePeriods
    dsimp only
    rw [divideToUsers_frame, markPeriods_frame, saveVxHistories_frame]

theorem doFeesDividend_trims (h : doFeesDividend A db periodId = .ok r) :
    Trims vxDividendThreshold periodId db.vxHistories r.1.vxHistories := by
  rcases doFeesDividend_cases h with ⟨rfl, -⟩ | ⟨periods, -, -, -, hfound, -, rfl⟩
  · exact .refl _ _ _
  · refine dividePeriods_trims A periodId _ _ periods ?_ ?_
    · rw [vxHistories_saveVxHistories]
      exact Trims.saveMatchedSum hfound
    · rw [vxHistories_saveVxHistories, saveMatchedSum_users]

end Jobs

section Staking
variable {db : FundDb} {dexMiningStakedAmount amountToMine : ℕ} {s s' : StakeMining}

/-- A round of the mining for stakes either leaves the stakes alone or writes back what it matched. -/
theorem mineForStakingOf_ok {user : Address × List AmountByPeriod}
    (h : mineForStakingOf A reader periodId dexMiningStakedAmount amountToMine s user = .ok s') :
    s'.db = { s.db.withVx s'.db with miningStakings := s'.db.miningStakings } ∧
    (s'.db.miningStakings = s.db.miningStakings ∨
      (matchMiningStakingByPeriod user.2 periodId true).found = true ∧
        s'.db.miningStakings =
          s.db.miningStakings.saveMatched user.1 (matchMiningStakingByPeriod user.2 periodId true)) := by
  unfold mineForStakingOf at h
  dsimp only at h
  split_ifs at h with hfinished hfound hvalid hpos
  · cases h
    exact ⟨rfl, .inl rfl⟩
  · cases h
    exact ⟨rfl, .inl rfl⟩
  · cases h
    exact ⟨rfl, .inr ⟨by simpa using hfound, rfl⟩⟩
  · obtain ⟨db', hmined, h⟩ := bind_ok h
    cases h
    rw [onVxMined_frame hmined]
    exact ⟨rfl, .inr ⟨by simpa using hfound, rfl⟩⟩
  · cases h
    exact ⟨rfl, .inr ⟨by simpa using hfound, rfl⟩⟩

theorem mineForStaking_ok (husers : ∀ u ∈ users, h.users.get? u.1 = some u.2)
    (hrun : users.foldlM (mineForStakingOf A reader periodId dexMiningStakedAmount amountToMine) s = .ok s')
    (ht : Trims stakeForMiningThreshold periodId h s.db.miningStakings) :
    s'.db = { s.db.withVx s'.db with miningStakings := s'.db.miningStakings } ∧
    Trims stakeForMiningThreshold periodId h s'.db.miningStakings := by
  induction users generalizing s with
  | nil =>
    cases hrun
    exact ⟨rfl, ht⟩
  | cons u users ih =>
    obtain ⟨hu, hrest⟩ := forall_mem_cons.1 husers
    obtain ⟨s₁, hstep, hrun⟩ := bind_ok hrun
    obtain ⟨hframe, hstakes⟩ := mineForStakingOf_ok hstep
    have ht₁ : Trims stakeForMiningThreshold periodId h s₁.db.miningStakings := by
      rcases hstakes with heq | ⟨hfound, heq⟩
      · rw [heq]
        exact ht
      · rw [heq]
        exact ht.saveMatched hu hfound
    obtain ⟨hframe', ht'⟩ := ih hrest hrun ht₁
    rw [hframe', hframe]
    exact ⟨rfl, ht'⟩

variable {r : FundDb × ℕ}

theorem doMineVxForStaking_ok (h : doMineVxForStaking A db reader periodId amountToMine = .ok r) :
    r.1 = { db.withVx r.1 with miningStakings := r.1.miningStakings } ∧
    Trims stakeForMiningThreshold periodId db.miningStakings r.1.miningStakings := by
  unfold doMineVxForStaking at h
  dsimp only at h
  split_ifs at h with hfound
  · cases h
    exact ⟨rfl, .refl _ _ _⟩
  · cases h
    exact ⟨rfl, Trims.saveMatchedSum (by simpa using hfound)⟩
  · obtain ⟨s, hrun, h⟩ := bind_ok h
    cases h
    refine mineForStaking_ok (fun u hu => ?_) hrun (Trims.saveMatchedSum (by simpa using hfound))
    rw [saveMatchedSum_users] at hu
    exact Store.get?_eq_some_iff.2 hu

end Staking
end GoVite.Dex

import GoVite.Sanity.Dex.Mine

/-! The VX mine pool: what a job takes out it credits to users or puts into the maker mining pool, and the rest it puts
back. -/

namespace GoVite.Dex
open KeyStore ExceptRules

/-- The VX of all users that is available or locked. -/
def vxHeld (db : FundDb) : ℕ := tokenSum db vxTokenId fun acc => acc.available + acc.vxLocked

theorem countsVx_held : CountsVx fun acc => acc.available + acc.vxLocked := by
  constructor
  · constructor
    · rfl
    · intro acc x
      dsimp only
      omega
  · intro acc x
    dsimp only
    omega

def IsMineJob (bizType : ℕ) : Prop :=
  bizType = mineVxForFeeJob ∨ bizType = mineVxForStakingJob ∨ bizType = mineVxForMakerAndMaintainerJob

theorem runPeriodJob_mined {A : Arith} {reader : ConsensusReader} {db : FundDb} {bizType periodId : ℕ}
    {r : FundDb × List SendBlock} (hjob : IsMineJob bizType) (h : runPeriodJob A db reader bizType periodId = .ok r) :
    ∃ job credits put, Mined db periodId job credits put ∧ r = (saveVxMinePool job, []) ∧
      (bizType ≠ mineVxForMakerAndMaintainerJob → put = 0) := by
  rcases hjob with rfl | rfl | rfl
  · obtain ⟨job, hrun, rfl⟩ := map_ok h
    obtain ⟨credits, hmined⟩ := runMineVxForFeeJob_mined hrun
    exact ⟨job, credits, 0, hmined, rfl, fun _ => rfl⟩
  · obtain ⟨job, hrun, rfl⟩ := map_ok h
    obtain ⟨credits, hmined⟩ := runMineVxForStakingJob_mined hrun
    exact ⟨job, credits, 0, hmined, rfl, fun _ => rfl⟩
  · obtain ⟨job, hrun, rfl⟩ := map_ok h
    obtain ⟨credits, put, hmined⟩ := runMineVxForMakerAndMaintainerJob_mined hrun
    exact ⟨job, credits, put, hmined, rfl, fun hne => absurd rfl hne⟩

/-- The pool before a mining job is the pool after it, what is credited to users and what goes into the maker mining
pool; and both ways of cutting amounts out of a pool cut it into parts, whatever the rounding. -/
theorem vx_mine_pool_conserved (A : Arith) (reader : ConsensusReader) :
    (∀ (db : FundDb) (address : Address) (bizType periodId : ℕ) (r : FundDb × List SendBlock), 0 < db.vxMinePool →
      IsMineJob bizType → methodTriggerPeriodJob A db reader address bizType periodId = .ok r →
      ∃ credits put, VxCredits db r.1 credits ∧ vxHeld r.1 = vxHeld db + itemSum credits ∧
        r.1.makerMiningPools = (if put = 0 then db.makerMiningPools else db.makerMiningPools.set periodId put) ∧
        (bizType ≠ mineVxForMakerAndMaintainerJob → put = 0) ∧
        db.vxMinePool = r.1.vxMinePool + itemSum credits + put) ∧
    (∀ (φ : Type) (toDivideTotal vxPool : ℕ) (mr : MineRate φ),
      itemSum (getVxAmountsForEqualItems A toDivideTotal vxPool mr).1 +
        (getVxAmountsForEqualItems A toDivideTotal vxPool mr).2 = vxPool) ∧
    ∀ (toDivideTotal vxPool : ℕ) (rate : ℚ),
      (getVxAmountToMine A toDivideTotal vxPool rate).1 + (getVxAmountToMine A toDivideTotal vxPool rate).2 = vxPool := by
  refine ⟨?_, fun φ => getVxAmountsForEqualItems_sum A, getVxAmountToMine_sum A⟩
  intro db address bizType periodId r _ hjob h
  obtain ⟨-, h⟩ := guard_ok h
  obtain ⟨currentPeriodId, -, h⟩ := bind_ok h
  obtain ⟨-, h⟩ := guard_ok h
  obtain ⟨-, h⟩ := guard_ok h
  obtain ⟨done, hrun, h⟩ := bind_ok h
  obtain ⟨job, credits, put, hmined, rfl, hput⟩ := runPeriodJob_mined hjob hrun
  obtain rfl := Except.ok.inj h
  have hcredits : VxCredits db (saveLastJobPeriodId (saveVxMinePool job) bizType periodId) credits :=
    hmined.credited.congr rfl
  refine ⟨credits, put, hcredits, ?_, ?_, hput, ?_⟩
  · have hsum := hcredits.tokenSum_eq countsVx_held vxTokenId
    rwa [if_pos rfl] at hsum
  · exact hmined.makerPool
  · have htotal := hmined.total
    change db.vxMinePool = job.2.1 + job.2.2 + _ + _
    omega

def samplePoolDb : FundDb :=
  { heightPoint := ⟨12⟩
    dexTimestamp := 2 * 86400
    vxMinePool := 500000 * commonTokenPow
    periodJobTrigger := some 9
    miningStakings :=
      { users := (Store.empty.set 1 [⟨0, 300 * commonTokenPow⟩]).set 2 [⟨1, 100 * commonTokenPow * 7⟩]
        sums := [⟨0, 300 * commonTokenPow⟩, ⟨1, 1000 * commonTokenPow⟩] } }

/-- The pool after the job, and the VX of the two stakers. -/
def sampleMined : ℕ × ℕ × ℕ :=
  match methodTriggerPeriodJob goArith samplePoolDb (.daily 0) 9 mineVxForStakingJob 1 with
  | .ok r => (r.1.vxMinePool, (r.1.account 1 vxTokenId).available, (r.1.account 2 vxTokenId).available)
  | .error _ => (0, 0, 0)

theorem vx_mine_pool_conserved_staking :
    sampleMined = (499000 * commonTokenPow, 300 * commonTokenPow, 700 * commonTokenPow) ∧
    ∃ r credits put, methodTriggerPeriodJob goArith samplePoolDb (.daily 0) 9 mineVxForStakingJob 1 = .ok r ∧
      VxCredits samplePoolDb r.1 credits ∧
      samplePoolDb.vxMinePool = r.1.vxMinePool + itemSum credits + put := by
  refine ⟨by decide +kernel, ?_⟩
  have hok : (methodTriggerPeriodJob goArith samplePoolDb (.daily 0) 9 mineVxForStakingJob 1).isOk = true := by
    decide +kernel
  cases h : methodTriggerPeriodJob goArith samplePoolDb (.daily 0) 9 mineVxForStakingJob 1 with
  | error e =>
    rw [h] at hok
    cases hok
  | ok r =>
    obtain ⟨credits, put, hcredits, -, -, -, htotal⟩ := (vx_mine_pool_conserved goArith (.daily 0)).1 samplePoolDb 9
      mineVxForStakingJob 1 r (by decide +kernel) (.inr (.inl rfl)) h
    exact ⟨r, credits, put, rfl, hcredits, htotal⟩

end GoVite.Dex

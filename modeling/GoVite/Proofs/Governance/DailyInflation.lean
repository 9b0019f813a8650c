import Mathlib.Algebra.BigOperators.Ring.Finset
import GoVite.Sanity.Governance.Terms

/-! All the producers of a day together get at most the reward of the blocks of that day. -/

namespace GoVite.Governance
open KeyStore Consensus ExceptRules Option Store

/-! What the statistics of a day count -/

/-- No producer has made more blocks than expected, or has negative votes; the blocks and votes of all of them are
among the blocks and votes of the day. -/
structure DayBounds (stats : Store Name SbpStats) (blockTotal : ℕ) (voteSum : ℤ) : Prop where
  factual : ∀ name sbp, stats.get? name = some sbp → sbp.blockNum ≤ sbp.exceptedBlockNum
  voteCnt : ∀ name sbp, stats.get? name = some sbp → 0 ≤ sbp.voteCnt
  blocks : stats.sum (fun _ sbp => (sbp.blockNum : ℤ)) ≤ blockTotal
  votes : stats.sum (fun _ sbp => sbp.voteCnt) ≤ voteSum

variable {votes : List Vote}

/-- A name with two votes in the list has only the last of them in the details. -/
theorem dayVoteStat_le (R : Runtime) (randRank : ℕ) (h : ∀ v ∈ votes, 0 ≤ v.balance) :
    (∀ d ∈ (dayVoteStat R randRank votes).details, 0 ≤ d.2) ∧
      ((dayVoteStat R randRank votes).details.map Prod.snd).sum ≤ (dayVoteStat R randRank votes).total := by
  set top := (R.sorting.sort ByBalance.less votes).take randRank
  have htop : ∀ v ∈ top, 0 ≤ v.balance := fun v hv =>
    h v ((R.sorting.perm ByBalance.less votes).mem_iff.1 (List.mem_of_mem_take hv))
  refine ⟨fun d hd => ?_, ?_⟩
  · rcases get?_foldl_set (get?_eq_some_iff.2 hd) with ⟨v, hv, -, hbalance⟩ | hempty
    · rw [← hbalance]
      exact htop v hv
    · cases hempty
  · have hsum := sum_foldl_set_le (fun v : Vote => v.name) (fun v => v.balance) (f := fun _ balance => balance)
      htop (s := Store.empty) (fun k v hk => by cases hk)
    rw [sum_empty, zero_add] at hsum
    exact hsum

theorem dayBounds_voteStats (index : ℕ) {votes : VoteContent} (hpos : ∀ d ∈ votes.details, 0 ≤ d.2)
    (htotal : (votes.details.map Prod.snd).sum ≤ votes.total) : DayBounds (voteStats index votes) 0 votes.total := by
  have hentry : ∀ name sbp, (voteStats index votes).get? name = some sbp →
      ∃ d ∈ votes.details, sbp = ⟨index, 0, 0, d.2, d.1⟩ := fun name sbp hsbp => by
    rcases get?_foldl_set hsbp with ⟨d, hd, -, hval⟩ | hempty
    · exact ⟨d, hd, hval.symm⟩
    · cases hempty
  refine ⟨fun name sbp hsbp => ?_, fun name sbp hsbp => ?_, ?_, ?_⟩
  · obtain ⟨d, -, rfl⟩ := hentry name sbp hsbp
    exact le_refl 0
  · obtain ⟨d, hd, rfl⟩ := hentry name sbp hsbp
    exact hpos d hd
  · rw [sum_eq_zero fun name sbp hsbp => ?_]
    · exact le_refl 0
    · obtain ⟨d, -, rfl⟩ := hentry name sbp hsbp
      rfl
  · have hsum := sum_foldl_set_le (fun d : Name × ℤ => d.1)
      (fun d => (⟨index, 0, 0, d.2, d.1⟩ : SbpStats)) (f := fun _ sbp => sbp.voteCnt) hpos (s := Store.empty)
      (fun k v hk => by cases hk)
    rw [sum_empty, zero_add] at hsum
    exact hsum.trans htotal

variable {registerMap : Store Address Name} {acc : Store Name SbpStats × ℕ} {voteSum : ℤ}

theorem DayBounds.countSbp
    (h : DayBounds acc.1 acc.2 voteSum) {e : Address × Content} (he : e.2.factualNum ≤ e.2.expectedNum) :
    DayBounds (countSbp registerMap acc e).1 (countSbp registerMap acc e).2 voteSum := by
  unfold Consensus.countSbp
  dsimp only
  cases hsbp : acc.1.get? (registerMap.getD e.1 []) with
  | none =>
    refine { h with blocks := h.blocks.trans ?_ }
    omega
  | some sbp =>
    set name := registerMap.getD e.1 []
    have hfactual := h.factual name sbp hsbp
    refine ⟨forall_set (add_le_add hfactual he) h.factual, forall_set (h.voteCnt name sbp hsbp) h.voteCnt, ?_, ?_⟩
    · have hset := acc.1.sum_set name { sbp with
          blockNum := sbp.blockNum + e.2.factualNum
          exceptedBlockNum := sbp.exceptedBlockNum + e.2.expectedNum } (fun _ sbp => (sbp.blockNum : ℤ))
      have hblocks := h.blocks
      simp only [hsbp, map_some, getD_some] at hset
      push_cast at hset ⊢
      linarith
    · have hset := acc.1.sum_set name { sbp with
          blockNum := sbp.blockNum + e.2.factualNum
          exceptedBlockNum := sbp.exceptedBlockNum + e.2.expectedNum } (fun _ sbp => sbp.voteCnt)
      have hvotes := h.votes
      simp only [hsbp, map_some, getD_some] at hset
      linarith

theorem DayBounds.foldl {sbps : List (Address × Content)} (hsbps : ∀ e ∈ sbps, e.2.factualNum ≤ e.2.expectedNum)
    (h : DayBounds acc.1 acc.2 voteSum) :
    DayBounds (sbps.foldl (Consensus.countSbp registerMap) acc).1 (sbps.foldl (Consensus.countSbp registerMap) acc).2
      voteSum := by
  induction sbps generalizing acc with
  | nil => exact h
  | cons e sbps ih =>
    exact ih (fun e' he' => hsbps e' (List.mem_cons_of_mem e he')) (h.countSbp (hsbps e List.mem_cons_self))

variable {detail : DayStats} {randRank index : ℕ}

/-- The bounds of a day that is made of a point with votes. -/
theorem dayBounds_dayStatsOfPoint {R : Runtime} {registers : List Register}
    {p : DayPoint} (hvotes : p.votes = some (dayVoteStat R randRank votes))
    (hbalance : ∀ v ∈ votes, 0 ≤ v.balance) (hsbps : ∀ e ∈ p.sbps.entries, e.2.factualNum ≤ e.2.expectedNum)
    (hdetail : dayStatsOfPoint registers index p = some detail) :
    DayBounds detail.stats detail.blockTotal detail.voteSum := by
  obtain ⟨hpos, htotal⟩ := dayVoteStat_le R randRank hbalance
  have hstart := dayBounds_voteStats index hpos htotal
  unfold dayStatsOfPoint at hdetail
  split at hdetail
  · cases hdetail
  · rename_i content hcontent
    obtain rfl := mem_unique hcontent hvotes
    obtain rfl := some.inj hdetail
    exact DayBounds.foldl hsbps hstart

/-! The reward of one producer -/

/-- What a producer counts in the sum of votes and stakes. -/
def voteWeight (detail : DayStats) (stakeAmount : ℤ) (name : Name) : ℤ :=
  ((detail.stats.get? name).map fun sbp => sbp.voteCnt + stakeAmount).getD 0

def blocksOf (detail : DayStats) (name : Name) : ℤ := ((detail.stats.get? name).map fun sbp => (sbp.blockNum : ℤ)).getD 0

variable {stakeAmount : ℤ}

theorem weightTotal_nonneg (detail : DayStats) (hstake : 0 < stakeAmount) : 0 ≤ weightTotal detail stakeAmount :=
  add_nonneg (mul_nonneg (Int.natCast_nonneg _) hstake.le) detail.voteSum_nonneg

theorem sum_voteWeight_le (h : DayBounds detail.stats detail.blockTotal detail.voteSum)
    (hstake : 0 < stakeAmount) (names : Finset Name) :
    ∑ name ∈ names, voteWeight detail stakeAmount name ≤ weightTotal detail stakeAmount := by
  refine (detail.stats.sum_keys_le_of_nonneg names fun name sbp hsbp => ?_).trans ?_
  · have := h.voteCnt name sbp hsbp
    omega
  · rw [sum_add, weightTotal]
    have hconst : detail.stats.sum (fun _ _ => stakeAmount) = detail.stats.keys.length * stakeAmount := by
      simp [Store.sum, Store.keys]
    have hvotes := h.votes
    linarith

/-- The reward of a producer: not negative, and each half bounded by the producer's part. -/
structure RewardBounds (detail : DayStats) (stakeAmount : ℤ) (name : Name) (r : Reward) : Prop where
  vote_nonneg : 0 ≤ r.voteReward
  block_nonneg : 0 ≤ r.blockReward
  total : r.totalReward = r.voteReward + r.blockReward
  vote_le : 100 * weightTotal detail stakeAmount * r.voteReward ≤
    50 * rewardPerBlock * detail.blockTotal * voteWeight detail stakeAmount name
  block_le : 100 * r.blockReward ≤ 50 * rewardPerBlock * blocksOf detail name

theorem rewardPerBlock_pos : 0 < rewardPerBlock := by decide

variable {a b : ℤ}

/-- Three divisions, each rounding down, of a product with a factor that is at most one of the divisors. -/
theorem mul_quotient_le {e d : ℤ} (ha : 0 ≤ a) (hb : 0 ≤ b) (hbe : b ≤ e) (he : 0 < e) (hd : 0 < d) :
    0 ≤ a * b / d / e / 100 ∧ 100 * d * (a * b / d / e / 100) ≤ a := by
  have hab : 0 ≤ a * b := mul_nonneg ha hb
  rw [Int.ediv_ediv_of_nonneg hd.le, Int.ediv_ediv_of_nonneg (mul_pos hd he).le]
  set q := a * b / (d * e * 100) with hq
  have hle : q * (d * e * 100) ≤ a * b := Int.ediv_mul_le _ (by positivity)
  refine ⟨Int.ediv_nonneg hab (by positivity), ?_⟩
  have hae : a * b ≤ a * e := mul_le_mul_of_nonneg_left hbe ha
  have hcancel : (100 * d * q) * e ≤ a * e := by
    calc (100 * d * q) * e = q * (d * e * 100) := by ring
      _ ≤ a * e := hle.trans hae
  exact le_of_mul_le_mul_right hcancel he

/-- A quotient that does not panic, of a number that is not negative. -/
theorem quo_eq {q : ℤ} (h : quo a b = .ok q) (ha : 0 ≤ a) : q = a / b := by
  unfold quo at h
  split_ifs at h
  rw [← Except.ok.inj h, Int.tdiv_eq_ediv_of_nonneg ha]

theorem calcRewardByDayDetail_bounds (h : DayBounds detail.stats detail.blockTotal detail.voteSum)
    (hstake : 0 < stakeAmount) (name : Name) :
    ∃ r, calcRewardByDayDetail detail name stakeAmount = .ok r ∧ RewardBounds detail stakeAmount name r := by
  have hrate := rewardPerBlock_pos
  obtain ⟨r, hr⟩ := calcRewardByDayDetail_total detail name stakeAmount hstake
  refine ⟨r, hr, ?_⟩
  unfold calcRewardByDayDetail at hr
  cases hsbp : detail.stats.get? name with
  | none =>
    rw [hsbp] at hr
    cases hr
    refine ⟨le_refl 0, le_refl 0, rfl, ?_, ?_⟩
    · simp [newZeroReward, voteWeight, hsbp]
    · simp [newZeroReward, blocksOf, hsbp]
  | some sbp =>
    rw [hsbp] at hr
    dsimp only at hr
    have hcnt := h.voteCnt name sbp hsbp
    have hweight : voteWeight detail stakeAmount name = sbp.voteCnt + stakeAmount := by simp [voteWeight, hsbp]
    have hnum : blocksOf detail name = sbp.blockNum := by simp [blocksOf, hsbp]
    have hnumpos : (0 : ℤ) ≤ sbp.blockNum := Int.natCast_nonneg _
    have hpart : 0 ≤ 50 * rewardPerBlock * detail.blockTotal * (sbp.voteCnt + stakeAmount) := by positivity
    by_cases hexp : sbp.exceptedBlockNum = 0
    · rw [if_pos hexp] at hr
      cases hr
      refine ⟨le_refl 0, le_refl 0, rfl, ?_, ?_⟩
      · rw [hweight]
        simpa [newZeroReward] using hpart
      · rw [hnum]
        positivity
    · rw [if_neg hexp] at hr
      obtain ⟨t₁, ht₁, hr⟩ := bind_ok hr
      obtain ⟨t₂, ht₂, hr⟩ := bind_ok hr
      obtain ⟨vote, hvote, hr⟩ := bind_ok hr
      obtain ⟨block, hblock, hr⟩ := bind_ok hr
      cases hr
      set weight := 50 * rewardPerBlock * detail.blockTotal * (sbp.voteCnt + stakeAmount) with hw
      have hden := weightTotal_pos hstake hsbp
      have hexp0 : (0 : ℤ) < sbp.exceptedBlockNum := by exact_mod_cast Nat.pos_of_ne_zero hexp
      have hfactual : (sbp.blockNum : ℤ) ≤ sbp.exceptedBlockNum := by exact_mod_cast h.factual name sbp hsbp
      have ht₁ : t₁ = weight * sbp.blockNum / weightTotal detail stakeAmount := by
        have hprod : (sbp.voteCnt + stakeAmount) * detail.blockTotal * 50 * rewardPerBlock * sbp.blockNum =
            weight * sbp.blockNum := by rw [hw]; ring
        rw [hprod] at ht₁
        exact quo_eq ht₁ (mul_nonneg hpart hnumpos)
      have ht₁0 : 0 ≤ t₁ := ht₁ ▸ Int.ediv_nonneg (mul_nonneg hpart hnumpos) hden.le
      have ht₂ : t₂ = t₁ / sbp.exceptedBlockNum := quo_eq ht₂ ht₁0
      have ht₂0 : 0 ≤ t₂ := ht₂ ▸ Int.ediv_nonneg ht₁0 hexp0.le
      have hvote : vote = weight * sbp.blockNum / weightTotal detail stakeAmount / sbp.exceptedBlockNum / 100 := by
        rw [quo_eq hvote ht₂0, ht₂, ht₁]
      have hblock0 : 0 ≤ sbp.blockNum * 50 * rewardPerBlock := by positivity
      have hblock : block = sbp.blockNum * 50 * rewardPerBlock / 100 := quo_eq hblock hblock0
      obtain ⟨hvote0, hvotele⟩ := mul_quotient_le hpart hnumpos hfactual hexp0 hden
      refine ⟨?_, ?_, rfl, ?_, ?_⟩
      · rw [hvote]
        exact hvote0
      · rw [hblock]
        exact Int.ediv_nonneg hblock0 (by decide)
      · rw [hweight, hvote]
        exact hvotele
      · rw [hnum]
        have hmul := Int.ediv_mul_le (sbp.blockNum * 50 * rewardPerBlock) (show (100 : ℤ) ≠ 0 by decide)
        linarith

/-! All the producers of a day -/

/-- For every day with votes: no division is by zero, no reward is negative, and the rewards of any producers are
together at most the reward of the blocks of the day. -/
theorem daily_inflation_bounded {R : Runtime} {randRank : ℕ} {votes : List Vote} {registers : List Register}
    {index : ℕ} {p : DayPoint} {detail : DayStats} {stakeAmount : ℤ}
    (hvotes : p.votes = some (dayVoteStat R randRank votes)) (hbalance : ∀ v ∈ votes, 0 ≤ v.balance)
    (hsbps : ∀ e ∈ p.sbps.entries, e.2.factualNum ≤ e.2.expectedNum)
    (hdetail : dayStatsOfPoint registers index p = some detail) (hstake : 0 < stakeAmount) :
    ∃ reward : Name → Reward,
      (∀ name, calcRewardByDayDetail detail name stakeAmount = .ok (reward name) ∧
        0 ≤ (reward name).voteReward ∧ 0 ≤ (reward name).blockReward) ∧
      ∀ names : Finset Name, ∑ name ∈ names, (reward name).totalReward ≤ rewardPerBlock * detail.blockTotal := by
  have h := dayBounds_dayStatsOfPoint hvotes hbalance hsbps hdetail
  choose reward hok hbounds using calcRewardByDayDetail_bounds h hstake
  refine ⟨reward, fun name => ⟨hok name, (hbounds name).vote_nonneg, (hbounds name).block_nonneg⟩, fun names => ?_⟩
  have hrate := rewardPerBlock_pos
  have hblocks : (0 : ℤ) ≤ detail.blockTotal := Int.natCast_nonneg _
  have hvote : 2 * ∑ name ∈ names, (reward name).voteReward ≤ rewardPerBlock * detail.blockTotal := by
    rcases (weightTotal_nonneg detail hstake).eq_or_lt with hzero | hpos
    · -- a day without producers
      have hnone : ∀ name, (reward name).voteReward = 0 := fun name => by
        have hname := hok name
        have hget : detail.stats.get? name = none := by
          cases hsbp : detail.stats.get? name with
          | none => rfl
          | some sbp => exact absurd (weightTotal_pos hstake hsbp) (by omega)
        rw [calcRewardByDayDetail, hget] at hname
        rw [← Except.ok.inj hname]
        rfl
      rw [Finset.sum_eq_zero fun name _ => hnone name]
      simpa using mul_nonneg hrate.le hblocks
    · have hsum : 100 * weightTotal detail stakeAmount * ∑ name ∈ names, (reward name).voteReward ≤
          50 * rewardPerBlock * detail.blockTotal * ∑ name ∈ names, voteWeight detail stakeAmount name := by
        rw [Finset.mul_sum, Finset.mul_sum]
        exact Finset.sum_le_sum fun name _ => (hbounds name).vote_le
      have hall := mul_le_mul_of_nonneg_left (sum_voteWeight_le h hstake names)
        (show 0 ≤ 50 * rewardPerBlock * detail.blockTotal by positivity)
      have hcancel : (2 * ∑ name ∈ names, (reward name).voteReward) * weightTotal detail stakeAmount ≤
          (rewardPerBlock * detail.blockTotal) * weightTotal detail stakeAmount := by linarith
      exact le_of_mul_le_mul_right hcancel hpos
  have hblock : 2 * ∑ name ∈ names, (reward name).blockReward ≤ rewardPerBlock * detail.blockTotal := by
    have hsum : 100 * ∑ name ∈ names, (reward name).blockReward ≤
        50 * rewardPerBlock * ∑ name ∈ names, blocksOf detail name := by
      rw [Finset.mul_sum, Finset.mul_sum]
      exact Finset.sum_le_sum fun name _ => (hbounds name).block_le
    have hle : ∑ name ∈ names, blocksOf detail name ≤ detail.blockTotal :=
      (detail.stats.sum_keys_le_of_nonneg names fun _ _ _ => Int.natCast_nonneg _).trans h.blocks
    have hall := mul_le_mul_of_nonneg_left hle (show 0 ≤ 50 * rewardPerBlock by positivity)
    linarith
  have htotal : ∑ name ∈ names, (reward name).totalReward =
      ∑ name ∈ names, (reward name).voteReward + ∑ name ∈ names, (reward name).blockReward := by
    rw [← Finset.sum_add_distrib]
    exact Finset.sum_congr rfl fun name _ => (hbounds name).total
  linarith

theorem range_perm (_ : ℤ) (n : ℕ) : (List.range n).Perm (List.range n) := List.Perm.refl _

def otherName : Name := [⟨84, by decide⟩]

def twoVoteContent : VoteContent :=
  dayVoteStat ⟨Slices.mergeSorting, fun _ n => List.range n, range_perm⟩ 100 [⟨oneName, 60, 1000⟩, ⟨otherName, 61, 200⟩]

theorem twoVoteContent_total : ∀ content ∈ some twoVoteContent, 0 ≤ content.total := by
  rintro content hcontent
  rw [← some.inj hcontent]
  obtain ⟨hpos, hle⟩ := dayVoteStat_le ⟨Slices.mergeSorting, fun _ n => List.range n, range_perm⟩ 100
    (show ∀ v ∈ [⟨oneName, 60, 1000⟩, ⟨otherName, 61, 200⟩], 0 ≤ Vote.balance v by decide)
  exact (List.sum_nonneg (List.forall_mem_map.2 hpos)).trans hle

/-- Two producers, with one and two blocks of the two each was expected to make. -/
def twoProducers : DayPoint :=
  ⟨⟨0, 1, (Store.empty.set 60 ⟨2, 1⟩).set 61 ⟨2, 2⟩, some twoVoteContent⟩, twoVoteContent_total⟩

theorem daily_inflation_bounded_twoProducers : ∃ detail,
    dayStatsOfPoint [⟨oneName, [60]⟩, ⟨otherName, [61]⟩] 7 twoProducers = some detail ∧ detail.blockTotal = 3 ∧
    ∃ reward : Name → Reward, calcRewardByDayDetail detail oneName 500 = .ok (reward oneName) ∧
      calcRewardByDayDetail detail otherName 500 = .ok (reward otherName) ∧
      (reward oneName).totalReward + (reward otherName).totalReward ≤ rewardPerBlock * 3 := by
  have hsbps : ∀ e ∈ twoProducers.sbps.entries, e.2.factualNum ≤ e.2.expectedNum := by decide
  obtain ⟨detail, hdetail, hblocks⟩ : ∃ detail,
      dayStatsOfPoint [⟨oneName, [60]⟩, ⟨otherName, [61]⟩] 7 twoProducers = some detail ∧ detail.blockTotal = 3 :=
    ⟨_, rfl, by decide +kernel⟩
  have hstake : (0 : ℤ) < 500 := by decide
  obtain ⟨reward, hreward, hsum⟩ := daily_inflation_bounded rfl (by simp) hsbps hdetail hstake
  refine ⟨detail, hdetail, hblocks, reward, (hreward oneName).1, (hreward otherName).1, ?_⟩
  simpa [hblocks, Finset.sum_pair (show oneName ≠ otherName by decide)] using hsum {oneName, otherName}

end GoVite.Governance

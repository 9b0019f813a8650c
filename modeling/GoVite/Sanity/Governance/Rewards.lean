import GoVite.Sanity.Governance.Days

/-! The reward of a registration is computed without a panic, and is the sum of the rewards of the days asked for. -/

namespace GoVite.Governance
open KeyStore Consensus ExceptRules List

variable {a b : ℤ}

/-! The reward is computed without a panic -/

theorem quo_ok (hb : b ≠ 0) : quo a b = .ok (a.tdiv b) := if_neg hb

def weightTotal (detail : DayStats) (stakeAmount : ℤ) : ℤ := detail.stats.keys.length * stakeAmount + detail.voteSum

variable {name : Name} {old : Registration} {N : Network}

theorem weightTotal_pos {detail : DayStats} {stakeAmount : ℤ} (hstake : 0 < stakeAmount)
    {sbp : SbpStats} (h : detail.stats.get? name = some sbp) : 0 < weightTotal detail stakeAmount := by
  have hmem : name ∈ detail.stats.keys := by
    by_contra hnot
    rw [Store.get?_eq_none_iff.2 hnot] at h
    cases h
  have hlen : (0 : ℤ) < detail.stats.keys.length := by exact_mod_cast length_pos_of_mem hmem
  exact add_pos_of_pos_of_nonneg (mul_pos hlen hstake) detail.voteSum_nonneg

theorem calcRewardByDayDetail_total (detail : DayStats) (name : Name) (stakeAmount : ℤ) (h : 0 < stakeAmount) :
    ∃ r, calcRewardByDayDetail detail name stakeAmount = .ok r := by
  unfold calcRewardByDayDetail
  cases hself : detail.stats.get? name with
  | none => exact ⟨_, rfl⟩
  | some self =>
    dsimp only
    split_ifs with hexp
    · exact ⟨_, rfl⟩
    · have hden : (detail.stats.keys.length : ℤ) * stakeAmount + detail.voteSum ≠ 0 := (weightTotal_pos h hself).ne'
      rw [quo_ok hden]
      refine bind_total rfl ?_
      rw [quo_ok (by exact_mod_cast hexp)]
      exact ⟨_, rfl⟩

section
variable {env : VmEnvironment} {stats : ℕ → ℕ → Except VmError (List DayStats)}

theorem getSnapshotGroupStakeAmount_total (N : Network) (env : VmEnvironment)
    (stats : ℕ → ℕ → Except VmError (List DayStats)) (index forkIndex : ℕ) : ∃ s f,
    getSnapshotGroupStakeAmount N env (vmConsensusReader N.dayIndex stats) index forkIndex = .ok (s, f) ∧ 0 < s := by
  have hpre : 0 < sbpStakeAmountPreMainnet := by decide
  have hmain : 0 < sbpStakeAmountMainnet := by decide
  unfold getSnapshotGroupStakeAmount
  cases N.leafPoint with
  | none => exact ⟨_, _, rfl, hpre⟩
  | some point =>
    dsimp only
    split_ifs
    · exact ⟨_, _, rfl, hpre⟩
    all_goals
      refine ⟨_, _, rfl, ?_⟩
      split_ifs
      · exact hpre
      · exact hmain

theorem addDay_total (name : Name) (acc : Reward × ℕ) (detail : DayStats) :
    ∃ acc', addDay N env (vmConsensusReader N.dayIndex stats) name acc detail = .ok acc' := by
  obtain ⟨s, f, hstake, hpos⟩ := getSnapshotGroupStakeAmount_total N env stats detail.index acc.2
  obtain ⟨r, hr⟩ := calcRewardByDayDetail_total detail name s (by exact_mod_cast hpos)
  refine bind_total hstake ?_
  exact bind_total hr ⟨_, rfl⟩

def nextRewardTime (N : Network) (old : Registration) (current : SnapshotBlock) : ℤ :=
  if old.rewardTime < 0 ∨ isFinal N old current then -1 else N.dayIndex.startTime (daysOver N old current)

theorem calcReward_vm (N : Network) (env : VmEnvironment) (stats : ℕ → ℕ → Except VmError (List DayStats))
    (old : Registration) :
    (∃ e first last, stats first last = .error e ∧
      calcReward N env (vmConsensusReader N.dayIndex stats) old = .error (.error e)) ∨
    ∃ r, calcReward N env (vmConsensusReader N.dayIndex stats) old = .ok r ∧
      (0 ≤ old.rewardTime → r.reward.isSome) ∧
      (r.drained = true ↔ old.rewardTime < 0 ∨ isFinal N old env.snapshotBlock) ∧
      (if r.drained then -1 else r.endTime) = nextRewardTime N old env.snapshotBlock := by
  unfold nextRewardTime
  rcases lt_or_ge old.rewardTime 0 with hneg | hnonneg
  · right
    refine ⟨⟨0, 0, none, true⟩, ?_, fun h0 => absurd h0 (not_le.2 hneg), by simp [hneg], by simp [hneg]⟩
    rw [calcReward, rewardPeriod_of_neg hneg]
    rfl
  · obtain ⟨p, hp, hdrained, htime, -, -⟩ := rewardPeriod_eq N stats env.snapshotBlock hnonneg
    have hnot : ¬old.rewardTime < 0 := not_lt.2 hnonneg
    have hend : ∀ reward, ((⟨p.start.time, p.finish.time, reward, p.drained⟩ : CalcResult).drained = true ↔
          old.rewardTime < 0 ∨ isFinal N old env.snapshotBlock) ∧
        (if p.drained then -1 else p.finish.time) =
          (if old.rewardTime < 0 ∨ isFinal N old env.snapshotBlock = true then -1
            else N.dayIndex.startTime (daysOver N old env.snapshotBlock)) := fun reward => by
      simp [hdrained, htime, hnot]
    rw [calcReward, hp]
    by_cases hempty : p.isEmpty = true
    · right
      refine ⟨_, ?_, fun _ => rfl, hend (some newZeroReward)⟩
      simp [bind, Except.bind, hempty]
    · cases hstats : stats p.start.index p.finish.index with
      | error e =>
        left
        refine ⟨e, _, _, hstats, ?_⟩
        simp [bind, Except.bind, hempty, vmConsensusReader, hstats, Except.mapError]
      | ok details =>
        right
        obtain ⟨acc, hacc, -⟩ := foldlM_total (f := addDay N env (vmConsensusReader N.dayIndex stats) old.name)
          (fun _ _ => True) (fun d _ acc _ => by
            obtain ⟨acc', hacc'⟩ := addDay_total old.name acc d
            exact ⟨acc', hacc', trivial⟩) (l := details) (b := (newZeroReward, 0)) trivial
        refine ⟨_, ?_, fun _ => rfl, hend (some acc.1)⟩
        have hread : (vmConsensusReader N.dayIndex stats).getConsensusDetailByDay p.start.index p.finish.index =
            .ok details := by simp [vmConsensusReader, hstats, Except.mapError]
        simp only [bind, Except.bind, hempty, hread, hacc]
        rfl

theorem recoverCalcReward_vm {r : CalcResult}
    (h : recoverCalcReward N env (vmConsensusReader N.dayIndex stats) old = .ok r) :
    (r.drained = true ↔ old.rewardTime < 0 ∨ isFinal N old env.snapshotBlock) ∧
      (if r.drained then -1 else r.endTime) = nextRewardTime N old env.snapshotBlock := by
  unfold recoverCalcReward at h
  rcases calcReward_vm N env stats old with ⟨e, _, _, -, he⟩ | ⟨r', hr', -, hspec⟩
  · rw [he] at h
    cases h
  · rw [hr'] at h
    cases h
    exact hspec

end

/-! The reward is the sum of the rewards of the days -/

section
variable {env : VmEnvironment} {reader : ConsensusReader}

/-- The day of the upgrade, if it is not to be looked up. -/
def Cached (N : Network) (env : VmEnvironment) (reader : ConsensusReader) (forkIndex : ℕ) : Prop :=
  forkIndex = 0 ∨ ∃ index stakeAmount, getSnapshotGroupStakeAmount N env reader index 0 = .ok (stakeAmount, forkIndex)

theorem Cached.getSnapshotGroupStakeAmount_eq {forkIndex : ℕ} (h : Cached N env reader forkIndex) (index : ℕ) :
    getSnapshotGroupStakeAmount N env reader index forkIndex = getSnapshotGroupStakeAmount N env reader index 0 := by
  obtain rfl | ⟨index', stakeAmount, h⟩ := h
  · rfl
  · unfold getSnapshotGroupStakeAmount at h ⊢
    cases hpoint : N.leafPoint with
    | none => rfl
    | some point =>
      rw [hpoint] at h
      dsimp only at h ⊢
      by_cases hheight : env.latestHeight < point.height
      · rw [if_pos hheight, if_pos hheight]
      · rw [if_neg hheight, if_pos rfl] at h
        rw [if_neg hheight, if_neg hheight, if_pos rfl]
        by_cases hfork : forkIndex = 0
        · rw [if_pos hfork]
        · rw [if_neg hfork]
          obtain ⟨fork, hlooked, h⟩ := bind_ok h
          cases h
          rw [hlooked]

theorem addDay_ok {acc acc' : Reward × ℕ} {detail : DayStats} (hacc : Cached N env reader acc.2)
    (h : addDay N env reader name acc detail = .ok acc') : Cached N env reader acc'.2 ∧
      acc'.1.totalReward = acc.1.totalReward + rewardOf N env reader name detail := by
  obtain ⟨⟨stakeAmount, forkIndex⟩, hstake, h⟩ := bind_ok h
  obtain ⟨reward, hreward, h⟩ := bind_ok h
  cases h
  rw [hacc.getSnapshotGroupStakeAmount_eq] at hstake
  refine ⟨.inr ⟨_, _, hstake⟩, ?_⟩
  rw [rewardOf, hstake]
  dsimp only at hreward ⊢
  rw [hreward]
  rfl

theorem addDays_ok {details : List DayStats} {acc : Reward × ℕ}
    (h : details.foldlM (addDay N env reader name) (newZeroReward, 0) = .ok acc) :
    acc.1.totalReward = (details.map (rewardOf N env reader name)).sum := by
  refine (foldlM_inv (fun done (acc : Reward × ℕ) => Cached N env reader acc.2 ∧
    acc.1.totalReward = (done.map (rewardOf N env reader name)).sum) ?_ h ⟨.inl rfl, rfl⟩).2
  rintro done acc detail acc' ⟨hcached, htotal⟩ hstep
  obtain ⟨hcached', htotal'⟩ := addDay_ok hcached hstep
  exact ⟨hcached', by simp [htotal', htotal]⟩

end

/-- The statistics the consensus has in its array of days. -/
def SBPStatReader.ofArray (array : DayArray) (registers : List Register) : SBPStatReader where
  dayStats startIndex endIndex := (Consensus.dayStats array registers startIndex endIndex).mapError .dayStats
  days {startIndex endIndex details} h := by
    obtain ⟨⟨points, proofHash⟩, -, hread⟩ := bind_ok (mapError_ok h)
    cases hread
    -- the statistics of a day carry its index
    have hindex : ∀ i, ((points.get? i).bind (dayStatsOfPoint registers i)).map (·.index) =
        if ((points.get? i).bind (dayStatsOfPoint registers i)).isSome then some i else none := by
      intro i
      cases hpoint : (points.get? i).bind (dayStatsOfPoint registers i) with
      | none => rfl
      | some detail =>
        obtain ⟨p, -, hp⟩ := Option.bind_eq_some_iff.1 hpoint
        unfold dayStatsOfPoint at hp
        split at hp
        · cases hp
        · cases hp
          rfl
    rw [map_filterMap, filterMap_congr fun i _ => hindex i]
    exact filterMap_eq_filter.symm ▸ filter_sublist

/-- Each item is found under its day, and the other days have none. -/
theorem sum_map_find? {α : Type} (key : α → ℕ) (f : α → ℤ) {items : List α} {days : List ℕ}
    (hsub : (items.map key).Sublist days) (hnodup : days.Nodup) :
    (days.map fun d => ((items.find? (key · = d)).map f).getD 0).sum = (items.map f).sum := by
  induction days generalizing items with
  | nil =>
    obtain rfl : items = [] := map_eq_nil_iff.1 (sublist_nil.1 hsub)
    rfl
  | cons d days ih =>
    obtain ⟨hd, hdays⟩ := nodup_cons.1 hnodup
    cases items with
    | nil => simp
    | cons x items =>
      by_cases hx : key x = d
      · have hrest : ∀ d' ∈ days, (x :: items).find? (key · = d') = items.find? (key · = d') := fun d' hd' =>
          find?_cons_of_neg (by
            rintro heq
            exact hd (hx ▸ of_decide_eq_true heq ▸ hd'))
        subst hx
        rw [map_cons, sum_cons, map_congr_left fun d' hd' => by rw [hrest d' hd'],
          ih (cons_sublist_cons.1 hsub) hdays]
        simp
      · have hsub' : ((x :: items).map key).Sublist days := hsub.of_cons_of_ne (by simpa using hx)
        have hnone : (x :: items).find? (key · = d) = none := by
          rw [find?_eq_none]
          intro y hy heq
          exact hd (of_decide_eq_true heq ▸ hsub'.subset (mem_map_of_mem hy))
        rw [map_cons, sum_cons, hnone, ih hsub' hdays]
        simp

namespace SbpWorld
variable (N : Network) (r : Receive)

theorem rewardsOf_days (days : List ℕ) : (rewardsOf N r name days).map Prod.fst = days := by
  simp [rewardsOf, Function.comp_def]

/-- The statistics of a period that is not empty are those of its days. -/
theorem detailsOf_days {stats : SBPStatReader} {p : Period} (h : p.isEmpty = false) {details : List DayStats}
    (hread : stats.dayStats p.start.index p.finish.index = .ok details) : detailsOf stats p.days = details := by
  have hle : p.start.index ≤ p.finish.index := by
    have hne := (Bool.or_eq_false_iff.1 h).2
    simpa using hne
  have hfirst : p.days.head? = some p.start.index := by
    rw [Period.days, if_neg (by simp [h]), head?_range', if_neg (by omega)]
  have hlast : p.days.getLast? = some p.finish.index := by
    rw [Period.days, if_neg (by simp [h]), getLast?_range', if_neg (by omega)]
    congr 1
    omega
  rw [detailsOf, hfirst, hlast]
  dsimp only
  rw [hread]
  rfl

variable {N r}

/-- What a withdrawal can have issued is the sum of the rewards of the days it asks for. -/
theorem recoverCalcReward_rewards {result : CalcResult} {reward : Reward}
    (h : recoverCalcReward N r.env (r.reader N) old = .ok result) (hreward : result.reward = some reward) :
    reward.totalReward = ((rewardsOf N r old.name
      (daysOf N (r.reader N) r.env.snapshotBlock (some old))).map Prod.snd).sum := by
  unfold recoverCalcReward at h
  split at h
  · rename_i result' hcalc
    cases h
    obtain ⟨period, hperiod, h⟩ := bind_ok hcalc
    have hdays : daysOf N (r.reader N) r.env.snapshotBlock (some old) = (period.map Period.days).getD [] := by
      rw [daysOf, hperiod]
      cases period <;> rfl
    rw [hdays]
    cases period with
    | none =>
      cases h
      cases hreward
    | some p =>
      dsimp only at h
      cases hempty : p.isEmpty with
      | true =>
        rw [if_pos hempty] at h
        cases h
        cases hreward
        simp [Period.days, hempty, rewardsOf, newZeroReward]
      | false =>
        rw [if_neg (by simp [hempty])] at h
        obtain ⟨details, hread, h⟩ := bind_ok h
        obtain ⟨acc, hfold, h⟩ := bind_ok h
        cases h
        cases hreward
        have hstats : r.stats.dayStats p.start.index p.finish.index = .ok details := mapError_ok hread
        have hsub : (details.map (·.index)).Sublist p.days := by
          rw [Period.days, if_neg (by simp [hempty])]
          exact r.stats.days hstats
        have hnodup : p.days.Nodup := by
          rw [Period.days, if_neg (by simp [hempty])]
          exact nodup_range'
        rw [addDays_ok hfold, ← sum_map_find? (fun detail : DayStats => detail.index) _ hsub hnodup]
        simp only [Option.map_some, Option.getD_some, rewardsOf, map_map, detailsOf_days hempty hstats]
        rfl
  · cases h
  · cases h
    cases hreward

end SbpWorld

end GoVite.Governance

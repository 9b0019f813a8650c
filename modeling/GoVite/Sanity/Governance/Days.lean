import GoVite.Lib.Except
import GoVite.Spec.Governance.Sbp

/-! The days between two times: start times are rounded up to a day and end times down. -/

namespace GoVite.Governance
open KeyStore Consensus VMConsensusReader Nat

namespace DayIndex
variable (ti : DayIndex) {t : ℤ} {d e : ℕ}

theorem endTime_eq : ti.endTime d = ti.startTime (d + 1) := rfl

theorem startTime_zero : ti.startTime 0 = ti.genesisTime := by simp [startTime]

theorem startTime_lt_iff : ti.startTime d < ti.startTime e ↔ d < e := by
  have hpos : (0 : ℤ) < ti.interval := by exact_mod_cast ti.interval_pos
  unfold startTime
  rw [add_lt_add_iff_left, mul_lt_mul_iff_right₀ hpos, cast_lt]

theorem startTime_le_iff : ti.startTime d ≤ ti.startTime e ↔ d ≤ e := by
  rw [← not_lt, startTime_lt_iff, not_lt]

theorem lt_time2Index_iff : d < ti.time2Index t ↔ ti.endTime d ≤ t := by
  have hpos := ti.interval_pos
  have hle : d < ti.time2Index t ↔ ti.interval * (d + 1) ≤ (t - ti.genesisTime).toNat := by
    rw [time2Index, ← succ_le_iff, le_div_iff_mul_le hpos, mul_comm]
  have hprod : 0 < ti.interval * (d + 1) := mul_pos hpos (succ_pos d)
  have hcast : (ti.interval : ℤ) * (d + 1 : ℕ) = (ti.interval * (d + 1) : ℕ) := by push_cast; ring
  rw [endTime]
  omega

end DayIndex

theorem Network.startTime_pos (N : Network) (d : ℕ) : 0 < N.dayIndex.startTime d := by
  have hle : N.dayIndex.startTime 0 ≤ N.dayIndex.startTime d := N.dayIndex.startTime_le_iff.2 (zero_le d)
  rw [N.dayIndex.startTime_zero] at hle
  exact N.genesis.timestamp_pos.trans_le hle

namespace VMConsensusReader
variable (ti : DayIndex) {t : ℤ} {d : ℕ}

/-- The first day that does not start before a time. -/
theorem getIndexByStartTime_spec (ht : 0 ≤ t) :
    (getIndexByStartTime ti t ti.genesisTime).flag = false ∧
      ∀ d, (getIndexByStartTime ti t ti.genesisTime).index ≤ d ↔ t ≤ ti.startTime d := by
  unfold getIndexByStartTime
  rw [if_neg (not_lt.2 ht)]
  split_ifs with hg
  · refine ⟨rfl, fun d => iff_of_true (zero_le d) (hg.trans ?_)⟩
    rw [← ti.startTime_zero, ti.startTime_le_iff]
    exact zero_le d
  · refine ⟨rfl, fun d => ?_⟩
    rcases d with - | d
    · simp only [ti.startTime_zero]
      omega
    · -- the day before is not over one second earlier
      have hover := not_congr (ti.lt_time2Index_iff (t := t - 1) (d := d))
      rw [ti.endTime_eq] at hover
      simp only
      omega

theorem getIndexByEndTime_eq (t : ℤ) :
    getIndexByEndTime ti t ti.genesisTime =
      ⟨ti.time2Index t - 1, ti.startTime (ti.time2Index t), ti.time2Index t = 0⟩ := by
  unfold getIndexByEndTime
  dsimp only
  split_ifs with hg h0
  · have h0 : ti.time2Index t = 0 := by
      rw [DayIndex.time2Index, Int.toNat_eq_zero.2 (by omega), Nat.zero_div]
    simp [h0, ti.startTime_zero]
  · simp [h0, ti.startTime_zero]
  · have hpos : 0 < ti.time2Index t := Nat.pos_of_ne_zero h0
    simp [h0, ti.endTime_eq, Nat.sub_add_cancel hpos]

end VMConsensusReader

variable {N : Network} {stats : ℕ → ℕ → Except VmError (List DayStats)} {old : Registration} {current : SnapshotBlock}

/-- A registration that is revoked and all of whose days can be paid. -/
def isFinal (N : Network) (old : Registration) (current : SnapshotBlock) : Bool :=
  !old.isActive && N.dayIndex.startTime (N.dayIndex.time2Index old.revokeTime) ≤ getRewardTimeLimit current

def daysOver (N : Network) (old : Registration) (current : SnapshotBlock) : ℕ :=
  N.dayIndex.time2Index (if isFinal N old current then old.revokeTime else getRewardTimeLimit current)

theorem rewardPeriod_of_neg (h : old.rewardTime < 0) :
    rewardPeriod N (vmConsensusReader N.dayIndex stats) old current = .ok none := by
  have hstart : (vmConsensusReader N.dayIndex stats).getIndexByStartTime old.rewardTime N.genesis.timestamp =
      some ⟨0, 0, true⟩ := by simp [vmConsensusReader, getIndexByStartTime, h]
  rw [rewardPeriod, hstart]
  rfl

/-- The days to pay for start at the reward time or after it and are over. -/
theorem rewardPeriod_eq (N : Network) (stats : ℕ → ℕ → Except VmError (List DayStats)) (current : SnapshotBlock)
    (h : 0 ≤ old.rewardTime) : ∃ p,
    rewardPeriod N (vmConsensusReader N.dayIndex stats) old current = .ok (some p) ∧
      p.drained = isFinal N old current ∧ p.finish.time = N.dayIndex.startTime (daysOver N old current) ∧
      p.days.Nodup ∧
      ∀ d, d ∈ p.days ↔ old.rewardTime ≤ N.dayIndex.startTime d ∧ d < daysOver N old current := by
  set ti := N.dayIndex with hti
  obtain ⟨hflag, hindex⟩ := getIndexByStartTime_spec ti h
  set start := getIndexByStartTime ti old.rewardTime ti.genesisTime with hstart
  have hfinish : ∀ t, (vmConsensusReader ti stats).getIndexByEndTime t N.genesis.timestamp =
      some ⟨ti.time2Index t - 1, ti.startTime (ti.time2Index t), ti.time2Index t = 0⟩ := fun t =>
    congrArg some (getIndexByEndTime_eq ti t)
  set finish : TimeIndexed := ⟨daysOver N old current - 1, ti.startTime (daysOver N old current),
    daysOver N old current = 0⟩ with hfin
  have hperiod : rewardPeriod N (vmConsensusReader ti stats) old current =
      .ok (some ⟨start, finish, isFinal N old current⟩) := by
    have hfirst : (vmConsensusReader ti stats).getIndexByStartTime old.rewardTime N.genesis.timestamp = some start := rfl
    unfold rewardPeriod
    simp only [hfirst, hfinish]
    rw [hfin, daysOver, isFinal, ← hti]
    cases hactive : old.isActive with
    | true => simp [orPanic, hflag, bind, Except.bind]
    | false =>
      by_cases hover : ti.startTime (ti.time2Index old.revokeTime) ≤ getRewardTimeLimit current <;>
        simp [orPanic, hflag, bind, Except.bind, hover]
  refine ⟨_, hperiod, rfl, rfl, ?_, fun d => ?_⟩
  · unfold Period.days
    split_ifs
    · exact List.nodup_nil
    · exact List.nodup_range'
  · rw [← hindex d]
    unfold Period.days Period.isEmpty
    simp only [hfin]
    split_ifs with hempty
    · simp only [Bool.or_eq_true, decide_eq_true_eq] at hempty
      simp only [List.not_mem_nil, false_iff]
      omega
    · simp only [Bool.or_eq_true, decide_eq_true_eq] at hempty
      rw [List.mem_range'_1]
      omega

/-! A name, and a network with days of 86400 seconds from a genesis at time 1000 -/

def oneName : Name := [⟨83, by decide⟩]

theorem oneGenesisTime_pos : (0 : ℤ) < 1000 := by decide

def oneNetwork : Network := ⟨⟨1, 1000, oneGenesisTime_pos⟩, 86400, by decide, none, none⟩

end GoVite.Governance

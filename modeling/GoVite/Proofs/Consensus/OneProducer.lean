import GoVite.Sanity.Consensus.Slots

/-! Slots tile a period and periods tile time, so a time has at most one producer. The index of a time is found with
floats, which count a time within half a last bit of the next second to that second. -/

namespace GoVite.Consensus
open BigFloat

/-- Nothing in the computation of the index of `t` overflows a duration. -/
structure NoOverflow (g : GroupInfo) (t : ℤ) : Prop where
  planInterval : g.planInterval * 1000000000 < 2 ^ 63
  elapsed : t - g.genesisTime < 2 ^ 63

theorem not_roundsUp_mul {n : ℕ} (hn : n * 1000000000 < 2 ^ 63) : ¬RoundsUp (n * 1000000000) := by
  have hdiv : n * 1000000000 / 1000000000 = n := Nat.mul_div_cancel n (by norm_num)
  have hmod : n * 1000000000 % 1000000000 = 0 := Nat.mul_mod_left n _
  have hlog : 2 ^ Nat.log 2 n < 2 ^ 53 := by
    rcases Nat.eq_zero_or_pos n with rfl | hpos
    · simp
    · have : 2 ^ Nat.log 2 n ≤ n := Nat.pow_log_le_self 2 hpos.ne'
      omega
  unfold RoundsUp
  rw [hdiv]
  omega

section
variable (g : GroupInfo)

/-- The index of a time is the number of whole periods in its seconds. -/
theorem time2Index_eq {d : ℕ} (hpos : 1 ≤ g.planInterval) (h : NoOverflow g (g.genesisTime + d)) :
    g.timeIndex.time2Index (g.genesisTime + d) =
      (if RoundsUp d then d / 1000000000 + 1 else d / 1000000000) / g.planInterval := by
  have hd : d < 2 ^ 63 := by
    have := h.elapsed
    omega
  have hinterval : truncate (durationSeconds (second * g.planInterval)) = g.planInterval := by
    have hcast : second * g.planInterval = ((g.planInterval * 1000000000 : ℕ) : ℤ) := by
      exact mul_comm _ _
    rw [hcast, truncate_durationSeconds h.planInterval, if_neg (not_roundsUp_mul h.planInterval),
      Nat.mul_div_cancel _ (by norm_num)]
  unfold TimeIndex.time2Index
  simp only [GroupInfo.timeIndex, add_sub_cancel_left, hinterval, truncate_durationSeconds hd]
  have hP : ((g.planInterval : ℤ) % 2 ^ 64).toNat = g.planInterval := by
    have := h.planInterval
    omega
  congr 1
  split_ifs <;> omega

/-- The period of a time holds it, unless the time is rounded up to the start of the next period. -/
theorem period_contains_iff {d : ℕ} (hpos : 1 ≤ g.planInterval) (h : NoOverflow g (g.genesisTime + d)) :
    ((g.timeIndex.index2Time (g.timeIndex.time2Index (g.genesisTime + d))).1 ≤ g.genesisTime + d ∧
      g.genesisTime + d < (g.timeIndex.index2Time (g.timeIndex.time2Index (g.genesisTime + d))).2) ↔
      ¬(RoundsUp d ∧ g.planInterval ∣ d / 1000000000 + 1) := by
  rw [time2Index_eq g hpos h]
  set P := g.planInterval with hP
  set sec := d / 1000000000 with hsec
  -- the bounds, in seconds
  have hbounds : ∀ i : ℕ, ((g.timeIndex.index2Time i).1 ≤ g.genesisTime + d ∧
      g.genesisTime + d < (g.timeIndex.index2Time i).2) ↔ P * i ≤ sec ∧ sec < P * (i + 1) := by
    intro i
    have hstart : g.timeIndex.interval * i = ((1000000000 * (P * i) : ℕ) : ℤ) := by
      simp only [GroupInfo.timeIndex, second]
      push_cast
      ring
    have hend : g.timeIndex.interval * ((i + 1 : ℕ) : ℤ) = ((1000000000 * (P * (i + 1)) : ℕ) : ℤ) := by
      simp only [GroupInfo.timeIndex, second]
      push_cast
      ring
    simp only [TimeIndex.index2Time, hstart, hend]
    simp only [GroupInfo.timeIndex]
    omega
  have hfloor : P * (sec / P) ≤ sec ∧ sec < P * (sec / P + 1) :=
    ⟨Nat.mul_div_le sec P, by rw [Nat.mul_add, Nat.mul_one]; exact Nat.lt_mul_div_succ sec hpos⟩
  rw [hbounds]
  by_cases hup : RoundsUp d
  · rw [if_pos hup]
    by_cases hdvd : P ∣ sec + 1
    · rw [Nat.mul_div_cancel' hdvd]
      simp only [hup, hdvd, and_self, not_true_eq_false, iff_false]
      omega
    · rw [Nat.succ_div_of_not_dvd hdvd]
      simp only [hdvd, and_false, not_false_eq_true, iff_true]
      exact hfloor
  · simp only [hup, false_and, not_false_eq_true, iff_true]
    exact hfloor

/-- Different slots of a period start at different times. -/
theorem genPlanByAddress_increasing (index : ℕ) (members : List Address) (hint : 1 ≤ g.interval) :
    (g.genPlanByAddress index members).Pairwise fun p q => p.sTime < q.sTime ∧ p.eTime ≤ q.sTime := by
  have hordered := genPlanByAddress_ordered g index members
  refine List.Pairwise.imp_of_mem ?_ hordered
  intro p q hp _ hle
  have hlong := (genPlanByAddress_inside g index members hp).2.2
  have hpos : 0 < g.interval * second := mul_pos (by exact_mod_cast hint) second_pos
  exact ⟨lt_of_lt_of_le (by rw [hlong]; exact lt_add_of_pos_right _ hpos) hle, hle⟩

theorem verifyProducer_unique (members : ℕ → List Address) (t : ℤ) (hint : 1 ≤ g.interval)
    {a b : Address} (ha : verifyProducer t a (electionTime g members t))
    (hb : verifyProducer t b (electionTime g members t)) : a = b := by
  obtain ⟨p, hp, hpa⟩ := List.any_eq_true.1 ha
  obtain ⟨q, hq, hqb⟩ := List.any_eq_true.1 hb
  obtain ⟨hmp, htp⟩ := of_decide_eq_true hpa
  obtain ⟨hmq, htq⟩ := of_decide_eq_true hqb
  have hnodup : ((electionTime g members t).plans.map (·.sTime)).Nodup := by
    rw [List.Nodup, List.pairwise_map]
    exact (genPlanByAddress_increasing g _ _ hint).imp fun h => h.1.ne
  have hpq : p = q := List.inj_on_of_nodup_map hnodup hp hq (htp.trans htq.symm)
  rw [← hmp, ← hmq, hpq]

/-- Slots of one period do not reach into a later one. -/
theorem slots_of_periods_apart {i j : ℕ} (hij : i < j) {members members' : List Address}
    {p q : MemberPlan} (hp : p ∈ g.genPlanByAddress i members) (hq : q ∈ g.genPlanByAddress j members') :
    p.eTime ≤ q.sTime :=
  calc p.eTime ≤ (g.timeIndex.index2Time i).2 := (genPlanByAddress_inside g i members hp).2.1
    _ ≤ (g.timeIndex.index2Time j).1 := index2Time_le g hij
    _ ≤ q.sTime := (genPlanByAddress_inside g j members' hq).1

end

/-- Slots tile each period, periods tile time around `t`, and `t` has at most one producer. -/
structure OneProducer (g : GroupInfo) (t : ℤ) : Prop where
  increasing : ∀ index members, members.length ≤ g.nodeCount →
    (g.genPlanByAddress index members).Pairwise fun p q => p.sTime < q.sTime ∧ p.eTime ≤ q.sTime
  inside : ∀ index members, members.length ≤ g.nodeCount → ∀ p ∈ g.genPlanByAddress index members,
    (g.timeIndex.index2Time index).1 ≤ p.sTime ∧ p.eTime ≤ (g.timeIndex.index2Time index).2 ∧
      p.eTime = p.sTime + g.interval * second
  share : ∀ index members, members.length ≤ g.nodeCount → ∀ m,
    slotsOf (g.genPlanByAddress index members) m = members.count m * (g.perCount * g.repeats)
  period : (g.timeIndex.index2Time (g.timeIndex.time2Index t)).1 ≤ t ∧
    t < (g.timeIndex.index2Time (g.timeIndex.time2Index t)).2
  producer : ∀ members a b, verifyProducer t a (electionTime g members t) →
    verifyProducer t b (electionTime g members t) → a = b
  apart : ∀ i j members members', i ≠ j → ∀ p ∈ g.genPlanByAddress i members, ∀ q ∈ g.genPlanByAddress j members',
    p.eTime ≤ q.sTime ∨ q.eTime ≤ p.sTime

theorem one_producer_iff_not_rounded_up (g : GroupInfo) (t : ℤ) (hinterval : 1 ≤ g.interval)
    (hnode : 1 ≤ g.nodeCount) (hper : 1 ≤ g.perCount) (hrepeat : 1 ≤ g.repeats) (hgenesis : g.genesisTime ≤ t)
    (h : NoOverflow g t) :
    OneProducer g t ↔ ¬(RoundsUp (t - g.genesisTime).toNat ∧
      g.planInterval ∣ (t - g.genesisTime).toNat / 1000000000 + 1) := by
  obtain ⟨d, hd⟩ := Int.eq_ofNat_of_zero_le (sub_nonneg.2 hgenesis)
  have ht : t = g.genesisTime + d := by omega
  have hpos : 1 ≤ g.planInterval := by
    have := Nat.mul_pos (Nat.mul_pos (Nat.mul_pos hinterval hnode) hper) hrepeat
    exact this
  subst ht
  rw [hd, Int.toNat_natCast, ← period_contains_iff g hpos h]
  constructor
  · exact fun hone => hone.period
  · intro hperiod
    refine ⟨?_, ?_, ?_, hperiod, ?_, ?_⟩
    · exact fun index members _ => genPlanByAddress_increasing g index members hinterval
    · exact fun index members _ p hp => genPlanByAddress_inside g index members hp
    · exact fun index members hlen m => genPlanByAddress_slotsOf g index members hlen m
    · exact fun members a b ha hb => verifyProducer_unique g members _ hinterval ha hb
    · intro i j members members' hij p hp q hq
      rcases Nat.lt_or_gt_of_ne hij with hlt | hgt
      · exact .inl (slots_of_periods_apart g hlt hp hq)
      · exact .inr (slots_of_periods_apart g hgt hq hp)

/-- A group of 25 nodes with three slots of one second each. -/
def periodOf75Seconds : GroupInfo where
  genesisTime := 0
  nodeCount := 25
  interval := 1
  perCount := 3
  repeats := 1
  randCount := 2
  randRank := 100
  seed := 1

/-- One nanosecond before period 262144 starts, some 227 days after genesis, is counted to that period. -/
theorem last_nanosecond_in_next_period :
    NoOverflow periodOf75Seconds 19660799999999999 ∧
      periodOf75Seconds.timeIndex.time2Index 19660799999999999 = 262144 ∧
      19660799999999999 < (periodOf75Seconds.timeIndex.index2Time 262144).1 ∧
      ¬OneProducer periodOf75Seconds 19660799999999999 := by
  have hover : NoOverflow periodOf75Seconds (periodOf75Seconds.genesisTime + (19660799999999999 : ℕ)) :=
    ⟨by decide, by decide⟩
  have hup : RoundsUp 19660799999999999 := by
    unfold RoundsUp
    have hlog : Nat.log 2 (19660799999999999 / 1000000000) = 24 := by
      rw [Nat.log_eq_iff (by norm_num)]
      norm_num
    rw [hlog]
    norm_num
  have hindex := time2Index_eq periodOf75Seconds (by decide) hover
  have hnot := (period_contains_iff periodOf75Seconds (by decide) hover).not.2 (not_not.2 ⟨hup, by decide⟩)
  refine ⟨hover, hindex.trans (by decide), by decide, fun hone => hnot hone.period⟩

theorem one_producer_first_second : OneProducer periodOf75Seconds 1000000000 :=
  (one_producer_iff_not_rounded_up periodOf75Seconds 1000000000 (by decide) (by decide) (by decide) (by decide)
    (by decide) ⟨by decide, by decide⟩).2 fun h => absurd h.2 (by decide)

end GoVite.Consensus

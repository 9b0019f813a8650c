import GoVite.Lib.Store
import GoVite.Spec.Consensus.Group

/-! The loops that lay out the slots of a period, and the whole seconds a duration is converted to. -/

namespace GoVite.Consensus
open BigFloat KeyStore List Function GroupInfo

theorem second_pos : 0 < second := by decide

/-! Laying out slots. -/

/-- The slots so far lie between `start` and the time of the next slot, one after the other. -/
structure Tiled (g : GroupInfo) (start : ℤ) (st : PlanState) : Prop where
  ordered : st.plans.Pairwise fun p q => p.eTime ≤ q.sTime
  inside : ∀ p ∈ st.plans, start ≤ p.sTime ∧ p.eTime ≤ st.sTime
  long : ∀ p ∈ st.plans, p.eTime = p.sTime + g.interval * second
  reached : start ≤ st.sTime

def slotsOf (plans : List MemberPlan) (m : Address) : ℕ := plans.countP fun p => p.member = m

namespace Tiled
variable {g : GroupInfo} {start : ℤ} {st : PlanState}

section
variable (h : Tiled g start st) (member : Address) (members : List Address)

include h

theorem addSlot : Tiled g start (g.addSlot member st) := by
  have hstep : st.sTime ≤ st.sTime + g.interval * second :=
    le_add_of_nonneg_right (mul_nonneg (Int.natCast_nonneg _) second_pos.le)
  refine ⟨?_, ?_, ?_, h.reached.trans hstep⟩
  · exact pairwise_concat.2 ⟨h.ordered, fun p hp => (h.inside p hp).2⟩
  · refine forall_mem_concat.2 ⟨fun p hp => ?_, h.reached, le_rfl⟩
    exact ⟨(h.inside p hp).1, (h.inside p hp).2.trans hstep⟩
  · exact forall_mem_concat.2 ⟨h.long, rfl⟩

theorem skip {t : ℤ} (ht : st.sTime ≤ t) : Tiled g start { st with sTime := t } :=
  ⟨h.ordered, fun p hp => ⟨(h.inside p hp).1, (h.inside p hp).2.trans ht⟩, h.long, h.reached.trans ht⟩

theorem addMember : Tiled g start (g.addMember st member) := by
  unfold GroupInfo.addMember
  induction g.perCount with
  | zero => exact h
  | succ n ih =>
    rw [iterate_succ_apply']
    exact ih.addSlot member

theorem addMembers : Tiled g start (members.foldl g.addMember st) := by
  induction members generalizing st with
  | nil => exact h
  | cons m members ih => exact ih (h.addMember m)

theorem addRound : Tiled g start (g.addRound members st) := by
  unfold GroupInfo.addRound
  by_cases hlt : members.length < g.nodeCount
  · simp only [if_pos hlt]
    refine (h.addMembers members).skip (le_add_of_nonneg_right ?_)
    have hmissing : 0 ≤ (g.nodeCount : ℤ) - members.length := by omega
    exact mul_nonneg (mul_nonneg (by positivity) hmissing) second_pos.le
  · simp only [if_neg hlt]
    exact h.addMembers members

theorem addRounds (n : ℕ) : Tiled g start ((g.addRound members)^[n] st) := by
  induction n with
  | zero => exact h
  | succ n ih =>
    rw [iterate_succ_apply']
    exact ih.addRound members

end

end Tiled

section Loops
variable (g : GroupInfo) (st : PlanState) (members : List Address)

theorem addMember_sTime (member : Address) :
    (g.addMember st member).sTime = st.sTime + g.perCount * (g.interval * second) := by
  unfold addMember
  induction g.perCount with
  | zero => simp
  | succ n ih =>
    rw [iterate_succ_apply']
    simp only [addSlot, ih]
    push_cast
    ring

theorem addMember_slotsOf (member m : Address) :
    slotsOf (g.addMember st member).plans m = slotsOf st.plans m + if member = m then g.perCount else 0 := by
  unfold addMember
  induction g.perCount with
  | zero => simp
  | succ n ih =>
    rw [iterate_succ_apply']
    unfold slotsOf at ih ⊢
    simp only [addSlot, countP_append, ih]
    by_cases hm : member = m
    · simp [hm, Nat.add_assoc]
    · simp [hm]

theorem addMembers_sTime :
    (members.foldl g.addMember st).sTime = st.sTime + members.length * (g.perCount * (g.interval * second)) := by
  induction members generalizing st with
  | nil => simp
  | cons m members ih =>
    rw [foldl_cons, ih, addMember_sTime, length_cons]
    push_cast
    ring

theorem addMembers_slotsOf (m : Address) :
    slotsOf (members.foldl g.addMember st).plans m = slotsOf st.plans m + members.count m * g.perCount := by
  induction members generalizing st with
  | nil => simp
  | cons a members ih =>
    rw [foldl_cons, ih, addMember_slotsOf]
    by_cases ha : a = m
    · simp [ha, Nat.add_mul]
      omega
    · simp [ha]

/-- A round takes the time of all nodes, present or not. -/
theorem addRound_sTime (hlen : members.length ≤ g.nodeCount) :
    (g.addRound members st).sTime = st.sTime + g.nodeCount * (g.perCount * (g.interval * second)) := by
  unfold addRound
  by_cases hlt : members.length < g.nodeCount
  · simp only [if_pos hlt, addMembers_sTime]
    ring
  · simp only [if_neg hlt, addMembers_sTime]
    rw [show members.length = g.nodeCount by omega]

theorem addRound_slotsOf (m : Address) :
    slotsOf (g.addRound members st).plans m = slotsOf st.plans m + members.count m * g.perCount := by
  rw [← addMembers_slotsOf]
  unfold addRound
  by_cases hlt : members.length < g.nodeCount
  · simp only [if_pos hlt]
  · simp only [if_neg hlt]

theorem addRounds_sTime (hlen : members.length ≤ g.nodeCount) (n : ℕ) :
    ((g.addRound members)^[n] st).sTime = st.sTime + n * (g.nodeCount * (g.perCount * (g.interval * second))) := by
  induction n with
  | zero => simp
  | succ n ih =>
    rw [iterate_succ_apply', addRound_sTime _ _ _ hlen, ih]
    push_cast
    ring

theorem addRounds_slotsOf (m : Address) (n : ℕ) :
    slotsOf ((g.addRound members)^[n] st).plans m = slotsOf st.plans m + n * (members.count m * g.perCount) := by
  induction n with
  | zero => simp
  | succ n ih =>
    rw [iterate_succ_apply', addRound_slotsOf, ih]
    ring

end Loops

section Plan
variable (g : GroupInfo) (index : ℕ) (members : List Address)

theorem index2Time_snd : (g.timeIndex.index2Time index).2 = (g.timeIndex.index2Time index).1 + second * g.planInterval := by
  simp only [TimeIndex.index2Time, timeIndex]
  push_cast
  ring

/-- The plan of a period is laid out from its start to its end. -/
theorem genPlanByAddress_tiled :
    ∃ st, g.genPlanByAddress index members = st.plans ∧ Tiled g (g.timeIndex.index2Time index).1 st ∧
      st.sTime ≤ (g.timeIndex.index2Time index).2 := by
  have hempty : Tiled g (g.timeIndex.index2Time index).1 ⟨(g.timeIndex.index2Time index).1, []⟩ :=
    ⟨List.Pairwise.nil, by simp, by simp, le_rfl⟩
  unfold genPlanByAddress
  by_cases hlen : g.nodeCount < members.length
  · rw [if_pos hlen]
    refine ⟨_, rfl, hempty, ?_⟩
    rw [index2Time_snd]
    exact le_add_of_nonneg_right (mul_nonneg second_pos.le (Int.natCast_nonneg _))
  · rw [if_neg hlen]
    refine ⟨_, rfl, hempty.addRounds members g.repeats, ?_⟩
    rw [addRounds_sTime _ _ _ (by omega), index2Time_snd, planInterval]
    push_cast
    exact le_of_eq (by ring)

theorem genPlanByAddress_slotsOf (hlen : members.length ≤ g.nodeCount) (m : Address) :
    slotsOf (g.genPlanByAddress index members) m = members.count m * (g.perCount * g.repeats) := by
  unfold genPlanByAddress
  rw [if_neg (by omega), addRounds_slotsOf]
  simp only [slotsOf, countP_nil]
  ring

/-- Slots of one period never overlap. -/
theorem genPlanByAddress_ordered : (g.genPlanByAddress index members).Pairwise fun p q => p.eTime ≤ q.sTime := by
  obtain ⟨st, hst, htiled, -⟩ := genPlanByAddress_tiled g index members
  rw [hst]
  exact htiled.ordered

theorem genPlanByAddress_inside {p : MemberPlan} (hp : p ∈ g.genPlanByAddress index members) :
    (g.timeIndex.index2Time index).1 ≤ p.sTime ∧ p.eTime ≤ (g.timeIndex.index2Time index).2 ∧
      p.eTime = p.sTime + g.interval * second := by
  obtain ⟨st, hst, htiled, hend⟩ := genPlanByAddress_tiled g index members
  rw [hst] at hp
  exact ⟨(htiled.inside p hp).1, (htiled.inside p hp).2.trans hend, htiled.long p hp⟩

end Plan

theorem index2Time_le (g : GroupInfo) {i j : ℕ} (hij : i < j) :
    (g.timeIndex.index2Time i).2 ≤ (g.timeIndex.index2Time j).1 := by
  have hcast : ((i + 1 : ℕ) : ℤ) ≤ j := by exact_mod_cast hij
  have hnonneg : 0 ≤ second * g.planInterval := mul_nonneg second_pos.le (Int.natCast_nonneg _)
  exact add_le_add_right (mul_le_mul_of_nonneg_left hcast hnonneg) _

/-! Whole seconds. -/

/-- The sum of the seconds and the fraction, as floats, reaches the next second: what is missing to it is at most
half the last bit of the seconds. -/
def RoundsUp (d : ℕ) : Prop := (1000000000 - d % 1000000000) * 2 ^ 53 ≤ 1000000000 * 2 ^ Nat.log 2 (d / 1000000000)

instance (d : ℕ) : Decidable (RoundsUp d) := inferInstanceAs (Decidable (_ ≤ _))

/-- No multiple of a nanosecond is as close to a power of two as a fraction is rounded. -/
theorem nanos_gap : ∀ k < 53, 19 ≤ k →
    (1 ≤ 1000000000 / 2 ^ (k + 1) →
      1000000000 * 2 ^ (k + 1) ≤ (1000000000 - 1000000000 / 2 ^ (k + 1) * 2 ^ (k + 1)) * 2 ^ 53) ∧
    1000000000 * 2 ^ (k + 1) < ((1000000000 / 2 ^ (k + 1) + 1) * 2 ^ (k + 1) - 1000000000) * 2 ^ 53 := by
  decide +kernel

/-- A fraction of nanoseconds, rounded, is as close to one as the fraction itself. -/
theorem fraction_reaches_iff {nsec k : ℕ} (hn : nsec < 1000000000) (hk : 19 ≤ k) (hk' : k < 53) :
    1 - 1 / 2 ^ (k + 1) ≤ roundPrec 53 ((nsec : ℚ) / 1000000000) ↔ (1000000000 - nsec) * 2 ^ (k + 1) ≤ 1000000000 := by
  obtain ⟨hlow, hhigh⟩ := nanos_gap k hk' hk
  generalize hK : 2 ^ (k + 1) = K at hlow hhigh ⊢
  have hKpos : 0 < K := by rw [← hK]; positivity
  have hKcast : (2 : ℚ) ^ (k + 1) = K := by exact_mod_cast hK
  rw [hKcast]
  obtain ⟨c, hc⟩ : ∃ c, c + nsec = 1000000000 := ⟨_, Nat.sub_add_cancel hn.le⟩
  have hcsub : 1000000000 - nsec = c := by omega
  have hx : (nsec : ℚ) / 1000000000 = 1 - c / 1000000000 := by
    have : (c : ℚ) + nsec = 1000000000 := by exact_mod_cast hc
    linarith
  obtain ⟨hlo, hhi⟩ := roundPrec_bounds (x := (nsec : ℚ) / 1000000000) (div_nonneg (Nat.cast_nonneg nsec) (by norm_num))
  have herror : (nsec : ℚ) / 1000000000 / 2 ^ 53 ≤ 1 / 2 ^ 53 := by
    have hle : (nsec : ℚ) / 1000000000 ≤ 1 := by
      rw [div_le_one (by norm_num)]
      exact_mod_cast hn.le
    exact div_le_div_of_nonneg_right hle (by positivity)
  have hKq : (0 : ℚ) < K := by exact_mod_cast hKpos
  rw [hcsub]
  constructor
  · intro h
    by_contra hgt
    have hbeyond : 1000000000 / K + 1 ≤ c := by
      rw [Nat.succ_le_iff, Nat.div_lt_iff_lt_mul hKpos]
      omega
    have hmul : (1000000000 / K + 1) * K ≤ c * K := Nat.mul_le_mul_right K hbeyond
    have hnat : 1000000000 * K + 1000000000 * 2 ^ 53 < c * K * 2 ^ 53 := by omega
    have hrat : (1000000000 : ℚ) * K + 1000000000 * 2 ^ 53 < c * K * 2 ^ 53 := by exact_mod_cast hnat
    have hfar : (1 : ℚ) / 2 ^ 53 + 1 / K < c / 1000000000 := by
      rw [div_add_div _ _ (by norm_num) hKq.ne', div_lt_div_iff₀ (mul_pos (by norm_num) hKq) (by norm_num)]
      linarith
    linarith
  · intro h
    have hwithin : c ≤ 1000000000 / K := (Nat.le_div_iff_mul_le hKpos).2 h
    have hmul : c * K ≤ 1000000000 / K * K := Nat.mul_le_mul_right K hwithin
    have hnat : 1000000000 * K + c * K * 2 ^ 53 ≤ 1000000000 * 2 ^ 53 := by omega
    have hrat : (1000000000 : ℚ) * K + c * K * 2 ^ 53 ≤ 1000000000 * 2 ^ 53 := by exact_mod_cast hnat
    have hnear : (1 : ℚ) / 2 ^ 53 + c / 1000000000 ≤ 1 / K := by
      rw [div_add_div _ _ (by positivity) (by norm_num), div_le_div_iff₀ (by positivity) hKq]
      linarith
    linarith

theorem fraction_lt_one {nsec : ℕ} (hn : nsec < 1000000000) :
    roundPrec 53 ((nsec : ℚ) / 1000000000) ≤ 1 - 1 / 2000000000 := by
  have hle : (nsec : ℚ) / 1000000000 ≤ 1 - 1 / 1000000000 := by
    have : (nsec : ℚ) ≤ 999999999 := by exact_mod_cast Nat.le_of_lt_succ hn
    linarith
  refine (roundPrec_le (by positivity) hle).trans ?_
  norm_num

/-- The whole seconds of a duration, one more if the sum is rounded up. -/
theorem truncate_durationSeconds {d : ℕ} (hd : d < 2 ^ 63) :
    truncate (durationSeconds d) =
      if RoundsUp d then ((d / 1000000000 : ℕ) : ℤ) + 1 else ((d / 1000000000 : ℕ) : ℤ) := by
  have hn : d % 1000000000 < 1000000000 := Nat.mod_lt _ (by norm_num)
  have hsec : d / 1000000000 < 2 ^ 34 := by omega
  have hdiv : (d : ℤ).tdiv second = (d / 1000000000 : ℕ) := rfl
  have hmod : (d : ℤ).tmod second = (d % 1000000000 : ℕ) := rfl
  have hfloats : durationSeconds d =
      roundPrec 53 ((d / 1000000000 : ℕ) + roundPrec 53 ((d % 1000000000 : ℕ) / 1000000000)) := by
    unfold durationSeconds float64
    rw [hdiv, hmod, Int.cast_natCast, Int.cast_natCast, roundPrec_natCast (hsec.trans (by norm_num)),
      roundPrec_natCast (hn.trans (by norm_num))]
  set sec := d / 1000000000 with hsecdef
  set q := roundPrec 53 (((d % 1000000000 : ℕ) : ℚ) / 1000000000) with hq
  have hq0 : 0 ≤ q := roundPrec_nonneg (by positivity)
  have hq1 : q ≤ 1 - 1 / 2000000000 := fraction_lt_one hn
  rw [hfloats, truncate, if_neg (not_lt.2 (roundPrec_nonneg (by positivity)))]
  rcases Nat.eq_zero_or_pos sec with hzero | hpos
  · have hnot : ¬RoundsUp d := by
      unfold RoundsUp
      rw [← hsecdef, hzero, Nat.log_zero_right]
      omega
    rw [if_neg hnot, hzero, Int.floor_eq_iff]
    have hbound := roundPrec_le (p := 53) (by simpa using hq0) (le_of_eq (by simp)) (y := q)
    have hnonneg : 0 ≤ roundPrec 53 (((0 : ℕ) : ℚ) + q) := roundPrec_nonneg (by simpa using hq0)
    have hone : q * (1 + 1 / 2 ^ 53) < 1 :=
      calc q * (1 + 1 / 2 ^ 53) ≤ (1 - 1 / 2000000000) * (1 + 1 / 2 ^ 53) := by gcongr
        _ < 1 := by norm_num
    exact ⟨by simpa using hnonneg, by simpa using lt_of_le_of_lt hbound hone⟩
  · have hlog : Nat.log 2 sec < 34 := Nat.log_lt_of_lt_pow hpos.ne' hsec
    obtain ⟨k, hk⟩ : ∃ k, Nat.log 2 sec + 1 + k = 53 := ⟨52 - Nat.log 2 sec, by omega⟩
    have hiff : RoundsUp d ↔ 1 - 1 / 2 ^ (k + 1) ≤ q := by
      rw [fraction_reaches_iff hn (by omega) (by omega), RoundsUp, ← hsecdef,
        show 53 = Nat.log 2 sec + (k + 1) by omega, Nat.pow_add, Nat.mul_comm (2 ^ Nat.log 2 sec), ← Nat.mul_assoc]
      exact Nat.mul_le_mul_right_iff (by positivity)
    rw [floor_roundPrec_add hpos hk (by omega) hq0 (by linarith)]
    by_cases hup : RoundsUp d
    · rw [if_pos hup, if_pos (hiff.1 hup)]
    · rw [if_neg hup, if_neg fun h => hup (hiff.2 h)]

end GoVite.Consensus

import GoVite.Lib.Except
import GoVite.Sanity.Consensus.Points
import Mathlib.Algebra.BigOperators.Intervals

/-! What a point says: the hash it ends in, the block before its window, the blocks of each producer and the slots they
had in the periods with a block. Points of neighbouring windows add up. -/

namespace GoVite.Consensus
open KeyStore ExceptRules List

/-! Counting. -/

theorem Sbps.getD_addNum (m : Sbps) (a b : Address) (n : Content) :
    (m.addNum a n).getD b ⟨0, 0⟩ = if b = a then (m.getD b ⟨0, 0⟩).merge n else m.getD b ⟨0, 0⟩ := by
  unfold Sbps.addNum
  rw [Store.getD_set]
  by_cases h : b = a
  · rw [if_pos h, if_pos h, h]
  · rw [if_neg h, if_neg h]

theorem Content.merge_zero (n : Content) : n.merge ⟨0, 0⟩ = n := rfl

theorem Content.zero_merge (n : Content) : Content.merge ⟨0, 0⟩ n = n := by simp [Content.merge]

theorem countBlocks_getD (W : BlockWorld) (blocks : List Hash) (m : Sbps) (a : Address) :
    (W.countBlocks blocks m).getD a ⟨0, 0⟩ =
      (m.getD a ⟨0, 0⟩).merge ⟨0, blocks.countP fun h => W.producer h = a⟩ := by
  unfold BlockWorld.countBlocks
  induction blocks generalizing m with
  | nil => exact (Content.merge_zero _).symm
  | cons h blocks ih =>
    rw [foldl_cons, ih, Sbps.getD_addNum]
    by_cases ha : a = W.producer h
    · simp [ha, Content.merge]
      omega
    · simp [ha, Ne.symm ha]

theorem countPlans_getD (plans : List MemberPlan) (m : Sbps) (a : Address) :
    (BlockWorld.countPlans plans m).getD a ⟨0, 0⟩ = (m.getD a ⟨0, 0⟩).merge ⟨slotsOf plans a, 0⟩ := by
  unfold BlockWorld.countPlans slotsOf
  induction plans generalizing m with
  | nil => exact (Content.merge_zero _).symm
  | cons v plans ih =>
    rw [foldl_cons, ih, Sbps.getD_addNum]
    by_cases ha : a = v.member
    · simp [ha, Content.merge]
      omega
    · simp [ha, Ne.symm ha]

/-- Adding a map in any order of its entries. -/
theorem Sbps.get?_foldl_addNum (m₁ : Sbps) {m₂ : Sbps} {l : List (Address × Content)} (hl : l.Perm m₂.entries) (a : Address) :
    (l.foldl (fun m e => m.addNum e.1 e.2) m₁).get? a = (m₁.get? a).merge Content.merge (m₂.get? a) := by
  have hnodup : (l.map Prod.fst).Nodup := (hl.map _).nodup_iff.2 m₂.keys_nodup
  have hmem : ∀ c, (a, c) ∈ l ↔ m₂.get? a = some c := fun c => by rw [hl.mem_iff, Store.get?_eq_some_iff]
  refine (Store.get?_foldl_update (fun o n => (o.getD ⟨0, 0⟩).merge n) hnodup hmem m₁).trans ?_
  cases m₁.get? a <;> cases m₂.get? a <;> simp [Content.zero_merge]

theorem Sbps.get?_merge (m₁ m₂ : Sbps) (a : Address) :
    (m₁.merge m₂).get? a = (m₁.get? a).merge Content.merge (m₂.get? a) := get?_foldl_addNum m₁ .rfl a

theorem Sbps.getD_merge (m₁ m₂ : Sbps) (a : Address) :
    (m₁.merge m₂).getD a ⟨0, 0⟩ = (m₁.getD a ⟨0, 0⟩).merge (m₂.getD a ⟨0, 0⟩) := by
  unfold Store.getD
  rw [get?_merge]
  cases m₁.get? a <;> cases m₂.get? a <;> simp [Content.zero_merge, Content.merge_zero]

namespace BlockWorld
variable {W : BlockWorld}

/-! The times of periods. -/

def periodTime (W : BlockWorld) (j : ℕ) : ℤ := (W.group.timeIndex.index2Time j).1

variable (j : ℕ)

theorem index2Time_period : W.group.timeIndex.index2Time j = (W.periodTime j, W.periodTime (j + 1)) := rfl

theorem periodTime_mono {i j : ℕ} (h : i ≤ j) : W.periodTime i ≤ W.periodTime j := by
  have hpos : (0 : ℤ) ≤ second * W.group.planInterval := mul_nonneg second_pos.le (Int.natCast_nonneg _)
  exact add_le_add_right (mul_le_mul_of_nonneg_left (by exact_mod_cast h) hpos) _

theorem genesisTime_le : W.group.genesisTime ≤ W.periodTime j :=
  le_add_of_nonneg_right (mul_nonneg (mul_nonneg second_pos.le (Int.natCast_nonneg _)) (Int.natCast_nonneg _))

/-- A second after genesis the first period is not over. -/
theorem second_le : W.group.genesisTime + second ≤ W.periodTime (j + 1) := by
  have hlen : second * 1 ≤ second * W.group.planInterval :=
    mul_le_mul_of_nonneg_left (by exact_mod_cast W.planInterval_pos) second_pos.le
  have hfirst : W.group.genesisTime + second ≤ W.periodTime 1 := by
    simp only [periodTime, TimeIndex.index2Time, GroupInfo.timeIndex]
    push_cast
    linarith
  exact hfirst.trans (periodTime_mono (by omega))

theorem genesisTime_lt : W.group.genesisTime < W.periodTime (j + 1) :=
  lt_of_lt_of_le (lt_add_of_pos_right _ second_pos) (second_le j)

theorem genesisTime_lt_genProofTime : W.group.genesisTime < W.genProofTime j := by
  unfold genProofTime
  split_ifs
  · exact lt_add_of_pos_right _ second_pos
  · exact genesisTime_lt (j - 2)

theorem genProofTime_le : W.genProofTime j ≤ W.periodTime (j + 1) := by
  unfold genProofTime
  split_ifs
  · exact second_le j
  · exact periodTime_mono (show j - 2 + 1 ≤ j + 1 by omega)

/-! Reading a chain that goes on above. -/

theorem electionIndex_rest {c : List Hash} (h : Linked W c) {j : ℕ} {t : ℤ} (ht : W.periodTime (j + 1) ≤ t) :
    W.electionIndex (W.rest c t) j = W.electionIndex c j := by
  unfold electionIndex
  rw [getSnapshotHeaderBeforeTime_eq h (genesisTime_lt_genProofTime j),
    getSnapshotHeaderBeforeTime_eq (h.rest t) (genesisTime_lt_genProofTime j), rest_rest ((genProofTime_le j).trans ht)]

theorem dropWhile_ne_head {c : List Hash} (h : Linked W c) (t : ℤ) :
    c.dropWhile (fun a => decide (a ≠ W.head (W.rest c t))) = W.rest c t := by
  obtain ⟨b, d, hbd⟩ := exists_cons_of_ne_nil (h.rest_ne_nil t)
  have hhead : W.head (W.rest c t) = b := by rw [hbd]; rfl
  have hc := window_append_rest (W := W) c t
  have hfall := h.falling
  rw [← hc, hbd] at hfall
  rw [hhead]
  nth_rewrite 1 [← hc]
  rw [dropWhile_append_of_pos, hbd, dropWhile_cons_of_neg (by simp)]
  intro a ha
  have := (pairwise_append.1 hfall).2.2 a ha b mem_cons_self
  simp only [decide_eq_true_eq]
  rintro rfl
  omega

/-- The headers of a window, down from the last block before its end. -/
theorem getSnapshotHeaders_window {c : List Hash} (h : Linked W c) {t t' : ℤ} (ht : W.group.genesisTime ≤ t)
    (htt : t ≤ t') :
    W.getSnapshotHeadersAfterOrEqualTime c (W.head (W.rest c t')) t = W.window (W.rest c t') t := by
  have hd := h.rest t'
  have hheight := hd.height_window t
  rw [rest_rest htt] at hheight
  unfold getSnapshotHeadersAfterOrEqualTime
  rw [getSnapshotHeaderBeforeTime_getD h ht]
  by_cases hnil : W.window (W.rest c t') t = []
  · rw [hnil, length_nil] at hheight
    rw [if_pos (by omega), hnil]
  · have hpos := length_pos_of_ne_nil hnil
    rw [if_neg (by omega), getSnapshotHeaders, dropWhile_ne_head h, hheight, Nat.add_sub_cancel_left]
    have hsplit := window_append_rest (W := W) (W.rest c t') t
    nth_rewrite 2 [← hsplit]
    rw [take_left]

/-! What points say. -/

def plansOf (W : BlockWorld) (c : List Hash) (j : ℕ) : List MemberPlan :=
  match W.electionIndex c j with
  | .ok result => result.plans
  | .error _ => []

/-- The slots of a producer in period `j`, which count if the period contains a block. -/
def expectedIn (W : BlockWorld) (c : List Hash) (a : Address) (j : ℕ) : ℕ :=
  if W.window (W.rest c (W.periodTime (j + 1))) (W.periodTime j) = [] then 0 else slotsOf (W.plansOf c j) a

/-- `p` is the point of the periods `i` up to `m` on a chain whose blocks are all before the end of the last one. -/
structure Describes (W : BlockWorld) (c : List Hash) (i m : ℕ) (p : Point) : Prop where
  hash : p.hash = W.head c
  prevHash : p.prevHash = W.head (W.rest c (W.periodTime i))
  factual : ∀ a, (p.sbps.getD a ⟨0, 0⟩).factualNum = (W.window c (W.periodTime i)).countP fun h => W.producer h = a
  expected : ∀ a, (p.sbps.getD a ⟨0, 0⟩).expectedNum = ∑ j ∈ Finset.Ico i m, W.expectedIn c a j
  empty : W.window c (W.periodTime i) = [] → p = .empty (W.head c)

namespace Describes
variable {c : List Hash} {i k m : ℕ} {p : Point}

theorem isEmpty_iff (h : Describes W c i m p) (hc : Linked W c) : p.isEmpty ↔ W.window c (W.periodTime i) = [] := by
  unfold Point.isEmpty
  rw [decide_eq_true_eq, h.hash, h.prevHash]
  constructor
  · intro heq
    by_contra hne
    exact hc.head_rest_ne hne heq.symm
  · intro hnil
    rw [rest_eq_of_window_nil hnil]

/-- Before any period was added a point is empty. -/
theorem start (hc : W.rest c (W.periodTime m) = c) : Describes W c m m (.empty (W.head c)) := by
  have hnil : W.window c (W.periodTime m) = [] := by
    have := window_append_rest (W := W) c (W.periodTime m)
    rw [hc] at this
    simpa using this
  refine ⟨rfl, by rw [hc]; rfl, fun a => ?_, fun a => ?_, fun _ => rfl⟩
  · rw [hnil]
    rfl
  · rw [Finset.Ico_self]
    rfl

/-- Below the blocks a point already has, expected slots are the same. -/
theorem expectedIn_rest (hc : Linked W c) {a : Address} {j : ℕ} (hj : j + 1 ≤ k) :
    W.expectedIn (W.rest c (W.periodTime k)) a j = W.expectedIn c a j := by
  unfold expectedIn plansOf
  rw [rest_rest (periodTime_mono hj), electionIndex_rest hc (periodTime_mono hj)]

theorem sum_expectedIn_rest (hc : Linked W c) (a : Address) :
    ∑ j ∈ Finset.Ico i k, W.expectedIn (W.rest c (W.periodTime k)) a j = ∑ j ∈ Finset.Ico i k, W.expectedIn c a j :=
  Finset.sum_congr rfl fun _ hj => expectedIn_rest hc (Finset.mem_Ico.1 hj).2

theorem skip (h : Describes W c k m p) (hik : i ≤ k) (hkm : k ≤ m)
    (hnil : W.window (W.rest c (W.periodTime k)) (W.periodTime i) = []) : Describes W c i m p := by
  have hsplit := window_split (W := W) (c := c) (periodTime_mono (W := W) hik)
  rw [hnil, append_nil] at hsplit
  have hrest : W.rest c (W.periodTime i) = W.rest c (W.periodTime k) := by
    rw [← rest_rest (periodTime_mono hik), rest_eq_of_window_nil hnil]
  refine ⟨h.hash, by rw [h.prevHash, hrest], fun a => by rw [h.factual, hsplit], fun a => ?_,
    fun hempty => h.empty (by rw [← hsplit]; exact hempty)⟩
  rw [h.expected, ← Finset.sum_Ico_consecutive _ hik hkm]
  have hzero : ∑ j ∈ Finset.Ico i k, W.expectedIn c a j = 0 := by
    apply Finset.sum_eq_zero
    intro j hj
    obtain ⟨hij, hjk⟩ := Finset.mem_Ico.1 hj
    have hbelow : W.window (W.rest c (W.periodTime k)) (W.periodTime j) = [] :=
      window_nil_of_le (periodTime_mono hij) hnil
    have hinner := window_split (W := W) (c := W.rest c (W.periodTime k)) (t := W.periodTime (j + 1))
      (periodTime_mono (Nat.le_succ j))
    rw [hbelow, rest_rest (periodTime_mono hjk)] at hinner
    exact if_pos (append_eq_nil_iff.1 hinner.symm).2
  rw [hzero, Nat.zero_add]

/-- A lower point with blocks is appended on the left. -/
theorem leftAppend (h : Describes W c k m p) (hc : Linked W c) (hik : i ≤ k) (hkm : k ≤ m) {q : Point}
    (hq : Describes W (W.rest c (W.periodTime k)) i k q)
    (hne : W.window (W.rest c (W.periodTime k)) (W.periodTime i) ≠ []) :
    ∃ p', p.leftAppend q = .ok p' ∧ Describes W c i m p' := by
  have hsplit := window_split (W := W) (c := c) (periodTime_mono (W := W) hik)
  refine ⟨{ p with prevHash := q.prevHash, sbps := p.sbps.merge q.sbps }, ?_, h.hash, ?_, fun a => ?_,
    fun a => ?_, ?_⟩
  · unfold Point.leftAppend
    rw [if_neg (not_not.2 (by rw [hq.hash, h.prevHash]))]
  · rw [hq.prevHash, rest_rest (periodTime_mono hik)]
  · rw [Sbps.getD_merge, hsplit, countP_append, ← h.factual, ← hq.factual]
    rfl
  · rw [Sbps.getD_merge, ← Finset.sum_Ico_consecutive _ hik hkm, ← h.expected, ← sum_expectedIn_rest hc, ← hq.expected]
    exact Nat.add_comm _ _
  · intro hnil
    rw [hsplit] at hnil
    exact absurd (append_eq_nil_iff.1 hnil).2 hne

end Describes

end BlockWorld

end GoVite.Consensus

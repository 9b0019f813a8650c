import GoVite.Lib.Except
import GoVite.Spec.Consensus.Election

/-! What each part of the election does to the groups it works on, up to permutation: `filterSimple` cuts the votes of
the highest balances in two, `filterBySuccessRate` exchanges members, `filterRandV2` draws from both. -/

namespace GoVite.Consensus
open KeyStore Slices ExceptRules List Exchange ByBalance GroupInfo

theorem ByBalance.strictWeak : StrictWeak less where
  asymm a b h := by
    unfold less at h ⊢
    by_cases hab : b.balance = a.balance
    · rw [if_pos hab, decide_eq_true_eq] at h
      simpa [hab] using h.le
    · rw [if_neg hab, decide_eq_true_eq] at h
      simpa [Ne.symm hab] using h.le
  cotrans a b c h := by
    unfold less at h ⊢
    by_cases hac : c.balance = a.balance
    · rw [if_pos hac, decide_eq_true_eq] at h
      by_cases hab : b.balance = a.balance
      · simp only [hab, hac, if_true, decide_eq_true_eq]
        by_cases hn : a.name < b.name
        · exact .inl hn
        · exact .inr ((not_lt.1 hn).trans_lt h)
      · rw [hac, if_neg hab, if_neg (Ne.symm hab), decide_eq_true_eq, decide_eq_true_eq]
        exact lt_or_gt_of_ne hab
    · rw [if_neg hac, decide_eq_true_eq] at h
      by_cases hab : b.balance = a.balance
      · right
        rw [hab, if_neg hac]
        exact decide_eq_true h
      · rw [if_neg hab, decide_eq_true_eq]
        rcases lt_or_gt_of_ne hab with hlt | hgt
        · exact .inl hlt
        · right
          rw [if_neg (by omega)]
          exact decide_eq_true (by omega)

/-! The highest balances. -/

/-- The vote is among the first `n` by balance and, on equal balances, by name. -/
def InTop (votes : List Vote) (n : ℕ) (v : Vote) : Prop :=
  v ∈ votes ∧ (votes.filter (less · v)).length < n

variable {votes : List Vote} {n : ℕ} {v : Vote}

theorem inTop_of_mem_take (S : Sorting) (h : v ∈ (S.sort less votes).take n) : InTop votes n v := by
  have hperm := S.perm less votes
  have hcount := count_before_lt strictWeak.asymm (S.sorted strictWeak votes) h
  rw [(hperm.filter _).length_eq] at hcount
  exact ⟨hperm.subset (take_subset _ _ h), hcount⟩

theorem InTop.mono {m : ℕ} (h : InTop votes n v) (hnm : n ≤ m) : InTop votes m v :=
  ⟨h.1, h.2.trans_le hnm⟩

theorem inTop_length (h : v ∈ votes) : InTop votes votes.length v := by
  have hsorted : v ∈ (mergeSorting.sort less votes).take votes.length := by
    have hperm := mergeSorting.perm less votes
    rw [← hperm.length_eq, take_length]
    exact hperm.symm.subset h
  exact inTop_of_mem_take mergeSorting hsorted

/-- What `filterSimple` makes of the votes: the first group is full unless the second is empty, and both are
different votes of the highest balances. -/
structure Groups (g : GroupInfo) (votes groupA groupB : List Vote) : Prop where
  sizeA : groupA.length = min g.nodeCount votes.length
  sizeB : groupB.length = min g.randRank votes.length - min g.nodeCount votes.length
  part : (groupA ++ groupB).Subperm votes
  top : ∀ v ∈ groupA ++ groupB, InTop votes g.randRank v

variable (g : GroupInfo) (R : Runtime) (seed : ℤ) {rates : SuccessRates}

theorem filterSimple_groups (votes : List Vote) (hrank : g.nodeCount ≤ g.randRank) :
    ∃ groupA groupB, g.filterSimple R votes = .ok (groupA, groupB) ∧ Groups g votes groupA groupB := by
  unfold filterSimple
  by_cases hfew : votes.length ≤ g.nodeCount
  · rw [if_pos hfew]
    refine ⟨votes, [], rfl, ⟨by omega, by simp; omega, by rw [append_nil], fun v hv => ?_⟩⟩
    rw [append_nil] at hv
    exact (inTop_length hv).mono (by omega)
  · rw [if_neg hfew]
    set sorted := R.sorting.sort less votes with hsorted
    have hperm : sorted.Perm votes := R.sorting.perm less votes
    have hlen : sorted.length = votes.length := hperm.length_eq
    have hend : (if sorted.length ≤ g.randRank then (sorted.length : ℤ) else g.randRank) =
        (min g.randRank votes.length : ℕ) := by
      split_ifs <;> omega
    have hA : slice sorted 0 g.nodeCount = .ok (sorted.take g.nodeCount) := slice_take (by omega)
    have hB : slice sorted g.nodeCount (if sorted.length ≤ g.randRank then (sorted.length : ℤ) else g.randRank) =
        .ok ((sorted.take (min g.randRank votes.length)).drop g.nodeCount) := by
      rw [hend]
      exact slice_natCast (by omega) (by omega)
    have happend : sorted.take g.nodeCount ++ (sorted.take (min g.randRank votes.length)).drop g.nodeCount =
        sorted.take (min g.randRank votes.length) := by
      have hsplit := take_append_drop g.nodeCount (sorted.take (min g.randRank votes.length))
      rwa [take_take, min_eq_left (by omega)] at hsplit
    simp only [hA, hB]
    refine ⟨_, _, rfl, ⟨?_, ?_, ?_, fun v hv => ?_⟩⟩
    · rw [length_take, hlen]
    · rw [length_drop, length_take]
      omega
    · rw [happend]
      exact (take_sublist _ _).subperm.trans hperm.subperm
    · rw [happend] at hv
      exact (inTop_of_mem_take R.sorting hv).mono (min_le_left _ _)

theorem Groups.groupB_eq_nil_iff {g : GroupInfo} {groupA groupB : List Vote} (h : Groups g votes groupA groupB) :
    groupB = [] ↔ votes.length ≤ g.nodeCount ∨ g.randRank ≤ g.nodeCount := by
  have := h.sizeB
  rw [← length_eq_zero_iff]
  omega

/-! Exchanges by success rate. -/

/-- At most two members changed places between the groups: who left the first has a known rate below the line, and
who joined it one above. -/
def Exchanged (rates : SuccessRates) (groupA groupB groupA' groupB' : List Vote) : Prop :=
  ∃ keptA keptB demoted promoted : List Vote,
    demoted.length = promoted.length ∧ promoted.length ≤ 2 ∧
    groupA.Perm (keptA ++ demoted) ∧ groupB.Perm (keptB ++ promoted) ∧
    groupA'.Perm (keptA ++ promoted) ∧ groupB'.Perm (keptB ++ demoted) ∧
    (∀ v ∈ demoted, ∃ rate, rates.get? v.addr = some rate ∧ rate < line) ∧
    ∀ v ∈ promoted, ∃ rate, rates.get? v.addr = some rate ∧ line < rate

namespace Exchanged
variable {groupA groupB groupA' groupB' : List Vote}

theorem refl (rates : SuccessRates) (groupA groupB : List Vote) : Exchanged rates groupA groupB groupA groupB :=
  ⟨groupA, groupB, [], [], by simp⟩

theorem sizes (h : Exchanged rates groupA groupB groupA' groupB') :
    groupA'.length = groupA.length ∧ groupB'.length = groupB.length := by
  obtain ⟨keptA, keptB, demoted, promoted, hlen, -, hA, hB, hA', hB', -⟩ := h
  have := hA.length_eq
  have := hB.length_eq
  have := hA'.length_eq
  have := hB'.length_eq
  simp only [length_append] at *
  omega

theorem union (h : Exchanged rates groupA groupB groupA' groupB') : (groupA' ++ groupB').Perm (groupA ++ groupB) := by
  obtain ⟨keptA, keptB, demoted, promoted, -, -, hA, hB, hA', hB', -⟩ := h
  refine (hA'.append hB').trans (List.Perm.trans ?_ (hA.append hB).symm)
  rw [perm_iff_count]
  intro v
  simp only [count_append]
  omega

end Exchanged

theorem line_nonneg {r : Int32} (h : line < r) : (0 : Int32) ≤ r :=
  Int32.le_trans (by decide) (Int32.le_of_lt h)

/-- A rate of zero or more is a rate of the map. -/
theorem known_of_nonneg (h : 0 ≤ (withRate rates v).rate) : rates.get? v.addr = some (withRate rates v).rate := by
  cases hget : rates.get? v.addr with
  | some rate => simp [withRate, Store.getD, hget]
  | none =>
    have hminus : (withRate rates v).rate = -1 := by simp [withRate, Store.getD, hget]
    rw [hminus] at h
    exact absurd h (by decide)

theorem map_vote_withRate (rates : SuccessRates) (group : List Vote) :
    (group.map (withRate rates)).map (·.vote) = group := by
  rw [map_map]
  exact map_id group

variable {demoted promoted : List SuccessRateVote}

/-- Parts of the rated groups that change places. -/
theorem exchanged_of_rated {groupA groupB groupA' groupB' : List Vote} (keptA keptB : List SuccessRateVote)
    (hlen : demoted.length = promoted.length) (hle : promoted.length ≤ 2) (hA : (keptA ++ demoted).Perm (groupA.map (withRate rates)))
    (hB : (keptB ++ promoted).Perm (groupB.map (withRate rates)))
    (hA' : groupA'.Perm ((keptA ++ promoted).map (·.vote))) (hB' : groupB'.Perm ((keptB ++ demoted).map (·.vote)))
    (hdem : ∀ v ∈ demoted, v.demotable) (hprom : ∀ v ∈ promoted, line < v.rate) :
    Exchanged rates groupA groupB groupA' groupB' := by
  refine ⟨keptA.map (·.vote), keptB.map (·.vote), demoted.map (·.vote), promoted.map (·.vote),
    by simpa using hlen, by simpa using hle, ?_, ?_, ?_, ?_, ?_, ?_⟩
  · have hvotes := hA.map (·.vote)
    rw [map_vote_withRate, map_append] at hvotes
    exact hvotes.symm
  · have hvotes := hB.map (·.vote)
    rw [map_vote_withRate, map_append] at hvotes
    exact hvotes.symm
  · rwa [map_append] at hA'
  · rwa [map_append] at hB'
  · intro v hv
    obtain ⟨w, hw, rfl⟩ := mem_map.1 hv
    obtain ⟨u, -, rfl⟩ := mem_map.1 (hA.subset (mem_append_right _ hw))
    obtain ⟨hnonneg, hbelow⟩ := of_decide_eq_true (hdem _ hw)
    exact ⟨_, known_of_nonneg hnonneg, hbelow⟩
  · intro v hv
    obtain ⟨w, hw, rfl⟩ := mem_map.1 hv
    obtain ⟨u, -, rfl⟩ := mem_map.1 (hB.subset (mem_append_right _ hw))
    exact ⟨_, known_of_nonneg (line_nonneg (hprom _ hw)), hprom _ hw⟩

/-- The loop over the second group sets at most two votes above the line apart. -/
theorem splitGroupB_spec (vs improvement rest : List SuccessRateVote) (himp : improvement.length ≤ 2)
    (hline : ∀ v ∈ improvement, line < v.rate) :
    (splitGroupB vs improvement rest).1.length ≤ 2 ∧ (∀ v ∈ (splitGroupB vs improvement rest).1, line < v.rate) ∧
      ((splitGroupB vs improvement rest).2 ++ (splitGroupB vs improvement rest).1).Perm (rest ++ improvement ++ vs) := by
  induction vs generalizing improvement rest with
  | nil => exact ⟨himp, hline, by simp [splitGroupB]⟩
  | cons v vs ih =>
    have hright : (rest ++ [v] ++ improvement ++ vs).Perm (rest ++ improvement ++ v :: vs) := by
      rw [perm_iff_count]
      intro w
      simp only [count_append, count_cons, count_nil]
      omega
    have hleft : (rest ++ (improvement ++ [v]) ++ vs).Perm (rest ++ improvement ++ v :: vs) := by simp
    unfold splitGroupB
    by_cases hfull : obsoletedNum ≤ improvement.length
    · rw [if_pos hfull]
      obtain ⟨h₁, h₂, h₃⟩ := ih improvement (rest ++ [v]) himp hline
      exact ⟨h₁, h₂, h₃.trans hright⟩
    · rw [if_neg hfull]
      by_cases hv : line < v.rate
      · rw [if_pos hv]
        have hlen : (improvement ++ [v]).length ≤ 2 := by
          unfold obsoletedNum at hfull
          simp
          omega
        have hall : ∀ w ∈ improvement ++ [v], line < w.rate := forall_mem_concat.2 ⟨hline, hv⟩
        obtain ⟨h₁, h₂, h₃⟩ := ih (improvement ++ [v]) rest hlen hall
        exact ⟨h₁, h₂, h₃.trans hleft⟩
      · rw [if_neg hv]
        obtain ⟨h₁, h₂, h₃⟩ := ih improvement (rest ++ [v]) himp hline
        exact ⟨h₁, h₂, h₃.trans hright⟩

/-- The two rounds exchange the last of one list with the first of the other, as far as both reach. -/
theorem exchange_rounds (del imp : List SuccessRateVote) (types : VoteTypes) (hdel : del.length ≤ 2)
    (himp : imp.length ≤ 2) :
    ∃ keptA keptB demoted promoted : List SuccessRateVote,
      demoted.length = promoted.length ∧ promoted.length ≤ 2 ∧ del.Perm (keptA ++ demoted) ∧
      imp.Perm (keptB ++ promoted) ∧ ((mk del imp types |>.round 1).round 2).deleteGroupA.Perm (keptA ++ promoted) ∧
      ((mk del imp types |>.round 1).round 2).improvementGroupB.Perm (keptB ++ demoted) := by
  have hshort : ∀ l : List SuccessRateVote, l.length ≤ 2 → l = [] ∨ (∃ a, l = [a]) ∨ ∃ a b, l = [a, b] := by
    intro l hl
    rcases l with _ | ⟨a, _ | ⟨b, _ | ⟨c, l⟩⟩⟩
    · exact .inl rfl
    · exact .inr (.inl ⟨a, rfl⟩)
    · exact .inr (.inr ⟨a, b, rfl⟩)
    · simp at hl
  rcases hshort del hdel with rfl | ⟨a, rfl⟩ | ⟨a, b, rfl⟩ <;> rcases hshort imp himp with rfl | ⟨c, rfl⟩ | ⟨c, d, rfl⟩
  · exact ⟨[], [], [], [], by simp [Exchange.round]⟩
  · exact ⟨[], [c], [], [], by simp [Exchange.round]⟩
  · exact ⟨[], [c, d], [], [], by simp [Exchange.round]⟩
  · exact ⟨[a], [], [], [], by simp [Exchange.round]⟩
  · exact ⟨[], [], [a], [c], by simp [Exchange.round]⟩
  · exact ⟨[], [d], [a], [c], by simp [Exchange.round, List.Perm.swap]⟩
  · exact ⟨[a, b], [], [], [], by simp [Exchange.round]⟩
  · exact ⟨[a], [], [b], [c], by simp [Exchange.round]⟩
  · exact ⟨[], [], [b, a], [c, d], by simp [Exchange.round, List.Perm.swap]⟩

/-- Splitting a list by a test and appending the parts rearranges it. -/
theorem filter_not_append_filter_perm (l : List SuccessRateVote) (p : SuccessRateVote → Bool) :
    (l.filter (!p ·) ++ l.filter p).Perm l :=
  perm_append_comm.trans (filter_append_perm p l)

theorem filterBySuccessRate_exchanges (groupA groupB : List Vote) (rates : SuccessRates)
    (types : VoteTypes) (hok : groupB = [] ∨ rates.keys.length < 2 ∨ 2 ≤ groupA.length) :
    ∃ groupA' groupB' types', filterBySuccessRate R groupA groupB rates types = .ok (groupA', groupB', types') ∧
      Exchanged rates groupA groupB groupA' groupB' := by
  unfold filterBySuccessRate
  by_cases hB : groupB = []
  · rw [if_pos hB]
    exact ⟨groupA, groupB, types, rfl, .refl rates groupA groupB⟩
  rw [if_neg hB]
  by_cases hrates : rates.keys.length < obsoletedNum
  · rw [if_pos hrates]
    exact ⟨groupA, groupB, types, rfl, .refl rates groupA groupB⟩
  rw [if_neg hrates]
  have htwo : 2 ≤ groupA.length := by
    rcases hok with h | h | h
    · exact absurd h hB
    · exact absurd h hrates
    · exact h
  set sortedA := R.sorting.sort BySuccessRate.less (groupA.map (withRate rates)) with hsortedA
  set sortedB := R.sorting.sort BySuccessRate.less (groupB.map (withRate rates)) with hsortedB
  have hpermA : sortedA.Perm (groupA.map (withRate rates)) := R.sorting.perm BySuccessRate.less _
  have hpermB : sortedB.Perm (groupB.map (withRate rates)) := R.sorting.perm BySuccessRate.less _
  have hlenA : sortedA.length = groupA.length := by rw [hpermA.length_eq, length_map]
  have hcut : (sortedA.length : ℤ) - obsoletedNum = (sortedA.length - 2 : ℕ) := by
    unfold obsoletedNum
    omega
  have hlast : slice sortedA ((sortedA.length : ℤ) - obsoletedNum) sortedA.length =
      .ok (sortedA.drop (sortedA.length - 2)) := by
    rw [hcut, slice_natCast (by omega) le_rfl, take_length]
  have hfirst : slice sortedA 0 ((sortedA.length : ℤ) - obsoletedNum) = .ok (sortedA.take (sortedA.length - 2)) := by
    rw [hcut]
    exact slice_take (by omega)
  set tmps := sortedA.drop (sortedA.length - 2) with htmps
  set first := sortedA.take (sortedA.length - 2) with hfirstdef
  have hdellen : (tmps.filter (·.demotable)).length ≤ 2 := by
    have htmpslen : tmps.length = 2 := by
      rw [length_drop]
      omega
    exact (length_filter_le _ tmps).trans htmpslen.le
  obtain ⟨himplen, himpline, himpperm⟩ := splitGroupB_spec sortedB [] [] (by simp) (by simp)
  obtain ⟨keptA, keptB, demoted, promoted, hlen, hle, hd, hi, hd', hi'⟩ :=
    exchange_rounds (tmps.filter (·.demotable)) (splitGroupB sortedB [] []).1 types hdellen himplen
  simp only [hlast, hfirst]
  refine ⟨_, _, _, rfl, exchanged_of_rated (first ++ tmps.filter (!·.demotable) ++ keptA)
    ((splitGroupB sortedB [] []).2 ++ keptB) hlen hle ?_ ?_ ?_ ?_ ?_ ?_⟩
  · refine List.Perm.trans ?_ hpermA
    have hcat : sortedA = first ++ tmps := (take_append_drop _ _).symm
    rw [hcat, append_assoc, append_assoc]
    refine List.Perm.append_left first (List.Perm.trans ?_ (filter_not_append_filter_perm tmps (·.demotable)))
    exact List.Perm.append_left _ hd.symm
  · refine List.Perm.trans ?_ hpermB
    rw [append_assoc]
    exact (List.Perm.append_left _ hi.symm).trans (by simpa using himpperm)
  · rw [append_assoc _ keptA]
    exact (List.Perm.append_left _ hd').map _
  · rw [append_assoc _ keptB]
    exact (List.Perm.append_left _ hi').map _
  · exact fun v hv => (mem_filter.1 (hd.symm.subset (mem_append_right _ hv))).2
  · exact fun v hv => himpline v (hi.symm.subset (mem_append_right _ hv))

/-- The slice of the last two votes of a smaller group is out of range. -/
theorem filterBySuccessRate_panics {groupA groupB : List Vote} (types : VoteTypes)
    (hB : groupB ≠ []) (hrates : 2 ≤ rates.keys.length) (hA : groupA.length < 2) :
    filterBySuccessRate R groupA groupB rates types = .error .bounds := by
  have hlen : (R.sorting.sort BySuccessRate.less (groupA.map (withRate rates))).length = groupA.length := by
    rw [(R.sorting.perm BySuccessRate.less _).length_eq, length_map]
  unfold filterBySuccessRate
  rw [if_neg hB, if_neg (by unfold obsoletedNum; omega)]
  simp only [hlen]
  rw [slice_error (by unfold obsoletedNum; omega)]
  rfl

/-! Random promotions. -/

theorem index_append (l m : List Vote) (i : ℕ) :
    (if l.length ≤ i then index m (i - l.length) else index l i) = index (l ++ m) i := by
  unfold index
  by_cases hi : l.length ≤ i
  · rw [if_pos hi]
    by_cases hm : i - l.length < m.length
    · rw [dif_pos hm, dif_pos (by rw [length_append]; omega)]
      simp [getElem_append_right hi]
    · rw [dif_neg hm, dif_neg (by rw [length_append]; omega)]
  · rw [if_neg hi, dif_pos (by omega), dif_pos (by rw [length_append]; omega)]
    simp [getElem_append_left (show i < l.length by omega)]

variable {k i : ℕ}

theorem lt_of_mem_randPerm {R : Runtime} {seed : ℤ} (h : i ∈ (R.randPerm seed n).take k) : i < n :=
  mem_range.1 ((R.randPerm_perm seed n).subset (take_subset _ _ h))

theorem length_randPerm (n : ℕ) : (R.randPerm seed n).length = n := by
  rw [(R.randPerm_perm seed n).length_eq, length_range]

theorem slice_randPerm (h : k ≤ n) : slice (R.randPerm seed n) 0 k = .ok ((R.randPerm seed n).take k) :=
  slice_take (by rwa [length_randPerm])

theorem calRandCnt_le (total randNum : ℕ) : calRandCnt total randNum ≤ total / 3 := by
  unfold calRandCnt
  split_ifs <;> omega

variable {randCnt topTotal total left : ℕ}

/-- If more of the first group stay than its share, the second group is larger than the number of promotions. -/
theorem randCnt_lt (htop : topTotal ≤ total) (h : (randCnt : ℤ) * total < topTotal * left) : randCnt < left := by
  by_contra hle
  have : topTotal * left ≤ total * randCnt := Nat.mul_le_mul htop (by omega)
  rw [Nat.mul_comm total] at this
  omega

/-- The draw takes as many votes from both groups as the group has nodes. -/
theorem filterRandV2_draws (groupA groupB : List Vote) (height seeds : ℕ)
    (types : VoteTypes) (hA : groupA.length = g.nodeCount) :
    ∃ votes types', g.filterRandV2 R groupA groupB height seeds types = .ok (votes, types') ∧
      votes.length = g.nodeCount ∧ votes.Subperm (groupA ++ groupB) := by
  unfold filterRandV2
  by_cases hB : groupB = []
  · rw [if_pos hB]
    exact ⟨groupA, types, rfl, hA, (sublist_append_left _ _).subperm⟩
  rw [if_neg hB]
  dsimp only
  set sortedA := R.sorting.sort less groupA with hsortedA
  set sortedB := R.sorting.sort less groupB with hsortedB
  have hpermA : sortedA.Perm groupA := R.sorting.perm less groupA
  have hpermB : sortedB.Perm groupB := R.sorting.perm less groupB
  have hlenA : sortedA.length = g.nodeCount := by rw [hpermA.length_eq, hA]
  generalize g.findSeed (sortedA ++ sortedB) height seeds = seed
  set randCnt := calRandCnt g.nodeCount g.randCount with hrandCnt
  have hcnt : randCnt ≤ g.nodeCount := (calRandCnt_le _ _).trans (Nat.div_le_self _ _)
  have hleft : sortedA.length + sortedB.length - g.nodeCount = sortedB.length := by omega
  have hleftInt : ((sortedA.length + sortedB.length : ℕ) : ℤ) - g.nodeCount = sortedB.length := by omega
  rw [hleft, hleftInt]
  by_cases hshare : (randCnt : ℤ) * g.nodeCount < (g.nodeCount - randCnt : ℕ) * (sortedB.length : ℤ)
  · rw [if_pos hshare]
    have hlt : randCnt < sortedB.length := randCnt_lt (Nat.sub_le _ _) hshare
    set first := (R.randPerm seed g.nodeCount).take (g.nodeCount - randCnt) with hfirst
    set second := (R.randPerm (int64 (seed + 1)) sortedB.length).take randCnt with hsecond
    have hfirstlt : ∀ i ∈ first, i < sortedA.length := fun i hi => hlenA ▸ lt_of_mem_randPerm hi
    have hsecondlt : ∀ i ∈ second, i < sortedB.length := fun i hi => lt_of_mem_randPerm hi
    rw [slice_randPerm R seed (Nat.sub_le _ _), slice_randPerm R _ hlt.le]
    simp only [bind, Except.bind, ← hfirst, ← hsecond, mapM_index hfirstlt, mapM_index hsecondlt]
    refine ⟨_, _, rfl, ?_, ?_⟩
    · rw [length_append, length_pick hfirstlt, length_pick hsecondlt, hsecond, length_take,
        length_take, length_randPerm, length_randPerm]
      omega
    · have hsubA : (pick sortedA first).Subperm sortedA :=
        pick_take_subperm (by rw [hlenA]; exact R.randPerm_perm _ _) _
      have hsubB : (pick sortedB second).Subperm sortedB := pick_take_subperm (R.randPerm_perm _ _) _
      exact (hsubA.append hsubB).trans (hpermA.append hpermB).subperm
  · rw [if_neg hshare]
    set arr := (R.randPerm seed (sortedA.length + sortedB.length)).take g.nodeCount with harr
    have harrlt : ∀ i ∈ arr, i < (sortedA ++ sortedB).length := by
      intro i hi
      rw [length_append]
      exact lt_of_mem_randPerm hi
    have hpick : (arr.mapM fun v => if g.nodeCount ≤ v then index sortedB (v - g.nodeCount) else index sortedA v) =
        .ok (pick (sortedA ++ sortedB) arr) := by
      rw [← mapM_index harrlt]
      congr 1
      funext v
      rw [← hlenA]
      exact index_append sortedA sortedB v
    have hpromoted : ∃ promoted, ((arr.filter (g.nodeCount ≤ ·)).mapM fun v => index sortedB (v - g.nodeCount)) =
        .ok promoted := by
      have hinside : ∀ i ∈ (arr.filter (g.nodeCount ≤ ·)).map (· - g.nodeCount), i < sortedB.length := by
        intro i hi
        obtain ⟨v, hv, rfl⟩ := mem_map.1 hi
        obtain ⟨hvarr, hge⟩ := mem_filter.1 hv
        have := harrlt v hvarr
        rw [length_append] at this
        have := of_decide_eq_true hge
        omega
      refine ⟨_, Eq.trans ?_ (mapM_index hinside)⟩
      rw [mapM_map]
      rfl
    obtain ⟨promoted, hpromoted⟩ := hpromoted
    rw [slice_randPerm R seed (by omega)]
    simp only [bind, Except.bind, ← harr, hpick, hpromoted]
    refine ⟨_, _, rfl, ?_, ?_⟩
    · rw [length_pick harrlt, harr, length_take, length_randPerm]
      omega
    · have hsub : (pick (sortedA ++ sortedB) arr).Subperm (sortedA ++ sortedB) :=
        pick_take_subperm (by rw [length_append]; exact R.randPerm_perm _ _) _
      exact hsub.trans (hpermA.append hpermB).subperm

end GoVite.Consensus

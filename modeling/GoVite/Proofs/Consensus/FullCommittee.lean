import GoVite.Sanity.Consensus.Election

/-! An election yields a full committee, except that for a group of one node the search for two members to demote slices
before the start. -/

namespace GoVite.Consensus
open KeyStore Slices

/-- As many different votes as there are nodes or votes, all of the highest balances. -/
structure Committee (g : GroupInfo) (votes result : List Vote) : Prop where
  size : result.length = min g.nodeCount votes.length
  distinct : (result.map (·.name)).Nodup
  top : ∀ v ∈ result, InTop votes g.randRank v

variable {g : GroupInfo} {votes groupA groupB result : List Vote}

theorem committee_of_subperm (hgroups : Groups g votes groupA groupB) (hnames : (votes.map (·.name)).Nodup)
    (hsize : result.length = min g.nodeCount votes.length) (hsub : result.Subperm (groupA ++ groupB)) :
    Committee g votes result where
  size := hsize
  distinct := by
    obtain ⟨l, hperm, hl⟩ := hsub.trans hgroups.part
    exact (hperm.map (·.name)).nodup_iff.1 (hnames.sublist (hl.map _))
  top v hv := hgroups.top v (hsub.subset hv)

theorem Committee.perm {result' : List Vote} (h : Committee g votes result)
    (hperm : result'.Perm result) : Committee g votes result' where
  size := hperm.length_eq.trans h.size
  distinct := (hperm.map (·.name)).nodup_iff.2 h.distinct
  top v hv := h.top v (hperm.subset hv)

theorem shuffleVotes_perm (g : GroupInfo) (R : Runtime) (votes : List Vote) (height seeds : ℕ) :
    ∃ result, g.shuffleVotes R votes height seeds = .ok result ∧ result.Perm votes := by
  have hperm := R.randPerm_perm (g.findSeed votes height seeds) votes.length
  have hlt : ∀ i ∈ R.randPerm (g.findSeed votes height seeds) votes.length, i < votes.length :=
    fun i hi => List.mem_range.1 (hperm.subset hi)
  exact ⟨_, mapM_index hlt, pick_perm_range hperm⟩

/-- The configurations in which the demotion slices out of range. -/
def SmallGroup (g : GroupInfo) (ctx : VoteAlgoContext) : Prop :=
  g.nodeCount < 2 ∧ g.nodeCount < ctx.votes.length ∧ g.nodeCount < g.randRank ∧ 2 ≤ ctx.successRate.keys.length

/-- Whether the first groups can be exchanged by success rate. -/
theorem Groups.exchangeable {ctx : VoteAlgoContext}
    (h : Groups g ctx.votes groupA groupB) (hsmall : ¬SmallGroup g ctx) :
    groupB = [] ∨ ctx.successRate.keys.length < 2 ∨ 2 ≤ groupA.length := by
  rw [h.groupB_eq_nil_iff, h.sizeA]
  unfold SmallGroup at hsmall
  omega

theorem filterVotes_committee (g : GroupInfo) (R : Runtime) (ctx : VoteAlgoContext)
    (hrank : g.nodeCount ≤ g.randRank) (hnames : (ctx.votes.map (·.name)).Nodup) (hsmall : ¬SmallGroup g ctx) :
    ∃ filtered, g.filterVotes R ctx = .ok filtered ∧ Committee g ctx.votes filtered.votes := by
  obtain ⟨groupA, groupB, hsimple, hgroups⟩ := filterSimple_groups g R ctx.votes hrank
  unfold GroupInfo.filterVotes
  simp only [hsimple, bind, Except.bind]
  by_cases hB : groupB = []
  · rw [if_pos hB]
    have hcommittee : Committee g ctx.votes groupA :=
      committee_of_subperm hgroups hnames hgroups.sizeA (List.sublist_append_left _ _).subperm
    exact ⟨_, rfl, hcommittee.perm (R.sorting.perm _ _)⟩
  · rw [if_neg hB]
    have hfull : groupA.length = g.nodeCount := by
      have hsize := hgroups.sizeA
      rw [hgroups.groupB_eq_nil_iff] at hB
      omega
    obtain ⟨groupA', groupB', types', hrate, hexchanged⟩ :=
      filterBySuccessRate_exchanges R groupA groupB ctx.successRate ctx.types (hgroups.exchangeable hsmall)
    obtain ⟨votes, types'', hrand, hcount, hsub⟩ := filterRandV2_draws g R groupA' groupB' ctx.height ctx.seeds types'
      (hexchanged.sizes.1.trans hfull)
    simp only [hrate, hrand]
    have hsize : votes.length = min g.nodeCount ctx.votes.length := by
      rw [hcount, ← hfull, hgroups.sizeA]
      omega
    have hcommittee := committee_of_subperm hgroups hnames hsize (hsub.trans hexchanged.union.subperm)
    exact ⟨_, rfl, hcommittee.perm (R.sorting.perm _ _)⟩

/-- The committee is full and fair, and only members with a bad record are replaced by ones with a good record. -/
def ElectsFairly (g : GroupInfo) (R : Runtime) (ctx : VoteAlgoContext) : Prop :=
  (∃ result, g.elect R ctx = .ok result ∧ Committee g ctx.votes result) ∧
    ∀ groupA groupB, g.filterSimple R ctx.votes = .ok (groupA, groupB) →
      ∃ groupA' groupB' types',
        filterBySuccessRate R groupA groupB ctx.successRate ctx.types = .ok (groupA', groupB', types') ∧
        Exchanged ctx.successRate groupA groupB groupA' groupB' ∧ groupA'.length = groupA.length ∧
        groupB'.length = groupB.length ∧ (groupA' ++ groupB').Perm (groupA ++ groupB)

theorem elect_panics (g : GroupInfo) (R : Runtime) (ctx : VoteAlgoContext) (hrank : g.nodeCount ≤ g.randRank)
    (hsmall : SmallGroup g ctx) : g.elect R ctx = .error .bounds := by
  obtain ⟨groupA, groupB, hsimple, hgroups⟩ := filterSimple_groups g R ctx.votes hrank
  obtain ⟨hone, hmany, hroom, hrates⟩ := hsmall
  have hB : groupB ≠ [] := by
    rw [Ne, hgroups.groupB_eq_nil_iff]
    omega
  have hA : groupA.length < 2 := by
    rw [hgroups.sizeA]
    omega
  unfold GroupInfo.elect GroupInfo.filterVotes
  simp only [hsimple, bind, Except.bind, if_neg hB, filterBySuccessRate_panics R ctx.types hB hrates hA]

theorem elects_fairly_unless_small_group (g : GroupInfo) (R : Runtime) (ctx : VoteAlgoContext)
    (hnode : 1 ≤ g.nodeCount) (hrank : g.nodeCount ≤ g.randRank) (hnames : (ctx.votes.map (·.name)).Nodup) :
    ElectsFairly g R ctx ↔
      ¬(g.nodeCount = 1 ∧ 1 < ctx.votes.length ∧ 1 < g.randRank ∧ 2 ≤ ctx.successRate.keys.length) := by
  have hiff : (g.nodeCount = 1 ∧ 1 < ctx.votes.length ∧ 1 < g.randRank ∧ 2 ≤ ctx.successRate.keys.length) ↔
      SmallGroup g ctx := by
    unfold SmallGroup
    omega
  rw [hiff]
  constructor
  · rintro ⟨⟨result, hok, -⟩, -⟩ hsmall
    rw [elect_panics g R ctx hrank hsmall] at hok
    cases hok
  · intro hsmall
    obtain ⟨filtered, hfilter, hcommittee⟩ := filterVotes_committee g R ctx hrank hnames hsmall
    obtain ⟨result, hshuffle, hperm⟩ := shuffleVotes_perm g R filtered.votes ctx.height ctx.seeds
    refine ⟨⟨result, ?_, hcommittee.perm hperm⟩, ?_⟩
    · unfold GroupInfo.elect
      simp only [hfilter, bind, Except.bind, hshuffle]
    · intro groupA groupB hsimple
      obtain ⟨groupA₀, groupB₀, hsimple₀, hgroups⟩ := filterSimple_groups g R ctx.votes hrank
      rw [hsimple₀] at hsimple
      cases hsimple
      obtain ⟨groupA', groupB', types', hrate, hexchanged⟩ :=
        filterBySuccessRate_exchanges R groupA groupB ctx.successRate ctx.types (hgroups.exchangeable hsmall)
      exact ⟨groupA', groupB', types', hrate, hexchanged, hexchanged.sizes.1, hexchanged.sizes.2, hexchanged.union⟩

def identityRuntime : Runtime where
  sorting := mergeSorting
  randPerm _ n := List.range n
  randPerm_perm _ n := List.Perm.refl (List.range n)

def threeVotes : VoteAlgoContext where
  votes := [⟨[], 1, 10⟩, ⟨ByteString.writeBE 1 1, 2, 20⟩, ⟨ByteString.writeBE 1 2, 3, 30⟩]
  height := 7
  successRate := (Store.empty.set 2 900000).set 3 700000
  seeds := 0
  types _ := [.normal]

/-- The snapshot group of the mock genesis. -/
def oneNodeGroup : GroupInfo where
  genesisTime := 0
  nodeCount := 1
  interval := 1
  perCount := 3
  repeats := 1
  randCount := 2
  randRank := 100
  seed := 1

def twoNodeGroup : GroupInfo := { oneNodeGroup with nodeCount := 2 }

theorem one_node_group_panics :
    1 ≤ oneNodeGroup.nodeCount ∧ oneNodeGroup.nodeCount ≤ oneNodeGroup.randRank ∧
      (threeVotes.votes.map (·.name)).Nodup ∧ oneNodeGroup.elect identityRuntime threeVotes = .error .bounds ∧
      ¬ElectsFairly oneNodeGroup identityRuntime threeVotes := by
  have hpanic : oneNodeGroup.elect identityRuntime threeVotes = .error .bounds := by
    apply elect_panics
    · decide
    · unfold SmallGroup
      decide
  refine ⟨by decide, by decide, by decide, hpanic, ?_⟩
  rintro ⟨⟨result, hok, -⟩, -⟩
  rw [hpanic] at hok
  cases hok

theorem elects_fairly_two_nodes : ElectsFairly twoNodeGroup identityRuntime threeVotes :=
  (elects_fairly_unless_small_group twoNodeGroup identityRuntime threeVotes (by decide) (by decide) (by decide)).2
    (by decide)

end GoVite.Consensus

import GoVite.Proofs.Consensus.OneProducer
import GoVite.Spec.Consensus.Seed
import Mathlib.Data.Nat.Pairing

/-! A published seed opens an earlier commitment if the verdict of `verifyProducerAndSeed` is heeded and every block
with a seed carries a commitment. The verifier asks for neither. -/

namespace GoVite.Consensus
open List Option SeedWorld SnapshotChain

def Opens (W : SeedWorld) (d c : SnapshotBlock) : Prop :=
  d.producer = c.producer ∧ d.seed ≠ 0 ∧ c.seedHash = some (W.computeSeedHash d.seed c.prevHash c.timestamp)

def SeedWorld.periodStart (W : SeedWorld) (b : SnapshotBlock) : ℤ :=
  (W.group.timeIndex.index2Time (W.group.timeIndex.time2Index b.timestamp)).1

/-- `m` is a commitment of the producer of `b`, dated before the period of `b`, that `b` is the first to open. -/
structure FirstOpens (W : SeedWorld) (c : SnapshotChain) (b m : SnapshotBlock) : Prop where
  mem : m ∈ c.blocks
  earlier : m.height < b.height
  dated : m.timestamp < W.periodStart b
  opens : Opens W b m
  first : ∀ d ∈ c.blocks, m.height < d.height → d.height < b.height → ¬Opens W d m

/-- Heights grow towards the head. -/
def SnapshotChain.Ordered (c : SnapshotChain) : Prop := c.blocks.Pairwise fun a b => b.height < a.height

variable {b' b : SnapshotBlock} {c : SnapshotChain}

namespace SnapshotChain
variable {h : ℕ}

theorem mem_of_getSnapshotHeaderByHeight (hb : c.getSnapshotHeaderByHeight h = some b) : b ∈ c.blocks ∧ b.height = h :=
  ⟨mem_of_find?_eq_some hb, by simpa using find?_some hb⟩

theorem Ordered.eq_of_height (hord : c.Ordered) (hb : b ∈ c.blocks) (hb' : b' ∈ c.blocks)
    (hheight : b.height = b'.height) : b = b' := by
  have hnodup : (c.blocks.map (·.height)).Nodup := by
    rw [List.Nodup, pairwise_map]
    exact hord.imp fun h => h.ne'
  exact inj_on_of_nodup_map hnodup hb hb' hheight

theorem Ordered.le_latest (hord : c.Ordered) (hb : b ∈ c.blocks) : b.height ≤ c.getLatestSnapshotBlock.height := by
  unfold Ordered blocks at hord
  unfold blocks at hb
  unfold getLatestSnapshotBlock
  cases habove : c.above with
  | nil =>
    rw [habove, nil_append, mem_singleton] at hb
    rw [hb]
    rfl
  | cons a rest =>
    rw [habove] at hb hord
    rcases mem_cons.1 hb with rfl | hb
    · exact le_rfl
    · exact ((pairwise_cons.1 hord).1 b hb).le

theorem Ordered.add (hord : c.Ordered) (hheight : c.getLatestSnapshotBlock.height + 1 = b.height) :
    Ordered { c with above := b :: c.above } := by
  refine pairwise_cons.2 ⟨fun d hd => ?_, hord⟩
  have := hord.le_latest hd
  omega

end SnapshotChain

/-! The scan for an unpublished commitment. -/

/-- The seeds the scan has seen of the blocks above a height. -/
def SeesAbove (c : SnapshotChain) (producer : Address) (h : ℕ) (seeds : List ℕ) : Prop :=
  ∀ d ∈ c.blocks, h < d.height → d.producer = producer → d.seedHash ≠ none → d.seed ∈ seeds

variable {seeds seeds' : List ℕ}

theorem SeesAbove.next {c : SnapshotChain} {producer : Address} {h : ℕ} {header : SnapshotBlock}
    (hsees : SeesAbove c producer h seeds) (hord : c.Ordered) (hheader : c.getSnapshotHeaderByHeight h = some header)
    (hsub : seeds ⊆ seeds')
    (hnew : header.producer = producer → header.seedHash ≠ none → header.seed ∈ seeds') :
    SeesAbove c producer (h - 1) seeds' := by
  intro d hd hlt hp hs
  by_cases habove : h < d.height
  · exact hsub (hsees d hd habove hp hs)
  · obtain ⟨hmem, hheight⟩ := mem_of_getSnapshotHeaderByHeight hheader
    have heq : d = header := hord.eq_of_height hd hmem (by omega)
    rw [heq] at hp hs ⊢
    exact hnew hp hs

variable {n : ℕ} {m : SnapshotBlock}

/-- What the scan returns is a commitment that no seed above it opens, as far as the scan sees seeds. -/
theorem scanUnpublished_spec (W : SeedWorld) (hord : c.Ordered) (producer : Address) (before : ℤ)
    {h : ℕ} (hscan : W.scanUnpublished c producer before n h seeds = some m)
    (hsees : SeesAbove c producer h seeds) :
    m ∈ c.blocks ∧ m.producer = producer ∧ m.timestamp < before ∧ ∃ seedHash, m.seedHash = some seedHash ∧
      ∀ d ∈ c.blocks, m.height < d.height → d.producer = producer → d.seedHash ≠ none →
        W.computeSeedHash d.seed m.prevHash m.timestamp ≠ seedHash := by
  induction n generalizing h seeds with
  | zero => cases hscan
  | succ n ih =>
    unfold scanUnpublished at hscan
    cases hheader : c.getSnapshotHeaderByHeight h with
    | none =>
      rw [hheader] at hscan
      cases hscan
    | some header =>
      simp only [hheader] at hscan
      by_cases hproducer : header.producer = producer
      · rw [if_neg (not_not.2 hproducer)] at hscan
        cases hseed : header.seedHash with
        | none =>
          simp only [hseed] at hscan
          exact ih hscan (hsees.next hord hheader (List.Subset.refl _) fun _ h => absurd hseed h)
        | some seedHash =>
          simp only [hseed] at hscan
          have hcons : SeesAbove c producer (h - 1) (header.seed :: seeds) :=
            hsees.next hord hheader (subset_cons_self _ _) fun _ _ => mem_cons_self
          by_cases hbefore : before ≤ header.timestamp
          · rw [if_pos hbefore] at hscan
            exact ih hscan hcons
          · rw [if_neg hbefore] at hscan
            by_cases hpublished : ∃ seed ∈ seeds, W.computeSeedHash seed header.prevHash header.timestamp = seedHash
            · rw [if_pos hpublished] at hscan
              exact ih hscan hcons
            · rw [if_neg hpublished] at hscan
              cases hscan
              obtain ⟨hmem, hheight⟩ := mem_of_getSnapshotHeaderByHeight hheader
              refine ⟨hmem, hproducer, by omega, seedHash, hseed, ?_⟩
              intro d hd hlt hp hs heq
              exact hpublished ⟨d.seed, hsees d hd (by omega) hp hs, heq⟩
      · rw [if_pos hproducer] at hscan
        exact ih hscan (hsees.next hord hheader (List.Subset.refl _) fun h _ => absurd h hproducer)

/-- A seed that passes `verifyProducerAndSeed` opens an unpublished commitment. -/
theorem verifyProducerAndSeed_opens (W : SeedWorld) (A : Answers)
    (hord : c.Ordered) (hseed : b.seed ≠ 0) (hok : W.verifyProducerAndSeed A c b = .ok true) :
    ∃ m ∈ c.blocks, m.timestamp < W.periodStart b ∧ Opens W b m ∧
      ∀ d ∈ c.blocks, m.height < d.height → d.seedHash ≠ none → ¬Opens W d m := by
  unfold verifyProducerAndSeed electionTime? at hok
  cases helected : A.elected (W.group.timeIndex.time2Index b.timestamp) with
  | none =>
    simp only [helected] at hok
    cases hok
  | some members =>
    simp only [helected, map_some] at hok
    split at hok
    · cases hok
    split at hok
    · cases hok
    next m hscan =>
    split at hok
    next hhash =>
      obtain ⟨hmem, hproducer, hdated, seedHash, hsh, hunpublished⟩ :=
        scanUnpublished_spec W hord b.producer _ hscan (fun d hd hlt => absurd (hord.le_latest hd) (by omega))
      refine ⟨m, hmem, hdated, ⟨hproducer.symm, hseed, hhash.symm⟩, ?_⟩
      rintro d hd hlt hs ⟨hdp, -, hdopen⟩
      rw [hsh] at hdopen
      exact hunpublished d hd hlt (hdp.trans hproducer) hs (Option.some.inj hdopen).symm
    · cases hok

/-! Chains of verified blocks. -/

theorem height_of_verified (W : SeedWorld) {A : Answers}
    (h : (W.verifyReferred A c b).result = .success) : c.getLatestSnapshotBlock.height + 1 = b.height := by
  by_contra hne
  have hself : ∃ stat, W.verifySelf c b = .error stat ∧ stat.result ≠ .success := by
    unfold verifySelf getLastSeedBlock
    dsimp only
    split_ifs
    · exact ⟨_, rfl, by simp⟩
    · exact ⟨_, rfl, by simp⟩
    · exact ⟨_, rfl, by simp⟩
  obtain ⟨stat, hstat, hresult⟩ := hself
  unfold verifyReferred at h
  rw [hstat] at h
  exact hresult h

/-- The verdict that is dropped, and a commitment beside every seed. -/
structure SeedChecked (W : SeedWorld) (c : SnapshotChain) (step : Answers × SnapshotBlock) : Prop where
  verdict : W.verifyProducerAndSeed step.1 c step.2 = .ok true
  commits : step.2.seed ≠ 0 → step.2.seedHash ≠ none

def AllSeedsChecked (W : SeedWorld) : SnapshotChain → List (Answers × SnapshotBlock) → Prop
  | _, [] => True
  | c, step :: rest => SeedChecked W c step ∧ AllSeedsChecked W { c with above := step.2 :: c.above } rest

/-- Every seed is the first to open some commitment, and can be seen by the scan. -/
structure SeedInv (W : SeedWorld) (c : SnapshotChain) : Prop where
  ordered : c.Ordered
  opened : ∀ b ∈ c.blocks, b.seed ≠ 0 → ∃ m, FirstOpens W c b m
  visible : ∀ b ∈ c.blocks, b.seed ≠ 0 → b.seedHash ≠ none

theorem SeedInv.genesis (W : SeedWorld) {genesis : SnapshotBlock} (h : genesis.seed = 0) :
    SeedInv W ⟨genesis, []⟩ where
  ordered := pairwise_singleton _ _
  opened _ hb hseed := absurd (mem_singleton.1 hb ▸ h) hseed
  visible _ hb hseed := absurd (mem_singleton.1 hb ▸ h) hseed

variable {W : SeedWorld}

/-- A block on top does not change what the blocks below opened. -/
theorem FirstOpens.add {c : SnapshotChain} {b : SnapshotBlock} (h : FirstOpens W c b m)
    (habove : b.height ≤ b'.height) : FirstOpens W { c with above := b' :: c.above } b m where
  mem := mem_cons_of_mem b' h.mem
  earlier := h.earlier
  dated := h.dated
  opens := h.opens
  first d hd hlow hhigh := by
    rcases mem_cons.1 hd with rfl | hd
    · omega
    · exact h.first d hd hlow hhigh

theorem SeedInv.step {step : Answers × SnapshotBlock} (h : SeedInv W c)
    (hverified : (W.verifyReferred step.1 c step.2).result = .success) (hchecked : SeedChecked W c step) :
    SeedInv W { c with above := step.2 :: c.above } := by
  have hheight := height_of_verified W hverified
  refine ⟨h.ordered.add hheight, ?_, ?_⟩
  · intro b hb hseed
    rcases mem_cons.1 hb with rfl | hb
    · obtain ⟨m, hmem, hdated, hopens, hfirst⟩ :=
        verifyProducerAndSeed_opens W step.1 h.ordered hseed hchecked.verdict
      have hbelow := h.ordered.le_latest hmem
      refine ⟨m, mem_cons_of_mem _ hmem, by omega, hdated, hopens, ?_⟩
      intro d hd hlow hhigh
      rcases mem_cons.1 hd with rfl | hd
      · omega
      · exact fun hd' => hfirst d hd hlow (h.visible d hd hd'.2.1) hd'
    · obtain ⟨m, hm⟩ := h.opened b hb hseed
      have := h.ordered.le_latest hb
      exact ⟨m, hm.add (by omega)⟩
  · intro b hb hseed
    rcases mem_cons.1 hb with rfl | hb
    · exact hchecked.commits hseed
    · exact h.visible b hb hseed

theorem run_cons {c c' : SnapshotChain} {step : Answers × SnapshotBlock}
    (h : W.addVerified c step = some c') (rest : List (Answers × SnapshotBlock)) :
    W.run c (step :: rest) = W.run c' rest := by
  unfold run
  rw [foldlM_cons, h]
  rfl

theorem SeedInv.run {c c' : SnapshotChain} {steps : List (Answers × SnapshotBlock)} (h : SeedInv W c)
    (hrun : W.run c steps = some c') (hchecked : AllSeedsChecked W c steps) : SeedInv W c' := by
  induction steps generalizing c with
  | nil =>
    cases hrun
    exact h
  | cons step rest ih =>
    obtain ⟨c₁, hadd, hrest⟩ := bind_eq_some_iff.1 hrun
    unfold SeedWorld.addVerified at hadd
    split at hadd
    next hverified =>
      cases hadd
      exact ih (h.step hverified hchecked.1) hrest hchecked.2
    · cases hadd

variable {summed result : List SnapshotBlock}

/-! The seeds that are added up. -/

theorem scanSeeds_spec (c : SnapshotChain) (n : ℕ) {m h : ℕ} {prevHash : Option Hash}
    (hscan : c.scanSeeds n m h prevHash summed = some result)
    (hin : ∀ b ∈ summed, b ∈ c.blocks ∧ b.seed ≠ 0) (hdiff : (summed.map (·.producer)).Nodup) :
    (∀ b ∈ result, b ∈ c.blocks ∧ b.seed ≠ 0) ∧ (result.map (·.producer)).Nodup := by
  induction m generalizing h prevHash summed with
  | zero =>
    cases hscan
    exact ⟨hin, hdiff⟩
  | succ m ih =>
    unfold scanSeeds at hscan
    split at hscan
    · cases hscan
      exact ⟨hin, hdiff⟩
    split at hscan
    · cases hscan
    next header hheader =>
    split at hscan
    · cases hscan
    split at hscan
    · exact ih hscan hin hdiff
    next hnew =>
      rw [not_or] at hnew
      refine ih hscan ?_ ?_
      · intro b hb
        rcases mem_cons.1 hb with rfl | hb
        · exact ⟨(mem_of_getSnapshotHeaderByHeight hheader).1, hnew.1⟩
        · exact hin b hb
      · rw [map_cons, nodup_cons]
        exact ⟨hnew.2, hdiff⟩

/-- Every seed of the chain opens an earlier commitment, a commitment is first opened by one block, and the random
seed adds up seeds of different commitments. -/
structure SeedsFixedEarlier (W : SeedWorld) (c : SnapshotChain) : Prop where
  opened : ∀ b ∈ c.blocks, b.seed ≠ 0 → ∃ m, FirstOpens W c b m
  once : ∀ b ∈ c.blocks, ∀ b' ∈ c.blocks, ∀ m, FirstOpens W c b m → FirstOpens W c b' m → b = b'
  summed : ∀ headHeight n summed, c.randomSeedBlocks headHeight n = some summed →
    ∃ commitment : SnapshotBlock → SnapshotBlock, (∀ b ∈ summed, FirstOpens W c b (commitment b)) ∧
      summed.Pairwise fun b b' => commitment b ≠ commitment b'

theorem SeedInv.fixedEarlier (h : SeedInv W c) : SeedsFixedEarlier W c where
  opened := h.opened
  once := by
    intro b hb b' hb' m hm hm'
    rcases Nat.lt_trichotomy b.height b'.height with hlt | heq | hgt
    · exact absurd hm.opens (hm'.first b hb hm.earlier hlt)
    · exact h.ordered.eq_of_height hb hb' heq
    · exact absurd hm'.opens (hm.first b' hb' hm'.earlier hgt)
  summed := by
    intro headHeight n summed hsummed
    obtain ⟨hin, hdiff⟩ := scanSeeds_spec c n hsummed (by simp) (by simp)
    have hchoice : ∀ b, ∃ m, b ∈ summed → FirstOpens W c b m := by
      intro b
      by_cases hb : b ∈ summed
      · obtain ⟨m, hm⟩ := h.opened b (hin b hb).1 (hin b hb).2
        exact ⟨m, fun _ => hm⟩
      · exact ⟨b, fun hb' => absurd hb' hb⟩
    choose commitment hcommitment using hchoice
    refine ⟨commitment, fun b hb => hcommitment b hb, ?_⟩
    rw [List.Nodup, pairwise_map] at hdiff
    refine hdiff.imp_of_mem ?_
    intro b b' hb hb' hne heq
    have hp := (hcommitment b hb).opens.1
    have hp' := (hcommitment b' hb').opens.1
    rw [heq] at hp
    exact hne (hp.trans hp'.symm)

theorem published_seeds_open_commitments (W : SeedWorld) (genesis : SnapshotBlock) (hgenesis : genesis.seed = 0)
    (steps : List (Answers × SnapshotBlock)) (c : SnapshotChain) (hrun : W.run ⟨genesis, []⟩ steps = some c)
    (hchecked : AllSeedsChecked W ⟨genesis, []⟩ steps) : SeedsFixedEarlier W c :=
  ((SeedInv.genesis W hgenesis).run hrun hchecked).fixedEarlier

/-! A chain whose seeds open nothing. -/

/-- One producer with a slot each second; the hash of a seed is a pairing, so it is injective. -/
def pairingWorld : SeedWorld where
  group := { periodOf75Seconds with nodeCount := 1, perCount := 1 }
  hashOfSeed seed prevHash time := Nat.pair (Nat.pair seed prevHash) time.toNat

def alwaysSeven : Answers where
  getAccountBlockByHeight _ _ := some none
  elected _ := some [7]

def seedGenesis : SnapshotBlock := ⟨100, 0, 1, 0, 0, 0, none, []⟩

theorem pairingWorld_index (hn : n < 2 ^ 32) : pairingWorld.group.timeIndex.time2Index (n * second) = n := by
  have hover : NoOverflow pairingWorld.group (pairingWorld.group.genesisTime + (n * 1000000000 : ℕ)) := by
    refine ⟨by decide, ?_⟩
    rw [add_sub_cancel_left]
    exact_mod_cast (show n * 1000000000 < 2 ^ 63 by omega)
  have hindex := time2Index_eq pairingWorld.group (by decide) hover
  rw [if_neg (not_roundsUp_mul (by omega)), Nat.mul_div_cancel n (by norm_num)] at hindex
  have htime : pairingWorld.group.genesisTime + ((n * 1000000000 : ℕ) : ℤ) = n * second := by
    exact zero_add _
  rw [htime] at hindex
  exact hindex.trans (Nat.div_one n)

theorem pairingWorld_election (hn : n < 2 ^ 32) :
    pairingWorld.electionTime? alwaysSeven (n * second) = some (genElectionResult pairingWorld.group n [7]) := by
  unfold electionTime?
  rw [pairingWorld_index hn]
  rfl

/-- The verdicts on a block dated at second `n`, without the floats. -/
theorem pairingWorld_verdict (c : SnapshotChain) (hn : n < 2 ^ 32) (hb : b.timestamp = n * second) :
    pairingWorld.verifyProducerAndSeed alwaysSeven c b =
      if ¬verifyProducer b.timestamp b.producer (genElectionResult pairingWorld.group n [7]) then .ok false
      else if b.seed = 0 then .ok true
      else
        (pairingWorld.getLastUnpublishedSeedSnapshotHeader c b.producer (genElectionResult pairingWorld.group n [7]).sTime).elim
          (.error .noSeedHeader) fun m =>
          if some (pairingWorld.computeSeedHash b.seed m.prevHash m.timestamp) = m.seedHash then .ok true
          else .error (.seedVerify m.hash m.height) := by
  unfold verifyProducerAndSeed
  rw [hb, pairingWorld_election hn]
  dsimp only
  cases pairingWorld.getLastUnpublishedSeedSnapshotHeader c b.producer
    (genElectionResult pairingWorld.group n [7]).sTime <;> rfl

/-- A block that is next, later and by the elected producer is added. -/
theorem pairingWorld_add (c : SnapshotChain) (hn : n < 2 ^ 32) (hb : b.timestamp = n * second)
    (hslot : verifyProducer b.timestamp b.producer (genElectionResult pairingWorld.group n [7]) = true)
    (hself : pairingWorld.verifySelf c b = .ok ()) (hlater : c.getLatestSnapshotBlock.timestamp < b.timestamp)
    (hcontent : b.snapshotContent = []) (hheight : b.height ≠ 1) :
    pairingWorld.addVerified c (alwaysSeven, b) = some { c with above := b :: c.above } := by
  have hproducer : pairingWorld.verifySnapshotProducer alwaysSeven c b = .ok true := by
    unfold verifySnapshotProducer verifyElected
    rw [hb] at hslot ⊢
    rw [pairingWorld_election hn]
    exact congrArg Except.ok hslot
  have hverified : (pairingWorld.verifyReferred alwaysSeven c b).result = .success := by
    unfold verifyReferred
    rw [hself]
    simp only [if_neg (not_le.2 hlater), hcontent, verifyAccounts, if_neg hheight, hproducer]
  exact if_pos hverified

def bareSeed : SnapshotBlock := ⟨101, 100, 2, (1 : ℕ) * second, 7, 5, none, []⟩

theorem bare_seed_is_verified :
    pairingWorld.run ⟨seedGenesis, []⟩ [(alwaysSeven, bareSeed)] = some ⟨seedGenesis, [bareSeed]⟩ ∧
      ¬SeedsFixedEarlier pairingWorld ⟨seedGenesis, [bareSeed]⟩ := by
  constructor
  · have hadd := pairingWorld_add ⟨seedGenesis, []⟩ (b := bareSeed) (by norm_num) rfl (by decide) (by decide)
      (by decide) rfl (by decide)
    rw [run_cons hadd]
    rfl
  · intro h
    obtain ⟨m, hm⟩ := h.opened bareSeed (by decide) (by decide)
    have hmem : m = bareSeed ∨ m = seedGenesis := by simpa [blocks] using hm.mem
    rcases hmem with rfl | rfl
    · exact absurd hm.earlier (by decide)
    · exact absurd hm.opens.1 (by decide)

def commitFive : SnapshotBlock :=
  ⟨101, 100, 2, (1 : ℕ) * second, 7, 0, some (pairingWorld.computeSeedHash 5 100 ((1 : ℕ) * second)), []⟩

def openFive : SnapshotBlock := ⟨102, 101, 3, (2 : ℕ) * second, 7, 5, some 0, []⟩

theorem open_five_opens_commit_five : SeedsFixedEarlier pairingWorld ⟨seedGenesis, [openFive, commitFive]⟩ := by
  have hcommit := pairingWorld_add ⟨seedGenesis, []⟩ (b := commitFive) (by norm_num) rfl (by decide)
    (by decide) (by decide) rfl (by decide)
  have hopen := pairingWorld_add ⟨seedGenesis, [commitFive]⟩ (b := openFive) (by norm_num) rfl (by decide)
    (by decide) (by decide) rfl (by decide)
  refine published_seeds_open_commitments pairingWorld seedGenesis rfl
    [(alwaysSeven, commitFive), (alwaysSeven, openFive)] _ ?_ ⟨⟨?_, by decide⟩, ⟨?_, by decide⟩, trivial⟩
  · rw [run_cons hcommit, run_cons hopen]
    rfl
  · rw [pairingWorld_verdict _ (by norm_num) rfl]
    decide
  · rw [pairingWorld_verdict _ (by norm_num) rfl]
    decide

end GoVite.Consensus

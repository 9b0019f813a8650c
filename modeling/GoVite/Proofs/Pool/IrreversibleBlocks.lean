import GoVite.Sanity.Pool.IrreversibleSearch

/-! An irreversible point stays on the chain and never moves down, as long as each switch leaves enough producers. -/

namespace GoVite.Pool
open SnapshotChain SnapshotPool

variable {g : GroupInfo} {verify : SnapshotVerifier} {s s' s'' : SnapshotPool} {c c' : SnapshotChain}
  {P : SnapshotBlock}

/-- `c'` has the blocks of `c` and perhaps more over them. -/
structure Extends (c c' : SnapshotChain) : Prop where
  genesis : c'.genesis = c.genesis
  mem : ∀ b ∈ c.blocks, b ∈ c'.blocks
  new : ∀ b ∈ c'.blocks, b ∈ c.blocks ∨ c.getLatestSnapshotBlock.height < b.height

theorem Extends.refl (c : SnapshotChain) : Extends c c := ⟨rfl, fun _ h => h, fun _ h => .inl h⟩

theorem Extends.trans {c'' : SnapshotChain} (h : Extends c c') (h' : Extends c' c'') : Extends c c'' where
  genesis := h'.genesis.trans h.genesis
  mem b hb := h'.mem b (h.mem b hb)
  new := by
    intro b hb
    obtain hb | hb := h'.new b hb
    · exact h.new b hb
    · exact .inr ((height_le_latest (h.mem _ c.latest_mem)).trans_lt hb)

theorem extends_add {b : SnapshotBlock} (h : b.Follows c.getLatestSnapshotBlock) : Extends c (c.add b h) where
  genesis := rfl
  mem d hd := mem_add.mpr (.inr hd)
  new := by
    intro d hd
    obtain rfl | hd := mem_add.mp hd
    · exact .inr (by rw [h.height]; exact Nat.lt_succ_self _)
    · exact .inl hd

theorem periodOf_congr (h : c'.genesis = c.genesis) (b : SnapshotBlock) : periodOf g c' b = periodOf g c b := by
  unfold periodOf GroupInfo.getPeriodTimeIndex
  rw [h]

theorem Certified.extends (hP : Certified g c P) (h : Extends c c') : Certified g c' P := by
  have hperiod := periodOf_congr (g := g) h.genesis
  refine ⟨h.mem P hP.mem, ?_, hP.above, ?_⟩
  · intro b hb hlt
    rw [hperiod, hperiod]
    obtain hb | hb := h.new b hb
    · exact hP.first b hb hlt
    · have := height_le_latest hP.mem
      omega
  · refine hP.quorum.trans (Finset.card_le_card ?_)
    intro a ha
    obtain ⟨b, hb, hbp, hprod⟩ := mem_periodProducers.mp ha
    exact mem_periodProducers.mpr ⟨b, h.mem b hb, by rw [hperiod, hperiod, hbp], hprod⟩

/-- A deletion above `P` that leaves enough producers in its period. -/
theorem Certified.delete {n : ℕ} (hP : Certified g c P) (h : c.deleteSnapshotBlocksToHeight n = some c')
    (hn : P.height < n)
    (hquorum : irreversibleCnt g ≤ (periodProducers g c (c.blocks.filter fun b => b.height < n) (periodOf g c P)).card) :
    Certified g c' P := by
  obtain ⟨hgen, hmem⟩ := deleteSnapshotBlocksToHeight_some h
  have hperiod := periodOf_congr (g := g) hgen
  refine ⟨(hmem P).mpr ⟨hP.mem, hn⟩, ?_, hP.above, ?_⟩
  · intro b hb hlt
    rw [hperiod, hperiod]
    exact hP.first b ((hmem b).mp hb).1 hlt
  · refine hquorum.trans (Finset.card_le_card ?_)
    intro a ha
    obtain ⟨b, hb, hbp, hprod⟩ := mem_periodProducers.mp ha
    obtain ⟨hbc, hbn⟩ := List.mem_filter.mp hb
    exact mem_periodProducers.mpr ⟨b, (hmem b).mpr ⟨hbc, by simpa using hbn⟩, by rw [hperiod, hperiod, hbp], hprod⟩

/-- The recorded point is the first block of a period with enough producers. -/
structure PointCertified (g : GroupInfo) (s : SnapshotPool) : Prop where
  proof : ∀ info, s.irreversible = some info → info.proofPoint.isSome
  point : ∀ P, s.recordedPoint = some P → Certified g s.chain P

/-- Nothing up to the recorded point is lost, and the point does not move down. -/
def Keeps (s s' : SnapshotPool) : Prop :=
  ∀ P, s.recordedPoint = some P →
    (∀ b ∈ s.chain.blocks, b.height ≤ P.height → b ∈ s'.chain.blocks) ∧
      ∃ P', s'.recordedPoint = some P' ∧ P.height ≤ P'.height

theorem Keeps.refl (s : SnapshotPool) : Keeps s s := fun P hP => ⟨fun _ hb _ => hb, P, hP, le_rfl⟩

theorem Keeps.trans (h : Keeps s s') (h' : Keeps s' s'') : Keeps s s'' := by
  intro P hP
  obtain ⟨hmem, P', hP', hle⟩ := h P hP
  obtain ⟨hmem', P'', hP'', hle'⟩ := h' P' hP'
  exact ⟨fun b hb hbP => hmem' b (hmem b hb hbP) (hbP.trans hle), P'', hP'', hle.trans hle'⟩

theorem keeps_of_extends (hchain : Extends s.chain s'.chain) (hinfo : s'.irreversible = s.irreversible) :
    Keeps s s' := by
  intro P hP
  refine ⟨fun b hb _ => hchain.mem b hb, P, ?_, le_rfl⟩
  rw [← hP]
  unfold recordedPoint
  rw [hinfo]

theorem PointCertified.extends (h : PointCertified g s) (hchain : Extends s.chain s'.chain)
    (hinfo : s'.irreversible = s.irreversible) : PointCertified g s' where
  proof := hinfo ▸ h.proof
  point := by
    intro P hP
    refine (h.point P ?_).extends hchain
    rw [← hP]
    unfold recordedPoint
    rw [hinfo]

theorem insertSnapshotBlock_extends (verify : SnapshotVerifier) (s : SnapshotPool) (b : SnapshotBlock) :
    Extends s.chain (s.insertSnapshotBlock verify b).1.chain ∧
      (s.insertSnapshotBlock verify b).1.irreversible = s.irreversible := by
  unfold insertSnapshotBlock
  split
  · rename_i h
    split
    · split <;> exact ⟨extends_add h, rfl⟩
    · exact ⟨Extends.refl _, rfl⟩
  · exact ⟨Extends.refl _, rfl⟩

theorem insertBlocks_extends (verify : SnapshotVerifier) (bs : List SnapshotBlock) (s : SnapshotPool) :
    Extends s.chain (s.insertBlocks verify bs).1.chain ∧
      (s.insertBlocks verify bs).1.irreversible = s.irreversible := by
  induction bs generalizing s with
  | nil => exact ⟨Extends.refl _, rfl⟩
  | cons b rest ih =>
    obtain ⟨hchain, hinfo⟩ := insertSnapshotBlock_extends verify s b
    unfold insertBlocks
    split
    · rename_i s₁ heq
      rw [heq] at hchain hinfo
      obtain ⟨hchain', hinfo'⟩ := ih s₁
      exact ⟨hchain.trans hchain', hinfo'.trans hinfo⟩
    · rename_i s₁ e heq
      rw [heq] at hchain hinfo
      exact ⟨hchain, hinfo⟩

theorem updateIrreversibleBlock_cases (g : GroupInfo) (s : SnapshotPool) :
    (s.updateIrreversibleBlock g).1 = s ∨
      ∃ info, Found g s.chain s.chain.getLatestSnapshotBlock info ∧
        (s.updateIrreversibleBlock g).1 = { s with irreversible := some info } := by
  unfold updateIrreversibleBlock
  split
  · exact .inl rfl
  · split
    · exact .inl rfl
    · exact .inl rfl
    · rename_i info hinfo
      exact .inr ⟨info, getLatestIrreversible_found hinfo, rfl⟩

theorem updateIrreversibleBlock_chain (g : GroupInfo) (s : SnapshotPool) :
    (s.updateIrreversibleBlock g).1.chain = s.chain := by
  obtain h | ⟨info, -, h⟩ := updateIrreversibleBlock_cases g s <;> rw [h]

theorem updateIrreversibleBlock_keeps (h : PointCertified g s) :
    Keeps s (s.updateIrreversibleBlock g).1 ∧ PointCertified g (s.updateIrreversibleBlock g).1 := by
  obtain heq | ⟨info, hfound, heq⟩ := updateIrreversibleBlock_cases g s
  · rw [heq]
    exact ⟨Keeps.refl s, h⟩
  · rw [heq]
    constructor
    · intro P hP
      have hcert := h.point P hP
      refine ⟨fun b hb _ => hb, ?_⟩
      exact hfound.atLeast P hcert (periodOf_le hcert.mem s.chain.latest_mem (height_le_latest hcert.mem))
    · refine ⟨?_, fun P hP => hfound.certified P hP⟩
      intro info' hinfo'
      obtain rfl := Option.some.inj hinfo'
      exact hfound.proof

/-- A switch that passes the check keeps the recorded point. -/
theorem checkIrreversiblePrinciple_ok {keyPoint : SnapshotBlock} {u : Unit} (hs : PointCertified g s)
    (h : s.checkIrreversiblePrinciple keyPoint = .ok u) (hP : s.recordedPoint = some P) :
    P.height < keyPoint.height := by
  unfold checkIrreversiblePrinciple at h
  unfold recordedPoint at hP
  split at h
  · rename_i hnone
    rw [hnone] at hP
    cases hP
  · rename_i info hinfo
    rw [hinfo] at hP
    replace hP : info.point = some P := hP
    split at h
    · rename_i hnone
      have := hs.proof info hinfo
      rw [hnone] at this
      cases this
    · split at h
      · cases h
      · split at h
        · cases h
        · rw [hP] at h
          dsimp only at h
          split at h
          · assumption
          · cases h

/-- What a switch that passes its check still has to keep: enough producers of the period of the irreversible
point below the fork. -/
def keepsQuorum (g : GroupInfo) (s : SnapshotPool) : PoolAction → Bool
  | .fork target _ =>
    match s.findForkKeyPoint target, (s.updateIrreversibleBlock g).1.recordedPoint with
    | .ok keyPoint, some P =>
      s.current.id = target.id ∨ s.chain.getLatestSnapshotBlock.height < keyPoint.height ∨
        keyPoint.height ≤ P.height ∨
        irreversibleCnt g ≤
          (periodProducers g s.chain (s.chain.blocks.filter fun b => b.height < keyPoint.height)
            (periodOf g s.chain P)).card
    | _, _ => true
  | _ => true

def keepsQuorumAlong (g : GroupInfo) (verify : SnapshotVerifier) (s : SnapshotPool) : List PoolAction → Bool
  | [] => true
  | a :: rest => keepsQuorum g s a && keepsQuorumAlong g verify (s.step g verify a) rest

/-- What a fork switch does: nothing to the disk, or a refreshed point and perhaps a rollback that passed the check. -/
theorem snapshotFork_cases (g : GroupInfo) (verify : SnapshotVerifier) (s : SnapshotPool) (target : Branch) (n : ℕ) :
    ((s.snapshotFork g verify target n).1.chain = s.chain ∧
        (s.snapshotFork g verify target n).1.irreversible = s.irreversible) ∨
      (s.snapshotFork g verify target n).1 = (s.updateIrreversibleBlock g).1 ∨
      ∃ keyPoint chain, ¬s.current.id = target.id ∧ s.findForkKeyPoint target = .ok keyPoint ∧
        ¬s.chain.getLatestSnapshotBlock.height < keyPoint.height ∧
        (s.updateIrreversibleBlock g).1.checkIrreversiblePrinciple keyPoint = .ok () ∧
        s.chain.deleteSnapshotBlocksToHeight keyPoint.height = some chain ∧
        Extends chain (s.snapshotFork g verify target n).1.chain ∧
        (s.snapshotFork g verify target n).1.irreversible = (s.updateIrreversibleBlock g).1.irreversible := by
  unfold snapshotFork
  split
  · exact .inl ⟨rfl, rfl⟩
  · rename_i hid
    split
    · exact .inl ⟨rfl, rfl⟩
    · rename_i keyPoint hkey
      split
      · exact .inl ⟨rfl, rfl⟩
      · rename_i htail
        have hchain := updateIrreversibleBlock_chain g s
        split
        · rename_i s₁ e hupdate
          rw [hupdate]
          exact .inr (.inl rfl)
        · rename_i s₁ hupdate
          rw [hupdate] at hchain ⊢
          split
          · exact .inr (.inl rfl)
          · rename_i hcheck
            split
            · exact .inr (.inl rfl)
            · rename_i chain hdelete
              obtain ⟨hext, hinfo⟩ := insertBlocks_extends verify
                (pendingTo { s₁ with chain := chain, current := target } n)
                { s₁ with chain := chain, current := target }
              rw [hchain] at hdelete
              exact .inr (.inr ⟨keyPoint, chain, hid, hkey, htail, hcheck, hdelete, hext, hinfo⟩)

theorem snapshotFork_keeps {target : Branch} {n : ℕ} (hs : PointCertified g s)
    (hquorum : keepsQuorum g s (.fork target n) = true) :
    Keeps s (s.snapshotFork g verify target n).1 ∧ PointCertified g (s.snapshotFork g verify target n).1 := by
  obtain ⟨hkeeps, hupdated⟩ := updateIrreversibleBlock_keeps hs
  obtain ⟨hchain, hinfo⟩ | heq | ⟨keyPoint, chain, hid, hkey, htail, hcheck, hdelete, hext, hinfo⟩ :=
    snapshotFork_cases g verify s target n
  · have hsame : Extends s.chain (s.snapshotFork g verify target n).1.chain := by
      rw [hchain]
      exact Extends.refl s.chain
    exact ⟨keeps_of_extends hsame hinfo, hs.extends hsame hinfo⟩
  · rw [heq]
    exact ⟨hkeeps, hupdated⟩
  · -- the pool after the rollback, before the blocks of the branch are inserted
    have hback : Keeps (s.updateIrreversibleBlock g).1 { (s.updateIrreversibleBlock g).1 with chain := chain } ∧
        PointCertified g { (s.updateIrreversibleBlock g).1 with chain := chain } := by
      have hsame := updateIrreversibleBlock_chain g s
      obtain ⟨-, hmem⟩ := deleteSnapshotBlocksToHeight_some hdelete
      constructor
      · intro P hP
        have hlt := checkIrreversiblePrinciple_ok hupdated hcheck hP
        refine ⟨?_, P, hP, le_rfl⟩
        intro b hb hle
        exact (hmem b).mpr ⟨hsame ▸ hb, by omega⟩
      · refine ⟨hupdated.proof, ?_⟩
        intro P hP
        replace hP : (s.updateIrreversibleBlock g).1.recordedPoint = some P := hP
        have hlt := checkIrreversiblePrinciple_ok hupdated hcheck hP
        have hcert := hupdated.point P hP
        rw [hsame] at hcert
        refine hcert.delete hdelete hlt ?_
        simp only [keepsQuorum, hkey, hP, hid, htail, false_or, decide_eq_true_eq] at hquorum
        exact hquorum.resolve_left (Nat.not_le_of_lt hlt)
    have hkeeps' : Keeps { (s.updateIrreversibleBlock g).1 with chain := chain } (s.snapshotFork g verify target n).1 :=
      keeps_of_extends hext hinfo
    exact ⟨(hkeeps.trans hback.1).trans hkeeps', hback.2.extends hext hinfo⟩

theorem step_keeps (verify : SnapshotVerifier) {a : PoolAction} (hs : PointCertified g s) (hquorum : keepsQuorum g s a = true) :
    Keeps s (s.step g verify a) ∧ PointCertified g (s.step g verify a) := by
  cases a with
  | addHead b =>
    have hsame := Extends.refl s.chain
    exact ⟨keeps_of_extends hsame rfl, hs.extends hsame rfl⟩
  | insert b =>
    obtain ⟨hchain, hinfo⟩ := insertSnapshotBlock_extends verify s b
    exact ⟨keeps_of_extends hchain hinfo, hs.extends hchain hinfo⟩
  | update => exact updateIrreversibleBlock_keeps hs
  | fork target n => exact snapshotFork_keeps hs hquorum

theorem run_keeps {acts : List PoolAction} (hs : PointCertified g s)
    (hquorum : keepsQuorumAlong g verify s acts = true) :
    Keeps s (s.run g verify acts) ∧ PointCertified g (s.run g verify acts) := by
  induction acts generalizing s with
  | nil => exact ⟨Keeps.refl s, hs⟩
  | cons a rest ih =>
    obtain ⟨ha, hrest⟩ := Bool.and_eq_true_iff.mp hquorum
    obtain ⟨hkeeps, hstep⟩ := step_keeps verify hs ha
    obtain ⟨hkeeps', hrun⟩ := ih hstep hrest
    exact ⟨hkeeps.trans hkeeps', hrun⟩

theorem keepsQuorumAlong_append {acts acts' : List PoolAction} :
    keepsQuorumAlong g verify s (acts ++ acts') = true ↔
      keepsQuorumAlong g verify s acts = true ∧ keepsQuorumAlong g verify (s.run g verify acts) acts' = true := by
  induction acts generalizing s with
  | nil => simp [keepsQuorumAlong, run]
  | cons a rest ih =>
    have hrun : s.run g verify (a :: rest) = (s.step g verify a).run g verify rest := rfl
    rw [List.cons_append, keepsQuorumAlong, keepsQuorumAlong, Bool.and_eq_true, Bool.and_eq_true, ih, hrun, and_assoc]

theorem pointCertified_start (g : GroupInfo) (c : SnapshotChain) : PointCertified g (start c) :=
  ⟨nofun, nofun⟩

/-- Along a run that keeps enough producers in the period of the recorded point, the point stays on the chain
and the recorded height never falls. -/
theorem irreversible_blocks_stay (g : GroupInfo) (verify : SnapshotVerifier) (c : SnapshotChain)
    (acts acts' : List PoolAction)
    (hquorum : keepsQuorumAlong g verify (start c) (acts ++ acts') = true) (P : SnapshotBlock)
    (hP : ((start c).run g verify acts).recordedPoint = some P) :
    P ∈ ((start c).run g verify (acts ++ acts')).chain.blocks ∧
      ∃ P', ((start c).run g verify (acts ++ acts')).recordedPoint = some P' ∧ P.height ≤ P'.height := by
  obtain ⟨hquorum₁, hquorum₂⟩ := keepsQuorumAlong_append.mp hquorum
  obtain ⟨-, hcert⟩ := run_keeps (pointCertified_start g c) hquorum₁
  obtain ⟨hkeeps, -⟩ := run_keeps hcert hquorum₂
  have hrun : (start c).run g verify (acts ++ acts') =
      ((start c).run g verify acts).run g verify acts' := List.foldl_append
  rw [hrun]
  obtain ⟨hmem, hpoint⟩ := hkeeps P hP
  exact ⟨hmem P (hcert.point P hP).mem le_rfl, hpoint⟩

/-- Three nodes, one block each in a round of three seconds. -/
def threeNodes : GroupInfo := ⟨3, 3, by decide⟩

/-- A block of the node whose turn it is. -/
def slotBlock (prevHash hash height timestamp : ℕ) : SnapshotBlock := ⟨hash, prevHash, height, timestamp, timestamp % 3⟩

def slotVerifier : SnapshotVerifier := fun _ b => b.producer = b.timestamp % 3

def sampleGenesis : SnapshotChain := ⟨slotBlock 0 1 1 0, [], by decide, by decide⟩

/-- Two rounds in which all three nodes produce. -/
def fullRounds : List SnapshotBlock :=
  [slotBlock 1 2 2 3, slotBlock 2 3 3 4, slotBlock 3 4 4 5, slotBlock 4 5 5 6, slotBlock 5 6 6 7, slotBlock 6 7 7 8]

/-- A branch of two nodes that leaves the second round after its second block. -/
def twoNodeBranch : List SnapshotBlock :=
  [slotBlock 6 27 7 9, slotBlock 27 28 8 10, slotBlock 28 29 9 12, slotBlock 29 30 10 13]

/-- A branch of all nodes over the first round. -/
def lateBranch : List SnapshotBlock :=
  [slotBlock 4 35 5 15, slotBlock 35 36 6 16, slotBlock 36 37 7 17, slotBlock 37 38 8 18, slotBlock 38 39 9 19,
    slotBlock 39 40 10 20, slotBlock 40 41 11 21, slotBlock 41 42 12 22, slotBlock 42 43 13 23]

/-- What `GetKnot` sees of a branch over the first `n` blocks of the full rounds. -/
def branchOver (id n : ℕ) (blocks : List SnapshotBlock) : Branch :=
  ⟨id, (sampleGenesis.genesis :: fullRounds.take n ++ blocks).reverse⟩

def recordFullRounds : List PoolAction := fullRounds.map .insert ++ [.update]

-- the first switch keeps the point but not the third producer of its round, the second one then removes it
theorem irreversible_block_removed :
    let s := (start sampleGenesis).run threeNodes slotVerifier recordFullRounds
    let s₁ := s.run threeNodes slotVerifier [.fork (branchOver 101 5 twoNodeBranch) 10, .update]
    let s₂ := s₁.run threeNodes slotVerifier [.fork (branchOver 102 3 lateBranch) 13]
    s.recordedPoint = some (slotBlock 4 5 5 6) ∧ s₁.recordedPoint = some (slotBlock 1 2 2 3) ∧
      slotBlock 4 5 5 6 ∉ s₂.chain.blocks ∧ s₂.chain.getLatestSnapshotBlock = slotBlock 42 43 13 23 := by
  decide +kernel

/-- A branch that leaves after both rounds. -/
def laterBranch : List SnapshotBlock :=
  [slotBlock 8 59 9 11, slotBlock 59 60 10 12, slotBlock 60 61 11 13, slotBlock 61 62 12 14]

theorem irreversible_blocks_stay_later :
    slotBlock 4 5 5 6 ∈ ((start sampleGenesis).run threeNodes slotVerifier
        (recordFullRounds ++ [.insert (slotBlock 7 8 8 9), .insert (slotBlock 8 9 9 10),
          .fork (branchOver 101 6 (slotBlock 7 8 8 9 :: laterBranch)) 12])).chain.blocks ∧
      ∃ P', ((start sampleGenesis).run threeNodes slotVerifier
        (recordFullRounds ++ [.insert (slotBlock 7 8 8 9), .insert (slotBlock 8 9 9 10),
          .fork (branchOver 101 6 (slotBlock 7 8 8 9 :: laterBranch)) 12])).recordedPoint = some P' ∧ 5 ≤ P'.height :=
  irreversible_blocks_stay threeNodes slotVerifier sampleGenesis recordFullRounds
    [.insert (slotBlock 7 8 8 9), .insert (slotBlock 8 9 9 10),
      .fork (branchOver 101 6 (slotBlock 7 8 8 9 :: laterBranch)) 12]
    (by decide +kernel) (slotBlock 4 5 5 6) (by decide +kernel)

end GoVite.Pool

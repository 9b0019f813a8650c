import GoVite.Sanity.Pool.SnapshotChain
import Mathlib.Order.Interval.Finset.Nat

/-! What the search for the latest irreversible block returns: the first block of the latest period with
enough producers. -/

namespace GoVite.Pool
open SnapshotChain List

def periodOf (g : GroupInfo) (c : SnapshotChain) (b : SnapshotBlock) : ℕ :=
  (g.getPeriodTimeIndex c).time2Index b.timestamp

def periodProducers (g : GroupInfo) (c : SnapshotChain) (blocks : List SnapshotBlock) (period : ℕ) : Finset Address :=
  ((blocks.filter fun b => periodOf g c b = period).map (·.producer)).toFinset

variable {period : ℕ}

theorem mem_periodProducers {g : GroupInfo} {c : SnapshotChain} {blocks : List SnapshotBlock} {a : Address} :
    a ∈ periodProducers g c blocks period ↔ ∃ b ∈ blocks, periodOf g c b = period ∧ b.producer = a := by
  simp [periodProducers, and_assoc]

/-- `P` opens a period in which enough nodes produced blocks. -/
structure Certified (g : GroupInfo) (c : SnapshotChain) (P : SnapshotBlock) : Prop where
  mem : P ∈ c.blocks
  first : ∀ b ∈ c.blocks, b.height < P.height → periodOf g c b < periodOf g c P
  above : 1 < P.height
  quorum : irreversibleCnt g ≤ (periodProducers g c c.blocks (periodOf g c P)).card

structure ClosesPeriod (g : GroupInfo) (c : SnapshotChain) (b : SnapshotBlock) : Prop where
  mem : b ∈ c.blocks
  last : ∀ d ∈ c.blocks, b.height < d.height → periodOf g c b < periodOf g c d

variable {g : GroupInfo} {c : SnapshotChain} {b d latest block point P : SnapshotBlock}

theorem periodOf_le (hb : b ∈ c.blocks) (hd : d ∈ c.blocks) (h : b.height ≤ d.height) :
    periodOf g c b ≤ periodOf g c d :=
  TimeIndex.time2Index_le (timestamp_le hb hd h)

theorem closesPeriod_latest (g : GroupInfo) (c : SnapshotChain) : ClosesPeriod g c c.getLatestSnapshotBlock where
  mem := c.latest_mem
  last := by
    intro d hd hlt
    exact absurd hlt (Nat.not_lt_of_le (height_le_latest hd))

theorem start_le_iff (hb : b ∈ c.blocks) {i : ℕ} :
    ((g.getPeriodTimeIndex c).index2Time i).1 ≤ b.timestamp ↔ i ≤ periodOf g c b :=
  TimeIndex.index2Time_le_iff g.planInterval_pos (genesis_timestamp_le hb)

section
variable (hlatest : latest ∈ c.blocks)
  (h : c.getSnapshotHeaderBeforeTime ((g.getPeriodTimeIndex c).index2Time (periodOf g c latest)).1 = some block)
include hlatest h

/-- The last block before the period of `latest` closes the period before it. -/
theorem block_before :
    ClosesPeriod g c block ∧ periodOf g c block < periodOf g c latest ∧ block.height < latest.height ∧
      ∀ d ∈ c.blocks, block.height < d.height → periodOf g c latest ≤ periodOf g c d := by
  obtain ⟨hmem, hbefore, hafter⟩ := getSnapshotHeaderBeforeTime_some h
  have hlt : periodOf g c block < periodOf g c latest := by
    rw [← Nat.not_le, ← start_le_iff hmem, Nat.not_le]
    exact hbefore
  have hafter' : ∀ d ∈ c.blocks, block.height < d.height → periodOf g c latest ≤ periodOf g c d := by
    intro d hd hbd
    exact (start_le_iff hd).mp (hafter d hd hbd)
  refine ⟨⟨hmem, fun d hd hbd => hlt.trans_le (hafter' d hd hbd)⟩, hlt, ?_, hafter'⟩
  by_contra hle
  exact absurd (periodOf_le hlatest hmem (Nat.le_of_not_lt hle)) (Nat.not_le_of_lt hlt)

/-- The block over it opens the period of `latest`. -/
theorem point_after (hpoint : c.getSnapshotHeaderByHeight (block.height + 1) = some point) :
    point ∈ c.blocks ∧ point.height ≤ latest.height ∧ 1 < point.height ∧ periodOf g c point = periodOf g c latest ∧
      ∀ b ∈ c.blocks, b.height < point.height → periodOf g c b < periodOf g c point := by
  obtain ⟨hclose, hperiod, hheight, hafter⟩ := block_before hlatest h
  obtain ⟨hpm, hph⟩ := getSnapshotHeaderByHeight_eq_some.mp hpoint
  have hle : point.height ≤ latest.height := by omega
  have heq : periodOf g c point = periodOf g c latest :=
    Nat.le_antisymm (periodOf_le hpm hlatest hle) (hafter point hpm (by omega))
  have hpos := height_pos hclose.mem
  refine ⟨hpm, hle, by omega, heq, ?_⟩
  intro b hb hlt
  rw [heq]
  exact (periodOf_le hb hclose.mem (by omega)).trans_lt hperiod

end

theorem mapM_getSnapshotHeaderByHeight {l : List ℕ} (h : ∀ n ∈ l, ∃ b ∈ c.blocks, b.height = n) :
    ∃ bs, l.mapM c.getSnapshotHeaderByHeight = some bs ∧ ∀ d, d ∈ bs ↔ d ∈ c.blocks ∧ d.height ∈ l := by
  induction l with
  | nil => exact ⟨[], rfl, by simp⟩
  | cons n rest ih =>
    obtain ⟨b, hb, hbn⟩ := h n mem_cons_self
    obtain ⟨bs, hbs, hmem⟩ := ih fun m hm => h m (mem_cons_of_mem n hm)
    have hget : c.getSnapshotHeaderByHeight n = some b := getSnapshotHeaderByHeight_eq_some.mpr ⟨hb, hbn⟩
    refine ⟨b :: bs, by simp [hget, hbs], ?_⟩
    intro d
    rw [mem_cons, hmem, mem_cons]
    constructor
    · rintro (rfl | ⟨hd, hdl⟩)
      · exact ⟨hb, .inl hbn⟩
      · exact ⟨hd, .inr hdl⟩
    · rintro ⟨hd, hdn | hdl⟩
      · exact .inl (eq_of_height hd hb (hdn.trans hbn.symm))
      · exact .inr ⟨hd, hdl⟩

/-- Between the block that opens a period and the one that closes it are the blocks of the period. -/
theorem periodOf_eq_iff (hclose : ClosesPeriod g c latest) (hpoint : point ∈ c.blocks)
    (heq : periodOf g c point = periodOf g c latest)
    (hfirst : ∀ b ∈ c.blocks, b.height < point.height → periodOf g c b < periodOf g c point) (hb : b ∈ c.blocks) :
    periodOf g c b = periodOf g c latest ↔ point.height ≤ b.height ∧ b.height ≤ latest.height := by
  constructor
  · intro h
    constructor
    · by_contra hlt
      exact absurd (h.trans heq.symm) (hfirst b hb (Nat.lt_of_not_le hlt)).ne
    · by_contra hlt
      exact absurd h (hclose.last b hb (Nat.lt_of_not_le hlt)).ne'
  · rintro ⟨hlow, hhigh⟩
    exact Nat.le_antisymm (periodOf_le hb hclose.mem hhigh) (heq ▸ periodOf_le hpoint hb hlow)

variable {low high : ℕ}

/-- A period has no more producers than heights. -/
theorem card_periodProducers_le (h : ∀ b ∈ c.blocks, periodOf g c b = period → low ≤ b.height ∧ b.height ≤ high) :
    (periodProducers g c c.blocks period).card ≤ high + 1 - low := by
  have hsub : periodProducers g c c.blocks period ⊆
      (Finset.Icc low high).image fun n => ((c.getSnapshotHeaderByHeight n).map (·.producer)).getD 0 := by
    intro a ha
    obtain ⟨b, hb, hperiod, hprod⟩ := mem_periodProducers.mp ha
    have hget : c.getSnapshotHeaderByHeight b.height = some b := getSnapshotHeaderByHeight_eq_some.mpr ⟨hb, rfl⟩
    exact Finset.mem_image.mpr ⟨b.height, Finset.mem_Icc.mpr (h b hb hperiod), by simp [hget, hprod]⟩
  calc (periodProducers g c c.blocks period).card
      ≤ _ := Finset.card_le_card hsub
    _ ≤ (Finset.Icc low high).card := Finset.card_image_le
    _ = high + 1 - low := Nat.card_Icc _ _

/-- The check of a whole period counts its producers. -/
theorem checkIrreversible_iff (hclose : ClosesPeriod g c latest) (hpoint : point ∈ c.blocks)
    (hle : point.height ≤ latest.height) (heq : periodOf g c point = periodOf g c latest)
    (hfirst : ∀ b ∈ c.blocks, b.height < point.height → periodOf g c b < periodOf g c point) :
    checkIrreversible c point latest (irreversibleCnt g) = true ↔
      irreversibleCnt g ≤ (periodProducers g c c.blocks (periodOf g c latest)).card := by
  have hcard := card_periodProducers_le fun b hb => (periodOf_eq_iff hclose hpoint heq hfirst hb).mp
  unfold checkIrreversible
  split
  · simp only [Bool.false_eq_true, false_iff]
    omega
  · obtain ⟨between, hget, hmem⟩ := mapM_getSnapshotHeaderByHeight (c := c)
      (l := List.range' (point.height + 1) (latest.height - 1 - point.height)) (by
        intro n hn
        rw [mem_range'_1] at hn
        have := height_le_latest hclose.mem
        exact exists_mem_height (by omega) (by omega))
    have hproducers : (latest.producer :: point.producer :: between.map (·.producer)).toFinset =
        periodProducers g c c.blocks (periodOf g c latest) := by
      ext a
      rw [mem_periodProducers]
      simp only [mem_toFinset, mem_cons, mem_map]
      constructor
      · rintro (rfl | rfl | ⟨d, hd, rfl⟩)
        · exact ⟨latest, hclose.mem, rfl, rfl⟩
        · exact ⟨point, hpoint, heq, rfl⟩
        · obtain ⟨hdc, hdr⟩ := (hmem d).mp hd
          rw [mem_range'_1] at hdr
          exact ⟨d, hdc, (periodOf_eq_iff hclose hpoint heq hfirst hdc).mpr (by omega), rfl⟩
      · rintro ⟨d, hdc, hperiod, rfl⟩
        obtain ⟨hlow, hhigh⟩ := (periodOf_eq_iff hclose hpoint heq hfirst hdc).mp hperiod
        by_cases hl : d.height = latest.height
        · exact .inl (by rw [eq_of_height hdc hclose.mem hl])
        · by_cases hp : d.height = point.height
          · exact .inr (.inl (by rw [eq_of_height hdc hpoint hp]))
          · exact .inr (.inr ⟨d, (hmem d).mpr ⟨hdc, mem_range'_1.mpr (by omega)⟩, rfl⟩)
    rw [hget]
    rw [decide_eq_true_iff, ← card_toFinset, hproducers]

/-- Every block up to the last of a period with enough producers is above the first heights. -/
theorem Certified.lt_height (hP : Certified g c P) (hlatest : ClosesPeriod g c latest)
    (hperiod : periodOf g c P ≤ periodOf g c latest) : irreversibleCnt g < latest.height := by
  have hcard : (periodProducers g c c.blocks (periodOf g c P)).card ≤ latest.height + 1 - P.height := by
    refine card_periodProducers_le ?_
    intro b hb hbp
    constructor
    · by_contra hlt
      exact absurd hbp (hP.first b hb (Nat.lt_of_not_le hlt)).ne
    · by_contra hlt
      exact absurd (hlatest.last b hb (Nat.lt_of_not_le hlt)) (by omega)
  have hquorum := hP.quorum
  have habove := hP.above
  unfold irreversibleCnt at *
  omega

structure Found (g : GroupInfo) (c : SnapshotChain) (latest : SnapshotBlock) (info : IrreversibleInfo) : Prop where
  proof : info.proofPoint.isSome
  certified : ∀ P, info.point = some P → Certified g c P
  atLeast : ∀ P, Certified g c P → periodOf g c P ≤ periodOf g c latest →
    ∃ P', info.point = some P' ∧ P.height ≤ P'.height

variable {head : SnapshotBlock}

/-- A period that passes the check is the answer: no later block opens a period up to it. -/
theorem Found.of_check (hclose : ClosesPeriod g c latest)
    (hbefore : c.getSnapshotHeaderBeforeTime ((g.getPeriodTimeIndex c).index2Time (periodOf g c latest)).1 = some block)
    (hget : c.getSnapshotHeaderByHeight (block.height + 1) = some point)
    (hcheck : checkIrreversible c point latest (irreversibleCnt g) = true) :
    Found g c latest ⟨some point, some head⟩ := by
  obtain ⟨hpm, hle, habove, heq, hfirst⟩ := point_after hclose.mem hbefore hget
  refine ⟨rfl, ?_, ?_⟩
  · intro P hP
    obtain rfl := Option.some.inj hP
    refine ⟨hpm, hfirst, habove, ?_⟩
    rw [heq]
    exact (checkIrreversible_iff hclose hpm hle heq hfirst).mp hcheck
  · intro P hP hperiod
    refine ⟨point, rfl, ?_⟩
    by_contra hlt
    exact absurd (hP.first point hpm (Nat.lt_of_not_le hlt)) (by omega)

/-- A period that fails the check opens with no certified block. -/
theorem Certified.period_lt (hP : Certified g c P) (hclose : ClosesPeriod g c latest)
    (hbefore : c.getSnapshotHeaderBeforeTime ((g.getPeriodTimeIndex c).index2Time (periodOf g c latest)).1 = some block)
    (hget : c.getSnapshotHeaderByHeight (block.height + 1) = some point)
    (hcheck : ¬checkIrreversible c point latest (irreversibleCnt g) = true)
    (hperiod : periodOf g c P ≤ periodOf g c latest) : periodOf g c P ≤ periodOf g c block := by
  obtain ⟨hpm, hle, habove, heq, hfirst⟩ := point_after hclose.mem hbefore hget
  obtain ⟨hblock, -, -, hafter⟩ := block_before hclose.mem hbefore
  have hne : periodOf g c P ≠ periodOf g c latest := by
    intro h
    exact hcheck ((checkIrreversible_iff hclose hpm hle heq hfirst).mpr (h ▸ hP.quorum))
  have hheight : P.height ≤ block.height := by
    by_contra hlt
    have := hafter P hP.mem (Nat.lt_of_not_le hlt)
    omega
  exact periodOf_le hP.mem hblock.mem hheight

-- by induction on the periods that the loop still has to visit
variable {lastIdx fuel : ℕ} {info : IrreversibleInfo}

theorem searchIrreversible_found (hclose : ClosesPeriod g c latest)
    (h : searchIrreversible c (g.getPeriodTimeIndex c) lastIdx (irreversibleCnt g) head fuel latest = .ok (some info)) :
    Found g c latest info := by
  induction fuel generalizing latest with
  | zero => cases h
  | succ fuel ih =>
    unfold searchIrreversible at h
    split at h
    · rename_i hlow
      cases h
      refine ⟨rfl, ?_, ?_⟩
      · intro P hP
        cases hP
      · intro P hP hperiod
        exact absurd (hP.lt_height hclose hperiod) (Nat.not_lt_of_le hlow)
    · split at h
      · cases h
      · split at h
        · cases h
        · rename_i block hbefore
          split at h
          · cases h
          · rename_i point hget
            split at h
            · rename_i hcheck
              cases h
              exact Found.of_check hclose hbefore hget hcheck
            · rename_i hcheck
              have hfound := ih (block_before hclose.mem hbefore).1 h
              refine ⟨hfound.proof, hfound.certified, ?_⟩
              intro P hP hperiod
              exact hfound.atLeast P hP (hP.period_lt hclose hbefore hget hcheck hperiod)

/-- The loop ends: each round goes down by at least one height. -/
theorem searchIrreversible_ne_diverges (hlatest : latest ∈ c.blocks) (hfuel : latest.height ≤ fuel) :
    searchIrreversible c (g.getPeriodTimeIndex c) lastIdx (irreversibleCnt g) head fuel latest ≠ .error .diverges := by
  induction fuel generalizing latest with
  | zero =>
    have := height_pos hlatest
    omega
  | succ fuel ih =>
    unfold searchIrreversible
    split
    · nofun
    · split
      · nofun
      · split
        · nofun
        · rename_i block hbefore
          split
          · nofun
          · split
            · nofun
            · obtain ⟨hclose, -, hheight, -⟩ := block_before hlatest hbefore
              exact ih hclose.mem (by omega)

theorem length_of_linked {l : List SnapshotBlock} {genesis : SnapshotBlock} (hg : genesis.height = 1)
    (hl : (l ++ [genesis]).IsChain SnapshotBlock.Follows) : (l ++ [genesis]).length = (l.headD genesis).height := by
  induction l with
  | nil => simp [hg]
  | cons a rest ih =>
    cases rest with
    | nil | cons r rest =>
      have := (isChain_cons_cons.mp hl).1.height
      simp_all

theorem getLatestIrreversible_ne_diverges (g : GroupInfo) (c : SnapshotChain) (lastIdx : ℕ) :
    getLatestIrreversible g c lastIdx ≠ .error .diverges := by
  unfold getLatestIrreversible
  split
  · nofun
  · refine searchIrreversible_ne_diverges c.latest_mem ?_
    exact (length_of_linked c.genesis_height c.linked).ge

theorem getLatestIrreversible_found
    (h : getLatestIrreversible g c lastIdx = .ok (some info)) : Found g c c.getLatestSnapshotBlock info := by
  unfold getLatestIrreversible at h
  split at h
  · cases h
  · exact searchIrreversible_found (closesPeriod_latest g c) h

end GoVite.Pool

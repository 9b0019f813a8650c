import GoVite.Spec.Pool.ForkChecker
import Mathlib.Data.Finset.Card
import Mathlib.Algebra.Order.Group.Nat

/-! Lookups in the snapshot chain: heights have no gap, and a later block has a later timestamp. -/

namespace GoVite.Pool
open List Nat

namespace SnapshotChain
variable {c c' : SnapshotChain} {b d : SnapshotBlock}

def Newer (b d : SnapshotBlock) : Prop := d.height < b.height ∧ d.timestamp < b.timestamp

instance : Trans Newer Newer Newer where
  trans h₁ h₂ := ⟨h₂.1.trans h₁.1, h₂.2.trans h₁.2⟩

theorem blocks_pairwise (c : SnapshotChain) : c.blocks.Pairwise Newer := by
  have h : c.blocks.IsChain Newer := by
    refine c.linked.imp ?_
    intro b d hbd
    exact ⟨by rw [hbd.height]; exact lt_succ_self _, hbd.timestamp⟩
  exact h.pairwise

section
variable (hb : b ∈ c.blocks) (hd : d ∈ c.blocks)
include hb hd

theorem newer_or : b = d ∨ Newer b d ∨ Newer d b := by
  by_cases h : b = d
  · exact .inl h
  · have hsymm : Std.Symm fun x y => Newer x y ∨ Newer y x := ⟨fun _ _ => Or.symm⟩
    have hp : c.blocks.Pairwise fun x y => Newer x y ∨ Newer y x :=
      c.blocks_pairwise.imp fun hxy => .inl hxy
    exact .inr (hp.forall hb hd h)

theorem eq_of_height (h : b.height = d.height) : b = d := by
  obtain heq | hn | hn := newer_or hb hd
  · exact heq
  · exact absurd h (Nat.ne_of_gt hn.1)
  · exact absurd h (Nat.ne_of_lt hn.1)

theorem timestamp_lt (h : b.height < d.height) : b.timestamp < d.timestamp := by
  obtain rfl | hn | hn := newer_or hb hd
  · exact absurd h (lt_irrefl _)
  · exact absurd h (not_lt_of_gt hn.1)
  · exact hn.2

theorem timestamp_le (h : b.height ≤ d.height) : b.timestamp ≤ d.timestamp := by
  obtain hlt | heq := lt_or_eq_of_le h
  · exact (timestamp_lt hb hd hlt).le
  · rw [eq_of_height hb hd heq]

end

theorem genesis_mem (c : SnapshotChain) : c.genesis ∈ c.blocks := by simp [blocks]

theorem latest_mem (c : SnapshotChain) : c.getLatestSnapshotBlock ∈ c.blocks := by
  unfold getLatestSnapshotBlock blocks
  cases c.above <;> simp

theorem blocks_eq (c : SnapshotChain) : ∃ rest, c.blocks = c.getLatestSnapshotBlock :: rest := by
  unfold getLatestSnapshotBlock blocks
  cases c.above <;> simp

theorem height_le_latest (hb : b ∈ c.blocks) : b.height ≤ c.getLatestSnapshotBlock.height := by
  obtain ⟨rest, hrest⟩ := c.blocks_eq
  have hp := c.blocks_pairwise
  rw [hrest] at hb hp
  obtain rfl | hb := mem_cons.mp hb
  · exact le_refl _
  · exact (rel_of_pairwise_cons hp hb).1.le

theorem height_pos (hb : b ∈ c.blocks) : 1 ≤ b.height := by
  have hp := c.blocks_pairwise
  obtain hb | hb := mem_append.mp hb
  · have h := (pairwise_append.mp hp).2.2 b hb c.genesis (mem_singleton_self _)
    exact c.genesis_height ▸ h.1.le
  · rw [mem_singleton.mp hb, c.genesis_height]

theorem genesis_timestamp_le (hb : b ∈ c.blocks) : c.genesis.timestamp ≤ b.timestamp :=
  timestamp_le c.genesis_mem hb (c.genesis_height ▸ height_pos hb)

-- by induction on the links from the genesis block
variable {h : ℕ} {l : List SnapshotBlock}

theorem exists_height {genesis : SnapshotBlock}
    (hl : (l ++ [genesis]).IsChain SnapshotBlock.Follows) (hg : genesis.height ≤ h)
    (hh : h ≤ (l.headD genesis).height) : ∃ b ∈ l ++ [genesis], b.height = h := by
  induction l with
  | nil => exact ⟨genesis, by simp, le_antisymm hg hh⟩
  | cons a rest ih =>
    by_cases ha : a.height = h
    · exact ⟨a, by simp, ha⟩
    · have hstep : h ≤ (rest.headD genesis).height := by
        have hf : a.Follows (rest.headD genesis) := by
          cases rest with
          | nil | cons r rest => exact (isChain_cons_cons.mp hl).1
        have hfh := hf.height
        simp only [headD_cons] at hh
        omega
      obtain ⟨b, hb, hbh⟩ := ih hl.tail hstep
      exact ⟨b, mem_cons_of_mem a hb, hbh⟩

theorem exists_mem_height (h1 : 1 ≤ h) (hh : h ≤ c.getLatestSnapshotBlock.height) : ∃ b ∈ c.blocks, b.height = h :=
  exists_height c.linked (c.genesis_height ▸ h1) hh

theorem getSnapshotHeaderByHeight_eq_some : c.getSnapshotHeaderByHeight h = some b ↔ b ∈ c.blocks ∧ b.height = h := by
  constructor
  · intro hf
    exact ⟨mem_of_find?_eq_some hf, by simpa using find?_some hf⟩
  · rintro ⟨hb, hh⟩
    obtain ⟨d, hd⟩ : ∃ d, c.getSnapshotHeaderByHeight h = some d :=
      Option.isSome_iff_exists.mp (find?_isSome.mpr ⟨b, hb, by simpa using hh⟩)
    have hdh : d.height = h := by simpa using find?_some hd
    rw [hd, eq_of_height (mem_of_find?_eq_some hd) hb (hdh.trans hh.symm)]

/-- The block before a time is the highest of those that are. -/
theorem getSnapshotHeaderBeforeTime_some {t : ℕ} (h : c.getSnapshotHeaderBeforeTime t = some b) :
    b ∈ c.blocks ∧ b.timestamp < t ∧ ∀ d ∈ c.blocks, b.height < d.height → t ≤ d.timestamp := by
  have hb := mem_of_find?_eq_some h
  have hbt : b.timestamp < t := by simpa using find?_some h
  refine ⟨hb, hbt, ?_⟩
  intro d hd hlt
  obtain ⟨-, newer, older, hsplit, hnewer⟩ := find?_eq_some_iff_append.mp h
  have hp := c.blocks_pairwise
  rw [hsplit] at hp hd
  obtain hd | hd := mem_append.mp hd
  · have := hnewer d hd
    simpa using this
  · obtain rfl | hd := mem_cons.mp hd
    · exact absurd hlt (lt_irrefl _)
    · have hold := rel_of_pairwise_cons (pairwise_append.mp hp).2.1 hd
      exact absurd hlt (not_lt_of_gt hold.1)

theorem mem_add {h : b.Follows c.getLatestSnapshotBlock} : d ∈ (c.add b h).blocks ↔ d = b ∨ d ∈ c.blocks := by
  simp [blocks, add]

theorem dropWhile_eq_filter (n : ℕ) (hp : l.Pairwise Newer) :
    (l.dropWhile fun b => n ≤ b.height) = l.filter fun b => b.height < n := by
  induction l with
  | nil => rfl
  | cons a rest ih =>
    by_cases ha : n ≤ a.height
    · rw [dropWhile_cons_of_pos (by simpa using ha), filter_cons_of_neg (by simpa using ha)]
      exact ih hp.of_cons
    · rw [dropWhile_cons_of_neg (by simpa using ha)]
      symm
      rw [filter_eq_self]
      intro b hb
      obtain rfl | hb := mem_cons.mp hb
      · simpa using ha
      · have := (rel_of_pairwise_cons hp hb).1
        simp only [decide_eq_true_eq]
        omega

/-- A deletion keeps exactly the blocks below the height. -/
theorem deleteSnapshotBlocksToHeight_some {n : ℕ} (h : c.deleteSnapshotBlocksToHeight n = some c') :
    c'.genesis = c.genesis ∧ ∀ d, d ∈ c'.blocks ↔ d ∈ c.blocks ∧ d.height < n := by
  unfold deleteSnapshotBlocksToHeight at h
  split at h
  · cases h
  · cases h
    refine ⟨rfl, ?_⟩
    intro d
    have hdrop := dropWhile_eq_filter n (pairwise_append.mp c.blocks_pairwise).1
    have hg := c.genesis_height
    simp only [blocks, hdrop, mem_append, mem_filter, mem_singleton, decide_eq_true_eq]
    constructor
    · rintro (⟨hd, hdn⟩ | rfl)
      · exact ⟨.inl hd, hdn⟩
      · exact ⟨.inr rfl, by omega⟩
    · rintro ⟨hd | rfl, hdn⟩
      · exact .inl ⟨hd, hdn⟩
      · exact .inr rfl

end SnapshotChain

namespace TimeIndex
variable {ti : TimeIndex} {s t : ℕ}

theorem time2Index_le (h : s ≤ t) : ti.time2Index s ≤ ti.time2Index t :=
  Nat.div_le_div_right (Nat.sub_le_sub_right h _)

/-- A period starts where its index does. -/
theorem index2Time_le_iff (hpos : 0 < ti.interval) (hg : ti.genesisTime ≤ t) {i : ℕ} :
    (ti.index2Time i).1 ≤ t ↔ i ≤ ti.time2Index t := by
  unfold index2Time time2Index
  rw [le_div_iff_mul_le hpos, mul_comm i]
  constructor <;> intro h <;> simp only at * <;> omega

end TimeIndex

end GoVite.Pool

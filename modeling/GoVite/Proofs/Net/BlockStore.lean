import GoVite.Spec.Net.BlockStore
import Mathlib.Order.Basic

/-! The store of blocks is a queue until a block is stored after it has been emptied. -/

namespace GoVite.Net
open BlockQueue List

variable {β : Type} {m : BlockQueue β} {waiting : List β}

/-- The calls keep a queue: a block is refused only while as many wait as there is room for, a dequeue gives the first
that waits, and at the end all that wait reach the feed. -/
def InOrder : BlockQueue β → List β → List (QueueCall β) → Prop
  | m, waiting, [] => (m.drain (m.blocks.length + 1)).1 = waiting
  | m, waiting, .enqueue block :: calls => (m.blocks.length < m.max ∨ waiting.length = m.max) ∧
    InOrder (m.enqueue block) (if m.blocks.length < m.max then waiting ++ [block] else waiting) calls
  | m, waiting, .dequeue :: calls => m.dequeue.1 = waiting.head? ∧ InOrder m.dequeue.2 waiting.tail calls

/-- A block is stored only if the index is inside the slice, and refused only before the first is read. -/
def IndexInside : BlockQueue β → List (QueueCall β) → Prop
  | _, [] => True
  | m, .enqueue block :: calls =>
    (if m.blocks.length < m.max then m.index ≤ m.blocks.length else m.index = 0 ∨ m.max = 0) ∧
      IndexInside (m.enqueue block) calls
  | m, .dequeue :: calls => IndexInside m.dequeue.2 calls

/-- The blocks behind the index are the queue. -/
theorem dequeue_fst : m.dequeue.1 = (m.blocks.drop m.index).head? := by
  rw [dequeue, head?_drop]
  split
  next h => exact (getElem?_eq_none h).symm
  · rfl

theorem dequeue_snd : m.dequeue.2.blocks.drop m.dequeue.2.index = (m.blocks.drop m.index).tail := by
  rw [dequeue, tail_drop]
  split
  next h => rw [drop_nil, drop_eq_nil_of_le (Nat.le_succ_of_le h)]
  · rfl

theorem drain_eq_drop {fuel : ℕ} (hfuel : m.blocks.length < m.index + fuel) :
    (m.drain fuel).1 = m.blocks.drop m.index := by
  induction fuel generalizing m with
  | zero => exact (drop_eq_nil_of_le (Nat.le_of_lt hfuel)).symm
  | succ fuel ih =>
    by_cases h : m.blocks.length ≤ m.index
    · simp [drain, dequeue, h]
    · have hlt : m.index < m.blocks.length := by omega
      simp only [drain, dequeue, if_neg h, getElem?_eq_getElem hlt]
      rw [ih (by grind), drop_eq_getElem_cons hlt]

/-- A block that was lost is missing from then on. -/
theorem not_inOrder_of_lost (calls : List (QueueCall β)) (h : (m.blocks.drop m.index).length < waiting.length) :
    ¬ InOrder m waiting calls := by
  induction calls generalizing m waiting with
  | nil =>
    intro hdrain
    rw [InOrder, drain_eq_drop (by omega)] at hdrain
    rw [hdrain] at h
    exact Nat.lt_irrefl _ h
  | cons call calls ih =>
    cases call with
    | enqueue block =>
      refine fun hrun => ih ?_ hrun.2
      rw [enqueue]
      grind
    | dequeue =>
      refine fun hrun => ih ?_ hrun.2
      have hfirst := hrun.1
      rw [dequeue_fst] at hfirst
      rw [dequeue_snd]
      cases hrest : m.blocks.drop m.index <;> cases waiting <;> grind

theorem inOrder_iff (calls : List (QueueCall β)) (hroom : m.blocks.length ≤ m.max) :
    InOrder m (m.blocks.drop m.index) calls ↔ IndexInside m calls := by
  induction calls generalizing m with
  | nil => exact iff_of_true (drain_eq_drop (by omega)) trivial
  | cons call calls ih =>
    cases call with
    | enqueue block =>
      rw [InOrder, IndexInside, ← ih (by grind [enqueue]), enqueue]
      by_cases hlt : m.blocks.length < m.max
      · simp only [if_pos hlt, Or.inl hlt, true_and]
        by_cases hindex : m.index ≤ m.blocks.length
        · rw [drop_append_of_le_length hindex, and_iff_right hindex]
        · refine iff_of_false (not_inOrder_of_lost calls ?_) fun h => hindex h.1
          grind
      · simp only [if_neg hlt, length_drop]
        exact and_congr_left' (by omega)
    | dequeue =>
      rw [IndexInside, ← ih (by grind [dequeue]), dequeue_snd]
      exact and_iff_right dequeue_fst

/-- The calls keep a queue exactly if the index is always inside the slice. -/
theorem blockStore_inOrder_iff (max : ℕ) (calls : List (QueueCall β)) :
    InOrder ⟨max, 0, []⟩ [] calls ↔ IndexInside ⟨max, 0, []⟩ calls :=
  inOrder_iff calls (Nat.zero_le _)

/-- The block stored in the first sync reaches the feed, that of the second does not. -/
theorem blockStore_second_sync : InOrder ⟨4, 0, []⟩ [] [.enqueue 1, .dequeue, .dequeue] ∧
    ¬InOrder ⟨4, 0, []⟩ [] [.enqueue 1, .dequeue, .dequeue, .enqueue 2] := by
  refine ⟨⟨.inl (by decide), rfl, rfl, rfl⟩, ?_⟩
  rintro ⟨-, -, -, -, hfeed⟩
  cases hfeed

end GoVite.Net

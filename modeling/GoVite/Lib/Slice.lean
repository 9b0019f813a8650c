import Mathlib.Data.List.Perm.Basic
import Mathlib.Data.List.Sort
import Mathlib.Data.List.Range

/-! Slices with checked bounds, and sorting through a comparison, which orders a slice if the comparison is an order. -/

namespace Slices
open List
variable {α β : Type}

inductive SliceError
  | bounds | index
  deriving DecidableEq, Repr

/-- The elements from `i` up to and without `j`. -/
def slice (l : List α) (i j : ℤ) : Except SliceError (List α) :=
  if 0 ≤ i ∧ i ≤ j ∧ j ≤ l.length then .ok ((l.take j.toNat).drop i.toNat) else .error .bounds

def index (l : List α) (i : ℕ) : Except SliceError α :=
  if h : i < l.length then .ok (l.get ⟨i, h⟩) else .error .index

variable {l : List α} {i j : ℕ}

theorem slice_natCast (hij : i ≤ j) (hj : j ≤ l.length) : slice l i j = .ok ((l.take j).drop i) := by
  unfold slice
  rw [if_pos (by omega), Int.toNat_natCast, Int.toNat_natCast]

theorem slice_take (hj : j ≤ l.length) : slice l 0 j = .ok (l.take j) := by
  simpa using slice_natCast (Nat.zero_le j) hj

theorem slice_error {i j : ℤ} (h : i < 0) : slice l i j = .error .bounds := by
  unfold slice
  rw [if_neg (by omega)]

theorem index_eq (h : i < l.length) : index l i = .ok (l.get ⟨i, h⟩) := dif_pos h

/-! Elements picked by their positions. -/

/-- The elements at some positions, without those out of range. -/
def pick (l : List α) (is : List ℕ) : List α := is.filterMap (l[·]?)

variable {is : List ℕ}

theorem mapM_index (h : ∀ i ∈ is, i < l.length) : is.mapM (index l) = .ok (pick l is) := by
  induction is with
  | nil => rfl
  | cons i is ih =>
    have hi := h i mem_cons_self
    rw [mapM_cons, index_eq hi, ih fun j hj => h j (mem_cons_of_mem i hj)]
    simp only [pick, filterMap_cons, getElem?_eq_getElem hi]
    rfl

theorem length_pick (h : ∀ i ∈ is, i < l.length) : (pick l is).length = is.length := by
  induction is with
  | nil => rfl
  | cons i is ih =>
    have hrest := ih fun j hj => h j (mem_cons_of_mem i hj)
    simp only [pick] at hrest
    simp [pick, getElem?_eq_getElem (h i mem_cons_self), hrest]

theorem pick_append (l : List α) (is js : List ℕ) : pick l (is ++ js) = pick l is ++ pick l js :=
  filterMap_append

theorem pick_perm (l : List α) {js : List ℕ} (h : is.Perm js) : (pick l is).Perm (pick l js) := h.filterMap _

theorem pick_range (l : List α) : pick l (range l.length) = l := by
  induction l with
  | nil => rfl
  | cons a l ih =>
    have hshift : filterMap ((a :: l)[·]?) ((range l.length).map Nat.succ) = pick l (range l.length) := by
      rw [filterMap_map]
      rfl
    rw [pick, length_cons, range_succ_eq_map, filterMap_cons]
    simp only [getElem?_cons_zero]
    rw [hshift, ih]

/-- Picking at the positions of a permutation rearranges the list. -/
theorem pick_perm_range (h : is.Perm (range l.length)) : (pick l is).Perm l := by
  have hperm := pick_perm l h
  rwa [pick_range] at hperm

/-- The first positions of a permutation pick a part of the list. -/
theorem pick_take_subperm (h : is.Perm (range l.length)) (n : ℕ) : (pick l (is.take n)).Subperm l := by
  have hsplit : pick l is = pick l (is.take n) ++ pick l (is.drop n) := by
    rw [← pick_append, take_append_drop]
  have hsub : (pick l (is.take n)).Sublist (pick l is) := by
    rw [hsplit]
    exact sublist_append_left _ _
  exact hsub.subperm.trans (pick_perm_range h).subperm

/-! Sorting. -/

/-- The comparison is a strict weak order. -/
structure StrictWeak (less : α → α → Bool) : Prop where
  asymm : ∀ a b, less a b → ¬less b a
  cotrans : ∀ a b c, less a c → less a b ∨ less b c

/-- A sort by a comparison: a rearrangement, and in order where the comparison is one. -/
structure Sorting where
  sort {α : Type} : (α → α → Bool) → List α → List α
  perm : ∀ {α : Type} (less : α → α → Bool) (l : List α), (sort less l).Perm l
  sorted : ∀ {α : Type} {less : α → α → Bool}, StrictWeak less →
    ∀ l : List α, (sort less l).Pairwise fun a b => ¬less b a

/-- Merge sort is such a sort. -/
def mergeSorting : Sorting where
  sort less l := l.mergeSort fun a b => !less b a
  perm less l := l.mergeSort_perm _
  sorted {_ less} hless l := by
    have htrans : ∀ a b c, (!less b a) → (!less c b) → (!less c a) := by
      intro a b c hab hbc
      rw [Bool.not_eq_true', Bool.eq_false_iff] at hab hbc ⊢
      intro hca
      rcases hless.cotrans c b a hca with h | h
      · exact hbc h
      · exact hab h
    have htotal : ∀ a b, ((!less b a) || (!less a b)) := by
      intro a b
      have := hless.asymm a b
      cases hab : less a b <;> cases hba : less b a <;> simp_all
    refine (pairwise_mergeSort htrans htotal l).imp fun h => ?_
    simpa using h

/-- In a sorted list fewer elements come before an element than its position. -/
theorem count_before_lt {less : α → α → Bool} (hasymm : ∀ a b, less a b → ¬less b a)
    (hl : l.Pairwise fun a b => ¬less b a) {n : ℕ} {a : α} (ha : a ∈ l.take n) : (l.filter (less · a)).length < n := by
  induction l generalizing n with
  | nil => simp at ha
  | cons b l ih =>
    cases n with
    | zero => simp at ha
    | succ n =>
      obtain ⟨hb, hrest⟩ := pairwise_cons.1 hl
      rw [take_succ_cons, mem_cons] at ha
      rcases ha with rfl | ha
      · have hnone : l.filter (less · a) = [] := by
          rw [filter_eq_nil_iff]
          exact fun c hc => hb c hc
        have hself : ¬less a a := fun h => hasymm a a h h
        simp [hnone, hself]
      · have := ih hrest ha
        rw [filter_cons]
        split
        · simpa using this
        · omega

end Slices

import Mathlib.Data.List.Perm.Basic

/-! Removing an entry from an unordered list by moving the last one into its place. -/

namespace GoVite.SwapRemove
open List Option

variable {α : Type}

def swapRemove (l : List α) (i : ℕ) : List α :=
  match l.getLast? with
  | none => []
  | some last => (l.set i last).dropLast

theorem swapRemove_perm {l : List α} {i : ℕ} (hi : i < l.length) : (swapRemove l i).Perm (l.eraseIdx i) := by
  obtain ⟨a, b, x, rfl, rfl⟩ : ∃ a b x, l = a ++ x :: b ∧ a.length = i :=
    ⟨l.take i, l.drop (i + 1), l[i], by simp, by simp; omega⟩
  rw [eraseIdx_append_of_length_le (Nat.le_refl _), Nat.sub_self, eraseIdx_cons_zero]
  rcases eq_nil_or_concat b with rfl | ⟨b', y, rfl⟩
  · simp [swapRemove]
  · have hl : a ++ x :: b'.concat y = (a ++ x :: b') ++ [y] := by simp
    have hset : ((a ++ x :: b') ++ [y]).set a.length y = (a ++ y :: b') ++ [y] := by simp
    have hswap : swapRemove (a ++ x :: b'.concat y) a.length = a ++ y :: b' := by
      rw [hl, swapRemove, getLast?_concat]
      simp only [hset, dropLast_concat]
    rw [hswap, concat_eq_append, ← append_assoc]
    exact perm_middle.trans (perm_append_singleton y (a ++ b')).symm

/-- The first entry that satisfies `p`, and the list without it. -/
def takeFirst (p : α → Bool) (l : List α) : Option (α × List α) :=
  (l.find? p).map fun x => (x, swapRemove l (l.findIdx p))

variable {p : α → Bool} {l : List α} {x : α} {rest : List α}

theorem takeFirst_eq_none : takeFirst p l = none ↔ ∀ x ∈ l, ¬p x := by
  rw [takeFirst, map_eq_none_iff, find?_eq_none]

theorem takeFirst_perm (h : takeFirst p l = some (x, rest)) : l.Perm (x :: rest) := by
  obtain ⟨y, hfind, hy⟩ := map_eq_some_iff.1 h
  obtain ⟨rfl, rfl⟩ := Prod.mk.inj hy
  rw [find?_eq_getElem?_findIdx] at hfind
  obtain ⟨hlt, hget⟩ := List.getElem?_eq_some_iff.1 hfind
  have herase : (l[l.findIdx p] :: l.eraseIdx (l.findIdx p)).Perm l := getElem_cons_eraseIdx_perm hlt
  rw [hget] at herase
  exact herase.symm.trans ((swapRemove_perm hlt).symm.cons y)

theorem takeFirst_sat (h : takeFirst p l = some (x, rest)) : p x := by
  obtain ⟨y, hfind, hy⟩ := map_eq_some_iff.1 h
  obtain ⟨rfl, -⟩ := Prod.mk.inj hy
  exact find?_some hfind

end GoVite.SwapRemove

import Mathlib.Data.List.Basic
import Mathlib.Data.List.Induction
import Mathlib.Logic.Relation

/-! A single pass over a list that takes what depends on what it has taken. Where what depends on an element comes after
it, nothing left depends on what was taken, and all that was taken is reachable from where the pass started. -/

namespace OnePass
open List
variable {α σ : Type*}

/-- Each step takes the element or leaves it, and keeps the invariant of the marks. -/
structure Pass (step : σ → α → σ) (taken : σ → List α) (Inv : σ → Prop) : Prop where
  inv_step : ∀ s a, Inv s → Inv (step s a)
  taken_step : ∀ s a, taken (step s a) = taken s ∨ taken (step s a) = taken s ++ [a]

namespace Pass
variable {step : σ → α → σ} {taken : σ → List α} {Inv : σ → Prop} (hp : Pass step taken Inv)
include hp

theorem inv_foldl {s : σ} (hs : Inv s) (l : List α) : Inv (l.foldl step s) := by
  induction l generalizing s with
  | nil => exact hs
  | cons a l ih => exact ih (hp.inv_step s a hs)

theorem taken_foldl (s : σ) (l : List α) : ∃ t, t.Sublist l ∧ taken (l.foldl step s) = taken s ++ t := by
  induction l generalizing s with
  | nil => exact ⟨[], List.Sublist.slnil, (append_nil _).symm⟩
  | cons a l ih =>
    obtain ⟨t, ht, heq⟩ := ih (step s a)
    rcases hp.taken_step s a with hleft | htook
    · exact ⟨t, ht.cons a, by rw [foldl_cons, heq, hleft]⟩
    · exact ⟨a :: t, ht.cons_cons a, by rw [foldl_cons, heq, htook, append_assoc]; rfl⟩

/-- Nothing that was left depends on something that was taken. -/
theorem closed {Dep : α → α → Prop} {l : List α} {s : σ} (hs : Inv s) (hord : l.Pairwise fun b a => ¬Dep a b)
    (hleft : ∀ s b, Inv s → taken (step s b) = taken s → ∀ a ∈ taken s, ¬Dep a b) {b : α} (hb : b ∈ l)
    (hnot : b ∉ taken (l.foldl step s)) {a : α} (ha : a ∈ taken (l.foldl step s)) : ¬Dep a b := by
  induction l generalizing s with
  | nil => cases hb
  | cons c l ih =>
    rw [pairwise_cons] at hord
    rw [foldl_cons] at hnot ha
    rcases mem_cons.1 hb with rfl | hb
    · obtain ⟨t, ht, heq⟩ := hp.taken_foldl (step s b) l
      rw [heq] at hnot ha
      rcases hp.taken_step s b with hsame | htook
      · rcases mem_append.1 ha with ha | ha
        · exact hleft s b hs hsame a (hsame ▸ ha)
        · -- taken later, so it comes later
          exact hord.1 a (ht.subset ha)
      · exact absurd (mem_append_left t (htook ▸ mem_append_right _ mem_cons_self)) hnot
    · exact ih (hp.inv_step s c hs) hord.2 hb hnot ha

/-- Where each element is taken because of one taken before, all are reachable from those at the start. -/
theorem reachable {R : α → α → Prop} {s : σ} {l : List α}
    (htook : ∀ l₁ a l₂, l = l₁ ++ a :: l₂ → taken (step (l₁.foldl step s) a) ≠ taken (l₁.foldl step s) →
      ∃ b ∈ taken (l₁.foldl step s), Relation.ReflTransGen R b a) {a : α} (ha : a ∈ taken (l.foldl step s)) :
    ∃ b ∈ taken s, Relation.ReflTransGen R b a := by
  induction l using List.reverseRecOn generalizing a with
  | nil => exact ⟨a, ha, .refl⟩
  | append_singleton l c ih =>
    have hbefore : ∀ {x}, x ∈ taken (l.foldl step s) → ∃ b ∈ taken s, Relation.ReflTransGen R b x := fun hx =>
      ih (fun l₁ a l₂ heq => htook l₁ a (l₂ ++ [c]) (by rw [heq, append_assoc, cons_append])) hx
    rw [foldl_append, foldl_cons, foldl_nil] at ha
    by_cases hsame : taken (step (l.foldl step s) c) = taken (l.foldl step s)
    · exact hbefore (hsame ▸ ha)
    · rw [(hp.taken_step _ c).resolve_left hsame, mem_append, mem_singleton] at ha
      rcases ha with ha | rfl
      · exact hbefore ha
      · obtain ⟨x, hx, hxa⟩ := htook l a [] rfl hsame
        obtain ⟨b, hb, hbx⟩ := hbefore hx
        exact ⟨b, hb, hbx.trans hxa⟩

end Pass

end OnePass

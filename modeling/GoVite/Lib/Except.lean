import Mathlib.Init

/-! Taking apart a computation that succeeded. -/

namespace ExceptRules
open List
variable {ε α β : Type} {b : β} {x : Except ε α} {f : α → Except ε β}

theorem bind_ok (h : (x >>= f) = .ok b) : ∃ a, x = .ok a ∧ f a = .ok b := by
  cases x with
  | error e => cases h
  | ok a => exact ⟨a, rfl, h⟩

theorem bind_total {a : α} (hx : x = .ok a) (hf : ∃ b, f a = .ok b) : ∃ b, (x >>= f) = .ok b := by
  subst hx
  exact hf

theorem bind_error {e : ε} (h : (x >>= f) = .error e) : x = .error e ∨ ∃ a, x = .ok a ∧ f a = .error e := by
  cases x with
  | error e' =>
    cases h
    exact .inl rfl
  | ok a => exact .inr ⟨a, rfl, h⟩

theorem map_ok {f : α → β} (h : x.map f = .ok b) : ∃ a, x = .ok a ∧ f a = b := by
  cases x with
  | error e => cases h
  | ok a => exact ⟨a, rfl, Except.ok.inj h⟩

theorem mapError_ok {ε' : Type} {f : ε → ε'} {a : α} (h : x.mapError f = .ok a) : x = .ok a := by
  cases x with
  | error e => cases h
  | ok b => exact congrArg Except.ok (Except.ok.inj h)

/-- A guarded computation that succeeded passed its guard. -/
theorem guard_ok {p : Prop} [Decidable p] {e : ε} {x : Except ε β}
    (h : (if p then .error e else x) = .ok b) : ¬p ∧ x = .ok b := by
  split at h
  · cases h
  · exact ⟨‹_›, h⟩

variable {l : List α} {b' : β}

section
variable (P : List α → β → Prop)

/-- What each step of a loop keeps, as a fact about the items done so far, holds at its end. -/
theorem foldlM_inv {f : β → α → Except ε β} (hstep : ∀ done b a b', P done b → f b a = .ok b' → P (done ++ [a]) b')
    (h : l.foldlM f b = .ok b') (h0 : P [] b) : P l b' := by
  have hgen : ∀ (l done : List α) (b : β), P done b → l.foldlM f b = .ok b' → P (done ++ l) b' := by
    intro l
    induction l with
    | nil =>
      intro done b hb h
      cases h
      simpa using hb
    | cons a l ih =>
      intro done b hb h
      obtain ⟨b₁, h₁, hrest⟩ := bind_ok h
      simpa using ih (done ++ [a]) b₁ (hstep done b a b₁ hb h₁) hrest
  exact hgen l [] b h0 h

/-- `foldlM_inv` where the steps may use that their items are in the list. -/
theorem foldlM_inv_mem {f : β → α → Except ε β}
    (hstep : ∀ done b, ∀ a ∈ l, ∀ b', P done b → f b a = .ok b' → P (done ++ [a]) b')
    (h : l.foldlM f b = .ok b') (h0 : P [] b) : P l b' := by
  refine foldlM_inv (fun done b => done <+: l → P done b) ?_ h (fun _ => h0) (prefix_refl l)
  intro done b a b' hP hf hdone
  have ha : a ∈ l := hdone.subset (mem_append_right done mem_cons_self)
  exact hstep done b a ha b' (hP ((prefix_append done [a]).trans hdone)) hf

/-- A loop whose steps all succeed, under a condition on the items still to come, succeeds. -/
theorem foldlM_total {f : β → α → Except ε β}
    (hstep : ∀ a rest b, P (a :: rest) b → ∃ b', f b a = .ok b' ∧ P rest b') (h : P l b) :
    ∃ b', l.foldlM f b = .ok b' ∧ P [] b' := by
  induction l generalizing b with
  | nil => exact ⟨b, rfl, h⟩
  | cons a l ih =>
    obtain ⟨b₁, h₁, hrest⟩ := hstep a l b h
    obtain ⟨b', hfold, hend⟩ := ih hrest
    refine ⟨b', ?_, hend⟩
    rw [foldlM_cons, h₁]
    exact hfold

end

end ExceptRules

import GoVite.Lib.Store

/-! Batches of writes to a key-value store: a record puts a value or deletes a key, and of the records of a key the last
one counts. -/

namespace KeyStore
open List

/-- A value to put, or none to delete the key. -/
abbrev Batch (κ α : Type*) := List (κ × Option α)

namespace Batch

variable {κ α : Type*} [LinearOrder κ]

def write (s : Store κ α) (r : κ × Option α) : Store κ α :=
  match r.2 with
  | some v => s.set r.1 v
  | none => s.erase r.1

def replay (b : Batch κ α) (s : Store κ α) : Store κ α := b.foldl write s

/-- What the batch says about a key. -/
def last? (b : Batch κ α) (k : κ) : Option (Option α) := (b.reverse.find? fun r => r.1 = k).map Prod.snd

variable (b : Batch κ α) (s : Store κ α) (r : κ × Option α) (k : κ)

@[simp] theorem replay_nil : replay [] s = s := rfl

theorem replay_append (b b' : Batch κ α) (s : Store κ α) : replay (b ++ b') s = replay b' (replay b s) := by
  simp [replay]

theorem get?_write : (write s r).get? k = if k = r.1 then r.2 else s.get? k := by
  obtain ⟨k', v⟩ := r
  cases v with
  | none => exact s.get?_erase k' k
  | some v => exact s.get?_set k' k v

@[simp] theorem last?_nil : last? ([] : Batch κ α) k = none := rfl

theorem last?_concat : last? (b ++ [r]) k = if r.1 = k then some r.2 else last? b k := by
  unfold last?
  by_cases h : r.1 = k <;> simp [h]

/-- The last record of a key decides; without one the store is unchanged there. -/
theorem get?_replay : (replay b s).get? k = (last? b k).getD (s.get? k) := by
  induction b using List.reverseRecOn with
  | nil => rfl
  | append_singleton b r ih =>
    rw [replay_append, last?_concat, replay, foldl_cons, foldl_nil, get?_write, ih]
    by_cases h : r.1 = k
    · rw [if_pos h, if_pos h.symm, Option.getD_some]
    · rw [if_neg h, if_neg (Ne.symm h)]

end Batch

/-- What is observed after a fold, when each step either gives the observation `v` or leaves it as it was. -/
theorem foldl_observe {σ ι γ : Type*} {f : σ → ι → σ} (obs : σ → γ) (Q : ι → Prop) [DecidablePred Q] (v : γ)
    (hstep : ∀ s x, obs (f s x) = if Q x then v else obs s) (xs : List ι) (s : σ) :
    obs (xs.foldl f s) = if ∃ x ∈ xs, Q x then v else obs s := by
  induction xs generalizing s with
  | nil => simp
  | cons x xs ih =>
    rw [foldl_cons, ih, hstep]
    by_cases hx : Q x <;> simp [hx]

end KeyStore

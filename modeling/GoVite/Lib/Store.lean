import Mathlib.Algebra.Order.BigOperators.Group.Finset
import Mathlib.Data.Prod.Lex
import Mathlib.Tactic.Abel
import Mathlib.Tactic.Linarith

/-! A key-value store that is iterated in key order: a list of entries with strictly increasing keys. Reading, writing,
deleting and summing are described by lookup and by one permutation; nothing above this file looks at the list. -/

namespace KeyStore
open List Prod

section Concat
variable {α : Type*} {a : α} {l : List α}

theorem forall_mem_concat {P : α → Prop} : (∀ x ∈ l ++ [a], P x) ↔ (∀ x ∈ l, P x) ∧ P a := by
  rw [forall_mem_append, forall_mem_singleton]

theorem pairwise_concat {R : α → α → Prop} : (l ++ [a]).Pairwise R ↔ l.Pairwise R ∧ ∀ x ∈ l, R x a := by
  simp [pairwise_append]

end Concat

structure Store (κ α : Type*) [LinearOrder κ] where
  entries : List (κ × α)
  sorted : (entries.map Prod.fst).Pairwise (· < ·)

variable {κ α β M : Type*} [LinearOrder κ]

instance [DecidableEq α] : DecidableEq (Store κ α) := fun s t =>
  decidable_of_iff (s.entries = t.entries) (by cases s; cases t; simp)

/-- Put an entry at its place, replacing the entry of the same key. -/
def insertEntry (k : κ) (v : α) : List (κ × α) → List (κ × α)
  | [] => [(k, v)]
  | e :: es => if k < e.1 then (k, v) :: e :: es else if k = e.1 then (k, v) :: es else e :: insertEntry k v es

variable {k x : κ} {v : α} {l : List (κ × α)}

theorem mem_keys_insertEntry (h : x ∈ (insertEntry k v l).map fst) : x = k ∨ x ∈ l.map fst := by
  induction l with
  | nil => simpa [insertEntry] using h
  | cons e es ih =>
    unfold insertEntry at h
    split_ifs at h with h1 h2
    · simpa using h
    · simp only [map_cons, mem_cons] at h
      tauto
    · simp only [map_cons, mem_cons] at h ⊢
      rcases h with h | h
      · exact Or.inr (Or.inl h)
      · rcases ih h with h | h
        · exact Or.inl h
        · exact Or.inr (Or.inr h)

theorem insertEntry_sorted (h : (l.map fst).Pairwise (· < ·)) : ((insertEntry k v l).map fst).Pairwise (· < ·) := by
  induction l with
  | nil => simp [insertEntry]
  | cons e es ih =>
    obtain ⟨hlt, hes⟩ := pairwise_cons.1 h
    unfold insertEntry
    split_ifs with h1 h2
    · refine pairwise_cons.2 ⟨fun x hx => ?_, h⟩
      rcases mem_cons.1 hx with rfl | hx
      · exact h1
      · exact h1.trans (hlt x hx)
    · exact pairwise_cons.2 ⟨fun x hx => h2 ▸ hlt x hx, hes⟩
    · refine pairwise_cons.2 ⟨fun x hx => ?_, ih hes⟩
      rcases mem_keys_insertEntry hx with rfl | hx
      · exact lt_of_le_of_ne (not_lt.1 h1) (Ne.symm h2)
      · exact hlt x hx

/-- Writing a key is deleting its old entry and adding the new one. -/
theorem insertEntry_perm (h : (l.map fst).Pairwise (· < ·)) :
    (insertEntry k v l).Perm ((k, v) :: l.filter (fun e => e.1 ≠ k)) := by
  induction l with
  | nil => simp [insertEntry]
  | cons e es ih =>
    obtain ⟨hlt, hes⟩ := pairwise_cons.1 h
    have hfilter : k ≤ e.1 → es.filter (fun e => e.1 ≠ k) = es := by
      intro hk
      refine filter_eq_self.2 fun x hx => decide_eq_true ?_
      exact (hk.trans_lt (hlt x.1 (mem_map_of_mem hx))).ne'
    unfold insertEntry
    split_ifs with h1 h2
    · rw [filter_cons_of_pos (by simpa using h1.ne'), hfilter h1.le]
    · rw [filter_cons_of_neg (by simp [h2]), hfilter h2.le]
    · rw [filter_cons_of_pos (by simpa using Ne.symm h2)]
      exact ((ih hes).cons e).trans (List.Perm.swap _ _ _)

namespace Store

def empty : Store κ α := ⟨[], List.Pairwise.nil⟩

def keys (s : Store κ α) : List κ := s.entries.map Prod.fst

def values (s : Store κ α) : List α := s.entries.map Prod.snd

def get? (s : Store κ α) (k : κ) : Option α := (s.entries.find? (fun e => e.1 = k)).map Prod.snd

/-- The value of a key, or `d` when the key is absent. -/
def getD (s : Store κ α) (k : κ) (d : α) : α := (s.get? k).getD d

def set (s : Store κ α) (k : κ) (v : α) : Store κ α := ⟨insertEntry k v s.entries, insertEntry_sorted s.sorted⟩

def erase (s : Store κ α) (k : κ) : Store κ α :=
  ⟨s.entries.filter (fun e => e.1 ≠ k), s.sorted.sublist (List.filter_sublist.map _)⟩

def sum [AddCommMonoid M] (s : Store κ α) (f : κ → α → M) : M := (s.entries.map fun e => f e.1 e.2).sum

theorem keys_nodup (s : Store κ α) : s.keys.Nodup := s.sorted.imp fun h => h.ne

theorem entries_nodup (s : Store κ α) : s.entries.Nodup := List.Nodup.of_map _ s.keys_nodup

variable {s : Store κ α} {e e' : κ × α}

theorem eq_of_mem_of_mem (h : e ∈ s.entries) (h' : e' ∈ s.entries)
    (hk : e.1 = e'.1) : e = e' := inj_on_of_nodup_map s.keys_nodup h h' hk

theorem get?_eq_some_iff : s.get? k = some v ↔ (k, v) ∈ s.entries := by
  unfold get?
  constructor
  · intro h
    obtain ⟨⟨k', v'⟩, he, rfl⟩ := Option.map_eq_some_iff.1 h
    obtain rfl : k' = k := by simpa using find?_some he
    exact mem_of_find?_eq_some he
  · intro h
    cases hf : s.entries.find? (fun e => e.1 = k) with
    | none => exact absurd (decide_eq_true rfl) (find?_eq_none.1 hf (k, v) h)
    | some e =>
      have hk : e.1 = k := by simpa using find?_some hf
      rw [eq_of_mem_of_mem (mem_of_find?_eq_some hf) h hk]
      rfl

theorem get?_eq_none_iff : s.get? k = none ↔ k ∉ s.keys := by
  rw [← not_iff_not, ← ne_eq, Option.ne_none_iff_exists', not_not, keys, mem_map]
  constructor
  · rintro ⟨v, hv⟩
    exact ⟨(k, v), get?_eq_some_iff.1 hv, rfl⟩
  · rintro ⟨⟨k', v⟩, hmem, rfl⟩
    exact ⟨v, get?_eq_some_iff.2 hmem⟩

/-- The first entry of a kind is the one with the least key. -/
theorem head?_filter_eq {p : κ × α → Bool} (he : e ∈ s.entries) (hp : p e)
    (hmin : ∀ e' ∈ s.entries, p e' → e.1 ≤ e'.1) : (s.entries.filter p).head? = some e := by
  have hmem : e ∈ s.entries.filter p := mem_filter.2 ⟨he, hp⟩
  have hsorted : (s.entries.filter p).Pairwise fun a b => a.1 < b.1 :=
    (pairwise_map.1 s.sorted).filter p
  cases hf : s.entries.filter p with
  | nil => rw [hf] at hmem; cases hmem
  | cons a rest =>
    have ha : a ∈ s.entries.filter p := by rw [hf]; exact mem_cons_self
    obtain ⟨ha, hpa⟩ := mem_filter.1 ha
    rw [hf] at hmem hsorted
    rcases mem_cons.1 hmem with rfl | hrest
    · rfl
    · exact absurd (hmin a ha hpa) (not_le.2 ((pairwise_cons.1 hsorted).1 e hrest))

variable {t : Store κ α}

/-- Two stores that read the same are the same. -/
theorem ext_get? (h : ∀ k, s.get? k = t.get? k) : s = t := by
  have hmem : ∀ e, e ∈ s.entries ↔ e ∈ t.entries := fun ⟨k, v⟩ => by
    rw [← get?_eq_some_iff, ← get?_eq_some_iff, h]
  have hperm : s.entries.Perm t.entries :=
    (perm_ext_iff_of_nodup s.entries_nodup t.entries_nodup).2 hmem
  have hsorted : ∀ r : Store κ α, r.entries.Pairwise fun a b => a.1 < b.1 := fun r =>
    pairwise_map.1 r.sorted
  have heq : s.entries = t.entries :=
    hperm.eq_of_pairwise (fun a b _ _ hab hba => absurd hab (lt_asymm hba)) (hsorted s) (hsorted t)
  cases s; cases t; subst heq; rfl

@[simp] theorem get?_empty (k : κ) : (empty : Store κ α).get? k = none := rfl

@[simp] theorem sum_empty [AddCommMonoid M] (f : κ → α → M) : (empty : Store κ α).sum f = 0 := rfl

theorem set_perm (s : Store κ α) (k : κ) (v : α) :
    (s.set k v).entries.Perm ((k, v) :: (s.erase k).entries) := insertEntry_perm s.sorted

theorem mem_entries_erase : e ∈ (s.erase k).entries ↔ e ∈ s.entries ∧ e.1 ≠ k := by simp [erase]

theorem mem_entries_set : e ∈ (s.set k v).entries ↔ e = (k, v) ∨ e ∈ s.entries ∧ e.1 ≠ k := by
  rw [(s.set_perm k v).mem_iff, mem_cons, mem_entries_erase]

theorem get?_set (s : Store κ α) (k k' : κ) (v : α) : (s.set k v).get? k' = if k' = k then some v else s.get? k' := by
  refine Option.ext fun w => ?_
  rw [get?_eq_some_iff, mem_entries_set]
  split_ifs with h
  · simp [h, eq_comm]
  · simp [h, get?_eq_some_iff]

theorem get?_set_cases {w : α} (h : (s.set k v).get? x = some w) : x = k ∧ w = v ∨ x ≠ k ∧ s.get? x = some w := by
  rw [get?_set] at h
  split_ifs at h with hx
  · exact .inl ⟨hx, (Option.some.inj h).symm⟩
  · exact .inr ⟨hx, h⟩

/-- What holds of every entry and of a new one. -/
theorem forall_set {P : κ → α → Prop} (hnew : P k v) (h : ∀ x w, s.get? x = some w → P x w) :
    ∀ x w, (s.set k v).get? x = some w → P x w := by
  intro x w hget
  obtain ⟨rfl, rfl⟩ | ⟨-, hget⟩ := get?_set_cases hget
  · exact hnew
  · exact h x w hget

theorem get?_erase (s : Store κ α) (k k' : κ) : (s.erase k).get? k' = if k' = k then none else s.get? k' := by
  refine Option.ext fun w => ?_
  rw [get?_eq_some_iff, mem_entries_erase]
  split_ifs with h
  · simp [h]
  · simp [h, get?_eq_some_iff]

@[simp] theorem get?_set_self (s : Store κ α) (k : κ) (v : α) : (s.set k v).get? k = some v := by
  rw [get?_set, if_pos rfl]

theorem get?_set_ne (s : Store κ α) {k' : κ} (v : α) (h : k' ≠ k) : (s.set k v).get? k' = s.get? k' := by
  rw [get?_set, if_neg h]

theorem get?_erase_cases (h : (s.erase k).get? x = some v) : x ≠ k ∧ s.get? x = some v := by
  rw [get?_erase] at h
  split_ifs at h with hx
  exact ⟨hx, h⟩

@[simp] theorem get?_erase_self (s : Store κ α) (k : κ) : (s.erase k).get? k = none := by
  rw [get?_erase, if_pos rfl]

theorem get?_erase_ne (s : Store κ α) {k' : κ} (h : k' ≠ k) : (s.erase k).get? k' = s.get? k' := by
  rw [get?_erase, if_neg h]

theorem get?_foldl_erase {ks : List κ} (h : (ks.foldl erase s).get? k = some v) : s.get? k = some v := by
  induction ks generalizing s with
  | nil => exact h
  | cons x ks ih =>
    have hget := ih h
    exact (get?_erase_cases hget).2

variable {ι : Type*}

theorem get?_foldl_set {key : ι → κ} {val : ι → α} {l : List ι}
    (h : (l.foldl (fun m a => m.set (key a) (val a)) s).get? k = some v) :
    (∃ a ∈ l, key a = k ∧ val a = v) ∨ s.get? k = some v := by
  induction l generalizing s with
  | nil => exact .inr h
  | cons a l ih =>
    rcases ih h with ⟨b, hb, hkey, hval⟩ | hset
    · exact .inl ⟨b, mem_cons_of_mem a hb, hkey, hval⟩
    · obtain ⟨hkey, hval⟩ | ⟨-, hset⟩ := get?_set_cases hset
      · exact .inl ⟨a, mem_cons_self, hkey.symm, hval.symm⟩
      · exact .inr hset

/-- A pass over the entries of a map, in any order, that sets each key to a value made from its old one. -/
theorem get?_foldl_update (g : Option α → β → α) {l : List (κ × β)} (hnodup : (l.map fst).Nodup) {o : Option β}
    (ho : ∀ b, (k, b) ∈ l ↔ o = some b) (s : Store κ α) :
    (l.foldl (fun m e => m.set e.1 (g (m.get? e.1) e.2)) s).get? k = o.elim (s.get? k) fun b => some (g (s.get? k) b) := by
  induction l generalizing s o with
  | nil =>
    obtain rfl : o = none := Option.eq_none_iff_forall_ne_some.2 fun b hb => not_mem_nil ((ho b).2 hb)
    rfl
  | cons e l ih =>
    rw [map_cons, nodup_cons] at hnodup
    rw [foldl_cons]
    by_cases hk : e.1 = k
    · obtain rfl : o = some e.2 := (ho e.2).1 (by simp [← hk])
      have hrest : ∀ b, (k, b) ∈ l ↔ none = some b := by
        refine fun b => ⟨fun hb => ?_, fun hb => by cases hb⟩
        exact absurd (mem_map.2 ⟨_, hb, hk.symm⟩) hnodup.1
      rw [ih hnodup.2 hrest, ← hk]
      simp
    · have hrest : ∀ b, (k, b) ∈ l ↔ o = some b := by
        intro b
        rw [← ho b, mem_cons]
        exact ⟨.inr, fun h => h.resolve_left fun heq => hk (congrArg fst heq).symm⟩
      rw [ih hnodup.2 hrest, get?_set_ne _ _ (Ne.symm hk)]

theorem getD_set (s : Store κ α) (k k' : κ) (v d : α) : (s.set k v).getD k' d = if k' = k then v else s.getD k' d := by
  unfold getD
  rw [get?_set]
  split_ifs <;> rfl

@[simp] theorem getD_set_self (s : Store κ α) (k : κ) (v d : α) : (s.set k v).getD k d = v := by
  rw [getD_set, if_pos rfl]

theorem getD_erase (s : Store κ α) (k k' : κ) (d : α) : (s.erase k).getD k' d = if k' = k then d else s.getD k' d := by
  unfold getD
  rw [get?_erase]
  split_ifs <;> rfl

theorem getD_of_get? (h : s.get? k = some v) (d : α) : s.getD k d = v := by
  rw [getD, h, Option.getD_some]

theorem erase_of_get?_none (h : s.get? k = none) : s.erase k = s := by
  refine ext_get? fun k' => ?_
  rw [get?_erase]
  split_ifs with hk
  · rw [hk, h]
  · rfl

variable {f : κ → α → M}

section Sum
variable [AddCommMonoid M]

/-- Deleting a key takes its entry out of every sum. -/
theorem sum_erase (s : Store κ α) (k : κ) (f : κ → α → M) :
    s.sum f = (s.erase k).sum f + ((s.get? k).map (f k)).getD 0 := by
  cases hk : s.get? k with
  | none => simp [erase_of_get?_none hk]
  | some v =>
    have hperm : s.entries.Perm ((k, v) :: (s.erase k).entries) := by
      refine (perm_ext_iff_of_nodup s.entries_nodup ?_).2 fun e => ?_
      · exact nodup_cons.2 ⟨fun h => (mem_entries_erase.1 h).2 rfl, entries_nodup _⟩
      · rw [mem_cons, mem_entries_erase]
        have hmem := get?_eq_some_iff.1 hk
        refine ⟨fun h => ?_, ?_⟩
        · by_cases he : e.1 = k
          · exact Or.inl (eq_of_mem_of_mem h hmem he)
          · exact Or.inr ⟨h, he⟩
        · rintro (rfl | ⟨h, -⟩)
          · exact hmem
          · exact h
    have hsum := (hperm.map fun e => f e.1 e.2).sum_eq
    simp only [map_cons, sum_cons] at hsum
    simp only [sum, hsum, Option.map_some, Option.getD_some, add_comm]

theorem sum_set_eq (s : Store κ α) (k : κ) (v : α) (f : κ → α → M) : (s.set k v).sum f = (s.erase k).sum f + f k v := by
  have hsum := ((s.set_perm k v).map fun e => f e.1 e.2).sum_eq
  rw [sum, hsum, add_comm]
  rfl

/-- Writing a key exchanges its old entry for the new one in every sum. -/
theorem sum_set (s : Store κ α) (k : κ) (v : α) (f : κ → α → M) :
    (s.set k v).sum f + ((s.get? k).map (f k)).getD 0 = s.sum f + f k v := by
  rw [sum_set_eq, s.sum_erase k f]
  abel

/-- The same exchange when an absent key counts as the default value, whose weight is zero. -/
theorem sum_set_getD (s : Store κ α) (k : κ) (v d : α) (f : κ → α → M) (hd : f k d = 0) :
    (s.set k v).sum f + f k (s.getD k d) = s.sum f + f k v := by
  rw [← sum_set s k v f, getD]
  cases s.get? k <;> simp [hd]

theorem sum_add (s : Store κ α) (f g : κ → α → M) :
    s.sum (fun k v => f k v + g k v) = s.sum f + s.sum g := by simp [sum]

theorem sum_congr {g : κ → α → M} (h : ∀ k v, s.get? k = some v → f k v = g k v) : s.sum f = s.sum g := by
  exact congrArg List.sum (map_congr_left fun e he => h e.1 e.2 (get?_eq_some_iff.2 he))

theorem sum_eq_zero (h : ∀ k v, s.get? k = some v → f k v = 0) : s.sum f = 0 := by
  rw [sum_congr h]
  simp [sum]

/-- The sum over a finite set of keys outside of which there are no entries. -/
theorem sum_eq_sum_keys (s : Store κ α) (S : Finset κ) (f : κ → α → M) (hS : ∀ k, k ∉ S → s.get? k = none) :
    s.sum f = ∑ k ∈ S, ((s.get? k).map (f k)).getD 0 := by
  induction S using Finset.induction_on generalizing s with
  | empty =>
    refine sum_eq_zero fun k v hk => ?_
    rw [hS k (Finset.notMem_empty k)] at hk
    cases hk
  | insert k S hk ih =>
    have hrest : ∑ x ∈ S, (((s.erase k).get? x).map (f x)).getD 0 = ∑ x ∈ S, ((s.get? x).map (f x)).getD 0 :=
      Finset.sum_congr rfl fun x hx => by rw [get?_erase_ne s (ne_of_mem_of_not_mem hx hk)]
    have herase : ∀ x, x ∉ S → (s.erase k).get? x = none := by
      intro x hx
      rw [get?_erase]
      split_ifs with hxk
      · rfl
      · exact hS x (by simp [hxk, hx])
    rw [Finset.sum_insert hk, s.sum_erase k f, ih _ herase, hrest, add_comm]

variable {g : κ → β → M}

/-- Two stores have the same sum if every key weighs the same in both, an absent one nothing. -/
theorem sum_eq_of_weights {t : Store κ β}
    (h : ∀ k, ((s.get? k).map (f k)).getD 0 = ((t.get? k).map (g k)).getD 0) : s.sum f = t.sum g := by
  have hs : ∀ k, k ∉ s.keys.toFinset ∪ t.keys.toFinset → s.get? k = none := by
    intro k hk
    exact get?_eq_none_iff.2 fun hmem => hk (Finset.mem_union_left _ (mem_toFinset.2 hmem))
  have ht : ∀ k, k ∉ s.keys.toFinset ∪ t.keys.toFinset → t.get? k = none := by
    intro k hk
    exact get?_eq_none_iff.2 fun hmem => hk (Finset.mem_union_right _ (mem_toFinset.2 hmem))
  rw [s.sum_eq_sum_keys _ f hs, t.sum_eq_sum_keys _ g ht]
  exact Finset.sum_congr rfl fun k _ => h k

/-- A key that reads as a default without weight weighs nothing. -/
theorem map_getD_eq (s : Store κ α) {d : α} (hd : f k d = 0) : ((s.get? k).map (f k)).getD 0 = f k (s.getD k d) := by
  rw [getD]
  cases s.get? k <;> simp [hd]

/-- Two stores have the same sum if what is read of every key weighs the same and defaults weigh nothing. -/
theorem sum_eq_of_getD {t : Store κ β} (d : α) (d' : β)
    (hf : ∀ k, f k d = 0) (hg : ∀ k, g k d' = 0) (h : ∀ k, f k (s.getD k d) = g k (t.getD k d')) : s.sum f = t.sum g :=
  sum_eq_of_weights fun k => by rw [map_getD_eq s (hf k), map_getD_eq t (hg k), h]

/-- Two stores that differ in one key only differ by the weights of that key. -/
theorem sum_add_of_getD_eq (k : κ) (d : α) (hd : ∀ k, f k d = 0)
    (h : ∀ k', k' ≠ k → t.getD k' d = s.getD k' d) : t.sum f + f k (s.getD k d) = s.sum f + f k (t.getD k d) := by
  have hrest : (t.erase k).sum f = (s.erase k).sum f := by
    refine sum_eq_of_weights fun k' => ?_
    rw [map_getD_eq _ (hd k'), map_getD_eq _ (hd k'), getD_erase, getD_erase]
    split_ifs with hk
    · rfl
    · rw [h k' hk]
  rw [t.sum_erase k f, s.sum_erase k f, map_getD_eq t (hd k), map_getD_eq s (hd k), hrest]
  abel

end Sum

/-- Where no entry counts negatively, any set of keys holds at most the whole sum. -/
theorem sum_keys_le_of_nonneg [AddCommMonoid M] [PartialOrder M] [IsOrderedAddMonoid M] (s : Store κ α) (S : Finset κ)
    (hf : ∀ k v, s.get? k = some v → 0 ≤ f k v) :
    ∑ k ∈ S, ((s.get? k).map (f k)).getD 0 ≤ s.sum f := by
  have hkeys : ∀ k, k ∉ S ∪ s.keys.toFinset → s.get? k = none := fun k hk =>
    get?_eq_none_iff.2 fun hmem => hk (Finset.mem_union_right S (mem_toFinset.2 hmem))
  rw [sum_eq_sum_keys s _ f hkeys]
  refine Finset.sum_le_sum_of_subset_of_nonneg Finset.subset_union_left fun k _ _ => ?_
  cases hk : s.get? k with
  | none => exact le_refl 0
  | some v => exact hf k v hk

/-- Any set of keys holds at most the whole sum. -/
theorem sum_keys_le (s : Store κ α) (S : Finset κ) (f : κ → α → ℕ) :
    ∑ k ∈ S, ((s.get? k).map (f k)).getD 0 ≤ s.sum f := s.sum_keys_le_of_nonneg S fun _ _ _ => Nat.zero_le _

/-- Setting entries one after the other sums to at most what is set. -/
theorem sum_foldl_set_le (key : ι → κ) (val : ι → α) {f : κ → α → ℤ} {l : List ι}
    (hl : ∀ a ∈ l, 0 ≤ f (key a) (val a)) (hs : ∀ k v, s.get? k = some v → 0 ≤ f k v) :
    (l.foldl (fun m a => m.set (key a) (val a)) s).sum f ≤ s.sum f + (l.map fun a => f (key a) (val a)).sum := by
  induction l generalizing s with
  | nil => simp
  | cons a l ih =>
    have hset : ∀ k v, (s.set (key a) (val a)).get? k = some v → 0 ≤ f k v := fun k v hk => by
      rcases get?_foldl_set (l := [a]) hk with ⟨b, hb, rfl, rfl⟩ | hk
      · rw [mem_singleton.1 hb]
        exact hl a mem_cons_self
      · exact hs k v hk
    refine (ih (fun b hb => hl b (mem_cons_of_mem a hb)) hset).trans ?_
    -- what was under the key is lost
    have hlost : 0 ≤ ((s.get? (key a)).map (f (key a))).getD 0 := by
      cases hk : s.get? (key a) with
      | none => exact le_refl 0
      | some v => exact hs _ v hk
    have hone := s.sum_set (key a) (val a) f
    rw [map_cons, sum_cons]
    linarith

/-- What is read of one key weighs at most the whole sum. -/
theorem le_sum_getD (s : Store κ α) (k : κ) (d : α) {f : κ → α → ℕ} (hd : f k d = 0) : f k (s.getD k d) ≤ s.sum f := by
  rw [s.sum_erase k f, map_getD_eq s hd]
  exact Nat.le_add_left _ _

end Store
end KeyStore

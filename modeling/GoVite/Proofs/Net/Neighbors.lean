import GoVite.Spec.Net.Neighbors
import Mathlib.Data.List.Basic
import Mathlib.Data.List.Perm.Basic
import Mathlib.Order.MinMax
import Mathlib.Order.Nat
import Mathlib.Tactic.SplitIfs

/-! A full list of neighbours loses the first node that is further than the new one, not the last. -/

namespace GoVite.Net
open List

theorem search_le_iff {f : ℕ → Bool} (hf : ∀ a b, a ≤ b → f a → f b) {fuel i j : ℕ} (hfuel : j ≤ i + fuel)
    (hi : ∀ k < i, ¬ f k) (hj : ∀ k ≥ j, f k) (k : ℕ) : search f fuel i j ≤ k ↔ f k := by
  have hdone : ∀ {i j : ℕ}, j ≤ i → (∀ k < i, ¬ f k) → (∀ k ≥ j, f k) → (i ≤ k ↔ f k) := by
    intro i j hle hi hj
    exact ⟨fun h => hj k (hle.trans h), fun h => not_lt.1 fun hlt => hi k hlt h⟩
  induction fuel generalizing i j with
  | zero => exact hdone hfuel hi hj
  | succ fuel ih =>
    rw [search]
    split_ifs with hlt hmid
    · exact ih (by omega) hi fun k hk => hf _ k hk hmid
    · exact ih (by omega) (fun k hk hfk => hmid (hf k _ (by omega) hfk)) hj
    · exact hdone (not_lt.1 hlt) hi hj

namespace Closet
variable {c : Closet} {n : Node}

def Sorted (c : Closet) : Prop := c.nodes.Pairwise fun m n => c.dist m ≤ c.dist n

theorem further_le_iff (hs : c.Sorted) (k : ℕ) :
    c.further n ≤ k ↔ ∀ m, c.nodes[k]? = some m → c.dist n < c.dist m := by
  rw [further, search_le_iff _ (by omega) (by omega)]
  · simp [Option.all_eq_true]
  · intro k hk
    simp [getElem?_eq_none hk]
  · intro i j hij hi
    rw [Sorted, pairwise_iff_getElem] at hs
    grind

/-- The list is cut where the new node belongs. -/
theorem further_spec (hs : c.Sorted) (n : Node) : c.further n ≤ c.nodes.length ∧
    (∀ m ∈ c.nodes.take (c.further n), c.dist m ≤ c.dist n) ∧ ∀ m ∈ c.nodes.drop (c.further n), c.dist n < c.dist m := by
  refine ⟨(further_le_iff hs _).2 (by simp), fun m hm => ?_, fun m hm => ?_⟩
  · obtain ⟨k, hk, rfl⟩ := mem_take_iff_getElem.1 hm
    have := mt (further_le_iff (n := n) hs k).2 (by omega)
    grind
  · obtain ⟨k, hk, rfl⟩ := mem_drop_iff_getElem.1 hm
    exact (further_le_iff hs _).1 (Nat.le_add_right _ k) _ (by grind)

/-- The nodes that a push takes out of a full list. -/
def overwrites (c : Closet) (n : Node) : List Node :=
  if c.cap ≤ c.nodes.length then (c.nodes[c.further n]?).toList else []

/-- A full list without a further node refuses the new one. Otherwise that stands before all that are further, and the
list loses none or, if it is full, one. -/
theorem push_cases (hs : c.Sorted) (n : Node) :
    (∃ before after, c.nodes = before ++ (c.overwrites n ++ after) ∧ (∀ m ∈ before, c.dist m ≤ c.dist n) ∧
      (∀ m ∈ after, c.dist n < c.dist m) ∧ (∀ m ∈ c.overwrites n, c.dist n < c.dist m) ∧
      (c.overwrites n).length = (if c.cap ≤ c.nodes.length then 1 else 0) ∧
      c.push n = { c with nodes := before ++ n :: after }) ∨
    c.cap ≤ c.nodes.length ∧ (∀ m ∈ c.nodes, c.dist m ≤ c.dist n) ∧ c.push n = c ∧ c.overwrites n = [] := by
  obtain ⟨hle, hbefore, hafter⟩ := further_spec hs n
  rw [push, overwrites]
  by_cases hfull : c.cap ≤ c.nodes.length
  · simp only [if_pos hfull]
    by_cases hlt : c.further n < c.nodes.length
    · rw [drop_eq_getElem_cons hlt, forall_mem_cons] at hafter
      rw [if_pos hlt, getElem?_eq_getElem hlt, set_eq_take_append_cons_drop, if_pos hlt]
      refine .inl ⟨_, _, ?_, hbefore, hafter.2, by simpa using hafter.1, rfl, rfl⟩
      simp [← drop_eq_getElem_cons hlt]
    · rw [take_of_length_le (not_lt.1 hlt)] at hbefore
      rw [if_neg hlt, getElem?_eq_none (not_lt.1 hlt)]
      exact .inr ⟨hfull, hbefore, rfl, rfl⟩
  · simp only [if_neg hfull]
    exact .inl ⟨_, _, (take_append_drop _ _).symm, hbefore, hafter, by simp, rfl, rfl⟩

@[simp] theorem push_cap (c : Closet) (n : Node) : (c.push n).cap = c.cap := by
  unfold push
  split_ifs <;> rfl

@[simp] theorem push_dist (c : Closet) (n : Node) : (c.push n).dist = c.dist := by
  unfold push
  split_ifs <;> rfl

theorem Sorted.push (hs : c.Sorted) (n : Node) : (c.push n).Sorted := by
  unfold Sorted
  rw [push_dist]
  obtain ⟨before, after, hnodes, hbefore, hafter, -, -, hpush⟩ | ⟨-, -, hpush, -⟩ := push_cases hs n
  · rw [Sorted, hnodes] at hs
    rw [hpush]
    simp only [pairwise_append, pairwise_cons] at hs ⊢
    refine ⟨hs.1, ⟨fun m hm => (hafter m hm).le, hs.2.1.2.1⟩, ?_⟩
    grind
  · rw [hpush]
    exact hs

/-- The list after the pushes is sorted and as long as it can be, and has some of all the nodes. -/
structure Kept (c : Closet) (ns : List Node) (d : Closet) : Prop where
  sorted : d.nodes.Pairwise fun m n => c.dist m ≤ c.dist n
  length : d.nodes.length = min c.cap (c.nodes.length + ns.length)
  left : ∃ left, (d.nodes ++ left).Perm (c.nodes ++ ns)

theorem pushAll_kept (ns : List Node) (hs : c.Sorted) (hcap : c.nodes.length ≤ c.cap) :
    Kept c ns (ns.foldl Closet.push c) := by
  induction ns generalizing c with
  | nil => exact ⟨hs, by simpa using hcap, [], by simp⟩
  | cons n ns ih =>
    have hpushed := push_cases hs n
    obtain ⟨hsorted, hlength, left, hperm⟩ := ih (hs.push n) (by grind)
    rw [push_dist] at hsorted
    obtain ⟨before, after, hnodes, -, -, -, hover, hpush⟩ | ⟨hfull, -, hpush, -⟩ := hpushed
    · refine ⟨hsorted, by grind, c.overwrites n ++ left, perm_iff_count.2 fun m => ?_⟩
      have := hperm.count_eq m
      simp only [foldl_cons, hpush, hnodes, count_append, count_cons] at this ⊢
      omega
    · refine ⟨hsorted, by grind, n :: left, perm_iff_count.2 fun m => ?_⟩
      have := hperm.count_eq m
      simp only [foldl_cons, hpush, count_append, count_cons] at this ⊢
      omega

/-- How many of the nodes are within a distance. -/
def within (c : Closet) (v : ℕ) (ns : List Node) : ℕ := ns.countP (c.dist · ≤ v)

theorem within_mono (c : Closet) {u v : ℕ} (h : u ≤ v) (ns : List Node) : c.within u ns ≤ c.within v ns :=
  countP_mono_left fun _ _ hm => decide_eq_true ((of_decide_eq_true hm).trans h)

/-- The distance of the first of some nodes, or `v` if there are none. -/
def bound (c : Closet) (v : ℕ) (ns : List Node) : ℕ := (ns.head?.map c.dist).getD v

/-- Nodes in the order of their distances, none beyond `v`. -/
def Ordered (c : Closet) (v : ℕ) (ns : List Node) : Prop :=
  ns.Pairwise (fun m n => c.dist m ≤ c.dist n) ∧ ∀ m ∈ ns, c.dist m ≤ v

theorem Ordered.bound_le {v : ℕ} {ns : List Node} (h : c.Ordered v ns) : c.bound v ns ≤ v := by
  cases ns with
  | nil => exact le_rfl
  | cons m ns => exact h.2 m mem_cons_self

theorem Ordered.cons {v : ℕ} {ns : List Node} (h : c.Ordered v ns) (hn : c.dist n ≤ c.bound v ns) :
    c.Ordered v (n :: ns) := by
  refine ⟨pairwise_cons.2 ⟨fun m hm => ?_, h.1⟩, forall_mem_cons.2 ⟨hn.trans h.bound_le, h.2⟩⟩
  cases ns with
  | nil => cases hm
  | cons k ns =>
    rcases mem_cons.1 hm with rfl | hm
    · exact hn
    · exact hn.trans ((pairwise_cons.1 h.1).1 m hm)

/-- A push brings one more node within the distances from that of the new node up to that of the one it takes out. -/
theorem within_push (hs : c.Sorted) (hfull : c.cap ≤ c.nodes.length) (n : Node) :
    (∃ x, c.dist n < c.dist x ∧ ∀ u, c.within u (c.push n).nodes =
        c.within u c.nodes + (if c.dist n ≤ u ∧ u < c.dist x then 1 else 0) ∧
        (c.dist n ≤ u → u < c.dist x → c.within u c.nodes = c.within (c.dist n) c.nodes)) ∨
      c.push n = c ∧ c.within (c.dist n) c.nodes = c.nodes.length := by
  obtain ⟨before, after, hnodes, hbefore, hafter, hover, hlength, hpush⟩ | ⟨-, hfar, hpush, -⟩ := push_cases hs n
  · rw [if_pos hfull] at hlength
    obtain ⟨x, hx⟩ := length_eq_one_iff.1 hlength
    rw [hx] at hnodes hover
    have hlt := hover x mem_cons_self
    refine .inl ⟨x, hlt, fun u => ⟨?_, fun hu hux => ?_⟩⟩
    · rw [hpush, hnodes]
      simp only [within, countP_append, countP_cons, decide_eq_true_eq, cons_append, nil_append]
      split_ifs <;> omega
    · -- nothing in the list lies between the new node and the one taken out
      have hsorted : ∀ m ∈ after, c.dist x ≤ c.dist m := by
        rw [Sorted, hnodes] at hs
        exact (pairwise_cons.1 (pairwise_append.1 hs).2.1).1
      refine countP_congr fun m hm => ?_
      rw [hnodes] at hm
      rcases mem_append.1 hm with hm | hm
      · have := hbefore m hm
        simp only [decide_eq_true_eq]
        omega
      · have : c.dist x ≤ c.dist m := (mem_cons.1 hm).elim (fun h => h ▸ le_rfl) (hsorted m)
        simp only [decide_eq_true_eq]
        omega
  · exact .inr ⟨hpush, countP_eq_length.2 fun m hm => decide_eq_true (hfar m hm)⟩

/-- What is within a distance in the end: as many as can be chosen from the list and then, in their order, from the
nodes pushed, in the order of their distances. -/
theorem le_within_pushAll_iff {v j : ℕ} (ns : List Node) (hs : c.Sorted) (hfull : ns = [] ∨ c.cap ≤ c.nodes.length)
    (hj : j ≤ c.nodes.length) : j ≤ c.within v (ns.foldl Closet.push c).nodes ↔
      ∃ later, later <+ ns ∧ c.Ordered v later ∧ j ≤ c.within (c.bound v later) c.nodes + later.length := by
  induction ns generalizing c with
  | nil => exact ⟨fun h => ⟨[], .slnil, ⟨.nil, by simp⟩, h⟩, fun ⟨later, hsub, _, h⟩ => by rwa [sublist_nil.1 hsub] at h⟩
  | cons n ns ih =>
    replace hfull := hfull.resolve_left (cons_ne_nil _ _)
    have hlength : c.nodes.length ≤ (c.push n).nodes.length := by
      obtain ⟨before, after, hnodes, -, -, -, hover, hpush⟩ | ⟨-, -, hpush, -⟩ := push_cases hs n
      · rw [hpush, hnodes]
        simp only [length_append, hover, if_pos hfull, length_cons]
        omega
      · rw [hpush]
    have hfull' : (c.push n).cap ≤ (c.push n).nodes.length := (push_cap c n).le.trans (hfull.trans hlength)
    have hsame : (c.push n).within = c.within ∧ (c.push n).bound = c.bound ∧ (c.push n).Ordered = c.Ordered := by
      unfold within bound Ordered
      rw [push_dist]
      exact ⟨rfl, rfl, rfl⟩
    rw [foldl_cons, ← hsame.1, ih (hs.push n) (.inr hfull') (hj.trans hlength), hsame.1, hsame.2.1, hsame.2.2]
    obtain ⟨x, hx, hpush⟩ | ⟨hpush, hall⟩ := within_push hs hfull n
    · constructor
      · rintro ⟨later, hsub, hord, hle⟩
        rw [(hpush _).1] at hle
        split_ifs at hle with hu
        · refine ⟨n :: later, hsub.cons_cons n, hord.cons hu.1, ?_⟩
          rw [(hpush _).2 hu.1 hu.2] at hle
          simpa [bound, Nat.add_assoc, Nat.add_comm 1] using hle
        · exact ⟨later, hsub.cons n, hord, hle⟩
      · rintro ⟨later, hsub, hord, hle⟩
        rcases sublist_cons_iff.1 hsub with hns | ⟨later, rfl, hns⟩
        · exact ⟨later, hns, hord, hle.trans (by rw [(hpush _).1]; omega)⟩
        · have hord' : c.Ordered v later := ⟨hord.1.of_cons, fun m hm => hord.2 m (mem_cons_of_mem n hm)⟩
          refine ⟨later, hns, hord', ?_⟩
          have hnear : c.dist n ≤ c.bound v later := by
            cases later with
            | nil => exact hord.2 n mem_cons_self
            | cons k later => exact (pairwise_cons.1 hord.1).1 k mem_cons_self
          have hmono := c.within_mono hnear (c.push n).nodes
          rw [(hpush (c.dist n)).1, if_pos ⟨le_rfl, hx⟩] at hmono
          simp only [bound, head?_cons, Option.map_some, Option.getD_some, length_cons] at hle
          omega
    · rw [hpush]
      refine ⟨fun ⟨later, hsub, h⟩ => ⟨later, hsub.cons n, h⟩, fun ⟨later, hsub, hord, hle⟩ => ?_⟩
      rcases sublist_cons_iff.1 hsub with hns | ⟨later, rfl, -⟩
      · exact ⟨later, hns, hord, hle⟩
      · -- the list is full of nodes that are not further
        have hn := hord.2 n mem_cons_self
        refine ⟨[], nil_sublist _, ⟨.nil, by simp⟩, ?_⟩
        have := c.within_mono hn c.nodes
        simp only [bound, head?_nil, Option.map_none, Option.getD_none, length_nil]
        omega

end Closet

open Closet

/-- The nodes given are as many as there are or are asked for, sorted, and the others are not closer. -/
def Closest (target : NodeID) (count : ℕ) (stored nodes : List Node) : Prop :=
  nodes.length = min count stored.length ∧ nodes.Pairwise (fun m n => distance target m.id ≤ distance target n.id) ∧
    ∃ left, (nodes ++ left).Perm stored ∧ ∀ n ∈ left, ∀ m ∈ nodes, distance target m.id ≤ distance target n.id

theorem findNeighbors_eq (buckets : List (List Node)) (target : NodeID) (count : ℕ) :
    findNeighbors buckets target count =
      ((buckets.flatten.filter (·.id ≠ target)).foldl push { cap := count, pivot := target : Closet }).nodes := by
  rw [findNeighbors, foldl_filter, foldl_flatten]
  simp

/-- For every distance, as many of the nodes within it as are asked for, or all, can be listed by distance so that those
that come after the first `count` of the scan stand last and in the order of the scan. -/
def ScannedInOrder (target : NodeID) (count : ℕ) (others : List Node) : Prop :=
  ∀ v, ∃ first later, first <+~ others.take count ∧ later <+ others.drop count ∧
    (first ++ later).Pairwise (fun m n => distance target m.id ≤ distance target n.id) ∧
    (∀ m ∈ first ++ later, distance target m.id ≤ v) ∧
    min count (others.countP fun m => distance target m.id ≤ v) ≤ (first ++ later).length

section
variable (others : List Node) (target : NodeID) (count : ℕ)

/-- The list after the whole scan. -/
def scanned : Closet := others.foldl push { cap := count, pivot := target }

/-- The first nodes fill the list and are all in it. -/
theorem scanned_take_perm : (scanned (others.take count) target count).nodes.Perm (others.take count) := by
  obtain ⟨-, hlength, left, hperm⟩ :=
    pushAll_kept (c := { cap := count, pivot := target }) (others.take count) .nil (Nat.zero_le _)
  have hrest := hperm.length_eq
  simp only [length_append, length_nil, length_take] at hlength hrest
  obtain rfl : left = [] := length_eq_zero_iff.1 (by omega)
  rw [append_nil] at hperm
  exact hperm

theorem scanned_dist (ns : List Node) : (scanned ns target count).dist = (fun n => distance target n.id) ∧
    (scanned ns target count).cap = count := by
  unfold scanned
  refine foldlRecOn ns push (motive := fun c => c.dist = (fun n => distance target n.id) ∧ c.cap = count) ?_ ?_
  · exact ⟨rfl, rfl⟩
  · exact fun c hc n _ => ⟨(push_dist c n).trans hc.1, (push_cap c n).trans hc.2⟩

/-- How many nodes within a distance the scan ends with. -/
theorem le_within_scanned_iff {v j : ℕ} (hj : j ≤ min count others.length) :
    j ≤ (scanned others target count).nodes.countP (fun m => distance target m.id ≤ v) ↔
      ∃ first later, first <+~ others.take count ∧ later <+ others.drop count ∧
        (first ++ later).Pairwise (fun m n => distance target m.id ≤ distance target n.id) ∧
        (∀ m ∈ first ++ later, distance target m.id ≤ v) ∧ j ≤ (first ++ later).length := by
  obtain ⟨hdist, hcap⟩ := scanned_dist target count (others.take count)
  have hperm := scanned_take_perm others target count
  set c := scanned (others.take count) target count with hc
  have hpair : c.nodes.Pairwise fun m n => distance target m.id ≤ distance target n.id :=
    (pushAll_kept (c := { cap := count, pivot := target }) (others.take count) .nil (Nat.zero_le _)).sorted
  have hsorted : c.Sorted := by
    rw [Sorted, hdist]
    exact hpair
  have hsplit : scanned others target count = (others.drop count).foldl push c := by
    rw [hc, scanned, scanned, ← foldl_append, take_append_drop]
  have hlength : c.nodes.length = min count others.length := hperm.length_eq.trans length_take
  have hfull : others.drop count = [] ∨ c.cap ≤ c.nodes.length := by
    rw [drop_eq_nil_iff, hcap, hlength]
    omega
  have hiff := le_within_pushAll_iff (v := v) (j := j) (others.drop count) hsorted hfull (hlength ▸ hj)
  simp only [within, Ordered, hdist] at hiff
  rw [hsplit, hiff]
  constructor
  · rintro ⟨later, hsub, hord, hle⟩
    have hb : c.bound v later ≤ v := Ordered.bound_le (by simpa only [Ordered, hdist] using hord)
    refine ⟨c.nodes.filter (c.dist · ≤ c.bound v later), later, (filter_sublist.subperm).trans hperm.subperm, hsub,
      pairwise_append.2 ⟨hpair.sublist filter_sublist, hord.1, fun m hm n hn => ?_⟩, fun m hm => ?_, ?_⟩
    · have hm := of_decide_eq_true (mem_filter.1 hm).2
      rw [hdist] at hm
      cases later with
      | nil => cases hn
      | cons k later =>
        simp only [bound, head?_cons, Option.map_some, Option.getD_some, hdist] at hm
        rcases mem_cons.1 hn with rfl | hn
        · exact hm
        · exact hm.trans ((pairwise_cons.1 hord.1).1 n hn)
    · rcases mem_append.1 hm with hm | hm
      · have hm := of_decide_eq_true (mem_filter.1 hm).2
        rw [hdist] at hm
        exact hm.trans hb
      · exact hord.2 m hm
    · rw [length_append, ← countP_eq_length_filter, hdist]
      exact hle
  · rintro ⟨first, later, hfirst, hsub, hord, hv, hle⟩
    obtain ⟨-, hlater, hbetween⟩ := pairwise_append.1 hord
    refine ⟨later, hsub, ⟨hlater, fun m hm => hv m (mem_append_right _ hm)⟩, ?_⟩
    have hall : first.countP (fun m => distance target m.id ≤ c.bound v later) = first.length := by
      refine countP_eq_length.2 fun m hm => decide_eq_true ?_
      cases later with
      | nil => exact hv m (mem_append_left _ hm)
      | cons k later =>
        simp only [bound, head?_cons, Option.map_some, Option.getD_some, hdist]
        exact hbetween m hm k mem_cons_self
    have hcount := (hfirst.trans hperm.symm.subperm).countP_le (p := fun m => distance target m.id ≤ c.bound v later)
    rw [length_append] at hle
    omega

end

/-- The closest nodes are returned exactly if the scan meets the nodes in such an order. -/
theorem findNeighbors_closest_iff (buckets : List (List Node)) (target : NodeID) (count : ℕ) :
    let others := buckets.flatten.filter (·.id ≠ target)
    Closest target count others (findNeighbors buckets target count) ↔ ScannedInOrder target count others := by
  intro others
  rw [findNeighbors_eq]
  change Closest target count others (scanned others target count).nodes ↔ _
  obtain ⟨hsorted, hlength, left, hperm⟩ :=
    pushAll_kept (c := { cap := count, pivot := target }) others .nil (Nat.zero_le _)
  change (scanned others target count).nodes.length = _ at hlength
  rw [length_nil, Nat.zero_add] at hlength
  -- of the nodes within each distance as many as possible are returned
  have hcounts : ScannedInOrder target count others ↔ ∀ v, min count (others.countP fun m => distance target m.id ≤ v) ≤
      (scanned others target count).nodes.countP fun m => distance target m.id ≤ v :=
    forall_congr' fun v => (le_within_scanned_iff others target count
      (min_le_min_left count countP_le_length)).symm
  rw [hcounts]
  constructor
  · rintro ⟨-, -, left, hleft, hcloser⟩ v
    have hsplit := hleft.countP_eq fun m => decide (distance target m.id ≤ v)
    rw [countP_append] at hsplit
    by_cases hall : ∀ m ∈ (scanned others target count).nodes, distance target m.id ≤ v
    · rw [countP_eq_length.2 fun m hm => decide_eq_true (hall m hm), hlength]
      exact min_le_min_left count countP_le_length
    · -- a node beyond the distance is returned, so none within it is left out
      obtain ⟨m, hm, hv⟩ : ∃ m ∈ (scanned others target count).nodes, v < distance target m.id := by simpa using hall
      have hnone : left.countP (fun m => distance target m.id ≤ v) = 0 :=
        countP_eq_zero.2 fun n hn => by simpa using hv.trans_le (hcloser n hn m hm)
      omega
  · intro hcount
    refine ⟨hlength, hsorted, left, hperm, fun n hn m hm => ?_⟩
    refine not_lt.1 fun hlt => ?_
    have hsplit := hperm.countP_eq fun k => decide (distance target k.id ≤ distance target n.id)
    rw [countP_append, nil_append] at hsplit
    have hout := countP_pos_iff (p := fun k => decide (distance target k.id ≤ distance target n.id)).2
      ⟨n, hn, decide_eq_true le_rfl⟩
    have hbeyond : (scanned others target count).nodes.countP (fun k => distance target k.id ≤ distance target n.id) <
        (scanned others target count).nodes.length :=
      lt_of_le_of_ne countP_le_length fun heq => absurd (countP_eq_length.1 heq m hm) (by simpa using hlt)
    have := hcount (distance target n.id)
    simp only [scanned] at this hbeyond hlength
    omega

/-- The node at distance 3 is left out and that at distance 5 is returned. -/
theorem findNeighbors_drops_closer :
    let node (b : BitVec 8) : Node := ⟨(Vector.replicate 31 0#8).push b⟩
    let target := (node 0#8).id
    findNeighbors [[node 4#8, node 16#8, node 1#8]] target 2 = [node 1#8, node 16#8] ∧
      distance target (node 4#8).id = 3 ∧ distance target (node 16#8).id = 5 := by
  decide

end GoVite.Net

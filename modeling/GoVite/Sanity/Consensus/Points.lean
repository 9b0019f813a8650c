import GoVite.Sanity.Consensus.Slots
import GoVite.Spec.Consensus.Points
import Mathlib.Data.List.TakeWhile

/-! The blocks of a window on a chain: a chain is cut at a time; the genesis block is in no window. -/

namespace GoVite.Consensus
open KeyStore List

variable {c : List Hash}

namespace BlockWorld
variable {W : BlockWorld}

structure Linked (W : BlockWorld) (c : List Hash) : Prop where
  chain : c.IsChain (PointState.Follows W)
  last : c.getLast? = some W.genesis

/-- The blocks from a time on, newest first, without the genesis block. -/
def window (W : BlockWorld) (c : List Hash) (t : ℤ) : List Hash :=
  c.takeWhile fun h => t ≤ W.timestamp h ∧ h ≠ W.genesis

def rest (W : BlockWorld) (c : List Hash) (t : ℤ) : List Hash :=
  c.dropWhile fun h => t ≤ W.timestamp h ∧ h ≠ W.genesis

def head (W : BlockWorld) (c : List Hash) : Hash := c.headD W.genesis

theorem window_append_rest (c : List Hash) (t : ℤ) : W.window c t ++ W.rest c t = c := takeWhile_append_dropWhile

theorem rest_suffix (c : List Hash) (t : ℤ) : W.rest c t <:+ c := dropWhile_suffix _

variable {t : ℤ}

theorem rest_eq_of_window_nil (h : W.window c t = []) : W.rest c t = c := by
  have := window_append_rest (W := W) c t
  rwa [h] at this

variable {t' : ℤ}

theorem rest_rest (h : t' ≤ t) : W.rest (W.rest c t) t' = W.rest c t' := by
  unfold rest
  induction c with
  | nil => rfl
  | cons a c ih =>
    by_cases ha : t ≤ W.timestamp a ∧ a ≠ W.genesis
    · have ha' : t' ≤ W.timestamp a ∧ a ≠ W.genesis := ⟨h.trans ha.1, ha.2⟩
      rw [dropWhile_cons_of_pos (by simpa using ha), dropWhile_cons_of_pos (by simpa using ha'), ih]
    · rw [dropWhile_cons_of_neg (by simpa using ha)]

theorem window_split (h : t' ≤ t) : W.window c t' = W.window c t ++ W.window (W.rest c t) t' := by
  unfold window rest
  induction c with
  | nil => rfl
  | cons a c ih =>
    by_cases ha : t ≤ W.timestamp a ∧ a ≠ W.genesis
    · have ha' : t' ≤ W.timestamp a ∧ a ≠ W.genesis := ⟨h.trans ha.1, ha.2⟩
      rw [takeWhile_cons_of_pos (by simpa using ha'), takeWhile_cons_of_pos (by simpa using ha),
        dropWhile_cons_of_pos (by simpa using ha), ih, cons_append]
    · have hnone : (a :: c).takeWhile (fun h => decide (t ≤ W.timestamp h ∧ h ≠ W.genesis)) = [] :=
        takeWhile_cons_of_neg (by simpa using ha)
      have hall : (a :: c).dropWhile (fun h => decide (t ≤ W.timestamp h ∧ h ≠ W.genesis)) = a :: c :=
        dropWhile_cons_of_neg (by simpa using ha)
      rw [hnone, hall, nil_append]

theorem window_nil_of_le (h : t' ≤ t) (hnil : W.window c t' = []) : W.window c t = [] := by
  rw [window_split h] at hnil
  exact (append_eq_nil_iff.1 hnil).1

namespace Linked
theorem ne_nil (h : Linked W c) : c ≠ [] := by
  rintro rfl
  cases h.last

variable {d : List Hash}

theorem suffix (h : Linked W c) (hd : d <:+ c) (hne : d ≠ []) : Linked W d where
  chain := h.chain.suffix hd
  last := by
    obtain ⟨pre, rfl⟩ := hd
    rw [← h.last, getLast?_append_of_ne_nil _ hne]

theorem genesis_mem (h : Linked W c) : W.genesis ∈ c := mem_of_getLast? h.last

theorem rest_ne_nil (h : Linked W c) (t : ℤ) : W.rest c t ≠ [] := by
  intro hnil
  have hall := dropWhile_eq_nil_iff.1 hnil W.genesis h.genesis_mem
  simp at hall

theorem rest (h : Linked W c) (t : ℤ) : Linked W (W.rest c t) := h.suffix (rest_suffix c t) (h.rest_ne_nil t)

variable {a b : Hash}

section
variable (h : Linked W c)
include h

theorem cons (hc : c = b :: d) (ha : PointState.Follows W a b) : Linked W (a :: c) where
  chain := by
    rw [hc]
    exact isChain_cons_cons.2 ⟨ha, hc ▸ h.chain⟩
  last := by
    rw [hc, getLast?_cons_cons, ← hc]
    exact h.last

/-- Heights and times fall from the head down. -/
theorem falling : c.Pairwise fun a b => W.height b < W.height a ∧ W.timestamp b < W.timestamp a := by
  have himp : c.IsChain fun a b => W.height b < W.height a ∧ W.timestamp b < W.timestamp a :=
    h.chain.imp fun a b hab => ⟨by rw [hab.2.1]; omega, hab.2.2⟩
  have : IsTrans Hash fun a b => W.height b < W.height a ∧ W.timestamp b < W.timestamp a :=
    ⟨fun a b c hab hbc => ⟨hbc.1.trans hab.1, hbc.2.trans hab.2⟩⟩
  exact isChain_iff_pairwise.1 himp

/-- The genesis block is the last one only. -/
theorem eq_singleton (hhead : c.head? = some W.genesis) : c = [W.genesis] := by
  have hfall := h.falling
  have hlast := h.last
  cases c with
  | nil => cases hhead
  | cons a d =>
    cases hhead
    cases d with
    | nil => rfl
    | cons b d =>
      have := (pairwise_cons.1 hfall).1 W.genesis (mem_of_getLast? hlast)
      omega

/-- A hash determines the chain below it. -/
theorem unique {c' : List Hash} (h' : Linked W c') (hhead : c.head? = c'.head?) : c = c' := by
  induction c generalizing c' with
  | nil => exact absurd rfl h.ne_nil
  | cons a d ih =>
    cases c' with
    | nil => cases hhead
    | cons a' d' =>
      cases hhead
      by_cases ha : a = W.genesis
      · rw [h.eq_singleton (by rw [ha]; rfl), h'.eq_singleton (by rw [ha]; rfl)]
      · have hd : d ≠ [] := by
          rintro rfl
          exact ha (Option.some.inj h.last)
        have hd' : d' ≠ [] := by
          rintro rfl
          exact ha (Option.some.inj h'.last)
        obtain ⟨b, e, rfl⟩ := exists_cons_of_ne_nil hd
        obtain ⟨b', e', rfl⟩ := exists_cons_of_ne_nil hd'
        have hb : W.prevHash a = b := (isChain_cons_cons.1 h.chain).1.1
        have hb' : W.prevHash a = b' := (isChain_cons_cons.1 h'.chain).1.1
        have heq := ih (h.suffix (suffix_cons a _) hd) (h'.suffix (suffix_cons a _) hd')
          (by rw [head?_cons, head?_cons, ← hb, ← hb'])
        rw [heq]

theorem head?_eq : c.head? = some (W.head c) := by
  obtain ⟨a, d, rfl⟩ := exists_cons_of_ne_nil h.ne_nil
  rfl

theorem head_mem : W.head c ∈ c := mem_of_mem_head? h.head?_eq

end

/-- The height of the head is that of a block below plus the number of blocks above it. -/
theorem height_head {w : List Hash} (h : Linked W (w ++ d)) (hd : d ≠ []) :
    W.height (W.head (w ++ d)) = W.height (W.head d) + w.length := by
  induction w with
  | nil => rfl
  | cons a w ih =>
    have hne : w ++ d ≠ [] := by simp [hd]
    have htail := h.suffix (suffix_cons a (w ++ d)) hne
    obtain ⟨b, e, hbe⟩ := exists_cons_of_ne_nil hne
    have hfollow : PointState.Follows W a b := by
      have := h.chain
      rw [cons_append, hbe] at this
      exact (isChain_cons_cons.1 this).1
    have hprev := ih htail
    rw [hbe] at hprev
    rw [length_cons, ← Nat.add_assoc, ← hprev]
    exact hfollow.2.1

theorem height_window (h : Linked W c) (t : ℤ) :
    W.height (W.head c) = W.height (W.head (W.rest c t)) + (W.window c t).length := by
  have happend := window_append_rest (W := W) c t
  have hh := height_head (by rw [happend]; exact h) (h.rest_ne_nil t)
  rwa [happend] at hh

/-- The first block of a window follows the head of the rest. -/
theorem prevHash_getLast (h : Linked W c) {last : Hash} (hlast : (W.window c t).getLast? = some last) :
    W.prevHash last = W.head (W.rest c t) := by
  obtain ⟨pre, hpre⟩ := getLast?_eq_some_iff.1 hlast
  obtain ⟨b, d, hbd⟩ := exists_cons_of_ne_nil (h.rest_ne_nil t)
  have hc := window_append_rest (W := W) c t
  rw [hpre, hbd, append_assoc] at hc
  have hsuffix : last :: b :: d <:+ c := ⟨pre, hc⟩
  have := (h.chain.suffix hsuffix)
  rw [hbd]
  exact (isChain_cons_cons.1 this).1.1

/-- A window that is not empty ends above the rest. -/
theorem head_rest_ne (h : Linked W c) (hw : W.window c t ≠ []) : W.head (W.rest c t) ≠ W.head c := by
  intro heq
  have hh := h.height_window t
  rw [heq] at hh
  have := length_pos_of_ne_nil hw
  omega

end Linked

/-! Lookups on a chain. -/

/-- The last block before a time is the head of the rest. -/
theorem getSnapshotHeaderBeforeTime_eq (h : Linked W c) (ht : W.group.genesisTime < t) :
    W.getSnapshotHeaderBeforeTime c t = some (W.head (W.rest c t)) := by
  unfold getSnapshotHeaderBeforeTime
  have hgen : W.timestamp W.genesis < t := by rw [W.genesis_time]; exact ht
  rw [← (h.rest t).head?_eq]
  unfold BlockWorld.rest
  clear h
  induction c with
  | nil => rfl
  | cons a c ih =>
    by_cases ha : W.timestamp a < t
    · rw [find?_cons_of_pos (by simpa using ha), dropWhile_cons_of_neg (by simp; omega)]
      rfl
    · have hne : a ≠ W.genesis := by
        rintro rfl
        exact ha hgen
      rw [find?_cons_of_neg (by simpa using ha), dropWhile_cons_of_pos (by simp [hne]; omega), ih]

/-- With a time that may be the genesis time, the head of the rest is the last block before it or the genesis block. -/
theorem getSnapshotHeaderBeforeTime_getD (h : Linked W c) (ht : W.group.genesisTime ≤ t) :
    (W.getSnapshotHeaderBeforeTime c t).getD W.genesis = W.head (W.rest c t) := by
  rcases ht.lt_or_eq with hlt | heq
  · rw [getSnapshotHeaderBeforeTime_eq h hlt]
    rfl
  · have hnone : W.getSnapshotHeaderBeforeTime c t = none := by
      unfold getSnapshotHeaderBeforeTime
      rw [find?_eq_none]
      intro a ha
      have hge : W.timestamp W.genesis ≤ W.timestamp a := by
        obtain ⟨pre, hpre⟩ := getLast?_eq_some_iff.1 h.last
        have hfall := h.falling
        rw [hpre] at hfall ha
        revert a
        exact forall_mem_concat.2 ⟨fun a ha => ((pairwise_concat.1 hfall).2 a ha).2.le, le_rfl⟩
      rw [W.genesis_time] at hge
      simp
      omega
    have hrest : W.head (W.rest c t) = W.genesis := by
      obtain ⟨b, d, hbd⟩ := exists_cons_of_ne_nil (h.rest_ne_nil t)
      have hnot := head?_dropWhile_not (fun h => decide (t ≤ W.timestamp h ∧ h ≠ W.genesis)) c
      unfold BlockWorld.rest at hbd ⊢
      rw [hbd] at hnot ⊢
      have hb : W.timestamp b ≥ t := by
        have hbc : b ∈ c := (rest_suffix c t).subset (by unfold BlockWorld.rest; rw [hbd]; exact mem_cons_self)
        have := find?_eq_none.1 hnone b hbc
        simp at this
        omega
      have hb' : ¬(t ≤ W.timestamp b ∧ b ≠ W.genesis) := by simpa using hnot
      by_contra hne
      exact hb' ⟨hb, hne⟩
    rw [hnone, hrest]
    rfl

end BlockWorld

end GoVite.Consensus

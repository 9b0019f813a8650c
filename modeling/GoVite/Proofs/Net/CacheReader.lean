import GoVite.Spec.Net.CacheReader
import Mathlib.Order.Nat

/-! Merging loses the last segment. -/

namespace GoVite.Net
open List

def Segment.Has (s : Segment) (height : ℕ) : Prop := s.start ≤ height ∧ height ≤ s.stop

def Covers (cs : List Segment) (height : ℕ) : Prop := ∃ s ∈ cs, s.Has height

structure Ascending (cs : List Segment) : Prop where
  proper : ∀ s ∈ cs, s.start ≤ s.stop ∧ s.stop < 2 ^ 64
  disjoint : cs.Pairwise fun a b => a.stop < b.start

/-- The result covers the same heights, and two neighbours are in one of its segments if and only if the second
continues the first. -/
structure RightMerge (cs merged : List Segment) : Prop where
  ascending : Ascending merged
  covers : ∀ height, Covers merged height ↔ Covers cs height
  neighbours : ∀ l₁ a b l₂, cs = l₁ ++ a :: b :: l₂ →
    ((∃ s ∈ merged, s.Has a.stop ∧ s.Has b.start) ↔ b.prevHash = a.hash ∧ b.start = a.stop + 1)

variable {segment : Segment} {cs : List Segment}

theorem ascending_cons : Ascending (segment :: cs) ↔
    (segment.start ≤ segment.stop ∧ segment.stop < 2 ^ 64) ∧ (∀ c ∈ cs, segment.stop < c.start) ∧ Ascending cs := by
  constructor
  · rintro ⟨hproper, hdisjoint⟩
    rw [forall_mem_cons] at hproper
    rw [pairwise_cons] at hdisjoint
    exact ⟨hproper.1, hdisjoint.1, hproper.2, hdisjoint.2⟩
  · rintro ⟨hproper, hfirst, hrest⟩
    exact ⟨forall_mem_cons.2 ⟨hproper, hrest.proper⟩, pairwise_cons.2 ⟨hfirst, hrest.disjoint⟩⟩

/-- What is appended ends before a height of the segments. -/
theorem mergeLoop_lt (h : Ascending (segment :: cs)) : ∃ height, segment.stop ≤ height ∧
    Covers (segment :: cs) height ∧ ∀ s ∈ mergeLoop segment cs, s.stop < height := by
  induction cs generalizing segment with
  | nil =>
    refine ⟨segment.stop, le_rfl, ⟨segment, mem_cons_self, (ascending_cons.1 h).1.1, le_rfl⟩, ?_⟩
    simp [mergeLoop]
  | cons c cs ih =>
    obtain ⟨⟨hproper, -⟩, hfirst, hrest⟩ := ascending_cons.1 h
    obtain ⟨⟨hc, hc64⟩, hlast, hcs⟩ := ascending_cons.1 hrest
    have hlt := hfirst c mem_cons_self
    rw [mergeLoop]
    split_ifs
    · have hmerged : Ascending ({ segment with hash := c.hash, stop := c.stop } :: cs) :=
        ascending_cons.2 ⟨⟨hproper.trans (hlt.le.trans hc), hc64⟩, hlast, hcs⟩
      obtain ⟨height, hle, ⟨s, hs, hin⟩, hbefore⟩ := ih hmerged
      refine ⟨height, hlt.le.trans (hc.trans hle), ?_, hbefore⟩
      rcases mem_cons.1 hs with rfl | hs
      · exact ⟨c, by simp, hc.trans hle, hin.2⟩
      · exact ⟨s, by simp [hs], hin⟩
    · obtain ⟨height, hle, ⟨s, hs, hin⟩, hbefore⟩ := ih hrest
      exact ⟨height, by omega, ⟨s, mem_cons_of_mem _ hs, hin⟩, forall_mem_cons.2 ⟨by omega, hbefore⟩⟩

/-- The result is right only without segments: the last one is never appended. -/
theorem mergeSegments_right_iff (h : Ascending cs) : RightMerge cs (mergeSegments cs) ↔ cs = [] := by
  constructor
  · intro hright
    cases cs with
    | nil => rfl
    | cons segment cs =>
      obtain ⟨height, -, hcovers, hbefore⟩ := mergeLoop_lt h
      obtain ⟨s, hs, -, hstop⟩ := (hright.covers height).2 hcovers
      exact absurd (hbefore s hs) (not_lt.2 hstop)
  · rintro rfl
    exact ⟨h, fun _ => Iff.rfl, by simp⟩

theorem mergeSegments_linked_not_right : Ascending [⟨1, 2, 5, 4⟩, ⟨3, 6, 9, 5⟩] ∧
    ¬RightMerge [⟨1, 2, 5, 4⟩, ⟨3, 6, 9, 5⟩] (mergeSegments [⟨1, 2, 5, 4⟩, ⟨3, 6, 9, 5⟩]) := by
  have h : Ascending [⟨1, 2, 5, 4⟩, ⟨3, 6, 9, 5⟩] := ⟨by simp, by simp⟩
  refine ⟨h, fun hright => ?_⟩
  cases (mergeSegments_right_iff h).1 hright

/-- A single segment is lost, and so are two that are linked. -/
theorem mergeSegments_loses : mergeSegments [⟨1, 2, 5, 4⟩] = [] ∧ mergeSegments [⟨1, 2, 5, 4⟩, ⟨3, 6, 9, 5⟩] = [] :=
  ⟨rfl, rfl⟩

end GoVite.Net

import Mathlib.Algebra.Group.Nat.Defs

/-! The segments of the chain that are cached (`mergeSegments` in `net/sync_cache_reader.go`). -/

namespace GoVite.Net

/-- A segment from `start` (`From`) to `stop` (`To`), without its points, which are passed along only. -/
structure Segment where
  start : ℕ
  stop : ℕ
  hash : ℕ
  prevHash : ℕ

/-- The loop with the segment that is not appended yet. Heights are of 64 bits. -/
def mergeLoop (segment : Segment) : List Segment → List Segment
  | [] => []
  | c :: cs =>
    if c.prevHash = segment.hash ∧ c.start = (segment.stop + 1) % 2 ^ 64 then
      mergeLoop { segment with hash := c.hash, stop := c.stop } cs
    else segment :: mergeLoop c cs

def mergeSegments : List Segment → List Segment
  | [] => []
  | segment :: cs => mergeLoop segment cs

end GoVite.Net

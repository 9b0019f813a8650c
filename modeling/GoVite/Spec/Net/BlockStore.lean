import Mathlib.Data.Nat.Notation

/-! The blocks kept while a sync runs (`memBlockStore` in `net/broadcaster.go`). -/

namespace GoVite.Net

/-- The account blocks or the snapshot blocks of the store: each have a slice of capacity `max` and a read index, and
methods of the same code. -/
structure BlockQueue (β : Type) where
  max : ℕ
  index : ℕ := 0
  blocks : List β := []

namespace BlockQueue
variable {β : Type}

def enqueue (m : BlockQueue β) (block : β) : BlockQueue β :=
  if m.blocks.length < m.max then { m with blocks := m.blocks ++ [block] } else m

def dequeue (m : BlockQueue β) : Option β × BlockQueue β :=
  if m.blocks.length ≤ m.index then (none, { m with blocks := [] })
  else (m.blocks[m.index]?, { m with index := m.index + 1 })

/-- A loop of `subSyncState`, which gives all blocks to the feed. Each round but the last takes one of the slice. -/
def drain (m : BlockQueue β) : ℕ → List β × BlockQueue β
  | 0 => ([], m)
  | fuel + 1 =>
    match m.dequeue with
    | (none, m) => ([], m)
    | (some block, m) => (block :: (drain m fuel).1, (drain m fuel).2)

end BlockQueue

inductive QueueCall (β : Type)
  | enqueue (block : β)
  | dequeue

end GoVite.Net

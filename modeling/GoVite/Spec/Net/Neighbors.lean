import Mathlib.Data.Nat.Notation

/-! The stored nodes near a target (`findNeighbors` and `closet` in `net/discovery/table.go`), and the ids that lookups
aim at (`net/vnode/node.go`). -/

namespace GoVite.Net

abbrev NodeID := Vector (BitVec 8) 32

/-- The bits before the first that is set. -/
def leadingBits : ℕ → BitVec 8 → ℕ
  | 0, _ => 0
  | fuel + 1, xor => if xor.msb then 0 else leadingBits fuel (xor <<< 1) + 1

def commonBits : List (BitVec 8) → List (BitVec 8) → ℕ
  | x :: a, y :: b => if x = y then commonBits a b + 8 else leadingBits 8 (x ^^^ y)
  | _, _ => 0

def distance (a b : NodeID) : ℕ := 256 - commonBits a.toList b.toList

structure Node where
  id : NodeID
deriving DecidableEq

/-- The slice `nodes` has the capacity `cap`. -/
structure Closet where
  cap : ℕ
  nodes : List Node := []
  pivot : NodeID

/-- `sort.Search` between `i` and `j`. -/
def search (f : ℕ → Bool) : ℕ → ℕ → ℕ → ℕ
  | 0, i, _ => i
  | fuel + 1, i, j =>
    if i < j then if f ((i + j) / 2) then search f fuel i ((i + j) / 2) else search f fuel ((i + j) / 2 + 1) j else i

namespace Closet

def dist (c : Closet) (n : Node) : ℕ := distance c.pivot n.id

def further (c : Closet) (n : Node) : ℕ :=
  search (fun i => (c.nodes[i]?).all (c.dist n < c.dist ·)) c.nodes.length 0 c.nodes.length

def push (c : Closet) (n : Node) : Closet :=
  if c.cap ≤ c.nodes.length then
    if c.further n < c.nodes.length then { c with nodes := c.nodes.set (c.further n) n } else c
  else { c with nodes := c.nodes.take (c.further n) ++ n :: c.nodes.drop (c.further n) }

end Closet

def findNeighbors (buckets : List (List Node)) (target : NodeID) (count : ℕ) : List Node :=
  (buckets.foldl (fun c bkt => bkt.foldl (fun c node => if node.id = target then c else c.push node) c)
    { cap := count, pivot := target : Closet }).nodes

/-- The byte of `commonNBits` with the first bit that differs, made from a random one. -/
def diffByte (a b : BitVec 8) (bit : ℕ) : BitVec 8 :=
  let b := b <<< bit >>> bit ||| a >>> (8 - bit) <<< (8 - bit)
  if 0 < a <<< bit >>> 7 <<< (7 - bit) then b &&& (255 - 1#8 <<< (7 - bit)) else b ||| 1#8 <<< (7 - bit)

def commonNBits (a : NodeID) (n : ℕ) (random : NodeID) : NodeID :=
  if n = 256 then a
  else .ofFn fun i =>
    if i < n / 8 then a[i] else if i = n / 8 then diffByte a[i] random[i] (n % 8) else random[i]

def randFromDistance (id : NodeID) (d : ℕ) (random : NodeID) : NodeID :=
  commonNBits id (256 - if 256 ≤ d then 256 else d) random

structure Table where
  id : NodeID
  buckets : Vector (List Node) 32

namespace Table

def minDistance : ℕ := 256 - 32 + 1

/-- The index that `getBucket` uses. -/
def bucketIndex (tab : Table) (id : NodeID) : ℕ :=
  if distance tab.id id < minDistance then 0 else distance tab.id id - minDistance

def getBucket (tab : Table) (id : NodeID) : Option (List Node) := tab.buckets[tab.bucketIndex id]?

/-- The buckets are tried in the order `perm`; a bucket has room for 64 nodes. -/
def subTreeToFind (tab : Table) (perm : List (Fin 32)) : ℕ :=
  match perm.find? fun i => (tab.buckets[i]).length < 64 / 2 with
  | some i => i + minDistance
  | none => 0

end Table

end GoVite.Net

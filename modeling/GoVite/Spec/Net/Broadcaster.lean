import Mathlib.Data.List.Basic
import Mathlib.Data.Int.Notation
import Mathlib.Data.Nat.Notation
import Mathlib.Tactic.Ring
import Mathlib.Tactic.TypeStar

/-! The broadcaster (`net/broadcaster.go`): new blocks from peers pass a filter of known hashes, are verified, forwarded
and given to the pool. The bloom filters are exact sets; hashes and checks are arbitrary. -/

namespace GoVite.Net

variable {A S P H : Type*}

inductive Block (A S : Type*)
  | snapshot (block : S)
  | account (block : A)
  deriving DecidableEq

/-- What the broadcaster asks of a block: the hash it carries, the hash computed of it, its height and the checks of the
verifier. -/
structure Blocks (A S H : Type*) where
  hash : Block A S → H
  computeHash : Block A S → H
  height : S → ℕ
  verifyNet : Block A S → Bool

/-- A `NewSnapshotBlock` or `NewAccountBlock` from a peer, whose block may be nil. -/
structure NewBlock (A S P : Type*) where
  block : Option (Block A S)
  ttl : ℤ
  sender : P

/-- What else the handling of a message depends on: the chain, a random choice to look up confirmations, the sync and
the peers. -/
structure Surroundings (P H : Type*) where
  latestSnapshotHeight : ℕ
  shouldCheck : Bool
  confirmedTimes : H → ℕ
  syncExited : Bool
  choosePeers : P → List P

inductive Output (A S P : Type*)
  | writeMsg (peer : P) (block : Block A S) (ttl : ℤ)
  | notify (block : Block A S)
  | enqueue (block : Block A S)
  deriving DecidableEq

inductive HandleError
  | missingBroadcastBlock
  | verifyFailed
  deriving DecidableEq

/-- The filter, and the hashes each peer is known to have. -/
structure Broadcaster (P H : Type*) where
  filter : List H
  knownBlocks : List (P × H)

section
variable [DecidableEq P] [DecidableEq H] (bs : Blocks A S H)

/-- Only a snapshot block is compared with the height of the chain, where its height is a `uint64`. -/
def tooLow (env : Surroundings P H) : Block A S → Bool
  | .snapshot block => (bs.height block + 100) % 2 ^ 64 < env.latestSnapshotHeight
  | .account _ => false

/-- Only an account block is looked up. -/
def tooConfirmed (env : Surroundings P H) (hash : H) : Block A S → Bool
  | .snapshot _ => false
  | .account _ => env.shouldCheck && decide (100 < env.confirmedTimes hash)

namespace Broadcaster

/-- `forwardSnapshotBlock` and `forwardAccountBlock`, to the peers one after the other. -/
def forward (block : Block A S) (ttl : ℤ) : Broadcaster P H → List P → Broadcaster P H × List (Output A S P)
  | b, [] => (b, [])
  | b, p :: rest =>
    if (p, bs.hash block) ∈ b.knownBlocks then forward block ttl b rest
    else
      let r := forward block ttl { b with knownBlocks := (p, bs.hash block) :: b.knownBlocks } rest
      (r.1, .writeMsg p block ttl :: r.2)

/-- What is done with a block that has been verified. -/
def accept (b : Broadcaster P H) (env : Surroundings P H) (nb : NewBlock A S P) (block : Block A S) :
    Broadcaster P H × List (Output A S P) :=
  let handOver := if env.syncExited then Output.notify block else Output.enqueue block
  if 0 < nb.ttl then
    let r := b.forward bs block (nb.ttl - 1) (env.choosePeers nb.sender)
    (r.1, r.2 ++ [handOver])
  else (b, [handOver])

def handle (b : Broadcaster P H) (env : Surroundings P H) (nb : NewBlock A S P) :
    Broadcaster P H × List (Output A S P) × Option HandleError :=
  match nb.block with
  | none => (b, [], some .missingBroadcastBlock)
  | some block =>
    if tooLow bs env block then (b, [], none)
    else if bs.hash block ∈ b.filter then (b, [], none)
    else
      let hash := bs.computeHash block
      if hash ∈ b.filter then (b, [], none)
      else
        -- the hash is recorded before the block is verified
        let b := { b with filter := hash :: b.filter }
        if tooConfirmed env hash block then (b, [], none)
        else if !bs.verifyNet block then (b, [], some .verifyFailed)
        else
          let r := b.accept bs env nb block
          (r.1, r.2, none)

def run (b : Broadcaster P H) (messages : List (Surroundings P H × NewBlock A S P)) : Broadcaster P H :=
  messages.foldl (fun b m => (b.handle bs m.1 m.2).1) b

end Broadcaster
end

end GoVite.Net

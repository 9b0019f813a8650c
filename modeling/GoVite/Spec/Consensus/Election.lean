import GoVite.Lib.Bytes
import GoVite.Lib.Slice
import GoVite.Lib.Store
import GoVite.Spec.Consensus.Group
import Mathlib.Data.Int.Basic

/-! The election of a consensus group (`consensus/core/vote_algo.go`). Sorts are in place, so a group is the part of the
sorted votes it was cut from. `math/rand` is a function from a seed to permutations. -/

namespace GoVite.Consensus
open KeyStore Slices

/-- Names are compared byte by byte. -/
abbrev Name := List ByteString.Byte

structure Vote where
  name : Name
  addr : Address
  balance : ℤ
  deriving DecidableEq

inductive VoteType
  | normal | successRatePromotion | successRateDemotion | randomPromotion
  deriving DecidableEq, Repr

/-- The `Type` fields of the votes, which are shared through pointers. -/
abbrev VoteTypes := Name → List VoteType

def VoteTypes.append (types : VoteTypes) (v : Vote) (t : VoteType) : VoteTypes :=
  Function.update types v.name (types v.name ++ [t])

def ByBalance.less (a b : Vote) : Bool :=
  if b.balance = a.balance then a.name < b.name else b.balance < a.balance

structure SuccessRateVote where
  vote : Vote
  rate : Int32
  deriving DecidableEq

/-- The rates are compared by their difference, in 32 bits. -/
def BySuccessRate.less (a b : SuccessRateVote) : Bool :=
  if b.rate - a.rate = 0 then
    if b.vote.balance = a.vote.balance then a.vote.name < b.vote.name else b.vote.balance < a.vote.balance
  else b.rate - a.rate < 0

/-- The libraries the algorithm calls: `sort.Sort` and `rand.New(rand.NewSource(seed)).Perm`. -/
structure Runtime where
  sorting : Sorting
  randPerm : ℤ → ℕ → List ℕ
  randPerm_perm : ∀ seed n, (randPerm seed n).Perm (List.range n)

/-- `Int64` of a big number. -/
def int64 (x : ℤ) : ℤ := x.bmod (2 ^ 64)

abbrev SuccessRates := Store Address Int32

structure VoteAlgoContext where
  votes : List Vote
  height : ℕ
  successRate : SuccessRates
  seeds : ℕ
  types : VoteTypes

def line : Int32 := 800000

def obsoletedNum : ℕ := 2

namespace GroupInfo

def findSeed (g : GroupInfo) (votes : List Vote) (height seeds : ℕ) : ℤ :=
  if seeds = 0 then int64 ((votes.map (·.balance)).sum + height + g.seed) else int64 (seeds + height + g.seed)

def filterSimple (g : GroupInfo) (R : Runtime) (votes : List Vote) : Except SliceError (List Vote × List Vote) :=
  if votes.length ≤ g.nodeCount then .ok (votes, [])
  else do
    let votes := R.sorting.sort ByBalance.less votes
    let groupA ← slice votes 0 g.nodeCount
    let groupB ← slice votes g.nodeCount (if votes.length ≤ g.randRank then votes.length else g.randRank)
    .ok (groupA, groupB)

def calRandCnt (total randNum : ℕ) : ℕ := if randNum < total / 3 then randNum else total / 3

end GroupInfo

/-- A vote with its rate, -1 if it is not known. -/
def withRate (rates : SuccessRates) (v : Vote) : SuccessRateVote := ⟨v, rates.getD v.addr (-1)⟩

/-- The state of `filterBySuccessRate` before the exchange. -/
structure Exchange where
  deleteGroupA : List SuccessRateVote
  improvementGroupB : List SuccessRateVote
  types : VoteTypes

def SuccessRateVote.demotable (v : SuccessRateVote) : Bool := 0 ≤ v.rate ∧ v.rate < line

/-- The loop over `groupB`: the first two votes above the line, and the others. -/
def splitGroupB : List SuccessRateVote → List SuccessRateVote → List SuccessRateVote →
    List SuccessRateVote × List SuccessRateVote
  | [], improvement, rest => (improvement, rest)
  | v :: vs, improvement, rest =>
    if obsoletedNum ≤ improvement.length then splitGroupB vs improvement (rest ++ [v])
    else if line < v.rate then splitGroupB vs (improvement ++ [v]) rest
    else splitGroupB vs improvement (rest ++ [v])

/-- Round `i` of the exchange. A round that finds too few votes ends the loop, and so would the next one. -/
def Exchange.round (s : Exchange) (i : ℕ) : Exchange :=
  let lenA := s.deleteGroupA.length
  if lenA < i ∨ s.improvementGroupB.length < i then s
  else
    match s.deleteGroupA[lenA - i]?, s.improvementGroupB[i - 1]? with
    | some demotion, some promotion =>
      { deleteGroupA := s.deleteGroupA.set (lenA - i) promotion
        improvementGroupB := s.improvementGroupB.set (i - 1) demotion
        types := (s.types.append promotion.vote .successRatePromotion).append demotion.vote .successRateDemotion }
    | _, _ => s

def filterBySuccessRate (R : Runtime) (groupA groupB : List Vote) (rates : SuccessRates) (types : VoteTypes) :
    Except SliceError (List Vote × List Vote × VoteTypes) :=
  if groupB = [] then .ok (groupA, groupB, types)
  else if rates.keys.length < obsoletedNum then .ok (groupA, groupB, types)
  else do
    let successRateGroupA := R.sorting.sort BySuccessRate.less (groupA.map (withRate rates))
    let len : ℤ := successRateGroupA.length
    let tmps ← slice successRateGroupA (len - obsoletedNum) len
    let first ← slice successRateGroupA 0 (len - obsoletedNum)
    let groupA1 := first ++ tmps.filter (!·.demotable)
    let deleteGroupA := tmps.filter (·.demotable)
    let successRateGroupB := R.sorting.sort BySuccessRate.less (groupB.map (withRate rates))
    let (improvementGroupB, groupB1) := splitGroupB successRateGroupB [] []
    let s := (Exchange.mk deleteGroupA improvementGroupB types |>.round 1).round 2
    .ok ((groupA1 ++ s.deleteGroupA).map (·.vote), (groupB1 ++ s.improvementGroupB).map (·.vote), s.types)

namespace GroupInfo

def filterRandV2 (g : GroupInfo) (R : Runtime) (groupA groupB : List Vote) (height seeds : ℕ) (types : VoteTypes) :
    Except SliceError (List Vote × VoteTypes) :=
  if groupB = [] then .ok (groupA, types)
  else
    let total := g.nodeCount
    let groupA := R.sorting.sort ByBalance.less groupA
    let groupB := R.sorting.sort ByBalance.less groupB
    let length := groupA.length + groupB.length
    let seed := g.findSeed (groupA ++ groupB) height seeds
    let randCnt := calRandCnt total g.randCount
    let topTotal := total - randCnt
    if (randCnt : ℤ) * total < topTotal * ((length : ℤ) - total) then do
      let firstArr ← slice (R.randPerm seed total) 0 topTotal
      let secondArr ← slice (R.randPerm (int64 (seed + 1)) (length - total)) 0 randCnt
      let first ← firstArr.mapM (index groupA)
      let promoted ← secondArr.mapM (index groupB)
      .ok (first ++ promoted, promoted.foldl (·.append · .randomPromotion) types)
    else do
      let arr ← slice (R.randPerm seed length) 0 total
      let picked ← arr.mapM fun v => if total ≤ v then index groupB (v - total) else index groupA v
      let promoted ← (arr.filter (total ≤ ·)).mapM fun v => index groupB (v - total)
      .ok (picked, promoted.foldl (·.append · .randomPromotion) types)

/-- What `FilterVotes` returns, and what it leaves in the context. -/
structure Filtered where
  votes : List Vote
  sbps : List Vote
  types : VoteTypes

def filterVotes (g : GroupInfo) (R : Runtime) (ctx : VoteAlgoContext) : Except SliceError Filtered := do
  let (groupA, groupB) ← g.filterSimple R ctx.votes
  let sbps := groupA ++ groupB
  if groupB = [] then .ok ⟨R.sorting.sort ByBalance.less groupA, sbps, ctx.types⟩
  else do
    let (groupA, groupB, types) ← filterBySuccessRate R groupA groupB ctx.successRate ctx.types
    let (votes, types) ← g.filterRandV2 R groupA groupB ctx.height ctx.seeds types
    .ok ⟨R.sorting.sort ByBalance.less votes, sbps, types⟩

def shuffleVotes (g : GroupInfo) (R : Runtime) (votes : List Vote) (height seeds : ℕ) : Except SliceError (List Vote) :=
  (R.randPerm (g.findSeed votes height seeds) votes.length).mapM (index votes)

/-- The producers of a period, as `calVotes` takes them from the votes. -/
def elect (g : GroupInfo) (R : Runtime) (ctx : VoteAlgoContext) : Except SliceError (List Vote) := do
  let filtered ← g.filterVotes R ctx
  g.shuffleVotes R filtered.votes ctx.height ctx.seeds

end GroupInfo

end GoVite.Consensus

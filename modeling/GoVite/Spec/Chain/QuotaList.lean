import GoVite.Lib.Store

/-! The quota list (`ledger/chain/cache/quota_list.go`): the quota that the blocks of each recent snapshot took, by
address, with a total of the last 75. A linked list is the list of its values, a pointer into it a position or an
element taken out. -/

namespace GoVite.ChainCache
open KeyStore

abbrev Address := ℕ

structure AccountBlock where
  accountAddress : Address
  quota : ℕ
  quotaUsed : ℕ
  deriving DecidableEq, Repr

def uint64 : ℕ := 2 ^ 64

structure QuotaInfo where
  blockCount : ℕ
  quotaTotal : ℕ
  quotaUsedTotal : ℕ
  deriving DecidableEq, Repr

namespace QuotaInfo

def zero : QuotaInfo := ⟨0, 0, 0⟩

/-- `+=` on each of the three counters. -/
def plus (a b : QuotaInfo) : QuotaInfo :=
  ⟨(a.blockCount + b.blockCount) % uint64, (a.quotaTotal + b.quotaTotal) % uint64,
    (a.quotaUsedTotal + b.quotaUsedTotal) % uint64⟩

/-- `-=` on each of the three counters. -/
def minus (a b : QuotaInfo) : QuotaInfo :=
  ⟨(a.blockCount + uint64 - b.blockCount) % uint64, (a.quotaTotal + uint64 - b.quotaTotal) % uint64,
    (a.quotaUsedTotal + uint64 - b.quotaUsedTotal) % uint64⟩

/-- `b` can be taken off `a` without a counter wrapping below zero. -/
def covers (a b : QuotaInfo) : Bool :=
  b.blockCount ≤ a.blockCount && b.quotaTotal ≤ a.quotaTotal && b.quotaUsedTotal ≤ a.quotaUsedTotal

/-- `-=` with a flag that remembers whether a counter has wrapped. -/
def debit (a : QuotaInfo × Bool) (b : QuotaInfo) : QuotaInfo × Bool := (a.1.minus b, a.2 || !a.1.covers b)

end QuotaInfo

def AccountBlock.info (b : AccountBlock) : QuotaInfo := ⟨1, b.quota, b.quotaUsed⟩

abbrev QuotaMap := Store Address QuotaInfo

namespace QuotaMap

def add (m : QuotaMap) (addr : Address) (quota quotaUsed : ℕ) : QuotaMap :=
  m.set addr ((m.getD addr .zero).plus ⟨1, quota, quotaUsed⟩)

/-- `sub`, with whether a counter wrapped. -/
def sub (m : QuotaMap) (addr : Address) (blockCount quota quotaUsed : ℕ) : QuotaMap × Bool :=
  match m.get? addr with
  | none => (m, false)
  | some qi =>
    if qi.blockCount ≤ blockCount then (m.erase addr, false)
    else
      let taken := QuotaInfo.debit (qi, false) ⟨blockCount, quota, quotaUsed⟩
      (m.set addr taken.1, taken.2)

def aggregate (m : QuotaMap) : QuotaInfo := m.values.foldl .plus .zero

/-- The map of a list of blocks: the loops of `ResetUnconfirmedQuotas` and `build`. -/
def ofBlocks (blocks : List AccountBlock) : QuotaMap :=
  blocks.foldl (fun m b => m.add b.accountAddress b.quota b.quotaUsed) .empty

end QuotaMap

/-- A pointer to an element of the list. An element taken out keeps its value, and `Next` of it is nil; after
`list.Init` the elements of the old list are still chained to each other. -/
inductive Element
  | linked (index : ℕ)
  | removed (value : QuotaMap) (next : List QuotaMap)

namespace Element

def value (list : List QuotaMap) : Element → QuotaMap
  | linked i => list.getD i .empty
  | removed v _ => v

def next (list : List QuotaMap) : Element → Option Element
  | linked i => if i + 1 < list.length then some (linked (i + 1)) else none
  | removed _ [] => none
  | removed _ (v :: vs) => some (removed v vs)

/-- The values of `for pointer != nil { …; pointer = pointer.Next() }`. -/
def walk (list : List QuotaMap) : Element → List QuotaMap
  | linked i => list.drop i
  | removed v vs => v :: vs

/-- The pointer after `list.Remove` of the element at `i`. -/
def afterRemove (list : List QuotaMap) (i : ℕ) : Element → Element
  | linked j => if j = i then removed (list.getD j .empty) [] else if i < j then linked (j - 1) else linked j
  | e => e

def afterInit (list : List QuotaMap) : Element → Element
  | linked j => removed (list.getD j .empty) (list.drop (j + 1))
  | e => e

/-- The pointer after `list.PushFront`. -/
def afterPushFront : Element → Element
  | linked j => linked (j + 1)
  | e => e

end Element

/-- The blocks that snapshot blocks confirm, for heights 1, 2, …, and the blocks not yet confirmed. -/
structure Ledger where
  chunks : List (List AccountBlock)
  unconfirmed : List AccountBlock
  deriving DecidableEq, Repr

namespace Ledger

def latestHeight (l : Ledger) : ℕ := l.chunks.length

/-- `GetSnapshotBlockLocation` finds a location. -/
def hasLocation (l : Ledger) (height : ℕ) : Bool := 1 ≤ height && height ≤ l.latestHeight

/-- `ReadRange` from the location of one snapshot block to that of another: the account blocks of the first lie
before its location. -/
def readRange (l : Ledger) (startHeight endHeight : ℕ) : List (List AccountBlock) :=
  [] :: (l.chunks.drop startHeight).take (endHeight - startHeight)

def getSubLedger (l : Ledger) (startHeight endHeight : ℕ) : Option (List (List AccountBlock)) :=
  let endHeight := min endHeight l.latestHeight
  if startHeight = 0 then if l.hasLocation endHeight then some (l.chunks.take endHeight) else none
  else if l.hasLocation startHeight && l.hasLocation endHeight then some (l.readRange startHeight endHeight)
  else none

def getSubLedgerAfterHeight (l : Ledger) (height : ℕ) : Option (List (List AccountBlock)) :=
  if l.hasLocation height then some (l.readRange height l.latestHeight) else none

end Ledger

inductive QuotaError
  /-- a panic -/
  | nilPointer
  | subLedgerAfterHeight (startSbHeight : ℕ)
  | subLedger (startSbHeight endSbHeight : ℕ)
  deriving DecidableEq, Repr

def usedAccumulateHeight : ℕ := 75
def listMaxLength : ℕ := 600

/-- `wrapped` is not in the source: it records that some subtraction has wrapped below zero. -/
structure QuotaList where
  backElement : QuotaMap
  globalUsed : QuotaInfo
  usedStart : Option Element
  list : List QuotaMap
  initialized : Bool
  wrapped : Bool

namespace QuotaList
variable (s : QuotaList)

def newQuotaList : QuotaList := ⟨.empty, .zero, none, [], false, false⟩

/-- Write to the map `ql.backElement`, which the last element of the list shares. -/
def setBackElement (m : QuotaMap) : QuotaList :=
  { s with backElement := m, list := if s.list = [] then [] else s.list.dropLast ++ [m] }

def debitGlobal (q : QuotaInfo) : QuotaList :=
  let g := QuotaInfo.debit (s.globalUsed, s.wrapped) q
  { s with globalUsed := g.1, wrapped := g.2 }

def removeBack : QuotaList :=
  { s with list := s.list.dropLast, usedStart := s.usedStart.map (.afterRemove s.list (s.list.length - 1)) }

def removeFront : QuotaList :=
  { s with list := s.list.tail, usedStart := s.usedStart.map (.afterRemove s.list 0) }

def initList : QuotaList := { s with list := [], usedStart := s.usedStart.map (.afterInit s.list) }

def pushFront (m : QuotaMap) : QuotaList :=
  { s with list := m :: s.list, usedStart := s.usedStart.map .afterPushFront }

/-- The values from `ql.usedStart` on. -/
def used : List QuotaMap := s.usedStart.elim [] (Element.walk s.list)

/-- `GetGlobalQuota`, with whether a counter wrapped. -/
def getGlobalQuota : QuotaInfo × Bool := s.backElement.values.foldl QuotaInfo.debit (s.globalUsed, false)

def getQuotaUsedList (addr : Address) : List QuotaInfo := s.used.map (·.getD addr .zero)

def add (addr : Address) (quota quotaUsed : ℕ) : QuotaList :=
  let s := s.setBackElement (s.backElement.add addr quota quotaUsed)
  { s with globalUsed := s.globalUsed.plus ⟨1, quota, quotaUsed⟩ }

def sub (addr : Address) (quota quotaUsed : ℕ) : QuotaList :=
  let back := s.backElement.sub addr 1 quota quotaUsed
  let s := s.setBackElement back.1
  { s with wrapped := s.wrapped || back.2 }.debitGlobal ⟨1, quota, quotaUsed⟩

def resetUnconfirmedQuotas (unconfirmedBlocks : List AccountBlock) : Except QuotaError QuotaList :=
  if !s.initialized then .ok s
  else
    let backElement := QuotaMap.ofBlocks unconfirmedBlocks
    let s := s.debitGlobal s.backElement.aggregate
    let s := { s with globalUsed := s.globalUsed.plus backElement.aggregate }
    if s.list = [] then .error .nilPointer
    else
      let s := s.removeBack
      .ok { s with backElement := backElement, list := s.list ++ [backElement] }

def moveNext (backElement : QuotaMap) : QuotaList :=
  let s := { s with list := s.list ++ [backElement], backElement := backElement }
  let usedStart := s.usedStart.getD (.linked (s.list.length - 1))
  if s.list.length ≤ usedAccumulateHeight then { s with usedStart := some usedStart }
  else
    let g := (usedStart.value s.list).values.foldl QuotaInfo.debit (s.globalUsed, s.wrapped)
    let s := { s with globalUsed := g.1, wrapped := g.2, usedStart := usedStart.next s.list }
    if listMaxLength < s.list.length then s.removeFront else s

/-- The loop of `NewNext`: the map of the new snapshot, the map of the unconfirmed blocks and whether a counter of it
wrapped. -/
def confirm (acc : QuotaMap × QuotaMap × Bool) (b : AccountBlock) : Except QuotaError (QuotaMap × QuotaMap × Bool) :=
  match acc.2.1.get? b.accountAddress with
  | none => .error .nilPointer
  | some _ =>
    let back := acc.2.1.sub b.accountAddress 1 b.quota b.quotaUsed
    .ok (acc.1.add b.accountAddress b.quota b.quotaUsed, back.1, acc.2.2 || back.2)

def newNext (confirmedBlocks : List AccountBlock) : Except QuotaError QuotaList :=
  if !s.initialized then .ok s
  else do
    let acc ← confirmedBlocks.foldlM confirm (.empty, s.backElement, s.wrapped)
    if s.list = [] then .error .nilPointer
    else .ok ({ s with list := s.list.dropLast ++ [acc.1], wrapped := acc.2.2 }.moveNext acc.2.1)

def resetUsedStart : QuotaList :=
  { s with usedStart := some (.linked (s.list.length - usedAccumulateHeight)) }

def calculateGlobalUsed : QuotaList :=
  { s with globalUsed := s.used.foldl (fun g m => m.values.foldl .plus g) .zero }

/-- The deferred function of `build`. -/
def finishBuild : QuotaList :=
  match s.list.getLast? with
  | none => s
  | some back => ({ s with backElement := back }.resetUsedStart).calculateGlobalUsed

def build (l : Ledger) (s : QuotaList) : Except QuotaError QuotaList :=
  let listLength := s.list.length
  if usedAccumulateHeight ≤ listLength then .ok s.finishBuild
  else if l.latestHeight ≤ listLength then .ok s.finishBuild
  else
    let endSbHeight := l.latestHeight + 1 - listLength
    let lackListLen := listMaxLength - listLength
    let startSbHeight := if lackListLen < endSbHeight then endSbHeight - lackListLen else 1
    if listLength = 0 then
      match l.getSubLedgerAfterHeight startSbHeight with
      | none => .error (.subLedgerAfterHeight startSbHeight)
      | some segments => .ok { s with list := s.list ++ segments.tail.map QuotaMap.ofBlocks }.finishBuild
    else
      match l.getSubLedger startSbHeight endSbHeight with
      | none => .error (.subLedger startSbHeight endSbHeight)
      | some segments => .ok (segments.tail.reverse.foldl (fun s seg => s.pushFront (.ofBlocks seg)) s).finishBuild

def init (l : Ledger) (s : QuotaList) : Except QuotaError QuotaList := do
  let s ← s.build l
  .ok { s.moveNext .empty with initialized := true }

/-- `for i := 0; i < n && ql.list.Len() > 0; i++ { ql.list.Remove(ql.list.Back()) }`. -/
def removeBacks : ℕ → QuotaList → QuotaList
  | 0, s => s
  | n + 1, s => if s.list = [] then s else removeBacks n s.removeBack

/-- `Rollback`, which reads of the deleted chunks only how many they are. -/
def rollback (l : Ledger) (s : QuotaList) (deletedChunks : ℕ) : Except QuotaError QuotaList :=
  match s.list.getLast? with
  | none => .ok s
  | some back => do
    let s := if back.keys = [] then s.removeBack else s
    let s := if listMaxLength ≤ deletedChunks then s.initList else removeBacks deletedChunks s
    let s ← s.build l
    .ok (s.moveNext .empty)

end QuotaList

/-- What the chain does to its quota list. -/
inductive QuotaAction
  | add (b : AccountBlock)
  | sub (b : AccountBlock)
  | newNext (confirmedBlocks : List AccountBlock)
  | resetUnconfirmedQuotas (unconfirmedBlocks : List AccountBlock)
  /-- snapshot blocks are deleted, and with them all unconfirmed blocks -/
  | rollback (snapshots : ℕ)
  deriving DecidableEq, Repr

namespace Ledger

def apply (l : Ledger) : QuotaAction → Ledger
  | .add b => { l with unconfirmed := l.unconfirmed ++ [b] }
  | .sub b => { l with unconfirmed := l.unconfirmed.erase b }
  | .newNext blocks => ⟨l.chunks ++ [blocks], l.unconfirmed.diff blocks⟩
  | .resetUnconfirmedQuotas blocks => { l with unconfirmed := blocks }
  | .rollback n => ⟨l.chunks.take (l.latestHeight - n), []⟩

/-- Blocks are taken back and confirmed once they have been added; the genesis snapshot is never deleted. -/
def Allows (l : Ledger) : QuotaAction → Prop
  | .sub b => b ∈ l.unconfirmed
  | .newNext blocks => blocks.Subperm l.unconfirmed
  | .rollback n => n < l.latestHeight
  | _ => True

/-- The number of chunks a rollback deletes: the last one holds the unconfirmed blocks, if there are any. -/
def deletedChunks (l : Ledger) (snapshots : ℕ) : ℕ := snapshots + if l.unconfirmed = [] then 0 else 1

end Ledger

structure QuotaWorld where
  ledger : Ledger
  quotas : QuotaList

namespace QuotaWorld

/-- `NewNext` and `Rollback` find the chain already changed. -/
def step (w : QuotaWorld) (a : QuotaAction) : Except QuotaError QuotaWorld :=
  let l := w.ledger.apply a
  match a with
  | .add b => .ok ⟨l, w.quotas.add b.accountAddress b.quota b.quotaUsed⟩
  | .sub b => .ok ⟨l, w.quotas.sub b.accountAddress b.quota b.quotaUsed⟩
  | .newNext blocks => (w.quotas.newNext blocks).map (⟨l, ·⟩)
  | .resetUnconfirmedQuotas blocks => (w.quotas.resetUnconfirmedQuotas blocks).map (⟨l, ·⟩)
  | .rollback n => (w.quotas.rollback l (w.ledger.deletedChunks n)).map (⟨l, ·⟩)

/-- The quota list of a node that starts on a chain. -/
def start (chunks : List (List AccountBlock)) : Except QuotaError QuotaWorld :=
  (QuotaList.newQuotaList.init ⟨chunks, []⟩).map (⟨⟨chunks, []⟩, ·⟩)

/-- The states of the runs that start on a chain that meets `Q` and whose steps all meet `P`. -/
inductive Reachable (Q : Ledger → Prop) (P : QuotaWorld → QuotaAction → Prop) : QuotaWorld → Prop
  | start {chunks : List (List AccountBlock)} {w : QuotaWorld} (hc : chunks ≠ []) (hQ : Q ⟨chunks, []⟩)
      (h : start chunks = .ok w) : Reachable Q P w
  | step {w w' : QuotaWorld} {a : QuotaAction} (hw : Reachable Q P w) (ha : w.ledger.Allows a) (hP : P w a)
      (h : w.step a = .ok w') : Reachable Q P w'

end QuotaWorld

end GoVite.ChainCache

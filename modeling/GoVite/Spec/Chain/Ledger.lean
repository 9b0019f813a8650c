import Mathlib.Data.List.Basic

/-! Account blocks and the chain they form, of whose four changes the databases are told. -/

namespace GoVite.Chain

abbrev Address := ℕ
abbrev Hash := ℕ

inductive BlockType
  | sendCreate | sendCall | sendReward | receive | receiveError | sendRefund | genesisReceive
  deriving DecidableEq, Repr

structure SendBlock where
  blockType : BlockType
  hash : Hash
  toAddress : Address
  deriving DecidableEq, Repr

structure AccountBlock where
  blockType : BlockType
  hash : Hash
  height : ℕ
  accountAddress : Address
  toAddress : Address
  fromBlockHash : Hash
  logHash : Option Hash
  sendBlockList : List SendBlock
  deriving DecidableEq, Repr

namespace AccountBlock

def isReceiveBlock (b : AccountBlock) : Bool :=
  match b.blockType with
  | .receive | .receiveError | .genesisReceive => true
  | _ => false

/-- The hash of the block and those of the send blocks it makes. -/
def hashes (b : AccountBlock) : List Hash := b.hash :: b.sendBlockList.map (·.hash)

end AccountBlock

/-- A chain of things that each come with an account block: the chunks of snapshot heights 1, 2, … and the unconfirmed
blocks, in the order they were inserted. -/
structure Ledger (β : Type) where
  chunks : List (List β)
  unconfirmed : List β

inductive LedgerAction (β : Type)
  /-- `InsertAccountBlock` -/
  | insert (b : β)
  /-- `InsertSnapshotBlock` -/
  | snapshot (confirmed : List β)
  /-- `DeleteAccountBlocks` -/
  | takeBack (deleted : List β)
  /-- `DeleteSnapshotBlocks`: the blocks of the first chunk deleted may stay as unconfirmed blocks -/
  | rollback (snapshots : ℕ) (recover : Bool)

namespace Ledger

variable {β : Type} (acct : β → AccountBlock)

def owned (addr : Address) (bs : List β) : List β := bs.filter fun b => (acct b).accountAddress = addr

/-- The blocks that are not among the given ones. -/
def without (bs gone : List β) : List β := bs.filter fun b => (acct b).hash ∉ gone.map fun g => (acct g).hash

def latestHeight (l : Ledger β) : ℕ := l.chunks.length

def blocks (l : Ledger β) : List β := l.chunks.flatten ++ l.unconfirmed

def deleted (l : Ledger β) (snapshots : ℕ) : List (List β) := l.chunks.drop (l.latestHeight - snapshots)

def apply (l : Ledger β) : LedgerAction β → Ledger β
  | .insert b => { l with unconfirmed := l.unconfirmed ++ [b] }
  | .snapshot confirmed => ⟨l.chunks ++ [confirmed], without acct l.unconfirmed confirmed⟩
  | .takeBack gone => { l with unconfirmed := without acct l.unconfirmed gone }
  | .rollback n recover =>
    ⟨l.chunks.take (l.latestHeight - n), if recover then (l.deleted n).headD [] else []⟩

/-- A new block is the next one of its account, a snapshot confirms of each account the first unconfirmed blocks, and
of each account the last ones are taken back. -/
def Allows (l : Ledger β) : LedgerAction β → Prop
  | .insert b => (acct b).height = (owned acct (acct b).accountAddress l.blocks).length + 1 ∧
      ((l.blocks ++ [b]).flatMap fun b => (acct b).hashes).Nodup
  | .snapshot confirmed => confirmed.Sublist l.unconfirmed ∧
      ∀ addr, owned acct addr confirmed <+: owned acct addr l.unconfirmed
  | .takeBack gone => gone.Sublist l.unconfirmed ∧ ∀ addr, owned acct addr gone <:+ owned acct addr l.unconfirmed
  | .rollback n _ => 1 ≤ n ∧ n < l.latestHeight

/-- The blocks of an account have the heights 1, 2, …, and no two blocks have the same hash. -/
structure WellFormed (l : Ledger β) : Prop where
  numbered : ∀ addr, (owned acct addr l.blocks).map (fun b => (acct b).height) =
    List.range' 1 (owned acct addr l.blocks).length
  hashes : (l.blocks.flatMap fun b => (acct b).hashes).Nodup

end Ledger

end GoVite.Chain

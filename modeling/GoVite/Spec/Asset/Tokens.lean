import GoVite.Lib.Packed
import GoVite.Lib.Store
import GoVite.Spec.Verifier.AccountBlock
import Mathlib.Data.Int.Notation

/-! The asset contract: `vm/contracts/contracts_asset.go` with the storage of `vm/contracts/abi/abi_asset.go`. -/

namespace GoVite.Asset
open ByteString KeyStore AccountBlocks

structure TokenInfo where
  tokenName : String
  tokenSymbol : String
  totalSupply : ℕ
  decimals : ℕ
  owner : Address
  maxSupply : ℕ
  ownerBurnOnly : Bool
  isReIssuable : Bool
  index : ℕ
  deriving DecidableEq

structure ParamIssue where
  tokenName : String
  tokenSymbol : String
  totalSupply : ℕ
  decimals : ℕ
  maxSupply : ℕ
  isOwnerBurnOnly : Bool
  isReIssuable : Bool
  deriving DecidableEq

/-- What a call of the contract asks for, with its decoded parameters. -/
inductive Request
  | issue (param : ParamIssue)
  | reIssue (tokenId : TokenTypeId) (amount : ℕ) (receiveAddress : Address)
  | burn
  | transferOwnership (tokenId : TokenTypeId) (newOwner : Address)
  | disableReIssue (tokenId : TokenTypeId)
  deriving DecidableEq

structure SendBlock where
  accountAddress : Address
  hash : Hash
  tokenId : TokenTypeId
  amount : ℕ
  request : Request
  deriving DecidableEq

/-- A send of the contract that creates what it sends. -/
structure SendReward where
  toAddress : Address
  amount : ℕ
  tokenId : TokenTypeId
  deriving DecidableEq

inductive AssetError
  | invalidMethodParam
  | idCollision
  | insufficientBalance
  deriving DecidableEq

/-! Checks of the sender -/

def tokenNameLengthMax : ℕ := 40
def tokenSymbolLengthMax : ℕ := 10
def tokenNameIndexMax : ℕ := 1000

/-- The largest number of 256 bits. -/
def tt256m1 : ℕ := 2 ^ 256 - 1

def isNameChar (c : Char) : Bool := c.isAlpha || c = '_'

/-- `^([a-zA-Z_]+[ ]?)*[a-zA-Z_]$`: the text begins and ends with a letter, and a blank follows a letter. -/
def validName (s : String) : Bool :=
  let chars := s.toList
  (chars.all fun c => isNameChar c || c = ' ') && (chars.head?.all isNameChar) && (chars.getLast?.any isNameChar) &&
    (chars.zip chars.tail).all fun p => !(p.1 = ' ' && p.2 = ' ')

/-- `^[A-Z0-9]+$` -/
def validSymbol (s : String) : Bool := s.toList ≠ [] && s.toList.all fun c => c.isUpper || c.isDigit

def checkToken (param : ParamIssue) (isEarth : Bool) : Except AssetError Unit :=
  if param.totalSupply > tt256m1 ∨ param.tokenName.utf8ByteSize = 0 ∨ param.tokenName.utf8ByteSize > tokenNameLengthMax ∨
      param.tokenSymbol.utf8ByteSize = 0 ∨ param.tokenSymbol.utf8ByteSize > tokenSymbolLengthMax then
    .error .invalidMethodParam
  else if !isEarth ∧ (param.totalSupply ≤ 0 ∨ param.totalSupply < 10 ^ param.decimals) then .error .invalidMethodParam
  else if isEarth ∧ !param.isReIssuable ∧ param.totalSupply ≤ 0 then .error .invalidMethodParam
  else if !validName param.tokenName then .error .invalidMethodParam
  else if !validSymbol param.tokenSymbol then .error .invalidMethodParam
  else if param.tokenSymbol = "VITE" ∨ param.tokenSymbol = "VCP" ∨ param.tokenSymbol = "VX" then .error .invalidMethodParam
  else if param.isReIssuable then
    if param.maxSupply < param.totalSupply ∨ param.maxSupply > tt256m1 then .error .invalidMethodParam else .ok ()
  else if param.maxSupply > 0 ∨ param.isOwnerBurnOnly then .error .invalidMethodParam
  else .ok ()

/-- The checks of `GetFee` and `DoSend` for each method. -/
def doSend (block : SendBlock) (isEarth : Bool) : Except AssetError Unit :=
  match block.request with
  | .issue param => if block.amount > 0 then .error .invalidMethodParam else checkToken param isEarth
  | .reIssue _ amount _ => if amount ≤ 0 ∨ block.amount > 0 then .error .invalidMethodParam else .ok ()
  | .burn => if block.amount ≤ 0 then .error .invalidMethodParam else .ok ()
  | .transferOwnership _ newOwner =>
    if block.amount > 0 then .error .invalidMethodParam
    else if newOwner = block.accountAddress then .error .invalidMethodParam
    else .ok ()
  | .disableReIssue _ => if block.amount > 0 then .error .invalidMethodParam else .ok ()

/-! Storage -/

/-- The keys of the three kinds have different lengths: a token id, an address and the hash of a symbol. -/
structure AssetDb where
  tokenInfos : Store TokenTypeId TokenInfo
  tokenIDLists : Store Address Data
  nextIndexes : Store Hash ℕ
  balances : Store TokenTypeId ℕ

/-- A big integer as an unsigned word of the ABI. -/
def packUint256 (n : ℤ) : ℕ := (n % 2 ^ 256).toNat

def appendTokenID (oldIDList : Data) (tokenID : TokenTypeId) : Data := oldIDList ++ tokenID.toList

def deleteTokenID (oldIDList : Data) (tokenID : TokenTypeId) : Data := Packed.remove 10 oldIDList tokenID.toList

namespace AssetDb
variable (db : AssetDb)

def idList (owner : Address) : Data := db.tokenIDLists.getD owner []

/-- An empty value is no entry. -/
def setIDList (owner : Address) (list : Data) : AssetDb :=
  { db with tokenIDLists := if list = [] then db.tokenIDLists.erase owner else db.tokenIDLists.set owner list }

def setToken (tokenID : TokenTypeId) (info : TokenInfo) : AssetDb :=
  { db with tokenInfos := db.tokenInfos.set tokenID info }

def addBalance (tokenID : TokenTypeId) (amount : ℕ) : AssetDb :=
  { db with balances := db.balances.set tokenID (db.balances.getD tokenID 0 + amount) }

def subBalance (tokenID : TokenTypeId) (amount : ℕ) : Option AssetDb :=
  if amount ≤ db.balances.getD tokenID 0 then
    some { db with balances := db.balances.set tokenID (db.balances.getD tokenID 0 - amount) }
  else none

/-- The ids `GetTokenMapByOwner` reads. -/
def tokenIDsOf (owner : Address) : List Data := Packed.records 10 (db.idList owner)

end AssetDb

/-! Receives -/

section Receive
variable (newTokenID : Address → ℕ → Hash → TokenTypeId) (dataHash : String → Hash)

/-- The new record of `MethodIssue.DoReceive`. -/
def ParamIssue.toTokenInfo (param : ParamIssue) (owner : Address) (index : ℕ) : TokenInfo where
  tokenName := param.tokenName
  tokenSymbol := param.tokenSymbol
  totalSupply := packUint256 param.totalSupply
  decimals := param.decimals
  owner := owner
  maxSupply := packUint256 param.maxSupply
  ownerBurnOnly := param.isOwnerBurnOnly
  isReIssuable := param.isReIssuable
  index := index

def receiveIssue (db : AssetDb) (height : ℕ) (sendBlock : SendBlock) (param : ParamIssue) :
    Except AssetError (AssetDb × List SendReward) :=
  let tokenID := newTokenID sendBlock.accountAddress height sendBlock.hash
  if (db.tokenInfos.get? tokenID).isSome then .error .idCollision
  else
    let nextIndex := db.nextIndexes.getD (dataHash param.tokenSymbol) 0
    if nextIndex = tokenNameIndexMax then .error .invalidMethodParam
    else
      let oldIDList := db.idList sendBlock.accountAddress
      let stored := (db.setToken tokenID (param.toTokenInfo sendBlock.accountAddress nextIndex)).setIDList
        sendBlock.accountAddress (appendTokenID oldIDList tokenID)
      .ok ({ stored with nextIndexes := stored.nextIndexes.set (dataHash param.tokenSymbol) (nextIndex + 1) },
        [⟨sendBlock.accountAddress, param.totalSupply, tokenID⟩])

def receiveReIssue (db : AssetDb) (sendBlock : SendBlock) (tokenId : TokenTypeId) (amount : ℕ) (receiveAddress : Address) :
    Except AssetError (AssetDb × List SendReward) :=
  match db.tokenInfos.get? tokenId with
  | none => .error .invalidMethodParam
  | some old =>
    if !old.isReIssuable ∨ old.owner ≠ sendBlock.accountAddress ∨ (old.maxSupply : ℤ) - old.totalSupply < amount then
      .error .invalidMethodParam
    else .ok (db.setToken tokenId { old with totalSupply := packUint256 (old.totalSupply + amount) },
      [⟨receiveAddress, amount, tokenId⟩])

def receiveBurn (db : AssetDb) (isEarth : Bool) (sendBlock : SendBlock) : Except AssetError (AssetDb × List SendReward) :=
  match db.tokenInfos.get? sendBlock.tokenId with
  | none => .error .invalidMethodParam
  | some old =>
    if (!isEarth ∧ !old.isReIssuable) ∨ (old.ownerBurnOnly ∧ old.owner ≠ sendBlock.accountAddress) then
      .error .invalidMethodParam
    else
      match db.subBalance sendBlock.tokenId sendBlock.amount with
      | none => .error .insufficientBalance
      | some db => .ok (db.setToken sendBlock.tokenId
          { old with totalSupply := packUint256 (old.totalSupply - sendBlock.amount) }, [])

def receiveTransferOwnership (db : AssetDb) (sendBlock : SendBlock) (tokenId : TokenTypeId) (newOwner : Address) :
    Except AssetError (AssetDb × List SendReward) :=
  match db.tokenInfos.get? tokenId with
  | none => .error .invalidMethodParam
  | some old =>
    if !old.isReIssuable ∨ old.owner ≠ sendBlock.accountAddress then .error .invalidMethodParam
    else
      let db := db.setToken tokenId { old with owner := newOwner }
      let db := db.setIDList sendBlock.accountAddress (deleteTokenID (db.idList sendBlock.accountAddress) tokenId)
      .ok (db.setIDList newOwner (appendTokenID (db.idList newOwner) tokenId), [])

def receiveDisableReIssue (db : AssetDb) (sendBlock : SendBlock) (tokenId : TokenTypeId) :
    Except AssetError (AssetDb × List SendReward) :=
  match db.tokenInfos.get? tokenId with
  | none => .error .invalidMethodParam
  | some old =>
    if !old.isReIssuable ∨ old.owner ≠ sendBlock.accountAddress then .error .invalidMethodParam
    else .ok (db.setToken tokenId { old with isReIssuable := false, maxSupply := 0, ownerBurnOnly := false }, [])

def doReceive (db : AssetDb) (height : ℕ) (isEarth : Bool) (sendBlock : SendBlock) :
    Except AssetError (AssetDb × List SendReward) :=
  match sendBlock.request with
  | .issue param => receiveIssue newTokenID dataHash db height sendBlock param
  | .reIssue tokenId amount receiveAddress => receiveReIssue db sendBlock tokenId amount receiveAddress
  | .burn => receiveBurn db isEarth sendBlock
  | .transferOwnership tokenId newOwner => receiveTransferOwnership db sendBlock tokenId newOwner
  | .disableReIssue tokenId => receiveDisableReIssue db sendBlock tokenId

end Receive

end GoVite.Asset

import GoVite.Lib.Bytes
import Mathlib.Data.Nat.Size

/-! Account blocks, the bytes of their hashes (`interfaces/core/account_block.go`), and their checks
(`ledger/verifier/account_verifier.go`). -/

namespace GoVite.AccountBlocks
open ByteString

abbrev Data := List Byte
abbrev Hash := Bytes 32
abbrev Address := Bytes 21
abbrev TokenTypeId := Bytes 10

def zeroHash : Hash := Bytes.ofNat 32 0
def zeroAddress : Address := Bytes.ofNat 21 0
def zeroTokenId : TokenTypeId := Bytes.ofNat 10 0

/-- The last byte tells contracts from users. -/
def isContractAddr (addr : Address) : Bool := addr.toList.getLast?.map Fin.val = some 1

/-- A nil amount, fee, difficulty or log hash is none. -/
structure AccountBlock where
  blockType : Byte
  hash : Hash
  prevHash : Hash
  height : UInt64
  accountAddress : Address
  publicKey : Data
  toAddress : Address
  amount : Option ℤ
  tokenId : TokenTypeId
  fromBlockHash : Hash
  data : Data
  fee : Option ℤ
  logHash : Option Hash
  difficulty : Option ℤ
  nonce : Data
  sendBlockList : List AccountBlock
  signature : Data

namespace AccountBlock

def isSendBlock (ab : AccountBlock) : Bool :=
  ab.blockType.val = 1 ∨ ab.blockType.val = 2 ∨ ab.blockType.val = 3 ∨ ab.blockType.val = 6

end AccountBlock

/-! Hashes -/

/-- The bytes of the absolute value of a big integer, without leading zeros. -/
def bigBytes (n : ℤ) : Data := writeBE ((n.natAbs.size + 7) / 8) n.natAbs

def leftPadBytes (slice : Data) (l : ℕ) : Data :=
  if l ≤ slice.length then slice else writeBE (l - slice.length) 0 ++ slice

section Hashes
variable (Hash256 : Data → Hash)

namespace AccountBlock

/-- What only blocks of one kind have: the receiver, amount and token of a send, of which a nil amount panics, or the send
of a receive. -/
def hashSourceBody (ab : AccountBlock) : Option Data :=
  if ab.isSendBlock then
    ab.amount.map fun amount => ab.toAddress.toList ++ (leftPadBytes (bigBytes amount) 32 ++ ab.tokenId.toList)
  else some ab.fromBlockHash.toList

def hashSourceData (ab : AccountBlock) : Data := if ab.data = [] then [] else (Hash256 ab.data).toList

def hashSourceFee (ab : AccountBlock) : Data :=
  leftPadBytes (match ab.fee with
    | some fee => bigBytes fee
    | none => []) 32

def hashSourceLogHash (ab : AccountBlock) : Data :=
  match ab.logHash with
  | some logHash => logHash.toList
  | none => []

def hashSource (ab : AccountBlock) (extraByte : Data) : Option Data :=
  ab.hashSourceBody.map fun body =>
    ab.blockType :: (ab.prevHash.toList ++ (writeBE 8 ab.height.toNat ++ (ab.accountAddress.toList ++ (body ++
      (ab.hashSourceData Hash256 ++ (ab.hashSourceFee ++ (ab.hashSourceLogHash ++ (leftPadBytes ab.nonce 8 ++
        (ab.sendBlockList.flatMap (·.hash.toList) ++ extraByte)))))))))

def computeHash (ab : AccountBlock) : Option Hash := (ab.hashSource Hash256 []).map Hash256

/-- The bytes that say where a send of a contract stands. -/
def sendExtraBytes (hostBlock : AccountBlock) (index : ℕ) : Data :=
  hostBlock.prevHash.toList ++ (writeBE 8 hostBlock.height.toNat ++ writeBE 1 index)

def computeSendHash (ab hostBlock : AccountBlock) (index : ℕ) : Option Hash :=
  (ab.hashSource Hash256 (hostBlock.sendExtraBytes index)).map Hash256

end AccountBlock

/-! Checks -/

inductive VerifyError
  /-- `ErrVerifyBlockFieldData` with a text -/
  | fieldData (text : String)
  /-- the same for a send in the list of a contract's receive -/
  | subSend (error : VerifyError) (contract : Address) (k : ℕ) (hash sendHash : Hash)
  | accountNotInvalid
  | hashFailed
  | powNotEligible
  | nonceFailed
  /-- a panic -/
  | nilPointer

/-- A nil amount or fee is set to zero. -/
def verifySendBlockIntegrity (block : AccountBlock) : Except VerifyError AccountBlock :=
  if block.tokenId = zeroTokenId ∧ block.amount.getD 0 ≠ 0 then
    .error (.fieldData "sendBlock.TokenId can't be ZERO_TOKENID when amount has value")
  else if block.amount.getD 0 < 0 ∨ 256 < (block.amount.getD 0).natAbs.size then
    .error (.fieldData "sendBlock.Amount out of bounds")
  else if block.fee.getD 0 < 0 ∨ 256 < (block.fee.getD 0).natAbs.size then
    .error (.fieldData "sendBlock.Fee out of bounds")
  else if block.fromBlockHash ≠ zeroHash then .error (.fieldData "sendBlock.FromBlockHash must be ZERO_HASH")
  else if isContractAddr block.accountAddress then
    if block.height.toNat ≠ 0 then .error (.fieldData "contract's sendBlock.Height must be 0")
    else if block.signature ≠ [] ∨ block.publicKey ≠ [] then
      .error (.fieldData "signature and publicKey of the contract's send must be nil")
    else .ok { block with amount := some (block.amount.getD 0), fee := some (block.fee.getD 0) }
  else if block.height.toNat ≤ 1 then .error .accountNotInvalid
  else .ok { block with amount := some (block.amount.getD 0), fee := some (block.fee.getD 0) }

/-- The loop over the sends of a receive, from the send with index `k`. -/
def verifySubSends (block : AccountBlock) : ℕ → List AccountBlock → Except VerifyError (List AccountBlock)
  | _, [] => .ok []
  | k, sendBlock :: rest =>
    match verifySendBlockIntegrity sendBlock with
    | .error error => .error (.subSend error block.accountAddress k block.hash sendBlock.hash)
    | .ok sendBlock => do
      let rest ← verifySubSends block (k + 1) rest
      .ok (sendBlock :: rest)

def verifyReceiveBlockIntegrity (block : AccountBlock) : Except VerifyError AccountBlock :=
  if block.tokenId ≠ zeroTokenId then .error (.fieldData "receive.TokenId must be ZERO_TOKENID")
  else if block.amount.getD 0 ≠ 0 then
    .error (.fieldData "receive.Amount can't be anything other than nil or 0 ")
  else if block.fee.getD 0 ≠ 0 then .error (.fieldData "receive.Fee can't be anything other than nil or 0")
  else if block.toAddress ≠ zeroAddress then .error (.fieldData "receive.ToAddress must be ZERO_ADDRESS")
  else if block.height.toNat ≤ 0 then .error (.fieldData "receive.Height must be larger than 0")
  else if block.data ≠ [] ∧ !isContractAddr block.accountAddress then
    .error (.fieldData "receive.Data is not allowed when the account is general user")
  else if block.sendBlockList ≠ [] ∧ !isContractAddr block.accountAddress then
    .error (.fieldData "generalAddr's receive.SendBlockList must be nil")
  else do
    let sendBlockList ← verifySubSends block 0 block.sendBlockList
    .ok { block with sendBlockList := sendBlockList }

/-- The integrity checks of `verifySelf`. -/
def verifyIntegrity (block : AccountBlock) : Except VerifyError AccountBlock :=
  if block.isSendBlock then verifySendBlockIntegrity block else verifyReceiveBlockIntegrity block

/-- The loop over the sends of a receive, from the send with index `idx`. -/
def verifySendHashes (block : AccountBlock) : ℕ → List AccountBlock → Except VerifyError Unit
  | _, [] => .ok ()
  | idx, send :: rest =>
    match send.computeSendHash Hash256 block idx with
    | none => .error .nilPointer
    | some hash => if send.hash ≠ hash then .error .hashFailed else verifySendHashes block (idx + 1) rest

def verifyHash (block : AccountBlock) : Except VerifyError Unit :=
  match block.computeHash Hash256 with
  | none => .error .nilPointer
  | some computedHash =>
    if block.hash = zeroHash then .error .hashFailed
    else if computedHash ≠ block.hash then .error .hashFailed
    else if !isContractAddr block.accountAddress ∨ block.isSendBlock ∨ block.sendBlockList = [] then .ok ()
    else verifySendHashes Hash256 block 0 block.sendBlockList

/-- `CheckPowNonce`, of which only the result matters here, gets the difficulty, the nonce and what it is found for. -/
def verifyNonce (checkPowNonce : ℤ → Data → Hash → Bool) (block : AccountBlock) : Except VerifyError Unit :=
  if block.nonce ≠ [] then
    if isContractAddr block.accountAddress then .error .powNotEligible
    else
      match block.difficulty with
      | none => .error .powNotEligible
      | some difficulty =>
        if block.nonce.length ≠ 8 then .error .powNotEligible
        else if checkPowNonce difficulty block.nonce (Hash256 (block.accountAddress.toList ++ block.prevHash.toList)) then
          .ok ()
        else .error .nonceFailed
  else
    match block.difficulty with
    | some _ => .error .powNotEligible
    | none => .ok ()

end Hashes

end GoVite.AccountBlocks

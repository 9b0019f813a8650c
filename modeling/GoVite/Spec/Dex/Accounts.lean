import GoVite.Spec.Dex.Histories

/-! Moves on one account of a user (`fund_storage.go`). -/

namespace GoVite.Dex
variable (db : FundDb) (address : Address)
open KeyStore

/-- A change of an account that exists; the storage and the account after it. -/
def updateFund (token : TokenId) (update : Account → Except DexError Account) : Except DexError (FundDb × Account) :=
  match db.accounts.get? (accountKey address token) with
  | none => .error .exceedFundAvailable
  | some account => do
    let account ← update account
    .ok (db.saveAccount address token account, account)

def reduceAccount (token : TokenId) (amount : ℕ) : Except DexError (FundDb × Account) :=
  updateFund db address token fun acc =>
    if acc.available < amount then .error .exceedFundAvailable
    else .ok { acc with available := acc.available - amount }

def lockVxForDividend (amount : ℕ) : Except DexError (FundDb × Account) :=
  updateFund db address vxTokenId fun acc =>
    if acc.available < amount then .error .exceedFundAvailable
    else .ok { acc with available := acc.available - amount, vxLocked := acc.vxLocked + amount }

def scheduleVxUnlockForDividend (amount : ℕ) : Except DexError (FundDb × Account) :=
  updateFund db address vxTokenId fun acc =>
    if acc.vxLocked < amount then .error .exceedFundAvailable
    else if acc.vxLocked - amount ≠ 0 ∧ acc.vxLocked - amount < vxDividendThreshold then
      .error .lockedVxAmountLeavedNotValid
    else .ok { acc with vxLocked := acc.vxLocked - amount, vxUnlocking := acc.vxUnlocking + amount }

def finishVxUnlockForDividend (amount : ℕ) : Except DexError (FundDb × Account) :=
  updateFund db address vxTokenId fun acc =>
    if acc.vxUnlocking < amount then .error .exceedFundAvailable
    else .ok { acc with vxUnlocking := acc.vxUnlocking - amount, available := acc.available + amount }

def scheduleCancelStake (amount : ℕ) : Except DexError (FundDb × Account) :=
  updateFund db address viteTokenId fun acc => .ok { acc with cancellingStake := acc.cancellingStake + amount }

def finishCancelStake (amount : ℕ) : Except DexError (FundDb × Account) :=
  updateFund db address viteTokenId fun acc =>
    if acc.cancellingStake < amount then .error .exceedFundAvailable
    else .ok { acc with cancellingStake := acc.cancellingStake - amount, available := acc.available + amount }

def depositAccount (token : TokenId) (amount : ℕ) : FundDb × Account :=
  let acc := db.account address token
  let acc := { acc with available := acc.available + amount }
  (db.saveAccount address token acc, acc)

def lockMinedVx (amount : ℕ) : FundDb × Account :=
  let acc := db.account address vxTokenId
  let acc := { acc with vxLocked := acc.vxLocked + amount }
  (db.saveAccount address vxTokenId acc, acc)

/-- Amounts in several tokens, each token once. -/
def batchUpdateFund (amounts : List (TokenId × ℕ)) : FundDb :=
  amounts.foldl (fun db e => (depositAccount db address e.1 e.2).1) db

end GoVite.Dex

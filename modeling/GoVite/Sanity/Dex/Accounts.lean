import GoVite.Lib.Except
import GoVite.Spec.Dex.Accounts
import GoVite.Spec.Dex.Fees

/-! What the moves on one account and the clock of the fund contract leave alone. -/

namespace GoVite.Dex
open KeyStore ExceptRules

theorem account_saveAccount (db : FundDb) (address address' : Address) (token token' : TokenId) (account : Account) :
    (db.saveAccount address token account).account address' token'
      = if address' = address ∧ token' = token then account else db.account address' token' := by
  unfold FundDb.account FundDb.saveAccount accountKey
  rw [Store.getD_set]
  simp

variable {db : FundDb} {address : Address} {token : TokenId}

theorem account_of_get? {account : Account}
    (h : db.accounts.get? (accountKey address token) = some account) : db.account address token = account := by
  unfold FundDb.account Store.getD
  rw [h]
  rfl

variable {r : FundDb × Account}

/-- A move on an account that succeeded found the account and wrote what the move made of it. -/
theorem updateFund_ok {update : Account → Except DexError Account} (h : updateFund db address token update = .ok r) :
    update (db.account address token) = .ok r.2 ∧ r.1 = db.saveAccount address token r.2 := by
  unfold updateFund at h
  split at h
  · cases h
  · rename_i account hget
    obtain ⟨account', hupdate, h⟩ := bind_ok h
    cases h
    rw [account_of_get? hget]
    exact ⟨hupdate, rfl⟩

theorem reduceAccount_ok {amount : ℕ}
    (h : reduceAccount db address token amount = .ok r) : amount ≤ (db.account address token).available
      ∧ r.2 = { db.account address token with available := (db.account address token).available - amount }
      ∧ r.1 = db.saveAccount address token r.2 := by
  obtain ⟨hupdate, hdb⟩ := updateFund_ok h
  obtain ⟨hle, hupdate⟩ := guard_ok hupdate
  exact ⟨not_lt.1 hle, (Except.ok.inj hupdate).symm, hdb⟩

def tokenSum (db : FundDb) (token : TokenId) (w : Account → ℕ) : ℕ :=
  db.accounts.sum fun key acc => if (ofLex key).2 = token then w acc else 0

variable {w : Account → ℕ}

/-- An account saved with more weight. -/
theorem tokenSum_saveAccount {t : TokenId} {acc : Account} {amount : ℕ} (hzero : w {} = 0)
    (hacc : w acc = w (db.account address t) + amount) (token : TokenId) :
    tokenSum (db.saveAccount address t acc) token w = tokenSum db token w + if t = token then amount else 0 := by
  have hdefault : (if (ofLex (accountKey address t)).2 = token then w {} else 0) = 0 := by
    rw [hzero]
    split_ifs <;> rfl
  have hsave : tokenSum (db.saveAccount address t acc) token w + (if t = token then w (db.account address t) else 0) =
      tokenSum db token w + if t = token then w acc else 0 :=
    db.accounts.sum_set_getD (accountKey address t) acc {} (fun key acc => if (ofLex key).2 = token then w acc else 0) hdefault
  split_ifs at hsave ⊢ <;> omega

variable {db' : FundDb}

theorem tokenSum_congr (h : db'.accounts = db.accounts) (token : TokenId) (w : Account → ℕ) :
    tokenSum db' token w = tokenSum db token w := by
  unfold tokenSum
  rw [h]

/-- A weight of accounts that counts what is available. -/
structure CountsAvailable (w : Account → ℕ) : Prop where
  zero : w {} = 0
  available : ∀ acc x, w { acc with available := acc.available + x } = w acc + x

theorem tokenSum_depositAccount (hw : CountsAvailable w) (db : FundDb) (address : Address)
    (t token : TokenId) (amount : ℕ) :
    tokenSum (depositAccount db address t amount).1 token w = tokenSum db token w + if t = token then amount else 0 :=
  tokenSum_saveAccount hw.zero (hw.available _ amount) token

variable {reader : ConsensusReader} {periodId : ℕ}

theorem getCurrentPeriodId_ok (h : db.getCurrentPeriodId reader = .ok periodId) :
    db.dexTimestamp ≠ 0 ∧ periodId = reader.getIndexByTime db.dexTimestamp := by
  unfold FundDb.getCurrentPeriodId at h
  split_ifs at h with hzero
  exact ⟨hzero, (Except.ok.inj h).symm⟩

variable {A : Arith}

theorem rollAndGentNewDexFeesByPeriod_ok {r : FundDb × DexFeesByPeriod}
    (h : rollAndGentNewDexFeesByPeriod A db periodId = .ok r) : r.1 = { db with lastDexFeesPeriodId := periodId } := by
  unfold rollAndGentNewDexFeesByPeriod at h
  dsimp only at h
  split_ifs at h
  · split at h
    · cases h
    · cases h
      rfl
  · cases h
    rfl

/-- The clock only goes forward. -/
theorem setDexTimestamp_ok {timestamp : ℕ}
    (h : setDexTimestamp A db reader timestamp = .ok db') : db.dexTimestamp < timestamp
      ∧ db' = { db with
        dexTimestamp := timestamp, lastDexFeesPeriodId := db'.lastDexFeesPeriodId, dexFees := db'.dexFees } := by
  obtain ⟨hlt, h⟩ := guard_ok h
  refine ⟨not_le.1 hlt, ?_⟩
  dsimp only at h
  split_ifs at h
  · cases h
    rfl
  · obtain ⟨db₁, hroll, h⟩ := bind_ok h
    cases h
    obtain ⟨rolled, hrolled, hsave⟩ := bind_ok hroll
    cases hsave
    rw [rollAndGentNewDexFeesByPeriod_ok hrolled]
    rfl

end GoVite.Dex

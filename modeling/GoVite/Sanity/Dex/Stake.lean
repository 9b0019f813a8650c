import GoVite.Sanity.Dex.Schedule
import GoVite.Spec.Dex.Stake

/-! What a stake and its callbacks do to the VITE of a user and to the records of stakes. -/

namespace GoVite.Dex
open KeyStore ExceptRules Store

def stakedOf (db : FundDb) (a : Address) : ℕ :=
  db.delegateStakeInfos.sum fun _ info => if info.address = a then info.amount else 0

/-- The VITE of a user that is available, being cancelled or staked. -/
def stakeTotal (db : FundDb) (a : Address) : ℕ :=
  (db.account a viteTokenId).available + (db.account a viteTokenId).cancellingStake + stakedOf db a

def fixedAmount : StakeType → Option ℕ
  | .mining => none
  | .vip => some stakeForVIPAmount
  | .superVIP | .principalSuperVIP => some stakeForSuperVIPAmount

/-- Every record has the amount of its type, and its user has an account. -/
structure StakesKept (db : FundDb) : Prop where
  amount : ∀ key info x, db.delegateStakeInfos.get? key = some info → fixedAmount info.stakeType = some x → info.amount = x
  held : ∀ key info, db.delegateStakeInfos.get? key = some info →
    (db.accounts.get? (accountKey info.address viteTokenId)).isSome

variable {db db' : FundDb} {reader : ConsensusReader} {id : Hash} {info : DelegateStakeInfo} {address : Address}
  {amount : ℕ} {r : FundDb × List QuotaCall}

section Frames

theorem onStakeSuccess_frame (h : onStakeSuccess db reader id info = .ok r) :
    r.1 = { db with
      miningStakedV2Amounts := r.1.miningStakedV2Amounts, miningStakings := r.1.miningStakings
      vipStakings := r.1.vipStakings, superVIPStakings := r.1.superVIPStakings } := by
  unfold onStakeSuccess at h
  split at h
  · obtain ⟨db₁, hchange, h⟩ := bind_ok h
    obtain ⟨periodId, -, hchange⟩ := bind_ok hchange
    obtain ⟨histories, -, hchange⟩ := bind_ok hchange
    cases hchange
    cases h
    rfl
  all_goals
    obtain ⟨stakings, -, h⟩ := bind_ok h
    cases h
    rfl

theorem onCancelSuccess_frame (h : onCancelSuccess db reader id info amount = .ok db') : db' = { db with
      miningStakedV2Amounts := db'.miningStakedV2Amounts, miningStakings := db'.miningStakings
      cancelStakes := db'.cancelStakes, vipStakings := db'.vipStakings, superVIPStakings := db'.superVIPStakings } := by
  unfold onCancelSuccess at h
  split at h
  · obtain ⟨-, h⟩ := guard_ok h
    obtain ⟨-, h⟩ := guard_ok h
    obtain ⟨db₁, hadd, h⟩ := bind_ok h
    obtain ⟨_, -, hadd⟩ := bind_ok hadd
    obtain ⟨periodId, -, h⟩ := bind_ok h
    obtain ⟨histories, -, h⟩ := bind_ok h
    cases hadd
    cases h
    rfl
  all_goals
    obtain ⟨-, h⟩ := guard_ok h
    obtain ⟨stakings, -, h⟩ := bind_ok h
    cases h
    rfl

end Frames

section Records

def countedFor (a : Address) (info : DelegateStakeInfo) : ℕ := if info.address = a then info.amount else 0

theorem stakedOf_put (db : FundDb) (id : Hash) (info : DelegateStakeInfo) (a : Address) :
    stakedOf (putDelegateStakeInfo db id info) a + ((getDelegateStakeInfo db id).map (countedFor a)).getD 0 =
      stakedOf db a + countedFor a info :=
  db.delegateStakeInfos.sum_set (delegateStakeInfoKey id) info fun _ info => countedFor a info

theorem stakedOf_delete (h : getDelegateStakeInfo db id = some info) (a : Address) :
    stakedOf db a = stakedOf (deleteDelegateStakeInfo db id) a + countedFor a info := by
  have hsum := db.delegateStakeInfos.sum_erase (delegateStakeInfoKey id) fun _ info => countedFor a info
  unfold getDelegateStakeInfo at h
  rw [h] at hsum
  exact hsum

/-- A user's VITE in the account: available or being cancelled. -/
def inAccount (db : FundDb) (a : Address) : ℕ :=
  (db.account a viteTokenId).available + (db.account a viteTokenId).cancellingStake

theorem stakeTotal_eq (db : FundDb) (a : Address) : stakeTotal db a = inAccount db a + stakedOf db a := rfl

theorem inAccount_saveAccount (acc : Account) (a : Address) : inAccount (db.saveAccount address viteTokenId acc) a =
    if address = a then acc.available + acc.cancellingStake else inAccount db a := by
  unfold inAccount
  rw [account_saveAccount]
  by_cases ha : address = a
  · rw [if_pos ha, if_pos ⟨ha.symm, rfl⟩]
  · rw [if_neg ha, if_neg (fun h => ha h.1.symm)]

theorem inAccount_reduceAccount {r : FundDb × Account} (h : reduceAccount db address viteTokenId amount = .ok r)
    (a : Address) : inAccount r.1 a + (if address = a then amount else 0) = inAccount db a := by
  obtain ⟨hle, hacc, hsave⟩ := reduceAccount_ok h
  rw [hsave, inAccount_saveAccount, hacc]
  split_ifs with ha
  · subst ha
    unfold inAccount
    dsimp only
    omega
  · rfl

theorem inAccount_add {acc : Account} (h : acc.available + acc.cancellingStake = inAccount db info.address + info.amount)
    (a : Address) : inAccount (db.saveAccount info.address viteTokenId acc) a = inAccount db a + countedFor a info := by
  rw [inAccount_saveAccount, countedFor]
  split_ifs with ha
  · rw [h, ha]
  · rfl

theorem inAccount_depositAccount (db : FundDb) (info : DelegateStakeInfo) (a : Address) :
    inAccount (depositAccount db info.address viteTokenId info.amount).1 a = inAccount db a + countedFor a info := by
  refine inAccount_add ?_ a
  unfold inAccount
  dsimp only
  omega

variable (h : (db.accounts.get? (accountKey info.address viteTokenId)).isSome) (a : Address)
include h

theorem inAccount_scheduleCancelStake :
    inAccount (scheduleCancelStakeAnyway db info.address info.amount) a = inAccount db a + countedFor a info := by
  have hok := updateFund_of_get? (fun acc => .ok { acc with cancellingStake := acc.cancellingStake + info.amount }) _ h rfl
  unfold scheduleCancelStakeAnyway scheduleCancelStake
  rw [hok]
  refine inAccount_add ?_ a
  unfold inAccount
  dsimp only
  omega

theorem inAccount_payBackStake :
    inAccount (payBackStake db info info.amount) a = inAccount db a + countedFor a info := by
  unfold payBackStake
  split
  · exact inAccount_scheduleCancelStake h a
  all_goals exact inAccount_depositAccount db info a

end Records

section Accounts

def AccountsKept (db db' : FundDb) : Prop := ∀ key, (db.accounts.get? key).isSome → (db'.accounts.get? key).isSome

theorem accountsKept_saveAccount (db : FundDb) (address : Address) (token : TokenId) (acc : Account) :
    AccountsKept db (db.saveAccount address token acc) := by
  intro key hkey
  unfold FundDb.saveAccount
  rw [get?_set]
  split_ifs
  · rfl
  · exact hkey

theorem payBackStake_frame (db : FundDb) (info : DelegateStakeInfo) (amount : ℕ) :
    payBackStake db info amount = { db with accounts := (payBackStake db info amount).accounts } ∧
      AccountsKept db (payBackStake db info amount) := by
  unfold payBackStake
  split
  · unfold scheduleCancelStakeAnyway
    split
    · rename_i r hschedule
      obtain ⟨-, hsave⟩ := updateFund_ok hschedule
      rw [hsave]
      exact ⟨rfl, accountsKept_saveAccount db _ _ _⟩
    · exact ⟨rfl, fun _ hkey => hkey⟩
  all_goals exact ⟨rfl, accountsKept_saveAccount db _ _ _⟩

end Accounts

section Steps

/-- What a stake, a callback or a job keeps: the records in order, and the VITE of every user. -/
structure StakeStep (db db' : FundDb) : Prop where
  kept : StakesKept db'
  total : ∀ a, stakeTotal db' a = stakeTotal db a

variable (h : StakesKept db)
include h

theorem StakesKept.congr (hinfos : db'.delegateStakeInfos = db.delegateStakeInfos)
    (haccounts : AccountsKept db db') : StakesKept db' := by
  constructor
  · rw [hinfos]
    exact h.amount
  · rw [hinfos]
    exact fun key info hget => haccounts _ (h.held key info hget)

theorem StakesKept.delete (id : Hash) : StakesKept (deleteDelegateStakeInfo db id) := by
  exact ⟨fun key info x hget => h.amount key info x (get?_erase_cases hget).2,
    fun key info hget => h.held key info (get?_erase_cases hget).2⟩

theorem StakesKept.put (id : Hash) (info : DelegateStakeInfo)
    (hamount : ∀ x, fixedAmount info.stakeType = some x → info.amount = x)
    (hheld : (db.accounts.get? (accountKey info.address viteTokenId)).isSome) :
    StakesKept (putDelegateStakeInfo db id info) := by
  refine ⟨fun key new x hget => ?_, forall_set hheld h.held⟩
  obtain ⟨-, rfl⟩ | ⟨-, hold⟩ := get?_set_cases hget
  · exact hamount x
  · exact h.amount key new x hold

/-- A stake moves the amount from the account to a new record. -/
theorem handleStakeAction_step {stakeType : StakeType} {principal : Address} {stakeHeight : ℕ} (hfresh : getDelegateStakeInfo db id = none)
    (hamount : ∀ x, fixedAmount stakeType = some x → amount = x)
    (hstake : handleStakeAction db stakeType address principal amount stakeHeight id = .ok r) :
    StakeStep db r.1 ∧ ∃ info, r.1.delegateStakeInfos = (putDelegateStakeInfo db id info).delegateStakeInfos := by
  obtain ⟨_, -, hstake⟩ := bind_ok hstake
  obtain ⟨reduced, hreduce, hstake⟩ := bind_ok hstake
  obtain ⟨hle, hacc, hsave⟩ := reduceAccount_ok hreduce
  cases hstake
  refine ⟨?_, { stakeType := stakeType, address := address, principal := principal, amount := amount }, by rw [hsave]; rfl⟩
  have hkept : StakesKept reduced.1 := by
    refine h.congr ?_ ?_
    · rw [hsave]
      rfl
    · rw [hsave]
      exact accountsKept_saveAccount db _ _ _
  constructor
  · refine hkept.put id _ hamount ?_
    rw [hsave]
    unfold FundDb.saveAccount
    rw [get?_set_self]
    rfl
  · intro a
    have hput := stakedOf_put reduced.1 id
      { stakeType := stakeType, address := address, principal := principal, amount := amount } a
    have hnone : getDelegateStakeInfo reduced.1 id = none := by
      rw [hsave]
      exact hfresh
    have hsame : stakedOf reduced.1 a = stakedOf db a := by
      rw [hsave]
      rfl
    have hreduced := inAccount_reduceAccount hreduce a
    rw [hnone] at hput
    change inAccount reduced.1 a + stakedOf (putDelegateStakeInfo reduced.1 id _) a = inAccount db a + stakedOf db a
    unfold countedFor at hput
    dsimp only [Option.map_none, Option.getD_none] at hput
    omega

omit h in
theorem stakeCallback_success_cases (hcall : methodDelegateStakeCallbackV2 db reader id true amount = .ok r) :
    ∃ info serialNo, getDelegateStakeInfo db id = some info ∧ r.1.accounts = db.accounts ∧
      r.1.delegateStakeInfos =
        (putDelegateStakeInfo db id { info with status := .confirmed, serialNo := serialNo }).delegateStakeInfos := by
  unfold methodDelegateStakeCallbackV2 at hcall
  split at hcall
  · cases hcall
  · rename_i info hinfo
    obtain ⟨done, hdone, hcall⟩ := bind_ok hcall
    have hframe := onStakeSuccess_frame hdone
    cases hcall
    refine ⟨info, (saveDelegateStakeAddressIndex done.1 id info.stakeType info.address).2, hinfo, ?_, ?_⟩
    · change done.1.accounts = db.accounts
      rw [hframe]
    · rw [hframe]
      rfl

/-- A confirmed stake moves nothing. -/
theorem stakeCallback_success_step
    (hcall : methodDelegateStakeCallbackV2 db reader id true amount = .ok r) : StakeStep db r.1 := by
  obtain ⟨info, serialNo, hinfo, haccounts, hinfos⟩ := stakeCallback_success_cases hcall
  set new := { info with status := .confirmed, serialNo := serialNo }
  have hput := h.put id new (h.amount _ info · hinfo) (h.held _ info hinfo)
  constructor
  · refine hput.congr hinfos fun key hkey => ?_
    rw [haccounts]
    exact hkey
  · intro a
    have hstaked := stakedOf_put db id new a
    rw [hinfo] at hstaked
    have hsame : stakedOf r.1 a = stakedOf (putDelegateStakeInfo db id new) a := by
      unfold stakedOf
      rw [hinfos]
    have haccount : inAccount r.1 a = inAccount db a := by
      unfold inAccount FundDb.account
      rw [haccounts]
    rw [stakeTotal_eq, stakeTotal_eq]
    change stakedOf _ a + countedFor a info = stakedOf db a + countedFor a info at hstaked
    omega

omit h in
/-- A failed stake that is not refused is credited, and its record deleted. -/
theorem stakeCallback_failed_cases (hcall : methodDelegateStakeCallbackV2 db reader id false amount = .ok r) :
    ∃ info, getDelegateStakeInfo db id = some info ∧ checkFailedAmount info amount = .ok () ∧
      r = (deleteDelegateStakeInfo (depositAccount db info.address viteTokenId amount).1 id, []) := by
  unfold methodDelegateStakeCallbackV2 at hcall
  split at hcall
  · cases hcall
  · rename_i info hinfo
    obtain ⟨_, hcheck, hcall⟩ := bind_ok hcall
    exact ⟨info, hinfo, hcheck, (Except.ok.inj hcall).symm⟩

theorem stakeCallback_failed_step (hamount : ∀ info, getDelegateStakeInfo db id = some info → amount = info.amount)
    (hcall : methodDelegateStakeCallbackV2 db reader id false amount = .ok r) : StakeStep db r.1 := by
  obtain ⟨info, hinfo, -, rfl⟩ := stakeCallback_failed_cases hcall
  rw [hamount info hinfo]
  constructor
  · have hkept : StakesKept (depositAccount db info.address viteTokenId info.amount).1 :=
      h.congr rfl (accountsKept_saveAccount db _ _ _)
    exact hkept.delete id
  · intro a
    have hdeposit := inAccount_depositAccount db info a
    have hdelete := stakedOf_delete hinfo a
    change inAccount (depositAccount db info.address viteTokenId info.amount).1 a +
      stakedOf (deleteDelegateStakeInfo db id) a = inAccount db a + stakedOf db a
    omega

section
variable (hcall : methodCancelDelegateStakeCallbackV2 db reader id true amount = .ok db')
include hcall

omit h in
theorem cancelCallback_success_cases :
    ∃ info db₁, getDelegateStakeInfo db id = some info ∧ onCancelSuccess db reader id info amount = .ok db₁ ∧
      db' = deleteDelegateStakeAddressIndex (deleteDelegateStakeInfo (payBackStake db₁ info amount) id) info.address
        info.serialNo := by
  unfold methodCancelDelegateStakeCallbackV2 at hcall
  split at hcall
  · cases hcall
  · rename_i info hinfo
    obtain ⟨db₁, hcancel, hcall⟩ := bind_ok hcall
    exact ⟨info, db₁, hinfo, hcancel, (Except.ok.inj hcall).symm⟩

/-- A cancelled stake is paid back, and its record deleted. -/
theorem cancelCallback_success_step : StakeStep db db' := by
  obtain ⟨info, db₁, hinfo, hcancel, rfl⟩ := cancelCallback_success_cases hcall
  have hframe := onCancelSuccess_frame hcancel
  have hamount : info.amount = amount := by
    have hfixed := (h.amount _ info · hinfo)
    unfold onCancelSuccess at hcancel
    cases htype : info.stakeType <;> rw [htype] at hcancel hfixed
    case mining => exact not_not.1 (guard_ok hcancel).1
    all_goals exact (hfixed _ rfl).trans (not_not.1 (guard_ok hcancel).1)
  have hheld : (db₁.accounts.get? (accountKey info.address viteTokenId)).isSome := by
    rw [hframe]
    exact h.held _ info hinfo
  rw [← hamount]
  obtain ⟨hpay, hkept⟩ := payBackStake_frame db₁ info info.amount
  have hinfos : (payBackStake db₁ info info.amount).delegateStakeInfos = db.delegateStakeInfos := by
    rw [hpay, hframe]
  constructor
  · have hdeleted := StakesKept.delete (h.congr hinfos ?_) id
    · exact ⟨hdeleted.amount, hdeleted.held⟩
    · intro key hkey
      refine hkept key ?_
      rw [hframe]
      exact hkey
  · intro a
    have hpaid := inAccount_payBackStake hheld a
    have hget : getDelegateStakeInfo (payBackStake db₁ info info.amount) id = some info := by
      rw [getDelegateStakeInfo, hinfos]
      exact hinfo
    have hdelete := stakedOf_delete hget a
    have hstaked : stakedOf (payBackStake db₁ info info.amount) a = stakedOf db a := by
      unfold stakedOf
      rw [hinfos]
    have hbefore : inAccount db₁ a = inAccount db a := by
      rw [hframe]
      rfl
    change inAccount (payBackStake db₁ info info.amount) a +
      stakedOf (deleteDelegateStakeInfo (payBackStake db₁ info info.amount) id) a = inAccount db a + stakedOf db a
    omega

end

/-- A finish job moves what is being cancelled to what is available. -/
theorem doFinishCancelMiningStake_step {periodId : ℕ} (hfinish : doFinishCancelMiningStake db periodId = .ok db') :
    StakeStep db db' ∧ db'.delegateStakeInfos = db.delegateStakeInfos := by
  obtain ⟨hframe, hkept⟩ := doFinish_frame cancelStakeKind_lawful hfinish
  have hinfos : db'.delegateStakeInfos = db.delegateStakeInfos := by
    rw [hframe]
    rfl
  refine ⟨⟨h.congr hinfos hkept, fun a => ?_⟩, hinfos⟩
  have hweight := doFinish_weight cancelStakeKind_lawful (w := fun acc => acc.available + acc.cancellingStake) ?_ hfinish a
  · unfold stakeTotal stakedOf
    rw [hweight, hinfos]
  · intro amount acc hle
    unfold giveCancelStake
    dsimp only
    omega

end Steps

end GoVite.Dex

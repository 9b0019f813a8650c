import GoVite.Sanity.Dex.Accounts
import GoVite.Sanity.Dex.Locks
import GoVite.Spec.Dex.SettleFund
import GoVite.Spec.Dex.Trade

/-! A settle message on its way. If the locks cover it, the fund contract takes out exactly what the trade contract
wrote. -/

namespace GoVite.Dex
open KeyStore ExceptRules List AccountSettle SettleWeight

def SettleActions.token (m : SettleActions) (isTradeToken : Bool) : TokenId :=
  if isTradeToken then m.tradeToken else m.quoteToken

/-- What one settlement takes out of the lock of a token. -/
def AccountSettle.unlocks (tokenOf : Bool → TokenId) (token : TokenId) (s : AccountSettle) : ℕ :=
  if tokenOf s.isTradeToken = token then s.reduceLocked + s.releaseLocked else 0

def FundSettle.unlocks (tokenOf : Bool → TokenId) (address : Address) (token : TokenId) (action : FundSettle) : ℕ :=
  if action.address = address then (action.accountSettles.map (AccountSettle.unlocks tokenOf token)).sum else 0

/-- What a message takes out of the lock of a user in a token. -/
def SettleActions.unlocks (m : SettleActions) (address : Address) (token : TokenId) : ℕ :=
  (m.fundActions.map (FundSettle.unlocks m.token address token)).sum

section Send

/-- Every settlement of a block names the token it is filed under. -/
def FundSettles.Keyed (fs : FundSettles) : Prop :=
  ∀ address m, fs.get? address = some m → ∀ isTradeToken s, m.get? isTradeToken = some s → s.isTradeToken = isTradeToken

theorem FundSettles.keyed_empty : FundSettles.Keyed .empty := by
  intro address m h
  cases h

theorem FundSettles.keyed_updateFundSettle (mc : Matcher) (address : Address) (s : AccountSettle)
    (h : FundSettles.Keyed mc.fundSettles) : FundSettles.Keyed (mc.updateFundSettle address s).fundSettles := by
  have hold : ∀ isTradeToken ac, (mc.fundSettles.getD address .empty).get? isTradeToken = some ac →
      ac.isTradeToken = isTradeToken := by
    intro isTradeToken ac hac
    unfold Store.getD at hac
    cases hget : mc.fundSettles.get? address with
    | none =>
      rw [hget] at hac
      cases hac
    | some m =>
      rw [hget] at hac
      exact h address m hget isTradeToken ac hac
  intro a m hm isTradeToken ac hac
  obtain ⟨-, rfl⟩ | ⟨-, hm⟩ := Store.get?_set_cases hm
  · obtain ⟨rfl, rfl⟩ | ⟨-, hac⟩ := Store.get?_set_cases hac
    · unfold Store.getD
      cases hget : ((mc.fundSettles.get? address).getD .empty).get? s.isTradeToken with
      | none => rfl
      | some x => exact hold _ x hget
    · exact hold isTradeToken ac hac
  · exact h a m hm isTradeToken ac hac

/-- The message of a block takes out of the locks what its settlements do. -/
theorem unlocks_handleSettleActions {fs : FundSettles} (hkeyed : fs.Keyed) (fees : FeeSettles) (mi : MarketInfo)
    (address : Address) (token : TokenId) :
    ((handleSettleActions fs fees mi).toList.map fun m => m.unlocks address token).sum
      = (lockSettle fun a side => if a = address ∧ lockToken mi side = token then 1 else 0).total fs := by
  have hinner : ∀ a m, fs.get? a = some m →
      FundSettle.unlocks (lockToken mi) address token ⟨a, m.values.reverse⟩
        = m.sum ((lockSettle fun a side => if a = address ∧ lockToken mi side = token then 1 else 0).weigh a) := by
    intro a m hm
    unfold FundSettle.unlocks Store.values Store.sum
    rw [map_reverse, sum_reverse, map_map]
    dsimp only
    split_ifs with ha
    · refine congrArg List.sum (map_congr_left fun e he => ?_)
      have hk := hkeyed a m hm e.1 e.2 (Store.get?_eq_some_iff.2 he)
      simp only [Function.comp_apply, unlocks, weigh, lockSettle, hk, ha, true_and]
      split_ifs
      · simp
      · simp
    · symm
      refine sum_eq_zero fun x hx => ?_
      obtain ⟨e, -, rfl⟩ := mem_map.1 hx
      simp [weigh, lockSettle, ha]
  unfold handleSettleActions
  split_ifs with hempty
  · have hfs : fs.entries = [] := by
      rw [Bool.and_eq_true] at hempty
      simpa using hempty.1
    simp [total, Store.sum, hfs]
  · simp only [Option.toList_some, map_cons, sum_cons]
    unfold SettleActions.unlocks fundActionsOf total Store.sum
    rw [map_map]
    exact congrArg List.sum (map_congr_left fun e he => hinner e.1 e.2 (Store.get?_eq_some_iff.2 he))

end Send

section Receive

theorem safeSubBigInt_of_le {amt sub : ℕ} (h : sub ≤ amt) : safeSubBigInt amt sub = (amt - sub, sub, false) := by
  unfold safeSubBigInt
  rw [if_neg (not_lt.2 h), subBigIntAbs_of_le h]

/-- A settlement within the lock takes out what it says. -/
theorem settleAccount_of_le (account : Account) (s : AccountSettle) (h : s.reduceLocked + s.releaseLocked ≤ account.locked) :
    (settleAccount account s).exceed = false
    ∧ (settleAccount account s).account.locked + (s.reduceLocked + s.releaseLocked) = account.locked := by
  have hreduce : (if s.reduceLocked ≠ 0 then safeSubBigInt account.locked s.reduceLocked else (account.locked, 0, false))
      = (account.locked - s.reduceLocked, s.reduceLocked, false) := by
    split_ifs with h0
    · exact safeSubBigInt_of_le (by omega)
    · rw [not_not.1 h0, Nat.sub_zero]
  have hrelease : (if s.releaseLocked ≠ 0 then safeSubBigInt (account.locked - s.reduceLocked) s.releaseLocked
      else (account.locked - s.reduceLocked, 0, false))
      = (account.locked - s.reduceLocked - s.releaseLocked, s.releaseLocked, false) := by
    split_ifs with h0
    · exact safeSubBigInt_of_le (by omega)
    · rw [not_not.1 h0, Nat.sub_zero]
  unfold settleAccount
  rw [hreduce]
  dsimp only
  rw [hrelease]
  exact ⟨rfl, by dsimp only; omega⟩

/-- Along the settlements of a message: only accounts change, nothing is exceeded, and the locks are these. -/
structure LocksAre (db : FundDb) (locks : Address → TokenId → ℕ) (s : Settled) : Prop where
  exceed : s.exceed = false
  frame : s.db = { db with accounts := s.db.accounts }
  locked : ∀ address token, (s.db.account address token).locked = locks address token

variable {db : FundDb} {reader : ConsensusReader} {mi : MarketInfo} {locks : Address → TokenId → ℕ} {s : Settled}

section
variable (hearth : db.heightPoint.isEarthUpgrade = true)
  (htokens : ∀ side, (db.tokenInfos.get? (lockToken mi side)).isSome = true)
include hearth htokens

theorem settleOne_locksAre {address : Address} {ac : AccountSettle}
    (h : LocksAre db (fun a token => locks a token + if address = a then ac.unlocks (lockToken mi) token else 0) s) :
    ∃ s', settleOne reader address mi s ac = .ok s' ∧ LocksAre db locks s' := by
  obtain ⟨info, hinfo⟩ := Option.isSome_iff_exists.1 (htokens ac.isTradeToken)
  set token := lockToken mi ac.isTradeToken with htoken
  have htok : s.db.tokenInfos.get? token = some info := by
    rw [h.frame]
    exact hinfo
  have hlocked := h.locked address token
  rw [if_pos rfl, unlocks, if_pos htoken.symm] at hlocked
  obtain ⟨hexceed, hafter⟩ := settleAccount_of_le (s.db.account address token) ac (by omega)
  have hheight : (s.db.saveAccount address token (settleAccount (s.db.account address token) ac).account).heightPoint
      = db.heightPoint := by
    rw [h.frame]
    rfl
  refine ⟨⟨s.db.saveAccount address token (settleAccount (s.db.account address token) ac).account, false⟩, ?_, rfl, ?_, ?_⟩
  · unfold settleOne
    dsimp only
    rw [← htoken, htok]
    -- since the earth upgrade settled VX does not count
    rw [if_neg (by simp [hexceed]), onSettleVx, hheight, hexceed, h.exceed]
    split_ifs <;> rfl
  · rw [h.frame]
    rfl
  · intro a t
    rw [account_saveAccount]
    split_ifs with hat
    · obtain ⟨rfl, rfl⟩ := hat
      omega
    · have hother := h.locked a t
      rw [hother]
      by_cases ha : address = a
      · rw [if_pos ha, unlocks, if_neg, add_zero]
        exact fun ht => hat ⟨ha.symm, ht.symm⟩
      · rw [if_neg ha, add_zero]

theorem doSettleFund_locksAre {action : FundSettle}
    (h : LocksAre db (fun a token => locks a token + action.unlocks (lockToken mi) a token) s) :
    ∃ s', doSettleFund reader mi s action = .ok s' ∧ LocksAre db locks s' := by
  -- the locks still hold what is left of the list
  let P (rest : List AccountSettle) : Settled → Prop := LocksAre db fun a token =>
    locks a token + if action.address = a then (rest.map (AccountSettle.unlocks (lockToken mi) token)).sum else 0
  have hstep : ∀ ac rest s, P (ac :: rest) s → ∃ s', settleOne reader action.address mi s ac = .ok s' ∧ P rest s' := by
    intro ac rest s hs
    apply settleOne_locksAre hearth htokens
    refine ⟨hs.exceed, hs.frame, fun a token => ?_⟩
    rw [hs.locked]
    split_ifs
    · rw [map_cons, sum_cons]
      omega
    · rfl
  obtain ⟨s', hs', hend⟩ := foldlM_total P hstep h
  exact ⟨s', hs', by simpa [P] using hend⟩

theorem fundActions_locksAre {actions : List FundSettle}
    (h : LocksAre db (fun a token => locks a token + (actions.map (FundSettle.unlocks (lockToken mi) a token)).sum) s) :
    ∃ s', actions.foldlM (doSettleFund reader mi) s = .ok s' ∧ LocksAre db locks s' := by
  let P (rest : List FundSettle) : Settled → Prop := LocksAre db fun a token =>
    locks a token + (rest.map (FundSettle.unlocks (lockToken mi) a token)).sum
  have hstep : ∀ action rest s, P (action :: rest) s → ∃ s', doSettleFund reader mi s action = .ok s' ∧ P rest s' := by
    intro action rest s hs
    apply doSettleFund_locksAre hearth htokens
    refine ⟨hs.exceed, hs.frame, fun a token => ?_⟩
    rw [hs.locked, map_cons, sum_cons]
    omega
  obtain ⟨s', hs', hend⟩ := foldlM_total P hstep h
  exact ⟨s', hs', by simpa [P] using hend⟩

end

end Receive

end GoVite.Dex

import GoVite.Sanity.Dex.Accounts
import GoVite.Sanity.Dex.Histories
import GoVite.Spec.Dex.Schedule

/-! Amounts that are given back seven periods later: a list in order splits into what is due and what is not. -/

namespace GoVite.Dex
open KeyStore ExceptRules List Store FundDb Prod ScheduleKind

section Lists

def amountWhere (P : ℕ → Bool) (scheduled : List AmountByPeriod) : ℕ :=
  ((scheduled.filter fun e => P e.period).map AmountByPeriod.amount).sum

def totalScheduled (scheduled : List AmountByPeriod) : ℕ := (scheduled.map AmountByPeriod.amount).sum

def isDue (periodId : ℕ) (period : ℕ) : Bool := period + schedulePeriods ≤ periodId

variable {scheduled : List AmountByPeriod} {c periodId : ℕ} {P Q : ℕ → Bool}

@[simp] theorem amountWhere_nil (P : ℕ → Bool) : amountWhere P [] = 0 := rfl

@[simp] theorem totalScheduled_nil : totalScheduled [] = 0 := rfl

theorem amountWhere_append (P : ℕ → Bool) (a b : List AmountByPeriod) :
    amountWhere P (a ++ b) = amountWhere P a + amountWhere P b := by
  unfold amountWhere
  rw [filter_append, map_append, sum_append]

theorem amountWhere_singleton (P : ℕ → Bool) (e : AmountByPeriod) :
    amountWhere P [e] = if P e.period then e.amount else 0 := by
  unfold amountWhere
  cases hP : P e.period <;> simp [hP]

theorem amountWhere_true (scheduled : List AmountByPeriod) : amountWhere (fun _ => true) scheduled = totalScheduled scheduled := by
  unfold amountWhere totalScheduled
  rw [filter_true]

theorem amountWhere_filter (P Q : ℕ → Bool) (scheduled : List AmountByPeriod) :
    amountWhere P (scheduled.filter fun e => Q e.period) = amountWhere (fun p => P p && Q p) scheduled := by
  unfold amountWhere
  rw [filter_filter]

section
variable (h : Chronological c scheduled) (amount : ℕ)
include h

/-- The current period gets the amount, in an entry of its own or in its last one. -/
theorem addScheduled_cases : ∃ former old,
    addScheduled scheduled c amount = former ++ [⟨c, old + amount⟩] ∧ Chronological c former ∧ (∀ e ∈ former, e.period < c) ∧
      ∀ P, amountWhere P scheduled = amountWhere P former + if P c then old else 0 := by
  unfold addScheduled
  cases hlast : scheduled.getLast? with
  | none =>
    rw [getLast?_eq_none_iff] at hlast
    subst hlast
    refine ⟨[], 0, ?_, Chronological.nil c, fun e he => absurd he not_mem_nil, fun P => by simp⟩
    rw [Nat.zero_add]
    rfl
  | some last =>
    obtain ⟨heq, hinit⟩ := h.split hlast
    have hformer : Chronological c scheduled.dropLast := h.sublist (dropLast_sublist _)
    dsimp only
    split_ifs with hc
    · refine ⟨scheduled.dropLast, last.amount, ?_, hformer, fun e he => hc ▸ hinit e he, fun P => ?_⟩
      · simp [replaceLast, hlast, hc]
      · conv_lhs => rw [heq]
        rw [amountWhere_append, amountWhere_singleton, hc]
    · refine ⟨scheduled, 0, by rw [Nat.zero_add], h, h.lt_of_last fun last' hlast' => ?_, fun P => by simp⟩
      rwa [← Option.mem_unique hlast hlast']

theorem addScheduled_chronological : Chronological c (addScheduled scheduled c amount) := by
  obtain ⟨former, old, heq, hformer, hlt, -⟩ := addScheduled_cases h amount
  rw [heq]
  exact hformer.append hlt (old + amount)

theorem addScheduled_ne_nil : addScheduled scheduled c amount ≠ [] := by
  obtain ⟨former, old, heq, -⟩ := addScheduled_cases h amount
  rw [heq]
  exact append_ne_nil_of_right_ne_nil _ (cons_ne_nil _ _)

theorem amountWhere_addScheduled (P : ℕ → Bool) :
    amountWhere P (addScheduled scheduled c amount) = amountWhere P scheduled + if P c then amount else 0 := by
  obtain ⟨former, old, heq, -, -, hwhere⟩ := addScheduled_cases h amount
  rw [heq, amountWhere_append, amountWhere_singleton, hwhere P]
  dsimp only
  split_ifs <;> omega

end

/-- In order, what is due is in front. -/
theorem dueEntries_eq_filter (h : Chronological c scheduled) (periodId : ℕ) :
    dueEntries scheduled periodId = scheduled.filter (fun e => isDue periodId e.period) ∧
      scheduled.drop (dueEntries scheduled periodId).length = scheduled.filter (fun e => !isDue periodId e.period) := by
  induction scheduled with
  | nil => exact ⟨rfl, rfl⟩
  | cons e scheduled ih =>
    have hsorted := pairwise_cons.1 h.increasing
    obtain ⟨hdue, hrest⟩ := ih (h.suffix (suffix_cons e scheduled))
    unfold dueEntries at hdue hrest ⊢
    by_cases he : e.period + schedulePeriods ≤ periodId
    · have hisDue : isDue periodId e.period = true := by simpa [isDue] using he
      rw [takeWhile_cons_of_pos (by simpa using he), length_cons, drop_succ_cons, hrest, hdue]
      simp [hisDue]
    · have hlater : ∀ e' ∈ e :: scheduled, isDue periodId e'.period = false := by
        intro e' he'
        unfold isDue
        rw [decide_eq_false_iff_not]
        rcases mem_cons.1 he' with rfl | he'
        · exact he
        · have hlt := hsorted.1 e' he'
          omega
      rw [takeWhile_cons_of_neg (by simpa using he)]
      constructor
      · symm
        rw [filter_eq_nil_iff]
        intro e' he'
        rw [hlater e' he']
        exact Bool.false_ne_true
      · symm
        rw [length_nil, drop_zero, filter_eq_self]
        intro e' he'
        rw [hlater e' he']
        rfl

end Lists

section Kinds

def setAccounts (db : FundDb) (accounts : Store AccountKey Account) : FundDb := { db with accounts := accounts }

theorem saveAccount_eq (db : FundDb) (address : Address) (token : TokenId) (acc : Account) :
    db.saveAccount address token acc = setAccounts db (db.accounts.set (accountKey address token) acc) := rfl

theorem setAccounts_accounts (db : FundDb) (accounts : Store AccountKey Account) :
    (setAccounts db accounts).accounts = accounts := rfl

/-- What the two kinds of schedule have in common: the amount that an account keeps for it, and how the account
gets a part of it. -/
structure ScheduleKind.Lawful (k : ScheduleKind) (token : TokenId) (kept : Account → ℕ) (give : ℕ → Account → Account) :
    Prop where
  finish_eq : ∀ db address amount, k.finish db address amount = updateFund db address token fun acc =>
    if kept acc < amount then .error .exceedFundAvailable else .ok (give amount acc)
  scheduled_save : ∀ db store, k.scheduled (k.save db store) = store
  scheduled_setAccounts : ∀ db accounts, k.scheduled (setAccounts db accounts) = k.scheduled db
  save_scheduled : ∀ db, k.save db (k.scheduled db) = db
  save_save : ∀ db store store', k.save (k.save db store) store' = k.save db store'
  save_setAccounts : ∀ db accounts store, k.save (setAccounts db accounts) store = setAccounts (k.save db store) accounts
  accounts_save : ∀ db store, (k.save db store).accounts = db.accounts
  give_zero : ∀ acc, give 0 acc = acc
  kept_give : ∀ amount acc, amount ≤ kept acc → kept (give amount acc) + amount = kept acc

def giveVxUnlock (amount : ℕ) (acc : Account) : Account :=
  { acc with vxUnlocking := acc.vxUnlocking - amount, available := acc.available + amount }

def giveCancelStake (amount : ℕ) (acc : Account) : Account :=
  { acc with cancellingStake := acc.cancellingStake - amount, available := acc.available + amount }

theorem vxUnlockKind_lawful : vxUnlockKind.Lawful vxTokenId Account.vxUnlocking giveVxUnlock where
  finish_eq _ _ _ := rfl
  scheduled_save _ _ := rfl
  scheduled_setAccounts _ _ := rfl
  save_scheduled _ := rfl
  save_save _ _ _ := rfl
  save_setAccounts _ _ _ := rfl
  accounts_save _ _ := rfl
  give_zero _ := rfl
  kept_give amount acc h := Nat.sub_add_cancel h

theorem cancelStakeKind_lawful : cancelStakeKind.Lawful viteTokenId Account.cancellingStake giveCancelStake where
  finish_eq _ _ _ := rfl
  scheduled_save _ _ := rfl
  scheduled_setAccounts _ _ := rfl
  save_scheduled _ := rfl
  save_save _ _ _ := rfl
  save_setAccounts _ _ _ := rfl
  accounts_save _ _ := rfl
  give_zero _ := rfl
  kept_give amount acc h := Nat.sub_add_cancel h

variable {k : ScheduleKind} {token : TokenId} {kept : Account → ℕ} {give : ℕ → Account → Account} {db db' : FundDb}
  {periodId : ℕ} {user : Address × List AmountByPeriod} (hk : k.Lawful token kept give)

/-- Nothing but accounts and lists is written. -/
def ScheduleKind.Framed (k : ScheduleKind) (db db' : FundDb) : Prop :=
  db' = k.save (setAccounts db db'.accounts) (k.scheduled db')

section
include hk

theorem framed_refl (db : FundDb) : k.Framed db db := (hk.save_scheduled db).symm

theorem framed_trans {db₁ db₂ : FundDb} (h : k.Framed db db₁) (h' : k.Framed db₁ db₂) : k.Framed db db₂ := by
  unfold ScheduleKind.Framed at h h' ⊢
  conv_lhs => rw [h', h]
  rw [← hk.save_setAccounts, hk.save_save]
  rfl

theorem framed_save (db : FundDb) (store : Store Address (List AmountByPeriod))
    (address : Address) (acc : Account) : k.Framed db ((k.save db store).saveAccount address token acc) := by
  unfold ScheduleKind.Framed
  rw [saveAccount_eq, hk.scheduled_setAccounts, hk.scheduled_save, hk.save_setAccounts, setAccounts_accounts]

/-- A round leaves the user alone, or gives what is due. -/
theorem finishOf_cases (h : k.finishOf periodId db user = .ok db') : dueEntries user.2 periodId = [] ∧ db' = db ∨
    totalScheduled (dueEntries user.2 periodId) ≤ kept (db.account user.1 token) ∧
      db' = (k.save db (updateScheduled (k.scheduled db) user.1
        (user.2.drop (dueEntries user.2 periodId).length))).saveAccount user.1 token
          (give (totalScheduled (dueEntries user.2 periodId)) (db.account user.1 token)) := by
  unfold finishOf at h
  by_cases hdue : dueEntries user.2 periodId = []
  · rw [if_pos hdue] at h
    exact .inl ⟨hdue, (Except.ok.inj h).symm⟩
  · rw [if_neg hdue] at h
    obtain ⟨r, hfinish, h⟩ := bind_ok h
    cases h
    rw [hk.finish_eq] at hfinish
    obtain ⟨hupdate, hsave⟩ := updateFund_ok hfinish
    obtain ⟨hle, hgive⟩ := guard_ok hupdate
    have haccount : (k.save db (updateScheduled (k.scheduled db) user.1
        (user.2.drop (dueEntries user.2 periodId).length))).account user.1 token = db.account user.1 token := by
      unfold account
      rw [hk.accounts_save]
    rw [haccount] at hle hgive
    refine .inr ⟨not_lt.1 hle, ?_⟩
    rw [hsave, ← Except.ok.inj hgive]
    rfl

end

theorem updateFund_of_get? {address : Address} (update : Account → Except DexError Account) (acc : Account)
    (hget : (db.accounts.get? (accountKey address token)).isSome) (hupdate : update (db.account address token) = .ok acc) :
    updateFund db address token update = .ok (db.saveAccount address token acc, acc) := by
  obtain ⟨old, hold⟩ := Option.isSome_iff_exists.1 hget
  rw [account_of_get? hold] at hupdate
  unfold updateFund
  rw [hold]
  dsimp only
  rw [hupdate]
  rfl

/-- A round succeeds if the account is there and keeps what is due. -/
theorem finishOf_total (hk : k.Lawful token kept give) (hheld : (db.accounts.get? (accountKey user.1 token)).isSome)
    (hkept : totalScheduled (dueEntries user.2 periodId) ≤ kept (db.account user.1 token)) :
    ∃ db', k.finishOf periodId db user = .ok db' := by
  unfold finishOf
  by_cases hdue : dueEntries user.2 periodId = []
  · rw [if_pos hdue]
    exact ⟨db, rfl⟩
  · rw [if_neg hdue, hk.finish_eq, updateFund_of_get? _ (give (totalScheduled (dueEntries user.2 periodId))
      (db.account user.1 token))]
    · exact ⟨_, rfl⟩
    · rw [hk.accounts_save]
      exact hheld
    · unfold account
      rw [hk.accounts_save]
      exact if_neg (not_lt.2 hkept)

/-- What an account keeps for a schedule is the total of its list; the lists are in order and not stored empty. -/
structure Scheduled (k : ScheduleKind) (token : TokenId) (kept : Account → ℕ) (current : ℕ) (db : FundDb) : Prop where
  total : ∀ a, kept (db.account a token) = totalScheduled ((k.scheduled db).getD a [])
  chronological : ∀ a, Chronological current ((k.scheduled db).getD a [])
  nonempty : ∀ a scheduled, (k.scheduled db).get? a = some scheduled → scheduled ≠ []
  held : ∀ a scheduled, (k.scheduled db).get? a = some scheduled → (db.accounts.get? (accountKey a token)).isSome

def storedList (scheduled : List AmountByPeriod) : Option (List AmountByPeriod) :=
  if scheduled = [] then none else some scheduled

/-- What is due of a list, and what is not. -/
def dueAmount (periodId : ℕ) (scheduled : List AmountByPeriod) : ℕ := totalScheduled (dueEntries scheduled periodId)

def notDue (periodId : ℕ) (scheduled : List AmountByPeriod) : List AmountByPeriod :=
  scheduled.drop (dueEntries scheduled periodId).length

theorem dueAmount_add (periodId : ℕ) (scheduled : List AmountByPeriod) :
    dueAmount periodId scheduled + totalScheduled (notDue periodId scheduled) = totalScheduled scheduled := by
  have hsplit : dueEntries scheduled periodId ++ notDue periodId scheduled = scheduled :=
    (prefix_append_drop ( takeWhile_prefix _)).symm
  conv_rhs => rw [← hsplit]
  unfold dueAmount totalScheduled
  rw [map_append, sum_append]

structure RoundDone (k : ScheduleKind) (token : TokenId) (give : ℕ → Account → Account) (periodId : ℕ)
    (user : Address × List AmountByPeriod) (db db' : FundDb) : Prop where
  frame : k.Framed db db'
  account : ∀ a t, db'.account a t =
    if t = token ∧ a = user.1 then give (dueAmount periodId user.2) (db.account a t) else db.account a t
  lists : ∀ a, (k.scheduled db').get? a =
    if a = user.1 then storedList (notDue periodId user.2) else (k.scheduled db).get? a
  held : ∀ a, (db.accounts.get? (accountKey a token)).isSome → (db'.accounts.get? (accountKey a token)).isSome

theorem finishOf_done (hk : k.Lawful token kept give) (hstored : (k.scheduled db).get? user.1 = some user.2)
    (hne : user.2 ≠ []) (h : k.finishOf periodId db user = .ok db') : RoundDone k token give periodId user db db' := by
  obtain ⟨hnone, rfl⟩ | ⟨-, rfl⟩ := finishOf_cases hk h
  · -- nothing is due
    constructor
    case frame => exact framed_refl hk db'
    case account =>
      intro a t
      unfold dueAmount
      rw [hnone, totalScheduled_nil, hk.give_zero, ite_self]
    case lists =>
      intro a
      unfold notDue storedList
      rw [hnone, length_nil, drop_zero]
      split_ifs with ha
      · rw [ha, hstored]
      · rfl
    case held => exact fun a ha => ha
  · have hscheduled : ∀ store acc, k.scheduled ((k.save db store).saveAccount user.1 token acc) = store := by
      intro store acc
      rw [saveAccount_eq, hk.scheduled_setAccounts, hk.scheduled_save]
    constructor
    case frame => exact framed_save hk db _ user.1 _
    case account =>
      intro a t
      rw [account_saveAccount]
      by_cases ha : t = token ∧ a = user.1
      · rw [if_pos ha, if_pos ⟨ha.2, ha.1⟩, ha.1, ha.2]
        rfl
      · rw [if_neg ha, if_neg (fun h => ha ⟨h.2, h.1⟩)]
        unfold account
        rw [hk.accounts_save]
    case lists =>
      intro a
      rw [hscheduled, updateScheduled, notDue, storedList]
      by_cases hempty : user.2.drop (dueEntries user.2 periodId).length = []
      · rw [if_pos hempty, if_pos hempty, get?_erase]
      · rw [if_neg hempty, if_neg hempty, get?_set]
    case held =>
      intro a ha
      unfold saveAccount
      rw [get?_set, hk.accounts_save]
      split_ifs
      · rfl
      · exact ha

/-- In the loop over the users, those still to come are as they were, the others have what was due. -/
structure Finishing (k : ScheduleKind) (token : TokenId) (give : ℕ → Account → Account) (periodId : ℕ) (db : FundDb)
    (rest : List (Address × List AmountByPeriod)) (cur : FundDb) : Prop where
  nodup : (rest.map Prod.fst).Nodup
  todo : ∀ user ∈ rest, (k.scheduled db).get? user.1 = some user.2
  frame : k.Framed db cur
  account : ∀ a t, cur.account a t = if t = token ∧ a ∉ rest.map Prod.fst then
    give (dueAmount periodId ((k.scheduled db).getD a [])) (db.account a t) else db.account a t
  lists : ∀ a, (k.scheduled cur).get? a = if a ∈ rest.map Prod.fst then (k.scheduled db).get? a
    else storedList (notDue periodId ((k.scheduled db).getD a []))
  held : ∀ a, (db.accounts.get? (accountKey a token)).isSome → (cur.accounts.get? (accountKey a token)).isSome

theorem Finishing.start (hk : k.Lawful token kept give) (periodId : ℕ) (db : FundDb) :
    Finishing k token give periodId db (k.scheduled db).entries db := by
  have hnone : ∀ a, a ∉ (k.scheduled db).entries.map fst → (k.scheduled db).get? a = none :=
    fun a ha => get?_eq_none_iff.2 ha
  have hempty : ∀ a, a ∉ (k.scheduled db).entries.map fst → (k.scheduled db).getD a [] = [] := by
    intro a ha
    unfold Store.getD
    rw [hnone a ha]
    rfl
  constructor
  case nodup => exact (k.scheduled db).keys_nodup
  case todo => exact fun user huser => get?_eq_some_iff.2 huser
  case frame => exact framed_refl hk db
  case account =>
    intro a t
    split_ifs with ha
    · rw [hempty a ha.2]
      exact (hk.give_zero _).symm
    · rfl
  case lists =>
    intro a
    split_ifs with ha
    · rfl
    · rw [hempty a ha, hnone a ha]
      rfl
  case held => exact fun a ha => ha

theorem Finishing.step {user : Address × List AmountByPeriod} {rest : List (Address × List AmountByPeriod)}
    {current : ℕ} (hk : k.Lawful token kept give) (hdb : Scheduled k token kept current db) {cur : FundDb}
    (h : Finishing k token give periodId db (user :: rest) cur) :
    ∃ cur', k.finishOf periodId cur user = .ok cur' ∧ Finishing k token give periodId db rest cur' := by
  obtain ⟨hfresh, hnodup⟩ := nodup_cons.1 h.nodup
  have hstored := h.todo user mem_cons_self
  have hlist : (k.scheduled db).getD user.1 [] = user.2 := getD_of_get? hstored []
  have haccount : cur.account user.1 token = db.account user.1 token := by
    rw [h.account, if_neg fun hc => hc.2 (mem_map_of_mem mem_cons_self)]
  have hdue : totalScheduled (dueEntries user.2 periodId) ≤ kept (cur.account user.1 token) := by
    have hadd := dueAmount_add periodId user.2
    rw [haccount, hdb.total, hlist]
    unfold dueAmount at hadd
    omega
  obtain ⟨cur', hstep⟩ := finishOf_total hk (h.held user.1 (hdb.held user.1 user.2 hstored)) hdue
  refine ⟨cur', hstep, ?_⟩
  have hcur : (k.scheduled cur).get? user.1 = some user.2 := by
    rw [h.lists, if_pos (mem_map_of_mem mem_cons_self), hstored]
  have hround := finishOf_done hk hcur (hdb.nonempty user.1 user.2 hstored) hstep
  -- the user is now among those that have what was due
  have hmem : ∀ a, a ≠ user.1 → (a ∈ (user :: rest).map fst ↔ a ∈ rest.map fst) := by
    intro a ha
    rw [map_cons, mem_cons, or_iff_right ha]
  constructor
  case nodup => exact hnodup
  case todo => exact fun u hu => h.todo u (mem_cons_of_mem user hu)
  case frame => exact framed_trans hk h.frame hround.frame
  case account =>
    intro a t
    rw [hround.account, h.account]
    by_cases ha : a = user.1
    · subst ha
      have hin : user.1 ∈ (user :: rest).map fst := mem_map_of_mem mem_cons_self
      simp only [hlist, hin, hfresh, not_true_eq_false, not_false_eq_true, and_false, if_false]
    · simp only [ha, and_false, if_false, hmem a ha]
  case lists =>
    intro a
    rw [hround.lists, h.lists]
    by_cases ha : a = user.1
    · subst ha
      rw [if_pos rfl, if_neg hfresh, hlist]
    · simp only [ha, if_false, hmem a ha]
  case held => exact fun a ha => hround.held a (h.held a ha)

/-- What finishing a period does: everybody gets what is due. -/
structure Finished (k : ScheduleKind) (token : TokenId) (give : ℕ → Account → Account) (periodId : ℕ) (db db' : FundDb) :
    Prop where
  frame : k.Framed db db'
  account : ∀ a t, db'.account a t =
    if t = token then give (dueAmount periodId ((k.scheduled db).getD a [])) (db.account a t) else db.account a t
  lists : ∀ a, (k.scheduled db').get? a = storedList (notDue periodId ((k.scheduled db).getD a []))
  held : ∀ a, (db.accounts.get? (accountKey a token)).isSome → (db'.accounts.get? (accountKey a token)).isSome

theorem doFinish_total {current : ℕ} (hk : k.Lawful token kept give) (hearth : db.heightPoint.isEarthUpgrade = true)
    (hdb : Scheduled k token kept current db) (periodId : ℕ) :
    ∃ db', k.doFinish db periodId = .ok db' ∧ Finished k token give periodId db db' := by
  unfold doFinish
  rw [if_neg (by simp [hearth])]
  obtain ⟨db', hrun, hdone⟩ := foldlM_total (Finishing k token give periodId db)
    (fun user rest cur hcur => hcur.step hk hdb) (Finishing.start hk periodId db)
  refine ⟨db', hrun, hdone.frame, fun a t => ?_, fun a => ?_, hdone.held⟩
  · rw [hdone.account]
    simp only [map_nil, not_mem_nil, not_false_eq_true, and_true]
  · rw [hdone.lists, map_nil, if_neg not_mem_nil]

variable {current : ℕ}

section
variable (h : Scheduled k token kept current db)
include h

theorem Scheduled.mono {later : ℕ} (hle : current ≤ later) : Scheduled k token kept later db :=
  ⟨h.total, fun a => (h.chronological a).mono hle, h.nonempty, h.held⟩

/-- What leaves the lists and the amounts kept for them alone. -/
theorem Scheduled.congr (hlists : k.scheduled db' = k.scheduled db)
    (hkept : ∀ a, kept (db'.account a token) = kept (db.account a token))
    (hheld : ∀ a, (db.accounts.get? (accountKey a token)).isSome → (db'.accounts.get? (accountKey a token)).isSome) :
    Scheduled k token kept current db' where
  total a := by
    rw [hkept, hlists, h.total]
  chronological := by
    rw [hlists]
    exact h.chronological
  nonempty := by
    rw [hlists]
    exact h.nonempty
  held := by
    rw [hlists]
    exact fun a scheduled hget => hheld a (h.held a scheduled hget)

/-- One more amount for a user, in the list and in the account. -/
theorem Scheduled.add {address : Address} {amount : ℕ}
    (hlists : k.scheduled db' = (k.scheduled db).set address (addScheduled ((k.scheduled db).getD address []) current amount))
    (hkept : ∀ a, kept (db'.account a token) = kept (db.account a token) + if a = address then amount else 0)
    (hheld : ∀ a, (db.accounts.get? (accountKey a token)).isSome → (db'.accounts.get? (accountKey a token)).isSome)
    (hthis : (db'.accounts.get? (accountKey address token)).isSome) : Scheduled k token kept current db' where
  total a := by
    rw [hkept, hlists, getD_set, h.total]
    split_ifs with ha
    · rw [ha, ← amountWhere_true, ← amountWhere_true, amountWhere_addScheduled (h.chronological address)]
      rfl
    · rfl
  chronological a := by
    rw [hlists, getD_set]
    split_ifs
    · exact addScheduled_chronological (h.chronological address) amount
    · exact h.chronological a
  nonempty := by
    rw [hlists]
    exact forall_set (addScheduled_ne_nil (h.chronological address) amount) h.nonempty
  held := by
    rw [hlists]
    exact forall_set hthis fun a scheduled hget => hheld a (h.held a scheduled hget)

end

theorem storedList_getD (scheduled : List AmountByPeriod) : (storedList scheduled).getD [] = scheduled := by
  unfold storedList
  split_ifs with hempty
  · exact hempty.symm
  · rfl

theorem Finished.getD_lists (h : Finished k token give periodId db db') (a : Address) :
    (k.scheduled db').getD a [] = notDue periodId ((k.scheduled db).getD a []) := by
  unfold Store.getD
  rw [h.lists, storedList_getD]
  rfl

section
include hk

theorem Scheduled.finished (hdb : Scheduled k token kept current db)
    (h : Finished k token give periodId db db') : Scheduled k token kept current db' where
  total a := by
    have hadd := dueAmount_add periodId ((k.scheduled db).getD a [])
    have htotal := hdb.total a
    have hgive := hk.kept_give (dueAmount periodId ((k.scheduled db).getD a [])) (db.account a token) (by omega)
    rw [h.account, if_pos rfl, h.getD_lists]
    omega
  chronological a := by
    rw [h.getD_lists]
    exact (hdb.chronological a).sublist (drop_sublist _ _)
  nonempty a scheduled hget := by
    rw [h.lists] at hget
    unfold storedList at hget
    split_ifs at hget with hempty
    cases hget
    exact hempty
  held a scheduled hget := by
    cases hold : (k.scheduled db).get? a with
    | some old => exact h.held a (hdb.held a old hold)
    | none =>
      rw [h.lists, Store.getD, hold] at hget
      cases hget

/-- What a finish job gives an account it takes from what the account keeps. -/
theorem doFinish_weight {w : Account → ℕ}
    (hw : ∀ amount acc, amount ≤ kept acc → w (give amount acc) = w acc) (h : k.doFinish db periodId = .ok db') (a : Address)
    (t : TokenId) : w (db'.account a t) = w (db.account a t) := by
  unfold doFinish at h
  split_ifs at h
  · cases h
    rfl
  · refine foldlM_inv (fun _ cur => w (cur.account a t) = w (db.account a t)) ?_ h rfl
    intro done cur user cur' hcur hstep
    rw [← hcur]
    obtain ⟨-, rfl⟩ | ⟨hle, rfl⟩ := finishOf_cases hk hstep
    · rfl
    · rw [account_saveAccount]
      split_ifs with ha
      · rw [hw _ _ hle, ha.1, ha.2]
      · unfold account
        rw [hk.accounts_save]

/-- A finish job writes the lists and accounts, and deletes no account. -/
theorem doFinish_frame (h : k.doFinish db periodId = .ok db') :
    k.Framed db db' ∧ ∀ key, (db.accounts.get? key).isSome → (db'.accounts.get? key).isSome := by
  unfold doFinish at h
  split_ifs at h
  · cases h
    exact ⟨framed_refl hk db, fun _ hkey => hkey⟩
  · refine foldlM_inv (fun _ cur => k.Framed db cur ∧
      ∀ key, (db.accounts.get? key).isSome → (cur.accounts.get? key).isSome) ?_ h ⟨framed_refl hk db, fun _ hkey => hkey⟩
    rintro done cur user cur' ⟨hframe, hheld⟩ hstep
    obtain ⟨-, rfl⟩ | ⟨-, rfl⟩ := finishOf_cases hk hstep
    · exact ⟨hframe, hheld⟩
    · refine ⟨framed_trans hk hframe (framed_save hk cur _ user.1 _), fun key hkey => ?_⟩
      rw [saveAccount_eq, setAccounts_accounts, hk.accounts_save, get?_set]
      split_ifs
      · rfl
      · exact hheld key hkey

end

end Kinds

end GoVite.Dex

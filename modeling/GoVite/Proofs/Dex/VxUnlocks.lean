import GoVite.Sanity.Dex.OpenPools
import GoVite.Sanity.Dex.Schedule

/-! Unlocking VX: every unlock is given back by the first job of a period that is at least seven periods later. -/

namespace GoVite.Dex
open KeyStore ExceptRules List Store

/-- An unlock that is not given back yet, with the last finish job before it. -/
structure UnlockRequest where
  address : Address
  period : ℕ
  amount : ℕ
  jobBefore : Option ℕ

structure Unlocking where
  db : FundDb
  requests : List UnlockRequest := []
  lastJob : Option ℕ := none

/-- What a user asked for in the periods that are as asked. -/
def requestedWhere (P : ℕ → Bool) (requests : List UnlockRequest) (address : Address) : ℕ :=
  ((requests.filter fun r => r.address = address ∧ P r.period).map UnlockRequest.amount).sum

variable (A : Arith) (reader : ConsensusReader) (start : FundDb)

/-- Users lock and unlock, the clock goes on, and the jobs come period after period. -/
inductive UnlockRun : Unlocking → Prop
  | start (hearth : start.heightPoint.isEarthUpgrade = true) (hlists : start.vxUnlocks = .empty)
      (hnone : ∀ a, (start.account a vxTokenId).vxUnlocking = 0) : UnlockRun { db := start }
  | lock {s : Unlocking} (hrun : UnlockRun s) {address : Address} {amount : ℕ} {db : FundDb}
      (h : methodLockVxForDividend s.db reader address .lockVx amount = .ok db) :
    UnlockRun { s with db := db }
  | unlock {s : Unlocking} (hrun : UnlockRun s) {address : Address} {amount : ℕ} {db : FundDb}
      (h : methodLockVxForDividend s.db reader address .unlockVx amount = .ok db) :
    UnlockRun { s with
      db := db
      requests := s.requests ++ [⟨address, reader.getIndexByTime s.db.dexTimestamp, amount, s.lastJob⟩] }
  | setTimestamp {s : Unlocking} (hrun : UnlockRun s) {timestamp : ℕ} {db : FundDb}
      (hforward : ForwardTo reader s.db timestamp) (h : setDexTimestamp A s.db reader timestamp = .ok db) :
    UnlockRun { s with db := db }
  | finish {s : Unlocking} (hrun : UnlockRun s) {periodId : ℕ} {db : FundDb}
      (hnext : ∀ last, s.lastJob = some last → periodId = last + 1) (h : doFinishVxUnlock s.db periodId = .ok db) :
    UnlockRun
      ⟨db, s.requests.filter fun r => !isDue periodId r.period, some periodId⟩

/-- The VX of a user that is available, locked or unlocking. -/
def vxOf (db : FundDb) (a : Address) : ℕ :=
  (db.account a vxTokenId).available + (db.account a vxTokenId).vxLocked + (db.account a vxTokenId).vxUnlocking

structure Unlocking.Inv (s : Unlocking) : Prop where
  earth : s.db.heightPoint.isEarthUpgrade = true
  scheduled : Scheduled vxUnlockKind vxTokenId Account.vxUnlocking (reader.getIndexByTime s.db.dexTimestamp) s.db
  unset : s.db.dexTimestamp = 0 → s.db.vxUnlocks = .empty
  unchanged : ∀ a, vxOf s.db a = vxOf start a
  requested : ∀ a P, amountWhere P (s.db.vxUnlocks.getD a []) = requestedWhere P s.requests a
  pending : ∀ r ∈ s.requests, r.jobBefore = s.lastJob ∨ ∀ last, s.lastJob = some last → last < r.period + schedulePeriods

variable {A} {reader} {start} {s : Unlocking} {db db' : FundDb} {address : Address} {amount : ℕ}

section Moves

def locked (amount : ℕ) (acc : Account) : Account :=
  { acc with available := acc.available - amount, vxLocked := acc.vxLocked + amount }

def unlocked (amount : ℕ) (acc : Account) : Account :=
  { acc with vxLocked := acc.vxLocked - amount, vxUnlocking := acc.vxUnlocking + amount }

/-- Unlocking moves an amount within an account and adds it to the list of the user. -/
theorem methodUnlockVx_ok (h : methodLockVxForDividend db reader address .unlockVx amount = .ok db') :
    db.dexTimestamp ≠ 0 ∧ amount ≤ (db.account address vxTokenId).vxLocked ∧ db' = { db with
      accounts := db.accounts.set (accountKey address vxTokenId) (unlocked amount (db.account address vxTokenId))
      vxUnlocks := db.vxUnlocks.set address
        (addScheduled (db.vxUnlocks.getD address []) (reader.getIndexByTime db.dexTimestamp) amount)
      vxFunds := db'.vxFunds, vxLockedFunds := db'.vxLockedFunds } := by
  obtain ⟨r, hschedule, h⟩ := bind_ok h
  obtain ⟨db₁, hadd, h⟩ := bind_ok h
  obtain ⟨hupdate, hsave⟩ := updateFund_ok hschedule
  obtain ⟨hle, hupdate⟩ := guard_ok hupdate
  obtain ⟨-, hacc⟩ := guard_ok hupdate
  obtain ⟨periodId, hperiod, hadd⟩ := bind_ok hadd
  rw [hsave] at hperiod hadd
  obtain ⟨hset, rfl⟩ := getCurrentPeriodId_ok hperiod
  refine ⟨hset, not_lt.1 hle, ?_⟩
  rw [settleVxFundsAnyway_frame h, ← Except.ok.inj hadd, ← Except.ok.inj hacc]
  rfl

theorem account_of_set {acc : Account} (h : db'.accounts = db.accounts.set (accountKey address vxTokenId) acc) (a : Address) :
    db'.account a vxTokenId = if a = address then acc else db.account a vxTokenId := by
  have hsave := account_saveAccount db address a vxTokenId vxTokenId acc
  simp only [and_true] at hsave
  rw [← hsave]
  unfold FundDb.account
  rw [h]
  rfl

theorem isSome_of_set {acc : Account} (h : db'.accounts = db.accounts.set (accountKey address vxTokenId) acc) (a : Address)
    (hsome : a = address ∨ (db.accounts.get? (accountKey a vxTokenId)).isSome) :
    (db'.accounts.get? (accountKey a vxTokenId)).isSome := by
  rw [h, get?_set]
  split_ifs with hkey
  · rfl
  · refine hsome.resolve_left fun ha => hkey ?_
    rw [ha]

end Moves

section Requests

theorem requestedWhere_append (P : ℕ → Bool) (requests : List UnlockRequest) (r : UnlockRequest) (a : Address) :
    requestedWhere P (requests ++ [r]) a =
      requestedWhere P requests a + if r.address = a ∧ P r.period = true then r.amount else 0 := by
  unfold requestedWhere
  by_cases hr : r.address = a ∧ P r.period = true
  · simp [hr]
  · simp [hr]

theorem requestedWhere_filter (P Q : ℕ → Bool) (requests : List UnlockRequest) (a : Address) :
    requestedWhere P (requests.filter fun r => Q r.period) a = requestedWhere (fun p => P p && Q p) requests a := by
  unfold requestedWhere
  rw [filter_filter]
  congr 3
  funext r
  simp [Bool.and_assoc]

end Requests

namespace Unlocking

theorem Inv.initial (hearth : start.heightPoint.isEarthUpgrade = true) (hlists : start.vxUnlocks = .empty)
    (hnone : ∀ a, (start.account a vxTokenId).vxUnlocking = 0) : Inv reader start { db := start } := by
  have hget : ∀ a, start.vxUnlocks.getD a [] = [] := by
    intro a
    rw [hlists]
    rfl
  have hnot : ∀ a scheduled, start.vxUnlocks.get? a ≠ some scheduled := by
    intro a scheduled hsome
    rw [hlists] at hsome
    cases hsome
  constructor
  case earth => exact hearth
  case scheduled =>
    constructor
    case total =>
      intro a
      change (start.account a vxTokenId).vxUnlocking = totalScheduled (start.vxUnlocks.getD a [])
      rw [hnone, hget, totalScheduled_nil]
    case chronological =>
      intro a
      change Chronological _ (start.vxUnlocks.getD a [])
      rw [hget]
      exact Chronological.nil _
    case nonempty => exact fun a scheduled hsome => absurd hsome (hnot a scheduled)
    case held => exact fun a scheduled hsome => absurd hsome (hnot a scheduled)
  case unset => exact fun _ => hlists
  case unchanged => exact fun a => rfl
  case requested =>
    intro a P
    change amountWhere P (start.vxUnlocks.getD a []) = 0
    rw [hget, amountWhere_nil]
  case pending => exact fun r hr => absurd hr not_mem_nil

section
variable (hs : Inv reader start s)
include hs

theorem Inv.lock (h : methodLockVxForDividend s.db reader address .lockVx amount = .ok db) :
    Inv reader start { s with db := db } := by
  obtain ⟨r, hlock, h⟩ := bind_ok h
  obtain ⟨hupdate, hsave⟩ := updateFund_ok hlock
  obtain ⟨hle, hacc⟩ := guard_ok hupdate
  have hdb : db = { s.db with
      accounts := s.db.accounts.set (accountKey address vxTokenId) (locked amount (s.db.account address vxTokenId))
      vxFunds := db.vxFunds, vxLockedFunds := db.vxLockedFunds } := by
    rw [settleVxFundsAnyway_frame h, hsave, ← Except.ok.inj hacc]
    rfl
  have haccounts : db.accounts = _ := congrArg FundDb.accounts hdb
  have hlists : db.vxUnlocks = s.db.vxUnlocks := by rw [hdb]
  have htime : db.dexTimestamp = s.db.dexTimestamp := by rw [hdb]
  constructor
  case earth =>
    rw [hdb]
    exact hs.earth
  case scheduled =>
    rw [htime]
    refine hs.scheduled.congr hlists (fun a => ?_) fun a ha => isSome_of_set haccounts a (.inr ha)
    rw [account_of_set haccounts]
    split_ifs with ha
    · rw [ha]
      rfl
    · rfl
  case unset =>
    rw [htime, hlists]
    exact hs.unset
  case unchanged =>
    intro a
    rw [← hs.unchanged a]
    unfold vxOf
    rw [account_of_set haccounts]
    split_ifs with ha
    · rw [ha]
      unfold locked
      dsimp only
      omega
    · rfl
  case requested =>
    rw [hlists]
    exact hs.requested
  case pending => exact hs.pending

theorem Inv.unlock (h : methodLockVxForDividend s.db reader address .unlockVx amount = .ok db) :
    Inv reader start { s with
      db := db
      requests := s.requests ++ [⟨address, reader.getIndexByTime s.db.dexTimestamp, amount, s.lastJob⟩] } := by
  obtain ⟨hset, hle, hdb⟩ := methodUnlockVx_ok h
  have haccounts : db.accounts = s.db.accounts.set (accountKey address vxTokenId)
      (unlocked amount (s.db.account address vxTokenId)) := by rw [hdb]
  have hlists : db.vxUnlocks = s.db.vxUnlocks.set address
      (addScheduled (s.db.vxUnlocks.getD address []) (reader.getIndexByTime s.db.dexTimestamp) amount) := by rw [hdb]
  have htime : db.dexTimestamp = s.db.dexTimestamp := by rw [hdb]
  have hheight : db.heightPoint = s.db.heightPoint := by rw [hdb]
  constructor
  case earth =>
    rw [hheight]
    exact hs.earth
  case scheduled =>
    rw [htime]
    refine hs.scheduled.add hlists (fun a => ?_) (fun a ha => isSome_of_set haccounts a (.inr ha))
      (isSome_of_set haccounts address (.inl rfl))
    rw [account_of_set haccounts]
    split_ifs with ha
    · rw [ha]
      rfl
    · rfl
  case unset =>
    rw [htime]
    exact fun hzero => absurd hzero hset
  case unchanged =>
    intro a
    rw [← hs.unchanged a]
    unfold vxOf
    rw [account_of_set haccounts]
    split_ifs with ha
    · rw [ha]
      unfold unlocked
      dsimp only
      omega
    · rfl
  case requested =>
    intro a P
    rw [hlists, getD_set, requestedWhere_append, ← hs.requested a P]
    by_cases ha : a = address
    · have hchronological : Chronological (reader.getIndexByTime s.db.dexTimestamp) (s.db.vxUnlocks.getD address []) :=
        hs.scheduled.chronological address
      rw [if_pos ha, ha, amountWhere_addScheduled hchronological]
      simp only [true_and]
    · rw [if_neg ha, if_neg (fun hr => ha hr.1.symm), Nat.add_zero]
  case pending => exact forall_mem_concat.2 ⟨hs.pending, .inl rfl⟩

theorem Inv.setTimestamp {timestamp : ℕ} (hforward : ForwardTo reader s.db timestamp)
    (h : setDexTimestamp A s.db reader timestamp = .ok db) : Inv reader start { s with db := db } := by
  obtain ⟨hlt, hdb⟩ := setDexTimestamp_ok h
  have htime : db.dexTimestamp = timestamp := by rw [hdb]
  have hlists : db.vxUnlocks = s.db.vxUnlocks := by rw [hdb]
  have haccounts : db.accounts = s.db.accounts := by rw [hdb]
  have haccount : ∀ a, db.account a vxTokenId = s.db.account a vxTokenId := by
    intro a
    unfold FundDb.account
    rw [haccounts]
  constructor
  case earth =>
    rw [hdb]
    exact hs.earth
  case scheduled =>
    have hlater : Scheduled vxUnlockKind vxTokenId Account.vxUnlocking (reader.getIndexByTime timestamp) s.db := by
      by_cases hzero : s.db.dexTimestamp = 0
      · -- before the first timestamp there are no lists
        refine ⟨hs.scheduled.total, fun a => ?_, hs.scheduled.nonempty, hs.scheduled.held⟩
        change Chronological _ (s.db.vxUnlocks.getD a [])
        rw [hs.unset hzero]
        exact Chronological.nil _
      · exact hs.scheduled.mono (hforward hzero)
    rw [htime]
    refine hlater.congr hlists (fun a => by rw [haccount]) fun a ha => ?_
    rw [haccounts]
    exact ha
  case unset =>
    rw [htime]
    exact fun hzero => absurd hzero (Nat.ne_zero_of_lt hlt)
  case unchanged =>
    intro a
    rw [← hs.unchanged a]
    unfold vxOf
    rw [haccount]
  case requested =>
    rw [hlists]
    exact hs.requested
  case pending => exact hs.pending

variable (periodId : ℕ) (a : Address)

/-- What a job gives a user is what the user asked for in the periods that are due. -/
theorem Inv.dueAmount_eq :
    dueAmount periodId (s.db.vxUnlocks.getD a []) = requestedWhere (isDue periodId) s.requests a := by
  have hchronological : Chronological (reader.getIndexByTime s.db.dexTimestamp) (s.db.vxUnlocks.getD a []) :=
    hs.scheduled.chronological a
  rw [← hs.requested a]
  unfold dueAmount
  rw [(dueEntries_eq_filter hchronological periodId).1]
  rfl

theorem Inv.finish_total : ∃ db, doFinishVxUnlock s.db periodId = .ok db ∧
    Finished vxUnlockKind vxTokenId giveVxUnlock periodId s.db db :=
  doFinish_total vxUnlockKind_lawful hs.earth hs.scheduled periodId

theorem Inv.due_le : dueAmount periodId (s.db.vxUnlocks.getD a []) ≤ (s.db.account a vxTokenId).vxUnlocking := by
  have htotal : (s.db.account a vxTokenId).vxUnlocking = totalScheduled (s.db.vxUnlocks.getD a []) := hs.scheduled.total a
  rw [htotal, ← dueAmount_add periodId]
  exact Nat.le_add_right _ _

theorem Inv.finish {periodId : ℕ} (h : doFinishVxUnlock s.db periodId = .ok db) :
    Inv reader start ⟨db, s.requests.filter fun r => !isDue periodId r.period, some periodId⟩ := by
  obtain ⟨db₁, hdb₁, hfinished⟩ := hs.finish_total periodId
  rw [h] at hdb₁
  cases hdb₁
  have htime : db.dexTimestamp = s.db.dexTimestamp := by
    rw [hfinished.frame]
    rfl
  have hlist : ∀ a, db.vxUnlocks.getD a [] = notDue periodId (s.db.vxUnlocks.getD a []) := hfinished.getD_lists
  constructor
  case earth =>
    rw [hfinished.frame]
    exact hs.earth
  case scheduled =>
    rw [htime]
    exact hs.scheduled.finished vxUnlockKind_lawful hfinished
  case unset =>
    intro hzero
    rw [htime] at hzero
    refine ext_get? fun a => ?_
    have hget := hfinished.lists a
    change db.vxUnlocks.get? a = storedList (notDue periodId (s.db.vxUnlocks.getD a [])) at hget
    rw [hget, hs.unset hzero]
    rfl
  case unchanged =>
    intro a
    have hle := hs.due_le periodId a
    have haccount := hfinished.account a vxTokenId
    rw [← hs.unchanged a]
    unfold vxOf
    rw [haccount]
    change (s.db.account a vxTokenId).available + dueAmount periodId (s.db.vxUnlocks.getD a []) +
      (s.db.account a vxTokenId).vxLocked +
      ((s.db.account a vxTokenId).vxUnlocking - dueAmount periodId (s.db.vxUnlocks.getD a [])) = _
    omega
  case requested =>
    intro a P
    have hchronological : Chronological (reader.getIndexByTime s.db.dexTimestamp) (s.db.vxUnlocks.getD a []) :=
      hs.scheduled.chronological a
    rw [hlist, requestedWhere_filter P (fun p => !isDue periodId p), ← hs.requested]
    unfold notDue
    rw [(dueEntries_eq_filter hchronological periodId).2, amountWhere_filter P (fun p => !isDue periodId p)]
  case pending =>
    intro r hr
    right
    intro last hlast
    cases hlast
    have hdue := (mem_filter.1 hr).2
    unfold isDue at hdue
    simpa using hdue

end

theorem Inv.of_run (h : UnlockRun A reader start s) : Inv reader start s := by
  induction h with
  | start hearth hlists hnone => exact .initial hearth hlists hnone
  | lock _ h ih => exact ih.lock h
  | unlock _ h ih => exact ih.unlock h
  | setTimestamp _ hforward h ih => exact ih.setTimestamp hforward h
  | finish _ _ h ih => exact ih.finish h

end Unlocking

/-- In every run what a user is unlocking is the total of the user's list, whose periods increase, and the VX of the
user stays the same. A finish job succeeds and gives every user what was unlocked at least seven periods before; with
jobs period after period, that is the job seven periods after the unlock or the first one after it. -/
theorem vx_unlocks_add_up (A : Arith) (reader : ConsensusReader) (start : FundDb) (s : Unlocking)
    (hrun : UnlockRun A reader start s) :
    (∀ a, (s.db.account a vxTokenId).vxUnlocking = totalScheduled (s.db.vxUnlocks.getD a []) ∧
      (s.db.vxUnlocks.getD a []).Pairwise (fun e e' => e.period < e'.period) ∧ s.db.vxUnlocks.get? a ≠ some [] ∧
      vxOf s.db a = vxOf start a) ∧
    (∀ periodId, ∃ db, doFinishVxUnlock s.db periodId = .ok db ∧
      ∀ a, (db.account a vxTokenId).available =
          (s.db.account a vxTokenId).available + requestedWhere (isDue periodId) s.requests a ∧
        (db.account a vxTokenId).vxLocked = (s.db.account a vxTokenId).vxLocked) ∧
    ∀ r ∈ s.requests, ∀ last, s.lastJob = some last → isDue (last + 1) r.period = true →
      last + 1 = r.period + schedulePeriods ∨ r.jobBefore = some last := by
  have hs := Unlocking.Inv.of_run hrun
  refine ⟨fun a => ⟨hs.scheduled.total a, (hs.scheduled.chronological a).increasing, ?_, hs.unchanged a⟩, ?_, ?_⟩
  · exact fun hempty => hs.scheduled.nonempty a [] hempty rfl
  · intro periodId
    obtain ⟨db, hok, hfinished⟩ := hs.finish_total periodId
    refine ⟨db, hok, fun a => ?_⟩
    have haccount := hfinished.account a vxTokenId
    rw [haccount, ← hs.dueAmount_eq]
    exact ⟨rfl, rfl⟩
  · intro r hr last hlast hdue
    rcases hs.pending r hr with hbefore | hlater
    · exact .inr (hbefore.trans hlast)
    · left
      have hlt := hlater last hlast
      unfold isDue at hdue
      rw [decide_eq_true_eq] at hdue
      omega

def sampleLockedDb : FundDb :=
  FundDb.saveAccount { heightPoint := ⟨12⟩, dexTimestamp := 10 * 86400 } 1 vxTokenId { vxLocked := 100 * commonTokenPow }

def sampleRequest : UnlockRequest := ⟨1, 10, 40 * commonTokenPow, none⟩

theorem sampleLockedDb_unlocking (a : Address) : (sampleLockedDb.account a vxTokenId).vxUnlocking = 0 := by
  unfold sampleLockedDb
  rw [account_saveAccount]
  split_ifs <;> rfl

theorem vx_unlocks_add_up_forty : ∃ s, UnlockRun goArith (.daily 0) sampleLockedDb s ∧ s.requests = [sampleRequest] ∧
    isDue 16 sampleRequest.period = false ∧ ∃ db, doFinishVxUnlock s.db 17 = .ok db ∧
      (db.account 1 vxTokenId).available = (s.db.account 1 vxTokenId).available + 40 * commonTokenPow := by
  have hok : (methodLockVxForDividend sampleLockedDb (.daily 0) 1 .unlockVx (40 * commonTokenPow)).isOk = true := by
    decide +kernel
  cases h : methodLockVxForDividend sampleLockedDb (.daily 0) 1 .unlockVx (40 * commonTokenPow) with
  | error e =>
    rw [h] at hok
    cases hok
  | ok db =>
    have hstart : UnlockRun goArith (.daily 0) sampleLockedDb { db := sampleLockedDb } :=
      .start (by decide) rfl sampleLockedDb_unlocking
    have hperiod : (ConsensusReader.daily 0).getIndexByTime sampleLockedDb.dexTimestamp = 10 := by decide +kernel
    have hrun : UnlockRun goArith (.daily 0) sampleLockedDb ⟨db, [sampleRequest], none⟩ := by
      have hunlock := hstart.unlock h
      exact hunlock
    have hsum : requestedWhere (isDue 17) [sampleRequest] 1 = 40 * commonTokenPow := by decide +kernel
    obtain ⟨db', hfinish, haccount⟩ := (vx_unlocks_add_up goArith (.daily 0) sampleLockedDb _ hrun).2.1 17
    have havailable := (haccount 1).1
    rw [hsum] at havailable
    exact ⟨_, hrun, rfl, by decide, db', hfinish, havailable⟩

end GoVite.Dex

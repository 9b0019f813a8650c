import GoVite.Sanity.Dex.OpenPools
import GoVite.Sanity.Dex.Stake

/-! The life of a stake: the VITE of a user stays the same and no stake is paid back twice. A failed stake for mining is
not credited, since the callback refuses just the amount that was staked. -/

namespace GoVite.Dex
open KeyStore ExceptRules List Store

/-- The four ways to stake. -/
inductive StakeRequest
  | mining (amount : ℕ)
  | vip
  | svip
  | principalSVIP (principal : Address)

variable (params : StakeParams) (A : Arith) (reader : ConsensusReader) (start : FundDb)

def StakeRequest.receive (db : FundDb) (address : Address) (id : Hash) :
    StakeRequest → Except DexError (FundDb × List QuotaCall)
  | .mining amount => methodStakeForMining params db address amount id
  | .vip => methodStakeForVIP params db address id
  | .svip => methodStakeForSVIP params db address id
  | .principalSVIP principal => methodStakeForPrincipalSVIP params db address principal id

/-- The storage, the keys of the records so far, and the ids of the stakes that were paid back. -/
structure Stakes where
  db : FundDb
  used : List ℕ := []
  paid : List Hash := []

def ReturnsStake (db : FundDb) (id : Hash) (returned : Bool) (amount : ℕ) : Prop :=
  ∀ info, getDelegateStakeInfo db id = some info → amount = if returned then info.amount else 0

/-- Requests of any users, callbacks in any order, and jobs. Ids are hashes, so that no two of them share a
key. A call that fails is undone. -/
inductive StakesRun : Stakes → Prop
  | start (hearth : start.heightPoint.isEarthUpgrade = true) (hnone : start.delegateStakeInfos = .empty) :
    StakesRun { db := start }
  | request {s : Stakes} (hrun : StakesRun s) (request : StakeRequest) {address : Address} {id : Hash}
      {r : FundDb × List QuotaCall} (hfresh : delegateStakeInfoKey id ∉ s.used)
      (h : request.receive params s.db address id = .ok r) :
    StakesRun { s with db := r.1, used := delegateStakeInfoKey id :: s.used }
  | stakeCallback {s : Stakes} (hrun : StakesRun s) {id : Hash} {success : Bool} {amount : ℕ}
      {r : FundDb × List QuotaCall} (hreturned : ReturnsStake s.db id (!success) amount)
      (h : methodDelegateStakeCallbackV2 s.db reader id success amount = .ok r) :
    StakesRun { s with db := r.1, paid := if success then s.paid else id :: s.paid }
  | cancelById {s : Stakes} (hrun : StakesRun s) {address : Address} {id : Hash} {calls : List QuotaCall}
      (h : doCancelStakeV2 s.db address id = .ok calls) : StakesRun s
  | cancelCallback {s : Stakes} (hrun : StakesRun s) {id : Hash} {success : Bool} {amount : ℕ}
      {db : FundDb} (hreturned : ReturnsStake s.db id success amount)
      (h : methodCancelDelegateStakeCallbackV2 s.db reader id success amount = .ok db) :
    StakesRun { s with db := db, paid := if success then id :: s.paid else s.paid }
  | finish {s : Stakes} (hrun : StakesRun s) {periodId : ℕ} {db : FundDb}
      (h : doFinishCancelMiningStake s.db periodId = .ok db) : StakesRun { s with db := db }
  | setTimestamp {s : Stakes} (hrun : StakesRun s) {timestamp : ℕ} {db : FundDb}
      (hforward : ForwardTo reader s.db timestamp) (h : setDexTimestamp A s.db reader timestamp = .ok db) :
    StakesRun { s with db := db }

structure Stakes.Inv (s : Stakes) : Prop where
  kept : StakesKept s.db
  total : ∀ a, stakeTotal s.db a = stakeTotal start a
  used : ∀ key, (s.db.delegateStakeInfos.get? key).isSome → key ∈ s.used
  paid : ∀ id ∈ s.paid, delegateStakeInfoKey id ∈ s.used ∧ getDelegateStakeInfo s.db id = none
  once : (s.paid.map delegateStakeInfoKey).Nodup

variable {info : DelegateStakeInfo}

namespace Stakes
variable {params} {A} {reader} {start} {s : Stakes} {id : Hash} {amount : ℕ} {db : FundDb}

theorem Inv.initial (hnone : start.delegateStakeInfos = .empty) : Inv start { db := start } := by
  have hget : ∀ key, start.delegateStakeInfos.get? key = none := by
    intro key
    rw [hnone]
    rfl
  constructor
  case kept =>
    constructor
    · intro key info x hinfo
      rw [hget] at hinfo
      cases hinfo
    · intro key info hinfo
      rw [hget] at hinfo
      cases hinfo
  case total => exact fun a => rfl
  case used =>
    intro key hkey
    rw [hget] at hkey
    cases hkey
  case paid => exact fun id hid => absurd hid not_mem_nil
  case once => exact nodup_nil

theorem Inv.fresh (hs : Inv start s) (hfresh : delegateStakeInfoKey id ∉ s.used) : getDelegateStakeInfo s.db id = none := by
  unfold getDelegateStakeInfo
  cases hget : s.db.delegateStakeInfos.get? (delegateStakeInfoKey id) with
  | none => rfl
  | some info => exact absurd (hs.used _ (Option.isSome_of_eq_some hget)) hfresh

variable {r : FundDb × List QuotaCall} {address : Address}

/-- Every request is a stake with the amount of its type. -/
theorem receive_step {request : StakeRequest} (h : StakesKept db)
    (hfresh : getDelegateStakeInfo db id = none) (hreceive : request.receive params db address id = .ok r) :
    StakeStep db r.1 ∧ ∃ info, r.1.delegateStakeInfos = (putDelegateStakeInfo db id info).delegateStakeInfos := by
  cases request with
  | mining amount =>
    refine handleStakeAction_step h hfresh ?_ hreceive
    intro x hx
    cases hx
  | vip | svip | principalSVIP principal =>
    refine handleStakeAction_step h hfresh ?_ hreceive
    exact fun x hx => Option.some.inj hx

theorem Inv.request (hs : Inv start s) {request : StakeRequest}
    (hfresh : delegateStakeInfoKey id ∉ s.used) (h : request.receive params s.db address id = .ok r) :
    Inv start { s with db := r.1, used := delegateStakeInfoKey id :: s.used } := by
  obtain ⟨hstep, info, hinfos⟩ := receive_step hs.kept (hs.fresh hfresh) h
  have hget : ∀ key, r.1.delegateStakeInfos.get? key =
      if key = delegateStakeInfoKey id then some info else s.db.delegateStakeInfos.get? key := by
    intro key
    rw [hinfos]
    exact get?_set _ _ _ _
  constructor
  case kept => exact hstep.kept
  case total => exact fun a => (hstep.total a).trans (hs.total a)
  case used =>
    intro key hkey
    rw [hget] at hkey
    split_ifs at hkey with hnew
    · rw [hnew]
      exact mem_cons_self
    · exact mem_cons_of_mem _ (hs.used key hkey)
  case paid =>
    intro id' hid'
    obtain ⟨hmem, hnone⟩ := hs.paid id' hid'
    have hother : delegateStakeInfoKey id' ≠ delegateStakeInfoKey id := by
      intro heq
      rw [← heq] at hfresh
      exact hfresh hmem
    refine ⟨mem_cons_of_mem _ hmem, ?_⟩
    unfold getDelegateStakeInfo
    rw [hget, if_neg hother]
    exact hnone
  case once => exact hs.once

/-- A step that writes no record of a key that has none, and pays back nothing. -/
theorem Inv.step (hs : Inv start s) (hstep : StakeStep s.db db)
    (hinfos : ∀ key, (db.delegateStakeInfos.get? key).isSome → (s.db.delegateStakeInfos.get? key).isSome) :
    Inv start { s with db := db } where
  kept := hstep.kept
  total a := (hstep.total a).trans (hs.total a)
  used key hkey := hs.used key (hinfos key hkey)
  paid id hid := by
    obtain ⟨hmem, hnone⟩ := hs.paid id hid
    refine ⟨hmem, ?_⟩
    cases hget : getDelegateStakeInfo db id with
    | none => rfl
    | some info =>
      have hold := hinfos (delegateStakeInfoKey id) (Option.isSome_of_eq_some hget)
      unfold getDelegateStakeInfo at hnone
      rw [hnone] at hold
      cases hold
  once := hs.once

/-- A step that pays back the stake of a record and deletes the record. -/
theorem Inv.payBack (hs : Inv start s) (hstep : StakeStep s.db db) (hinfo : getDelegateStakeInfo s.db id = some info)
    (hinfos : db.delegateStakeInfos = s.db.delegateStakeInfos.erase (delegateStakeInfoKey id)) :
    Inv start { s with db := db, paid := id :: s.paid } := by
  have hkey : (s.db.delegateStakeInfos.get? (delegateStakeInfoKey id)).isSome := Option.isSome_of_eq_some hinfo
  have hbase := hs.step hstep fun key hsome => by
    rw [hinfos, get?_erase] at hsome
    split_ifs at hsome
    · cases hsome
    · exact hsome
  have hgone : getDelegateStakeInfo db id = none := by
    unfold getDelegateStakeInfo
    rw [hinfos]
    exact get?_erase_self _ _
  constructor
  case kept => exact hbase.kept
  case total => exact hbase.total
  case used => exact hbase.used
  case paid =>
    intro id' hid'
    rcases mem_cons.1 hid' with rfl | hid'
    · exact ⟨hs.used _ hkey, hgone⟩
    · exact hbase.paid id' hid'
  case once =>
    rw [map_cons, nodup_cons]
    refine ⟨fun hmem => ?_, hs.once⟩
    -- a paid stake with this key would have no record
    obtain ⟨id', hid', heq⟩ := mem_map.1 hmem
    have hnone := (hs.paid id' hid').2
    unfold getDelegateStakeInfo at hnone hinfo
    rw [heq, hinfo] at hnone
    cases hnone

variable {success : Bool}

theorem Inv.stakeCallback (hs : Inv start s) (hreturned : ReturnsStake s.db id (!success) amount)
    (h : methodDelegateStakeCallbackV2 s.db reader id success amount = .ok r) :
    Inv start { s with db := r.1, paid := if success then s.paid else id :: s.paid } := by
  cases success with
  | true =>
    obtain ⟨info, serialNo, hinfo, -, hinfos⟩ := stakeCallback_success_cases h
    refine hs.step (stakeCallback_success_step hs.kept h) fun key hkey => ?_
    rw [hinfos] at hkey
    change ((s.db.delegateStakeInfos.set (delegateStakeInfoKey id) _).get? key).isSome at hkey
    rw [get?_set] at hkey
    split_ifs at hkey with hthis
    · rw [hthis]
      exact Option.isSome_of_eq_some hinfo
    · exact hkey
  | false =>
    obtain ⟨info, hinfo, -, heq⟩ := stakeCallback_failed_cases h
    refine hs.payBack (stakeCallback_failed_step hs.kept (fun info hinfo => hreturned info hinfo) h) hinfo ?_
    rw [heq]
    rfl

theorem Inv.cancelCallback (hs : Inv start s)
    (h : methodCancelDelegateStakeCallbackV2 s.db reader id success amount = .ok db) :
    Inv start { s with db := db, paid := if success then id :: s.paid else s.paid } := by
  cases success with
  | true =>
    obtain ⟨info, db₁, hinfo, hcancel, heq⟩ := cancelCallback_success_cases h
    refine hs.payBack (cancelCallback_success_step hs.kept h) hinfo ?_
    rw [heq]
    change (payBackStake db₁ info amount).delegateStakeInfos.erase _ = _
    rw [(payBackStake_frame db₁ info amount).1, onCancelSuccess_frame hcancel]
  | false =>
    unfold methodCancelDelegateStakeCallbackV2 at h
    split at h
    · cases h
    · cases h
      exact hs

theorem Inv.finish (hs : Inv start s) {periodId : ℕ} (h : doFinishCancelMiningStake s.db periodId = .ok db) :
    Inv start { s with db := db } := by
  obtain ⟨hstep, hinfos⟩ := doFinishCancelMiningStake_step hs.kept h
  refine hs.step hstep fun key hkey => ?_
  rw [hinfos] at hkey
  exact hkey

theorem Inv.setTimestamp (hs : Inv start s) {timestamp : ℕ} (h : setDexTimestamp A s.db reader timestamp = .ok db) :
    Inv start { s with db := db } := by
  obtain ⟨-, hdb⟩ := setDexTimestamp_ok h
  refine hs.step ⟨hs.kept.congr ?_ ?_, fun a => ?_⟩ fun key hkey => ?_
  · rw [hdb]
  · intro key hkey
    rw [hdb]
    exact hkey
  · rw [hdb]
    rfl
  · rw [hdb] at hkey
    exact hkey

theorem Inv.of_run (h : StakesRun params A reader start s) : Inv start s := by
  induction h with
  | start _ hnone => exact .initial hnone
  | request _ request hfresh h ih => exact ih.request hfresh h
  | stakeCallback _ hreturned h ih => exact ih.stakeCallback hreturned h
  | cancelById _ _ ih => exact ih
  | cancelCallback _ _ h ih => exact ih.cancelCallback h
  | finish _ h ih => exact ih.finish h
  | setTimestamp _ _ h ih => exact ih.setTimestamp h

/-- The check of the amount that comes back fails for just the stakes for mining. -/
theorem checkFailedAmount_iff (hinfo : ∀ x, fixedAmount info.stakeType = some x → info.amount = x) :
    checkFailedAmount info info.amount = .ok () ↔ info.stakeType ≠ .mining := by
  unfold checkFailedAmount
  cases htype : info.stakeType with
  | mining => simp
  | vip | superVIP | principalSuperVIP =>
    rw [htype] at hinfo
    simp [hinfo _ rfl]

end Stakes

/-- A failed stake comes back to its user: it is available again and its record is gone. -/
def ComesBack (db : FundDb) (reader : ConsensusReader) (id : Hash) (info : DelegateStakeInfo) : Prop :=
  ∃ r, methodDelegateStakeCallbackV2 db reader id false info.amount = .ok r ∧
    (r.1.account info.address viteTokenId).available = (db.account info.address viteTokenId).available + info.amount ∧
    getDelegateStakeInfo r.1 id = none

theorem Stakes.comesBack_iff {db : FundDb} (hkept : StakesKept db) (reader : ConsensusReader) {id : Hash}
    (hinfo : getDelegateStakeInfo db id = some info) :
    ComesBack db reader id info ↔ info.stakeType ≠ .mining := by
  rw [← checkFailedAmount_iff (hkept.amount _ info · hinfo)]
  constructor
  · rintro ⟨r, hcall, -⟩
    obtain ⟨info', hinfo', hcheck, -⟩ := stakeCallback_failed_cases hcall
    rw [hinfo] at hinfo'
    cases hinfo'
    exact hcheck
  · intro hcheck
    refine ⟨(deleteDelegateStakeInfo (depositAccount db info.address viteTokenId info.amount).1 id, []), ?_, ?_, ?_⟩
    · unfold methodDelegateStakeCallbackV2
      rw [hinfo]
      dsimp only
      rw [hcheck]
      rfl
    · change ((db.saveAccount info.address viteTokenId _).account info.address viteTokenId).available = _
      rw [account_saveAccount, if_pos ⟨rfl, rfl⟩]
    · exact get?_erase_self _ _

/-- In every run the VITE of a user that is available, being cancelled or staked stays the same, and a stake is
paid back at most once: then its record is gone. A stake that fails comes back to its user if and only if it
is not for mining. -/
theorem stake_life_cycle (params : StakeParams) (A : Arith) (reader : ConsensusReader) (start : FundDb) (s : Stakes)
    (hrun : StakesRun params A reader start s) :
    (∀ a, stakeTotal s.db a = stakeTotal start a) ∧ s.paid.Nodup ∧ (∀ id ∈ s.paid, getDelegateStakeInfo s.db id = none) ∧
    ∀ id info, getDelegateStakeInfo s.db id = some info → (ComesBack s.db reader id info ↔ info.stakeType ≠ .mining) := by
  have hs := Stakes.Inv.of_run hrun
  refine ⟨hs.total, List.Nodup.of_map _ hs.once, fun id hid => (hs.paid id hid).2, fun id info hinfo => ?_⟩
  exact Stakes.comesBack_iff hs.kept reader hinfo

def sampleStakerDb : FundDb :=
  FundDb.saveAccount { heightPoint := ⟨12⟩, dexTimestamp := 10 * 86400 } 1 viteTokenId { available := 20000 * commonTokenPow }

def sampleParams : StakeParams := ⟨259200, 259200, 259200⟩

def sampleRecord (request : StakeRequest) : Option DelegateStakeInfo :=
  match request.receive sampleParams sampleStakerDb 1 5 with
  | .ok r => getDelegateStakeInfo r.1 5
  | .error _ => none

theorem sampleRecord_run {request : StakeRequest} (h : sampleRecord request = some info) :
    ∃ s, StakesRun sampleParams goArith (.daily 0) sampleStakerDb s ∧ getDelegateStakeInfo s.db 5 = some info := by
  unfold sampleRecord at h
  cases hreceive : request.receive sampleParams sampleStakerDb 1 5 with
  | error e =>
    rw [hreceive] at h
    cases h
  | ok r =>
    rw [hreceive] at h
    have hstart : StakesRun sampleParams goArith (.daily 0) sampleStakerDb { db := sampleStakerDb } :=
      .start (by decide) rfl
    exact ⟨_, hstart.request request not_mem_nil hreceive, h⟩

theorem stake_life_cycle_vip : ∃ s info, StakesRun sampleParams goArith (.daily 0) sampleStakerDb s ∧
    getDelegateStakeInfo s.db 5 = some info ∧ ComesBack s.db (.daily 0) 5 info := by
  have hrecord : sampleRecord .vip = some { stakeType := .vip, address := 1, principal := 0, amount := stakeForVIPAmount } := by
    decide +kernel
  obtain ⟨s, hrun, hinfo⟩ := sampleRecord_run hrecord
  refine ⟨s, _, hrun, hinfo, ?_⟩
  exact ((stake_life_cycle sampleParams goArith (.daily 0) sampleStakerDb s hrun).2.2.2 5 _ hinfo).2 (by decide)

/-- A failed stake of 134 VITE for mining: the callback that brings the 134 VITE back is refused. -/
theorem stake_life_cycle_mining_refused : ∃ s info, StakesRun sampleParams goArith (.daily 0) sampleStakerDb s ∧
    getDelegateStakeInfo s.db 5 = some info ∧ info.amount = 134 * commonTokenPow ∧ info.stakeType = .mining ∧
    methodDelegateStakeCallbackV2 s.db (.daily 0) 5 false (134 * commonTokenPow) = .error .invalidAmountForStakeCallback := by
  have hrecord : sampleRecord (.mining (134 * commonTokenPow)) =
      some { stakeType := .mining, address := 1, principal := 0, amount := 134 * commonTokenPow } := by decide +kernel
  obtain ⟨s, hrun, hinfo⟩ := sampleRecord_run hrecord
  refine ⟨s, _, hrun, hinfo, rfl, rfl, ?_⟩
  unfold methodDelegateStakeCallbackV2 checkFailedAmount
  rw [hinfo]
  rfl

end GoVite.Dex

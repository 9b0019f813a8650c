import GoVite.Proofs.Quota.SeparateStakes

/-! The stake ledger of the quota contract: sums, payments, and what a stake does to the record it goes into. A stake of
the old kind that goes into a record with an id drops the id and replaces the height the record is locked until. -/

namespace GoVite.Quota
open KeyStore Consensus ExceptRules List Store Except QuotaWorld Governance

variable {env : VmEnvironment} {send : SendBlock} {db db' : QuotaDb} {calls : List CallBlock} {k : StakeInfoKey}
  {record new : StakeRecord} {beneficiary delegateAddr stakeAddr : Address} {isDelegated : Bool} {bid : UInt8}
  {w : QuotaWorld} {r : Receive} {stakeHeight snapshotHeight : ℕ}

/-- One record is new, or holds more than before for the same staker and beneficiary under the same id and for at least
as long; the others are as they were. -/
def AddsTo (db db' : QuotaDb) (send : SendBlock) (key : StakeInfoKey) (new : StakeRecord) : Prop :=
  db'.stakeInfos.get? key = some new ∧ owner key new = send.accountAddress ∧
  (db.stakeInfos.get? key = none ∧ (unpackStakeInfo new).amount = send.amount ∨
    ∃ old, db.stakeInfos.get? key = some old ∧ SameStake old new ∧
      (unpackStakeInfo new).id = (unpackStakeInfo old).id ∧
      (unpackStakeInfo old).expirationHeight ≤ (unpackStakeInfo new).expirationHeight ∧
      (unpackStakeInfo new).amount = (unpackStakeInfo old).amount + send.amount) ∧
  ∀ k, k ≠ key → db'.stakeInfos.get? k = db.stakeInfos.get? k

/-- One record that is due holds less by the amount, or is gone; the others are as they were. -/
def TakesFrom (env : VmEnvironment) (db db' : QuotaDb) (key : StakeInfoKey) (old : StakeRecord) (amount : ℕ) : Prop :=
  db.stakeInfos.get? key = some old ∧ (unpackStakeInfo old).expirationHeight ≤ env.snapshotHeight ∧
  amount ≤ (unpackStakeInfo old).amount ∧
  (db'.stakeInfos.get? key).map unpackStakeInfo =
    (if (unpackStakeInfo old).amount = amount then none
      else some { unpackStakeInfo old with amount := (unpackStakeInfo old).amount - amount }) ∧
  ∀ k, k ≠ key → db'.stakeInfos.get? k = db.stakeInfos.get? k

theorem CancelEffect.takesFrom {key : StakeInfoKey} {old : StakeRecord} {amount : ℕ}
    (h : CancelEffect env send db db' key old amount) : TakesFrom env db db' key old amount := by
  refine ⟨h.get, h.due, h.le, ?_, fun k hk => ?_⟩
  · rcases h.stakeInfos with ⟨hall, hinfos⟩ | ⟨new, hnew, hne, hinfos⟩
    · rw [hinfos, get?_erase_self, if_pos hall]
      rfl
    · rw [hinfos, get?_set_self, if_neg hne, ← hnew]
      rfl
  · rcases h.stakeInfos with ⟨-, hinfos⟩ | ⟨new, -, -, hinfos⟩
    · rw [hinfos, get?_erase_ne _ hk]
    · rw [hinfos, get?_set_ne _ _ hk]

/-! How long records are locked -/

/-- A stake of the old kind that its staker made, locked until a height. -/
def OldLock (db : QuotaDb) (k : StakeInfoKey) (expirationHeight : ℕ) : Prop :=
  ∃ record, db.stakeInfos.get? k = some record ∧ OfOldKind record ∧ (unpackStakeInfo record).isDelegated = false ∧
    (unpackStakeInfo record).expirationHeight = expirationHeight

/-- Such a stake is locked from its block on, and nothing else changes its lock. -/
theorem KindEffect.oldLock {request : Request} {expirationHeight : ℕ} (h : KindEffect env send db db' request)
    (hlock : OldLock db' k expirationHeight) :
    expirationHeight = env.snapshotHeight + env.stakeHeight ∨ OldLock db k expirationHeight := by
  obtain ⟨record, hget, hkind, hown, rfl⟩ := hlock
  cases h with
  | refill get same oldKind newKind min infos ids stake lock =>
    rw [infos] at hget
    rcases get?_set_cases hget with ⟨rfl, rfl⟩ | ⟨-, hget⟩
    · rw [if_neg (by simp [hown])] at lock
      exact lock.symm.imp_right fun heq => ⟨_, get, oldKind, same.2.1.trans hown, heq.symm⟩
    · exact .inr ⟨record, hget, hkind, hown, rfl⟩
  | add newKind first min infos ids stake lock =>
    rw [infos] at hget
    rcases get?_set_cases hget with ⟨-, rfl⟩ | ⟨-, hget⟩
    · exact .inl (lock hown)
    · exact .inr ⟨record, hget, hkind, hown, rfl⟩
  | addId infos ids =>
    rw [infos] at hget
    rcases get?_set_cases hget with ⟨-, rfl⟩ | ⟨-, hget⟩
    · cases hkind
    · exact .inr ⟨record, hget, hkind, hown, rfl⟩
  | remove _ _ infos | removeId _ _ infos =>
    rw [infos] at hget
    exact .inr ⟨record, (get?_erase_cases hget).2, hkind, hown, rfl⟩

/-- A receive that keeps the kinds apart, at the stake height of the network and not at an earlier snapshot block than
the receive before it. -/
structure Locks (stakeHeight snapshotHeight : ℕ) (w : QuotaWorld) (r : Receive) : Prop where
  allowed : w.Allows r
  newHash : w.db.ids.get? r.send.hash = none
  keepsApart : KeepsApart w r
  stakeHeight_eq : r.env.stakeHeight = stakeHeight
  snapshotHeight_le : snapshotHeight ≤ r.env.snapshotHeight

/-- The runs of such receives, with the height of the last snapshot block. -/
inductive LockedRun (stakeHeight : ℕ) : ℕ → QuotaWorld → Prop
  | new : LockedRun stakeHeight 0 .new
  | step {snapshotHeight : ℕ} {w : QuotaWorld} {r : Receive} (hw : LockedRun stakeHeight snapshotHeight w)
      (hr : Locks stakeHeight snapshotHeight w r) : LockedRun stakeHeight r.env.snapshotHeight (w.step r)

theorem LockedRun.reachable (h : LockedRun stakeHeight snapshotHeight w) : w.Reachable := by
  induction h with
  | new => exact .new
  | step _ hr ih => exact ih.step hr.allowed

theorem LockedRun.apart (h : LockedRun stakeHeight snapshotHeight w) : Apart w := by
  induction h with
  | new => exact ApartRun.new.apart
  | step _ hr ih => exact ih.step hr.allowed hr.newHash hr.keepsApart

/-- No stake of the old kind is locked for longer than one made now. -/
theorem LockedRun.oldLock_le (h : LockedRun stakeHeight snapshotHeight w) {expirationHeight : ℕ}
    (hlock : OldLock w.db k expirationHeight) : expirationHeight ≤ snapshotHeight + stakeHeight := by
  induction h with
  | new =>
    obtain ⟨record, hget, -⟩ := hlock
    cases hget
  | @step snapshotHeight w r hw hr ih =>
    have hle := hr.snapshotHeight_le
    have hheight := hr.stakeHeight_eq
    unfold QuotaWorld.step at hlock
    cases hreceive : receive r.env w.db r.send r.request with
    | error e =>
      rw [hreceive] at hlock
      exact (ih hlock).trans (by omega)
    | ok receipt =>
      rw [hreceive] at hlock
      rcases (hw.apart.kindEffect hr.allowed hr.keepsApart hreceive).oldLock hlock with heq | hlock
      · omega
      · exact (ih hlock).trans (by omega)

/-! What a stake does -/

/-- A stake leaves the id of the record it goes into, and does not shorten its lock. -/
theorem LockedRun.addsTo (hw : LockedRun stakeHeight snapshotHeight w) (hr : Locks stakeHeight snapshotHeight w r)
    (hreceive : receive r.env w.db r.send r.request = .ok (db', calls)) (hstake : r.request.isStake = true) :
    ∃ key new, AddsTo w.db db' r.send key new := by
  have h := hw.apart
  have hset : ∀ {key new}, db'.stakeInfos = w.db.stakeInfos.set key new → db'.stakeInfos.get? key = some new ∧
      ∀ k, k ≠ key → db'.stakeInfos.get? k = w.db.stakeInfos.get? k := by
    rintro key new infos
    exact ⟨by rw [infos, get?_set_self], fun k hk => by rw [infos, get?_set_ne _ _ hk]⟩
  cases h.kindEffect hr.allowed hr.keepsApart hreceive with
  | @refill key old new get same oldKind newKind min infos ids stake lock =>
    obtain ⟨howner, hamount⟩ := stake hstake
    refine ⟨key, new, (hset infos).1, howner, .inr ⟨old, get, same, newKind.trans oldKind.symm, ?_, hamount⟩,
      (hset infos).2⟩
    split_ifs at lock with hd
    · exact lock
    · have hle := hw.oldLock_le ⟨old, get, oldKind, same.2.1.trans (by simpa using hd), rfl⟩
      have hlater := hr.snapshotHeight_le
      have hstakeHeight := hr.stakeHeight_eq
      omega
  | @add addr new newKind first min infos ids stake lock =>
    exact ⟨_, new, (hset infos).1, stake.1, .inl ⟨h.ledger.get?_next hr.allowed.1 addr, stake.2⟩, (hset infos).2⟩
  | addId infos ids =>
    exact ⟨_, _, (hset infos).1, rfl, .inl ⟨h.ledger.get?_next hr.allowed.1 _, rfl⟩, (hset infos).2⟩
  | remove get oldKind infos ids cancels =>
    rw [cancels] at hstake
    cases hstake
  | removeId cancels get infos ids => rcases cancels with heq | heq <;> rw [heq] at hstake <;> cases hstake

/-- In every state reached: the sum of a beneficiary is that of its records, what the records hold is what was received
and not yet paid back, a stake sends nothing, and a cancel takes from one record that is due and pays what it takes to
its owner. In every run that keeps the kinds apart a stake adds to one record of the sender, which is new or keeps its id
and stays locked. -/
theorem stake_ledger_adds_up {w : QuotaWorld} (h : w.Reachable) :
    (∀ b, w.db.beneficials.getD b 0 = w.db.stakeInfos.sum fun _ record => amountFor b record) ∧
    w.db.stakeInfos.sum (fun _ record => (unpackStakeInfo record).amount) + w.paid = w.received ∧
    (∀ (r : Receive) (db' : QuotaDb) (calls : List CallBlock), w.Allows r →
      receive r.env w.db r.send r.request = .ok (db', calls) →
      if r.request.isStake then ∀ c ∈ calls, c.amount = 0
      else ∃ key old amount data, TakesFrom r.env w.db db' key old amount ∧ calls = [⟨owner key old, amount, data⟩] ∧
        owner key old = r.send.accountAddress) ∧
    ∀ (stakeHeight snapshotHeight : ℕ) (r : Receive) (db' : QuotaDb) (calls : List CallBlock),
      LockedRun stakeHeight snapshotHeight w → Locks stakeHeight snapshotHeight w r →
      receive r.env w.db r.send r.request = .ok (db', calls) → r.request.isStake = true →
      ∃ key new, AddsTo w.db db' r.send key new := by
  have hinv := ledgerInv_reachable h
  refine ⟨hinv.beneficial, hinv.total, fun r db' calls ha hreceive => ?_,
    fun _ _ r db' calls hw hr hreceive hstake => hw.addsTo hr hreceive hstake⟩
  rcases receive_cases hreceive with ⟨hstake, hcalls, -⟩ | ⟨hcancel, key, old, amount, data, heffect, rfl⟩
  · rw [if_pos hstake]
    exact hcalls
  · rw [if_neg (by simp [hcancel])]
    have howner := hinv.owner_eq heffect
    exact ⟨key, old, amount, data, heffect.takesFrom, by rw [howner], howner⟩

/-! A stake of the old kind that shortens a lock -/

/-- A stake with an id that is locked until height 800, one of the old kind for the same beneficiary, and a cancel by the
id at height 701. -/
def overwritten : List Receive :=
  [⟨⟨600, 1, 100⟩, ⟨1, 77, stakeAmountMin, viteTokenId⟩, .stakeForQuotaWithCallback 9 700⟩,
    ⟨⟨600, 2, 101⟩, ⟨1, 78, 2 * stakeAmountMin, viteTokenId⟩, .stake 9⟩,
    ⟨⟨600, 3, 701⟩, ⟨1, 79, 0, viteTokenId⟩, .cancelQuotaStaking 77⟩]

/-- The record loses its id and is paid out 99 blocks before the height it was locked until. -/
theorem stake_overwrites_lock :
    (overwritten.foldl step .new).Reachable ∧
    ((overwritten.take 1).foldl step .new).db.stakeInfos.get? (getStakeInfoKey 1 1) =
      some (.stakeInfoV2 stakeAmountMin 800 9 77) ∧
    ((overwritten.take 2).foldl step .new).db.stakeInfos.get? (getStakeInfoKey 1 1) =
      some (.stakeInfo (3 * stakeAmountMin) 701 9 false noDelegateAddress noBid) ∧
    (overwritten.foldl step .new).paid = 3 * stakeAmountMin := by
  refine ⟨?_, by decide +kernel, by decide +kernel, by decide +kernel⟩
  unfold overwritten
  simp only [foldl_cons]
  refine .step (.step (.step .new ?_) ?_) ?_ <;> exact ⟨by decide +kernel, by decide +kernel⟩

theorem lockedRun_separateStakes : LockedRun 600 200 (separateStakes.foldl step .new) := by
  have hfirst : LockedRun 600 100 ((separateStakes.take 1).foldl step .new) := by
    refine .step (r := ⟨⟨600, 1, 100⟩, ⟨1, 77, 2 * stakeAmountMin, viteTokenId⟩, .stake 9⟩) .new
      ⟨⟨by decide +kernel, by decide +kernel⟩, rfl, ?_, rfl, by decide⟩
    intro beneficiary _ k record hget
    cases hget
  refine .step (r := ⟨⟨600, 2, 200⟩, ⟨1, 78, stakeAmountMin, viteTokenId⟩, .stakeForQuota 9⟩) hfirst
    ⟨⟨by decide +kernel, by decide +kernel⟩, by decide +kernel, ?_, rfl, by decide⟩
  intro beneficiary hrequest
  cases hrequest

/-- A third stake goes into that of the old kind, beside the one with an id. -/
def furtherStake : Receive := ⟨⟨600, 3, 300⟩, ⟨1, 79, stakeAmountMin, viteTokenId⟩, .stake 9⟩

theorem locks_furtherStake : Locks 600 200 (separateStakes.foldl step .new) furtherStake := by
  refine ⟨⟨by decide +kernel, by decide +kernel⟩, by decide +kernel, ?_, rfl, by decide⟩
  intro beneficiary hrequest
  cases hrequest
  intro _ _ _ _ _ _
  exact ⟨getStakeInfoKey 1 1, .stakeInfo (2 * stakeAmountMin) 700 9 false noDelegateAddress noBid, by decide +kernel, rfl,
    ⟨rfl, rfl, rfl, rfl⟩, rfl⟩

theorem stake_ledger_adds_up_furtherStake :
    let w := separateStakes.foldl step .new
    (w.step furtherStake).db.stakeInfos.get? (getStakeInfoKey 1 1) =
      some (.stakeInfo (3 * stakeAmountMin) 900 9 false noDelegateAddress noBid) ∧
    ∃ key new, AddsTo w.db (w.step furtherStake).db furtherStake.send key new :=
  ⟨by decide +kernel, (stake_ledger_adds_up lockedRun_separateStakes.reachable).2.2.2 600 200 furtherStake _ _
    lockedRun_separateStakes locks_furtherStake rfl rfl⟩

end GoVite.Quota

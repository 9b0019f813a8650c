import GoVite.Sanity.Quota.Effects

/-! Over every run of the old and new methods the records of the quota contract hold what was staked and not paid back. -/

namespace GoVite.Quota
open KeyStore Consensus ExceptRules Option Store QuotaWorld

/-- What a record counts for a beneficiary. -/
def amountFor (b : Address) (record : StakeRecord) : ℕ :=
  if (unpackStakeInfo record).beneficiary = b then (unpackStakeInfo record).amount else 0

theorem amountFor_eq_add {b : Address} {old new : StakeRecord} {amount : ℕ}
    (hb : (unpackStakeInfo old).beneficiary = (unpackStakeInfo new).beneficiary)
    (hamount : (unpackStakeInfo new).amount = (unpackStakeInfo old).amount + amount) :
    amountFor b new = amountFor b old + if b = (unpackStakeInfo new).beneficiary then amount else 0 := by
  unfold amountFor
  rw [hb, hamount]
  by_cases h : b = (unpackStakeInfo new).beneficiary
  · rw [if_pos h.symm, if_pos h.symm, if_pos h]
  · rw [if_neg (Ne.symm h), if_neg (Ne.symm h), if_neg h]

theorem amountFor_eq (b : Address) (record : StakeRecord) :
    amountFor b record = if b = (unpackStakeInfo record).beneficiary then (unpackStakeInfo record).amount else 0 := by
  unfold amountFor
  simp only [eq_comm]

structure LedgerInv (w : QuotaWorld) : Prop where
  index_le : ∀ k record, w.db.stakeInfos.get? k = some record → getIndexFromStakeInfoKey k ≤ w.height
  ids : ∀ id k, w.db.ids.get? id = some k → getIndexFromStakeInfoKey k ≤ w.height ∧
    ∀ record, w.db.stakeInfos.get? k = some record → (unpackStakeInfo record).isDelegated = false
  beneficial : ∀ b, w.db.beneficials.getD b 0 = w.db.stakeInfos.sum fun _ record => amountFor b record
  total : w.db.stakeInfos.sum (fun _ record => (unpackStakeInfo record).amount) + w.paid = w.received

variable {env : VmEnvironment} {send : SendBlock} {db db' : QuotaDb} {key : StakeInfoKey} {old new : StakeRecord}
  {amount : ℕ} {w : QuotaWorld} {paid : ℕ}

/-! A stake -/

section
variable (hinv : LedgerInv w) (hheight : w.height < env.height)
include hinv hheight

theorem LedgerInv.nextKey_eq (addr : Address) :
    w.db.getNextStakeInfoKey addr env.height = getStakeInfoKey addr env.height :=
  getNextStakeInfoKey_eq (by omega) fun k record hk => (hinv.index_le k record hk).trans_lt hheight

theorem LedgerInv.get?_next (addr : Address) : w.db.stakeInfos.get? (getStakeInfoKey addr env.height) = none := by
  cases hget : w.db.stakeInfos.get? (getStakeInfoKey addr env.height) with
  | none => rfl
  | some record => exact absurd (hinv.index_le _ record hget) (by simpa using hheight)

variable (h : StakeEffect env send w.db db' key new)
include h

/-- The key of a new record is the one of the block, under which there is none. -/
theorem LedgerInv.stake_fresh : (∃ old, w.db.stakeInfos.get? key = some old ∧ SameStake old new ∧
        (unpackStakeInfo new).amount = (unpackStakeInfo old).amount + send.amount) ∨
      w.db.stakeInfos.get? key = none ∧ (unpackStakeInfo new).amount = send.amount ∧
        getIndexFromStakeInfoKey key = env.height := by
  rcases h.old with hold | ⟨hkey, hamount⟩
  · exact .inl hold
  · rw [hinv.nextKey_eq hheight] at hkey
    refine .inr ⟨?_, hamount, ?_⟩
    · rw [hkey, hinv.get?_next hheight]
    · rw [hkey, getIndex_getStakeInfoKey]

/-- A weight that grows with the amount grows by what was sent. -/
theorem LedgerInv.stake_sum (b : Address) : db'.stakeInfos.sum (fun _ record => amountFor b record) =
        w.db.stakeInfos.sum (fun _ record => amountFor b record) +
          (if b = (unpackStakeInfo new).beneficiary then send.amount else 0) ∧
      db'.stakeInfos.sum (fun _ record => (unpackStakeInfo record).amount) =
        w.db.stakeInfos.sum (fun _ record => (unpackStakeInfo record).amount) + send.amount := by
  have hfor := w.db.stakeInfos.sum_set key new fun _ record => amountFor b record
  have hall := w.db.stakeInfos.sum_set key new fun _ record => (unpackStakeInfo record).amount
  rw [h.stakeInfos]
  rcases hinv.stake_fresh hheight h with ⟨old, hget, hsame, hamount⟩ | ⟨hget, hamount, -⟩
  · have hadd := amountFor_eq_add (b := b) hsame.1 hamount
    simp only [hget, map_some, getD_some] at hfor hall
    exact ⟨by omega, by omega⟩
  · have hnew := amountFor_eq b new
    rw [hamount] at hnew
    simp only [hget, map_none, getD_none] at hfor hall
    exact ⟨by omega, by omega⟩

end

theorem LedgerInv.stake (hinv : LedgerInv w) (hheight : w.height < env.height)
    (h : StakeEffect env send w.db db' key new) (hpaid : paid = w.paid) :
    LedgerInv ⟨db', env.height, w.received + send.amount, paid⟩ := by
  have hfresh := hinv.stake_fresh hheight h
  have hkey : getIndexFromStakeInfoKey key ≤ env.height := by
    rcases hfresh with ⟨old, hget, -⟩ | ⟨-, -, hidx⟩
    · exact (hinv.index_le key old hget).trans hheight.le
    · exact hidx.le
  refine ⟨fun k record hk => ?_, fun id k hk => ?_, fun b => ?_, ?_⟩
  · rw [h.stakeInfos] at hk
    obtain ⟨rfl, -⟩ | ⟨-, hk⟩ := get?_set_cases hk
    · exact hkey
    · exact (hinv.index_le k record hk).trans hheight.le
  · rw [h.stakeInfos]
    -- an id points to what it did, or, if it is new, to the new record
    have hcases : w.db.ids.get? id = some k ∨ k = key ∧ (unpackStakeInfo new).isDelegated = false := by
      rcases h.ids with hids | ⟨hids, hd⟩
      · rw [hids] at hk
        exact .inl hk
      · rw [hids] at hk
        exact (get?_set_cases hk).symm.imp And.right fun hk => ⟨hk.2, hd⟩
    rcases hcases with hk | ⟨rfl, hd⟩
    · obtain ⟨hle, hrecord⟩ := hinv.ids id k hk
      refine ⟨hle.trans hheight.le, fun record hget => ?_⟩
      obtain ⟨rfl, rfl⟩ | ⟨-, hget⟩ := get?_set_cases hget
      · rcases hfresh with ⟨old, hold, hsame, -⟩ | ⟨-, -, hidx⟩
        · rw [← hsame.2.1]
          exact hrecord old hold
        · omega
      · exact hrecord record hget
    · refine ⟨hkey, fun record hget => ?_⟩
      rw [get?_set_self] at hget
      rw [← Option.some.inj hget]
      exact hd
  · rw [h.beneficials, getD_set, (hinv.stake_sum hheight h b).1]
    by_cases hb : b = (unpackStakeInfo new).beneficiary
    · rw [if_pos hb, if_pos hb, ← hb, hinv.beneficial]
    · rw [if_neg hb, if_neg hb, hinv.beneficial, Nat.add_zero]
  · dsimp only
    have htotal := hinv.total
    have hsum := (hinv.stake_sum hheight h 0).2
    omega

/-! A cancel -/

theorem CancelEffect.sum (h : CancelEffect env send db db' key old amount) (b : Address) :
    db'.stakeInfos.sum (fun _ record => amountFor b record) +
        (if b = (unpackStakeInfo old).beneficiary then amount else 0) =
      db.stakeInfos.sum (fun _ record => amountFor b record) ∧
    db'.stakeInfos.sum (fun _ record => (unpackStakeInfo record).amount) + amount =
      db.stakeInfos.sum (fun _ record => (unpackStakeInfo record).amount) := by
  have hle := h.le
  rcases h.stakeInfos with ⟨hall, hinfos⟩ | ⟨new, hnew, -, hinfos⟩
  · have hfor := db.stakeInfos.sum_erase key fun _ record => amountFor b record
    have htotal := db.stakeInfos.sum_erase key fun _ record => (unpackStakeInfo record).amount
    have hold := amountFor_eq b old
    rw [hall] at hold
    rw [hinfos]
    simp only [h.get, map_some, getD_some] at hfor htotal
    exact ⟨by omega, by omega⟩
  · have hfor := db.stakeInfos.sum_set key new fun _ record => amountFor b record
    have htotal := db.stakeInfos.sum_set key new fun _ record => (unpackStakeInfo record).amount
    have hleft : (unpackStakeInfo new).amount = (unpackStakeInfo old).amount - amount := by rw [hnew]
    have hsub := amountFor_eq_add (b := b) (show (unpackStakeInfo new).beneficiary = (unpackStakeInfo old).beneficiary by
      rw [hnew]) (show (unpackStakeInfo old).amount = (unpackStakeInfo new).amount + amount by omega)
    rw [hinfos]
    simp only [h.get, map_some, getD_some] at hfor htotal
    exact ⟨by omega, by omega⟩

/-- A record left over is one that was there, with as much or less in it. -/
theorem CancelEffect.get_of_get (h : CancelEffect env send db db' key old amount) {k : StakeInfoKey}
    {record : StakeRecord} (hk : db'.stakeInfos.get? k = some record) : ∃ before,
    db.stakeInfos.get? k = some before ∧
      (unpackStakeInfo record).isDelegated = (unpackStakeInfo before).isDelegated := by
  rcases h.stakeInfos with ⟨-, hinfos⟩ | ⟨new, hnew, -, hinfos⟩
  · rw [hinfos] at hk
    exact ⟨record, (get?_erase_cases hk).2, rfl⟩
  · rw [hinfos] at hk
    obtain ⟨rfl, rfl⟩ | ⟨-, hk⟩ := get?_set_cases hk
    · exact ⟨old, h.get, by rw [hnew]⟩
    · exact ⟨record, hk, rfl⟩

theorem LedgerInv.cancel (hinv : LedgerInv w) (hheight : w.height < env.height)
    (h : CancelEffect env send w.db db' key old amount) {received : ℕ} (hpaid : paid = w.paid + amount)
    (hreceived : received = w.received) : LedgerInv ⟨db', env.height, received, paid⟩ := by
  refine ⟨fun k record hk => ?_, fun id k hk => ?_, fun b => ?_, ?_⟩
  · obtain ⟨before, hbefore, -⟩ := h.get_of_get hk
    exact (hinv.index_le k before hbefore).trans hheight.le
  · obtain ⟨hle, hrecord⟩ := hinv.ids id k (h.ids id k hk)
    refine ⟨hle.trans hheight.le, fun record hget => ?_⟩
    obtain ⟨before, hbefore, hd⟩ := h.get_of_get hget
    rw [hd]
    exact hrecord before hbefore
  · dsimp only
    rw [h.beneficials.2 b, hinv.beneficial, ← (h.sum b).1]
    omega
  · dsimp only
    have htotal := hinv.total
    have hsum := (h.sum 0).2
    omega

/-- Only the owner of a record takes from it: an id points to a record that is not delegated. -/
theorem LedgerInv.owner_eq (hinv : LedgerInv w) (h : CancelEffect env send w.db db' key old amount) :
    owner key old = send.accountAddress := by
  rcases h.owner with howner | ⟨haddr, id, hid⟩
  · exact howner
  · rw [owner, (hinv.ids id key hid).2 old h.get]
    exact haddr

/-! Runs -/

theorem LedgerInv.step (hinv : LedgerInv w) {r : Receive} (ha : w.Allows r) : LedgerInv (w.step r) := by
  obtain ⟨hheight, hsend⟩ := ha
  unfold QuotaWorld.step
  cases hreceive : receive r.env w.db r.send r.request with
  | error e =>
    exact ⟨fun k record hk => (hinv.index_le k record hk).trans hheight.le,
      fun id k hk => ⟨(hinv.ids id k hk).1.trans hheight.le, (hinv.ids id k hk).2⟩, hinv.beneficial, hinv.total⟩
  | ok receipt =>
    obtain ⟨db', calls⟩ := receipt
    rcases receive_cases hreceive with ⟨-, hcalls, key, new, heffect⟩ | ⟨hcancel, key, old, amount, data, heffect, rfl⟩
    · refine hinv.stake hheight heffect ?_
      have hzero : (calls.map (·.amount)).sum = 0 := by
        rw [List.sum_eq_zero_iff]
        intro a ha
        obtain ⟨c, hc, rfl⟩ := List.mem_map.1 ha
        exact hcalls c hc
      rw [hzero, Nat.add_zero]
    · refine hinv.cancel hheight heffect (by simp) ?_
      -- a cancel is sent without an amount
      have hnone : r.send.amount = 0 := by
        cases hreq : r.request <;> rw [hreq] at hsend hcancel <;> simp_all [doSend, Request.isStake]
      rw [hnone, Nat.add_zero]

theorem ledgerInv_reachable (h : w.Reachable) : LedgerInv w := by
  induction h with
  | new =>
    exact ⟨fun k record hk => (by cases hk), fun id k hk => (by cases hk), fun _ => rfl, rfl⟩
  | step _ ha ih => exact ih.step ha

end GoVite.Quota

import GoVite.Spec.Quota.Staking
import GoVite.Lib.Except

/-! What a receive of the quota contract does to the records: a stake sets one of them and a cancel takes from one. -/

namespace GoVite.Quota
open KeyStore Consensus ExceptRules List Store Except

variable {env : VmEnvironment} {db db' : QuotaDb} {send : SendBlock} {calls : List CallBlock}

/-- Who may take from the record: its staker, or who staked for them. -/
def owner (key : StakeInfoKey) (record : StakeRecord) : Address :=
  if (unpackStakeInfo record).isDelegated then (unpackStakeInfo record).delegateAddress
  else getStakeAddrFromStakeInfoKey key

def Request.isStake : Request → Bool
  | .stake _ | .delegateStake _ _ _ _ | .stakeForQuota _ | .stakeForQuotaWithCallback _ _ => true
  | .cancelStake _ _ | .cancelDelegateStake _ _ _ _ | .cancelQuotaStaking _ | .cancelQuotaStakingWithCallback _ => false

/-- The records agree on whom they are for and from. -/
def SameStake (old new : StakeRecord) : Prop :=
  (unpackStakeInfo old).beneficiary = (unpackStakeInfo new).beneficiary ∧
  (unpackStakeInfo old).isDelegated = (unpackStakeInfo new).isDelegated ∧
  (unpackStakeInfo old).delegateAddress = (unpackStakeInfo new).delegateAddress ∧
  (unpackStakeInfo old).bid = (unpackStakeInfo new).bid

/-! Looking a record up -/

@[simp] theorem getIndex_getStakeInfoKey (addr : Address) (index : ℕ) :
    getIndexFromStakeInfoKey (getStakeInfoKey addr index) = index := rfl

@[simp] theorem getStakeAddr_getNextStakeInfoKey (db : QuotaDb) (addr : Address) (index : ℕ) :
    getStakeAddrFromStakeInfoKey (db.getNextStakeInfoKey addr index) = addr := by
  unfold QuotaDb.getNextStakeInfoKey
  split_ifs <;> rfl

variable {beneficiary delegateAddr stakeAddr : Address} {isDelegated : Bool} {bid : UInt8} {index : ℕ}
  {info : StakeInfo}

theorem getStakeInfo_some
        (h : (db.getStakeInfo stakeAddr beneficiary isDelegated delegateAddr bid index).2 = some info) : ∃ record,
    db.stakeInfos.get? (db.getStakeInfo stakeAddr beneficiary isDelegated delegateAddr bid index).1 = some record ∧
      unpackStakeInfo record = info ∧
      getStakeAddrFromStakeInfoKey (db.getStakeInfo stakeAddr beneficiary isDelegated delegateAddr bid index).1 =
        stakeAddr ∧
      info.beneficiary = beneficiary ∧ info.isDelegated = isDelegated ∧ info.delegateAddress = delegateAddr ∧
      info.bid = bid := by
  unfold QuotaDb.getStakeInfo at h ⊢
  split at h
  · rename_i e he
    obtain rfl := Option.some.inj h
    have hmem := mem_of_find?_eq_some he
    have hfields := find?_some he
    simp only [Bool.and_eq_true, decide_eq_true_eq] at hfields
    obtain ⟨⟨⟨hb, hd⟩, ha⟩, hbid⟩ := hfields
    obtain ⟨hentry, haddr⟩ := mem_filter.1 hmem
    exact ⟨e.2, get?_eq_some_iff.2 hentry, rfl, of_decide_eq_true haddr, hb, hd, ha, hbid⟩
  · cases h

theorem getStakeInfo_none (h : (db.getStakeInfo stakeAddr beneficiary isDelegated delegateAddr bid index).2 = none) :
    (db.getStakeInfo stakeAddr beneficiary isDelegated delegateAddr bid index).1 =
      db.getNextStakeInfoKey stakeAddr index := by
  unfold QuotaDb.getStakeInfo at h ⊢
  split at h
  · cases h
  · rfl

/-- While no record has an index as high as the block, the next key is that of the block. -/
theorem getNextStakeInfoKey_eq {addr : Address} (hpos : 0 < index)
    (h : ∀ k record, db.stakeInfos.get? k = some record → getIndexFromStakeInfoKey k < index) :
    db.getNextStakeInfoKey addr index = getStakeInfoKey addr index := by
  have hmax : ∀ (l : List (StakeInfoKey × StakeRecord)) (m : ℕ), (∀ e ∈ l, getIndexFromStakeInfoKey e.1 < index) →
      m < index → l.foldl (fun m e => max m (getIndexFromStakeInfoKey e.1)) m < index := by
    intro l
    induction l with
    | nil => exact fun m _ hm => hm
    | cons e l ih =>
      exact fun m hl hm => ih _ (fun e' he' => hl e' (mem_cons_of_mem e he')) (max_lt hm (hl e mem_cons_self))
  refine if_pos (hmax _ 0 (fun e he => ?_) hpos)
  exact h e.1 e.2 (get?_eq_some_iff.2 (mem_filter.1 he).1)

/-! The effects -/

/-- A record is set: one that was there, with more in it, or one under the next key. -/
structure StakeEffect (env : VmEnvironment) (send : SendBlock) (db db' : QuotaDb) (key : StakeInfoKey)
    (new : StakeRecord) : Prop where
  stakeInfos : db'.stakeInfos = db.stakeInfos.set key new
  beneficials : db'.beneficials = db.beneficials.set (unpackStakeInfo new).beneficiary
    (db.beneficials.getD (unpackStakeInfo new).beneficiary 0 + send.amount)
  ids : db'.ids = db.ids ∨ db'.ids = db.ids.set send.hash key ∧ (unpackStakeInfo new).isDelegated = false
  old : (∃ old, db.stakeInfos.get? key = some old ∧ SameStake old new ∧
      (unpackStakeInfo new).amount = (unpackStakeInfo old).amount + send.amount) ∨
    key = db.getNextStakeInfoKey (getStakeAddrFromStakeInfoKey key) env.height ∧
      (unpackStakeInfo new).amount = send.amount

/-- An amount is taken from a record that is due, and from the sum of its beneficiary. -/
structure CancelEffect (env : VmEnvironment) (send : SendBlock) (db db' : QuotaDb) (key : StakeInfoKey)
    (old : StakeRecord) (amount : ℕ) : Prop where
  get : db.stakeInfos.get? key = some old
  due : (unpackStakeInfo old).expirationHeight ≤ env.snapshotHeight
  le : amount ≤ (unpackStakeInfo old).amount
  stakeInfos : (unpackStakeInfo old).amount = amount ∧ db'.stakeInfos = db.stakeInfos.erase key ∨
    ∃ new, unpackStakeInfo new = { unpackStakeInfo old with amount := (unpackStakeInfo old).amount - amount } ∧
      (unpackStakeInfo old).amount ≠ amount ∧ db'.stakeInfos = db.stakeInfos.set key new
  beneficials : amount ≤ db.beneficials.getD (unpackStakeInfo old).beneficiary 0 ∧
    ∀ b, db'.beneficials.getD b 0 = db.beneficials.getD b 0 - if b = (unpackStakeInfo old).beneficiary then amount else 0
  ids : ∀ id k, db'.ids.get? id = some k → db.ids.get? id = some k
  owner : owner key old = send.accountAddress ∨
    getStakeAddrFromStakeInfoKey key = send.accountAddress ∧ ∃ id, db.ids.get? id = some key

variable {amount : ℕ}

theorem subBeneficial_ok (h : db.subBeneficial beneficiary amount = .ok db') :
    db'.stakeInfos = db.stakeInfos ∧ db'.ids = db.ids ∧ amount ≤ db.beneficials.getD beneficiary 0 ∧
      ∀ b, db'.beneficials.getD b 0 = db.beneficials.getD b 0 - if b = beneficiary then amount else 0 := by
  unfold QuotaDb.subBeneficial at h
  cases hold : db.beneficials.get? beneficiary with
  | none =>
    rw [hold] at h
    cases h
  | some old =>
    rw [hold] at h
    obtain ⟨hle, h⟩ := guard_ok h
    cases h
    have hget : db.beneficials.getD beneficiary 0 = old := getD_of_get? hold 0
    refine ⟨rfl, rfl, by omega, fun b => ?_⟩
    by_cases hb : b = beneficiary
    · subst hb
      rw [if_pos rfl, hget]
      split_ifs with hzero
      · rw [getD_erase, if_pos rfl, hzero]
      · rw [getD_set_self]
    · rw [if_neg hb, Nat.sub_zero]
      split_ifs
      · rw [getD_erase, if_neg hb]
      · rw [getD_set, if_neg hb]

/-- What is left is packed with the other fields of the record. -/
theorem unpackStakeInfo_left (left : ℕ)
    (hd : info.isDelegated = isDelegated) (ha : info.delegateAddress = delegateAddr) (hbid : info.bid = bid)
    (hid : info.id = none) :
    unpackStakeInfo (.stakeInfo left info.expirationHeight info.beneficiary isDelegated delegateAddr bid) =
      { info with amount := left } := by
  subst hd ha hbid
  rw [unpackStakeInfo, ← hid]

theorem cancelPart_ok (send : SendBlock) {pack : StakeInfo → ℕ → StakeRecord}
    (hpack : ∀ info left, info.isDelegated = isDelegated → info.delegateAddress = delegateAddr → info.bid = bid →
      info.id = none → unpackStakeInfo (pack info left) = { info with amount := left })
    (howner : (if isDelegated then delegateAddr else stakeAddr) = send.accountAddress)
    (h : cancelPart env db (db.getStakeInfo stakeAddr beneficiary isDelegated delegateAddr bid index) beneficiary amount
      pack = .ok db') : ∃ key old, CancelEffect env send db db' key old amount ∧ (unpackStakeInfo old).id = none ∧
      db'.ids = db.ids ∧
      ((unpackStakeInfo old).amount - amount = 0 ∨ stakeAmountMin ≤ (unpackStakeInfo old).amount - amount) := by
  unfold cancelPart at h
  cases hfound : (db.getStakeInfo stakeAddr beneficiary isDelegated delegateAddr bid index).2 with
  | none =>
    rw [hfound] at h
    cases h
  | some old =>
    rw [hfound] at h
    obtain ⟨hguard, h⟩ := guard_ok h
    obtain ⟨hrest, h⟩ := guard_ok h
    obtain ⟨db₁, hsub, h⟩ := bind_ok h
    cases h
    obtain ⟨record, hget, rfl, hstaker, hb, hd, ha, hbid⟩ := getStakeInfo_some hfound
    obtain ⟨hinfos, hids, hle, hbeneficials⟩ := subBeneficial_ok hsub
    simp only [stakeNotDue, Bool.or_eq_true, decide_eq_true_eq, not_or, not_lt, Bool.not_eq_true,
      Option.isSome_eq_false_iff, Option.isNone_iff_eq_none] at hguard
    obtain ⟨⟨hdue, hamount⟩, hid⟩ := hguard
    refine ⟨_, record, ⟨hget, hdue, hamount, ?_, ?_, ?_, .inl ?_⟩, hid, hids, ?_⟩
    · rw [hinfos]
      split_ifs with hleft
      · exact .inl ⟨by omega, rfl⟩
      · exact .inr ⟨_, hpack _ _ hd ha hbid hid, by omega, rfl⟩
    · rw [hb]
      exact ⟨hle, hbeneficials⟩
    · intro id k hk
      rw [← hids]
      exact hk
    · unfold owner
      rw [hd, ha, hstaker]
      exact howner
    · simpa [or_iff_not_imp_left] using hrest

theorem cancelStakeV3_ok {id : Hash} {callback : Bool} (h : cancelStakeV3 env db send id callback = .ok (db', calls)) :
    ∃ key old, CancelEffect env send db db' key old (unpackStakeInfo old).amount ∧
      (∃ data, calls = [⟨send.accountAddress, (unpackStakeInfo old).amount, data⟩]) ∧
      db.ids.get? id = some key ∧ db'.stakeInfos = db.stakeInfos.erase key ∧ db'.ids = db.ids.erase id := by
  unfold cancelStakeV3 at h
  cases hkey : db.ids.get? id with
  | none =>
    rw [hkey] at h
    cases h
  | some key =>
    rw [hkey] at h
    dsimp only at h
    cases hget : db.stakeInfos.get? key with
    | none =>
      rw [hget] at h
      cases h
    | some old =>
      rw [hget] at h
      obtain ⟨hguard, h⟩ := guard_ok h
      obtain ⟨db₁, hsub, h⟩ := bind_ok h
      cases h
      obtain ⟨hinfos, hids, hle, hbeneficials⟩ := subBeneficial_ok hsub
      simp only [stakeNotDue, Bool.or_eq_true, decide_eq_true_eq, not_or, not_lt, not_not] at hguard
      refine ⟨key, old, ⟨hget, hguard.2, le_refl _, .inl ⟨rfl, by dsimp only; rw [hinfos]⟩, ⟨hle, hbeneficials⟩, ?_,
        .inr ⟨hguard.1, id, hkey⟩⟩, ⟨_, rfl⟩, rfl, by rw [hinfos], by rw [hids]⟩
      intro id' k hk
      rw [hids] at hk
      exact (Store.get?_erase_cases hk).2

/-- The two methods that stake by fields set the record found, or a new one. -/
theorem stakeEffect_found (stakeAddr beneficiary delegateAddr : Address) (isDelegated : Bool) (bid : UInt8)
    {new : StakeRecord}
    (hdb : db' = (⟨db.stakeInfos.set
      (db.getStakeInfo stakeAddr beneficiary isDelegated delegateAddr bid env.height).1 new, db.ids, db.beneficials⟩ :
        QuotaDb).addBeneficial beneficiary send.amount)
    (hnew : (unpackStakeInfo new).beneficiary = beneficiary ∧
      (unpackStakeInfo new).isDelegated = isDelegated ∧ (unpackStakeInfo new).delegateAddress = delegateAddr ∧
      (unpackStakeInfo new).bid = bid)
    (hamount : (unpackStakeInfo new).amount =
      ((db.getStakeInfo stakeAddr beneficiary isDelegated delegateAddr bid env.height).2.map (·.amount)).getD 0 +
        send.amount) :
    StakeEffect env send db db' (db.getStakeInfo stakeAddr beneficiary isDelegated delegateAddr bid env.height).1 new := by
  obtain ⟨hb, hd, ha, hbid⟩ := hnew
  subst hdb
  have hbeneficials : ∀ infos, (({ db with stakeInfos := infos } : QuotaDb).addBeneficial beneficiary
      send.amount).beneficials = db.beneficials.set (unpackStakeInfo new).beneficiary
        (db.beneficials.getD (unpackStakeInfo new).beneficiary 0 + send.amount) := fun infos => by
    rw [hb]
    rfl
  cases hfound : (db.getStakeInfo stakeAddr beneficiary isDelegated delegateAddr bid env.height).2 with
  | none =>
    refine ⟨rfl, hbeneficials _, .inl rfl, .inr ⟨?_, ?_⟩⟩
    · rw [getStakeInfo_none hfound, getStakeAddr_getNextStakeInfoKey]
    · rw [hamount, hfound]
      exact Nat.zero_add _
  | some old =>
    obtain ⟨record, hget, rfl, -, hb', hd', ha', hbid'⟩ := getStakeInfo_some hfound
    refine ⟨rfl, hbeneficials _, .inl rfl, .inl ⟨record, hget, ?_, ?_⟩⟩
    · exact ⟨hb'.trans hb.symm, hd'.trans hd.symm, ha'.trans ha.symm, hbid'.trans hbid.symm⟩
    · rw [hamount, hfound]
      rfl

theorem stakeEffect_stakeV3 (env : VmEnvironment) (db : QuotaDb) (send : SendBlock) (beneficiary : Address)
    (callbackHeight : Option ℕ) :
    ∃ key new, StakeEffect env send db (stakeV3 env db send beneficiary callbackHeight).1 key new := by
  refine ⟨_, _, rfl, rfl, .inr ⟨rfl, rfl⟩, .inr ⟨?_, rfl⟩⟩
  rw [getStakeAddr_getNextStakeInfoKey]

/-- What a receive that goes through has done. -/
theorem receive_cases {request : Request} (h : receive env db send request = .ok (db', calls)) :
    (request.isStake = true ∧ (∀ c ∈ calls, c.amount = 0) ∧ ∃ key new, StakeEffect env send db db' key new) ∨
      request.isStake = false ∧ ∃ key old amount data, CancelEffect env send db db' key old amount ∧
        calls = [⟨send.accountAddress, amount, data⟩] := by
  cases request with
  | stake beneficiary =>
    obtain ⟨rfl, rfl⟩ := Prod.mk.inj (ok.inj h)
    exact .inl ⟨rfl, fun c hc => (by cases hc), _, _, stakeEffect_found send.accountAddress beneficiary noDelegateAddress
      false noBid rfl ⟨rfl, rfl, rfl, rfl⟩ rfl⟩
  | delegateStake stakeAddress beneficiary bid stakeHeight =>
    obtain ⟨rfl, rfl⟩ := Prod.mk.inj (ok.inj h)
    exact .inl ⟨rfl, fun c hc => (by rw [mem_singleton.1 hc]), _, _, stakeEffect_found stakeAddress beneficiary
      send.accountAddress true bid rfl ⟨rfl, rfl, rfl, rfl⟩ rfl⟩
  | stakeForQuota beneficiary =>
    obtain ⟨rfl, rfl⟩ := Prod.mk.inj (ok.inj h)
    exact .inl ⟨rfl, fun c hc => (by cases hc), stakeEffect_stakeV3 env db send beneficiary none⟩
  | stakeForQuotaWithCallback beneficiary stakeHeight =>
    obtain ⟨rfl, rfl⟩ := Prod.mk.inj (ok.inj h)
    refine .inl ⟨rfl, fun c hc => ?_, stakeEffect_stakeV3 env db send beneficiary (some stakeHeight)⟩
    rw [mem_singleton.1 hc]
  | cancelStake beneficiary amount =>
    obtain ⟨db₁, hcancel, h⟩ := bind_ok h
    obtain ⟨rfl, rfl⟩ := Prod.mk.inj (ok.inj h)
    obtain ⟨key, old, heffect, -⟩ := cancelPart_ok send (fun _ left => unpackStakeInfo_left left) rfl hcancel
    exact .inr ⟨rfl, key, old, amount, _, heffect, rfl⟩
  | cancelDelegateStake stakeAddress beneficiary amount bid =>
    obtain ⟨db₁, hcancel, h⟩ := bind_ok h
    obtain ⟨rfl, rfl⟩ := Prod.mk.inj (ok.inj h)
    obtain ⟨key, old, heffect, -⟩ := cancelPart_ok send
      (fun _ left hd _ hbid hid => unpackStakeInfo_left left hd rfl hbid hid) rfl hcancel
    exact .inr ⟨rfl, key, old, amount, _, heffect, rfl⟩
  | cancelQuotaStaking id | cancelQuotaStakingWithCallback id =>
    obtain ⟨key, old, heffect, ⟨data, hcalls⟩, -⟩ := cancelStakeV3_ok h
    exact .inr ⟨rfl, key, old, _, data, heffect, hcalls⟩

end GoVite.Quota

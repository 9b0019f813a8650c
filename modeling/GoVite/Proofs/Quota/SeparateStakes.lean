import GoVite.Proofs.Quota.StakeLedger

/-! Stakes of the old kind and stakes with an id. A record with an id has the fields of one that is not delegated, so a
stake of the old kind may go into it; where that does not happen the two kinds do not meet. -/

namespace GoVite.Quota
open KeyStore Consensus ExceptRules List Store Except QuotaWorld Governance

variable {env : VmEnvironment} {send : SendBlock} {db db' : QuotaDb} {calls : List CallBlock} {k k' : StakeInfoKey}
  {record record' : StakeRecord} {beneficiary delegateAddr : Address} {isDelegated : Bool} {bid : UInt8}

/-- The record has the fields a look-up asks for. -/
def Asked (beneficiary : Address) (isDelegated : Bool) (delegateAddr : Address) (bid : UInt8) (record : StakeRecord) : Prop :=
  (unpackStakeInfo record).beneficiary = beneficiary ∧ (unpackStakeInfo record).isDelegated = isDelegated ∧
    (unpackStakeInfo record).delegateAddress = delegateAddr ∧ (unpackStakeInfo record).bid = bid

theorem Asked.sameStake (h : Asked beneficiary isDelegated delegateAddr bid record)
    (h' : Asked beneficiary isDelegated delegateAddr bid record') : SameStake record record' :=
  ⟨h.1.trans h'.1.symm, h.2.1.trans h'.2.1.symm, h.2.2.1.trans h'.2.2.1.symm, h.2.2.2.trans h'.2.2.2.symm⟩

theorem SameStake.symm (h : SameStake record record') : SameStake record' record :=
  ⟨h.1.symm, h.2.1.symm, h.2.2.1.symm, h.2.2.2.symm⟩

theorem SameStake.trans {last : StakeRecord} (h : SameStake record record') (h' : SameStake record' last) :
    SameStake record last :=
  ⟨h.1.trans h'.1, h.2.1.trans h'.2.1, h.2.2.1.trans h'.2.2.1, h.2.2.2.trans h'.2.2.2⟩

/-- Stakes of the old kind have no id. -/
def OfOldKind (record : StakeRecord) : Prop := (unpackStakeInfo record).id = none

/-! Looking a record up -/

variable {stakeAddr : Address} {index : ℕ}

/-- The look-up finds the record with the least key. -/
theorem getStakeInfo_eq (hget : db.stakeInfos.get? k = some record)
    (haddr : getStakeAddrFromStakeInfoKey k = stakeAddr) (hasked : Asked beneficiary isDelegated delegateAddr bid record)
    (hfirst : ∀ k' record', db.stakeInfos.get? k' = some record' → getStakeAddrFromStakeInfoKey k' = stakeAddr →
      Asked beneficiary isDelegated delegateAddr bid record' → k ≤ k') :
    db.getStakeInfo stakeAddr beneficiary isDelegated delegateAddr bid index = (k, some (unpackStakeInfo record)) := by
  have hfind : ((db.stakeInfosOf stakeAddr).find? fun e =>
      (unpackStakeInfo e.2).beneficiary = beneficiary && (unpackStakeInfo e.2).isDelegated = isDelegated &&
        (unpackStakeInfo e.2).delegateAddress = delegateAddr && (unpackStakeInfo e.2).bid = bid) = some (k, record) := by
    rw [← head?_filter, QuotaDb.stakeInfosOf, filter_filter]
    refine head?_filter_eq (get?_eq_some_iff.1 hget) ?_ ?_
    · obtain ⟨hb, hd, ha, hbid⟩ := hasked
      simp [hb, hd, ha, hbid, haddr]
    · rintro ⟨k', record'⟩ hmem hp
      simp only [Bool.and_eq_true, decide_eq_true_eq] at hp
      obtain ⟨⟨⟨⟨hb, hd⟩, ha⟩, hbid⟩, haddr'⟩ := hp
      exact hfirst k' record' (get?_eq_some_iff.2 hmem) haddr' ⟨hb, hd, ha, hbid⟩
  unfold QuotaDb.getStakeInfo
  rw [hfind]

theorem getStakeInfo_none_asked
    (h : (db.getStakeInfo stakeAddr beneficiary isDelegated delegateAddr bid index).2 = none)
    (hget : db.stakeInfos.get? k = some record) (haddr : getStakeAddrFromStakeInfoKey k = stakeAddr) :
    ¬ Asked beneficiary isDelegated delegateAddr bid record := by
  rintro ⟨hb, hd, ha, hbid⟩
  unfold QuotaDb.getStakeInfo at h
  split at h
  · cases h
  · rename_i hnone
    have hmem : (k, record) ∈ db.stakeInfosOf stakeAddr :=
      mem_filter.2 ⟨get?_eq_some_iff.1 hget, decide_eq_true haddr⟩
    have hother := find?_eq_none.1 hnone (k, record) hmem
    simp [hb, hd, ha, hbid] at hother

/-! What a receive does to the two kinds -/

/-- What a receive that goes through has done: a record of the old kind is set or removed, or a first one of its fields
is added; or a stake with an id is added or removed. -/
inductive KindEffect (env : VmEnvironment) (send : SendBlock) (db db' : QuotaDb) : Request → Prop
  | refill {request : Request} {key : StakeInfoKey} {old new : StakeRecord} (get : db.stakeInfos.get? key = some old)
      (same : SameStake old new) (oldKind : OfOldKind old) (newKind : OfOldKind new)
      (min : stakeAmountMin ≤ (unpackStakeInfo new).amount) (infos : db'.stakeInfos = db.stakeInfos.set key new)
      (ids : db'.ids = db.ids)
      (stake : request.isStake = true → owner key new = send.accountAddress ∧
        (unpackStakeInfo new).amount = (unpackStakeInfo old).amount + send.amount)
      (lock : if (unpackStakeInfo new).isDelegated then
          (unpackStakeInfo old).expirationHeight ≤ (unpackStakeInfo new).expirationHeight
        else (unpackStakeInfo new).expirationHeight = (unpackStakeInfo old).expirationHeight ∨
          (unpackStakeInfo new).expirationHeight = env.snapshotHeight + env.stakeHeight) :
      KindEffect env send db db' request
  | remove {request : Request} {key : StakeInfoKey} {old : StakeRecord} (get : db.stakeInfos.get? key = some old)
      (oldKind : OfOldKind old) (infos : db'.stakeInfos = db.stakeInfos.erase key) (ids : db'.ids = db.ids)
      (cancels : request.isStake = false) : KindEffect env send db db' request
  | add {request : Request} {stakeAddr : Address} {new : StakeRecord} (newKind : OfOldKind new)
      (first : ∀ k record, db.stakeInfos.get? k = some record → getStakeAddrFromStakeInfoKey k = stakeAddr →
        ¬ SameStake record new)
      (min : stakeAmountMin ≤ (unpackStakeInfo new).amount)
      (infos : db'.stakeInfos = db.stakeInfos.set (getStakeInfoKey stakeAddr env.height) new) (ids : db'.ids = db.ids)
      (stake : owner (getStakeInfoKey stakeAddr env.height) new = send.accountAddress ∧
        (unpackStakeInfo new).amount = send.amount)
      (lock : (unpackStakeInfo new).isDelegated = false →
        (unpackStakeInfo new).expirationHeight = env.snapshotHeight + env.stakeHeight) :
      KindEffect env send db db' request
  | addId {request : Request} {expirationHeight : ℕ} {beneficiary : Address}
      (infos : db'.stakeInfos = db.stakeInfos.set (getStakeInfoKey send.accountAddress env.height)
        (.stakeInfoV2 send.amount expirationHeight beneficiary send.hash))
      (ids : db'.ids = db.ids.set send.hash (getStakeInfoKey send.accountAddress env.height)) :
      KindEffect env send db db' request
  | removeId {request : Request} {id : Hash} {key : StakeInfoKey}
      (cancels : request = .cancelQuotaStaking id ∨ request = .cancelQuotaStakingWithCallback id)
      (get : db.ids.get? id = some key) (infos : db'.stakeInfos = db.stakeInfos.erase key)
      (ids : db'.ids = db.ids.erase id) : KindEffect env send db db' request

/-- The two kinds are apart: an id stands for a record with that id, a staker has one record of the old kind with the same
fields, and its key is less than those of the records with an id that have its fields. -/
structure Apart (w : QuotaWorld) : Prop where
  ledger : LedgerInv w
  behind : ∀ id k, w.db.ids.get? id = some k →
    ∃ amount expirationHeight b, w.db.stakeInfos.get? k = some (.stakeInfoV2 amount expirationHeight b id)
  listed : ∀ k amount expirationHeight b id,
    w.db.stakeInfos.get? k = some (.stakeInfoV2 amount expirationHeight b id) → w.db.ids.get? id = some k
  unique : ∀ k k' record record', w.db.stakeInfos.get? k = some record → w.db.stakeInfos.get? k' = some record' →
    OfOldKind record → OfOldKind record' → getStakeAddrFromStakeInfoKey k = getStakeAddrFromStakeInfoKey k' →
    SameStake record record' → k = k'
  before : ∀ k k' record record', w.db.stakeInfos.get? k = some record → w.db.stakeInfos.get? k' = some record' →
    OfOldKind record → ¬ OfOldKind record' → getStakeAddrFromStakeInfoKey k = getStakeAddrFromStakeInfoKey k' →
    SameStake record record' → k ≤ k'
  min : ∀ k record, w.db.stakeInfos.get? k = some record → OfOldKind record → stakeAmountMin ≤ (unpackStakeInfo record).amount

/-- If the staker has a record with an id and the fields asked for, it has one of the old kind too. -/
def HasOldKind (db : QuotaDb) (stakeAddr beneficiary : Address) (isDelegated : Bool) (delegateAddr : Address)
    (bid : UInt8) : Prop :=
  ∀ k record, db.stakeInfos.get? k = some record → getStakeAddrFromStakeInfoKey k = stakeAddr →
    Asked beneficiary isDelegated delegateAddr bid record → ¬ OfOldKind record →
    ∃ k' record', db.stakeInfos.get? k' = some record' ∧ getStakeAddrFromStakeInfoKey k' = stakeAddr ∧
      Asked beneficiary isDelegated delegateAddr bid record' ∧ OfOldKind record'

/-- A stake of the old kind meets no record with an id. -/
def KeepsApart (w : QuotaWorld) (r : Receive) : Prop :=
  ∀ beneficiary, r.request = .stake beneficiary →
    HasOldKind w.db r.send.accountAddress beneficiary false noDelegateAddress noBid

theorem hasOldKind_delegated (db : QuotaDb) (stakeAddr beneficiary delegateAddr : Address) (bid : UInt8) :
    HasOldKind db stakeAddr beneficiary true delegateAddr bid := by
  intro k record _ _ hasked hid
  cases record with
  | stakeInfo => exact absurd rfl hid
  | stakeInfoV2 => exact absurd hasked.2.1 (by simp [unpackStakeInfo])

variable {w : QuotaWorld}

theorem Apart.found (index : ℕ) (h : Apart w)
    (hold : HasOldKind w.db stakeAddr beneficiary isDelegated delegateAddr bid)
    (hget : w.db.stakeInfos.get? k = some record) (haddr : getStakeAddrFromStakeInfoKey k = stakeAddr)
    (hasked : Asked beneficiary isDelegated delegateAddr bid record) :
    ∃ k₀ record₀, w.db.stakeInfos.get? k₀ = some record₀ ∧ getStakeAddrFromStakeInfoKey k₀ = stakeAddr ∧
      Asked beneficiary isDelegated delegateAddr bid record₀ ∧ OfOldKind record₀ ∧
      w.db.getStakeInfo stakeAddr beneficiary isDelegated delegateAddr bid index = (k₀, some (unpackStakeInfo record₀)) := by
  obtain ⟨k₀, record₀, hget₀, haddr₀, hasked₀, hkind₀⟩ : ∃ k' record', w.db.stakeInfos.get? k' = some record' ∧
      getStakeAddrFromStakeInfoKey k' = stakeAddr ∧ Asked beneficiary isDelegated delegateAddr bid record' ∧
      OfOldKind record' := by
    by_cases hkind : OfOldKind record
    · exact ⟨k, record, hget, haddr, hasked, hkind⟩
    · exact hold k record hget haddr hasked hkind
  refine ⟨k₀, record₀, hget₀, haddr₀, hasked₀, hkind₀, getStakeInfo_eq hget₀ haddr₀ hasked₀ ?_⟩
  intro k' record' hget' haddr' hasked'
  by_cases hkind' : OfOldKind record'
  · exact (h.unique k₀ k' record₀ record' hget₀ hget' hkind₀ hkind' (haddr₀.trans haddr'.symm)
      (hasked₀.sameStake hasked')).le
  · exact h.before k₀ k' record₀ record' hget₀ hget' hkind₀ hkind' (haddr₀.trans haddr'.symm) (hasked₀.sameStake hasked')

variable {request : Request} {new : StakeRecord} {amount expirationHeight : ℕ}

/-- A stake by fields refills the record found, or adds one. -/
theorem Apart.stakeByFields (h : Apart w) (hheight : w.height < env.height)
    (hold : HasOldKind w.db stakeAddr beneficiary isDelegated delegateAddr bid)
    (howner : (if isDelegated then delegateAddr else stakeAddr) = send.accountAddress)
    (hmin : stakeAmountMin ≤ send.amount) {found : StakeInfoKey × Option StakeInfo}
    (hfound : w.db.getStakeInfo stakeAddr beneficiary isDelegated delegateAddr bid env.height = found)
    (hlock : if isDelegated then (found.2.map (·.expirationHeight)).getD 0 ≤ expirationHeight
      else expirationHeight = env.snapshotHeight + env.stakeHeight)
    (hinfos : db'.stakeInfos = w.db.stakeInfos.set found.1 (.stakeInfo ((found.2.map (·.amount)).getD 0 + send.amount)
      expirationHeight beneficiary isDelegated delegateAddr bid))
    (hids : db'.ids = w.db.ids) : KindEffect env send w.db db' request := by
  have howns : ∀ {key amount}, getStakeAddrFromStakeInfoKey key = stakeAddr →
      owner key (.stakeInfo amount expirationHeight beneficiary isDelegated delegateAddr bid) = send.accountAddress := by
    rintro key amount rfl
    exact howner
  have hle : stakeAmountMin ≤ (found.2.map (·.amount)).getD 0 + send.amount := by omega
  obtain ⟨key, none | info⟩ := found
  · have hnone : (w.db.getStakeInfo stakeAddr beneficiary isDelegated delegateAddr bid env.height).2 = none := by
      rw [hfound]
    have hkey := getStakeInfo_none hnone
    rw [hfound, h.ledger.nextKey_eq hheight] at hkey
    obtain rfl : key = _ := hkey
    refine .add ?_ ?_ ?_ hinfos hids ⟨howns rfl, Nat.zero_add _⟩ fun hd => ?_
    · rfl
    · exact fun k record hget haddr => getStakeInfo_none_asked hnone hget haddr
    · exact hle
    obtain rfl : isDelegated = false := hd
    exact hlock
  · obtain ⟨record, hget, hrecord, haddr, hasked⟩ := getStakeInfo_some (congrArg Prod.snd hfound)
    rw [← hrecord] at hasked
    obtain ⟨k₀, record₀, hget₀, haddr₀, hasked₀, hkind₀, heq⟩ := h.found env.height hold hget haddr hasked
    obtain ⟨rfl, hinfo⟩ := Prod.mk.inj (heq.symm.trans hfound)
    obtain rfl := Option.some.inj hinfo
    refine .refill hget₀ ?_ hkind₀ ?_ ?_ hinfos hids (fun _ => ⟨howns haddr₀, rfl⟩) ?_
    · exact hasked₀
    · rfl
    · exact hle
    cases isDelegated with
    | true => exact hlock
    | false => exact .inr hlock

/-- A cancel by fields takes from a record of the old kind. -/
theorem kindEffect_cancel {key : StakeInfoKey} {old : StakeRecord} (h : CancelEffect env send db db' key old amount)
    (hid : OfOldKind old) (hids : db'.ids = db.ids) (hcancel : request.isStake = false)
    (hleft : (unpackStakeInfo old).amount - amount = 0 ∨ stakeAmountMin ≤ (unpackStakeInfo old).amount - amount) :
    KindEffect env send db db' request := by
  rcases h.stakeInfos with ⟨-, hinfos⟩ | ⟨new, hnew, hne, hinfos⟩
  · exact .remove h.get hid hinfos hids hcancel
  · refine .refill h.get ⟨by rw [hnew], by rw [hnew], by rw [hnew], by rw [hnew]⟩ hid ?_ ?_ hinfos hids (fun hstake => ?_) ?_
    · rw [OfOldKind, hnew]
      exact hid
    · have hle := h.le
      rw [hnew]
      exact hleft.resolve_left (by omega)
    · rw [hcancel] at hstake
      cases hstake
    · rw [hnew]
      split_ifs
      · exact le_rfl
      · exact .inl rfl

variable {id : Hash}

theorem kindEffect_cancelStakeV3 {callback : Bool}
    (hrequest : request = .cancelQuotaStaking id ∨ request = .cancelQuotaStakingWithCallback id)
    (h : cancelStakeV3 env db send id callback = .ok (db', calls)) : KindEffect env send db db' request := by
  obtain ⟨key, old, -, -, hkey, hinfos, hids⟩ := cancelStakeV3_ok h
  exact .removeId hrequest hkey hinfos hids

theorem Apart.kindEffect_stakeV3 (h : Apart w) (hheight : w.height < env.height) (beneficiary : Address)
    (callbackHeight : Option ℕ) (request : Request) :
    KindEffect env send w.db (stakeV3 env w.db send beneficiary callbackHeight).1 request := by
  have hkey := h.ledger.nextKey_eq hheight send.accountAddress
  have hinfos : (stakeV3 env w.db send beneficiary callbackHeight).1.stakeInfos =
      w.db.stakeInfos.set (getStakeInfoKey send.accountAddress env.height) (.stakeInfoV2 send.amount
        (getStakeExpirationHeight env (callbackHeight.getD env.stakeHeight)) beneficiary send.hash) := by
    rw [← hkey]
    rfl
  refine .addId hinfos ?_
  rw [← hkey]
  rfl

variable {r : Receive}

/-- What a receive that keeps the kinds apart has done to them. -/
theorem Apart.kindEffect (h : Apart w) (ha : w.Allows r) (hkeeps : KeepsApart w r)
    (hreceive : receive r.env w.db r.send r.request = .ok (db', calls)) : KindEffect r.env r.send w.db db' r.request := by
  obtain ⟨hheight, hsend⟩ := ha
  generalize hrequest : r.request = request at hreceive hsend
  cases request with
  | stake beneficiary =>
    obtain ⟨rfl, -⟩ := Prod.mk.inj (ok.inj hreceive)
    refine h.stakeByFields hheight (hkeeps beneficiary hrequest) rfl ?_ rfl rfl rfl rfl
    simp only [doSend, Bool.and_eq_true, decide_eq_true_eq] at hsend
    omega
  | delegateStake stakeAddress beneficiary bid stakeHeight =>
    obtain ⟨rfl, -⟩ := Prod.mk.inj (ok.inj hreceive)
    refine h.stakeByFields hheight (hasOldKind_delegated w.db stakeAddress beneficiary r.send.accountAddress bid) rfl ?_ rfl
      (le_max_left _ _) rfl rfl
    simp only [doSend, Bool.and_eq_true, decide_eq_true_eq] at hsend
    omega
  | stakeForQuota beneficiary =>
    obtain ⟨rfl, -⟩ := Prod.mk.inj (ok.inj hreceive)
    exact h.kindEffect_stakeV3 hheight beneficiary none _
  | stakeForQuotaWithCallback beneficiary stakeHeight =>
    obtain ⟨rfl, -⟩ := Prod.mk.inj (ok.inj hreceive)
    exact h.kindEffect_stakeV3 hheight beneficiary (some stakeHeight) _
  | cancelStake beneficiary amount =>
    obtain ⟨db₁, hcancel, hreceive⟩ := bind_ok hreceive
    obtain ⟨rfl, -⟩ := Prod.mk.inj (ok.inj hreceive)
    obtain ⟨key, old, heffect, hid, hids, hleft⟩ := cancelPart_ok r.send (fun _ left => unpackStakeInfo_left left) rfl
      hcancel
    exact kindEffect_cancel heffect hid hids rfl hleft
  | cancelDelegateStake stakeAddress beneficiary amount bid =>
    obtain ⟨db₁, hcancel, hreceive⟩ := bind_ok hreceive
    obtain ⟨rfl, -⟩ := Prod.mk.inj (ok.inj hreceive)
    obtain ⟨key, old, heffect, hid, hids, hleft⟩ := cancelPart_ok r.send
      (fun _ left hd _ hbid hid => unpackStakeInfo_left left hd rfl hbid hid) rfl hcancel
    exact kindEffect_cancel heffect hid hids rfl hleft
  | cancelQuotaStaking id =>
    exact kindEffect_cancelStakeV3 (.inl rfl) hreceive
  | cancelQuotaStakingWithCallback id =>
    exact kindEffect_cancelStakeV3 (.inr rfl) hreceive

/-! Runs -/

theorem Apart.ne_fresh (h : Apart w) (hheight : w.height < env.height) {addr : Address}
    (hget : w.db.stakeInfos.get? k = some record) : k ≠ getStakeInfoKey addr env.height := by
  rintro rfl
  rw [h.ledger.get?_next hheight] at hget
  cases hget

variable {key : StakeInfoKey} {s : Store StakeInfoKey StakeRecord} (h : Apart w)

/-- Every record has taken the place of one of its kind with its fields. -/
def ComesFrom (db db' : QuotaDb) : Prop :=
  ∀ k record, db'.stakeInfos.get? k = some record →
    ∃ before, db.stakeInfos.get? k = some before ∧ SameStake before record ∧ (OfOldKind before ↔ OfOldKind record)

theorem comesFrom_erase (hinfos : db'.stakeInfos = db.stakeInfos.erase key) : ComesFrom db db' := by
  intro k record hget
  rw [hinfos] at hget
  exact ⟨record, (get?_erase_cases hget).2, ⟨rfl, rfl, rfl, rfl⟩, Iff.rfl⟩

variable {old : StakeRecord}

/-- A record with an id is not where one of the old kind is. -/
theorem ne_of_kinds {b : Address} (hget : db.stakeInfos.get? k = some (.stakeInfoV2 amount expirationHeight b id))
    (hkey : db.stakeInfos.get? key = some old) (hkind : OfOldKind old) : k ≠ key := by
  rintro rfl
  rw [hget] at hkey
  obtain rfl := Option.some.inj hkey
  cases hkind

/-- A record of the old kind that is set leaves those with an id. -/
theorem get?_of_kinds {b : Address} (hkind : OfOldKind new) (hinfos : db'.stakeInfos = db.stakeInfos.set key new)
    (hget : db'.stakeInfos.get? k = some (.stakeInfoV2 amount expirationHeight b id)) :
    db.stakeInfos.get? k = some (.stakeInfoV2 amount expirationHeight b id) := by
  rw [hinfos] at hget
  rcases get?_set_cases hget with ⟨-, rfl⟩ | ⟨-, hget⟩
  · cases hkind
  · exact hget

variable {received paid : ℕ}

section
variable (hledger : LedgerInv ⟨db', env.height, received, paid⟩)
include h hledger

/-- The ids and the records with an id match. -/
structure ListsIds (db : QuotaDb) : Prop where
  behind : ∀ id k, db.ids.get? id = some k → ∃ a e b, db.stakeInfos.get? k = some (.stakeInfoV2 a e b id)
  listed : ∀ k a e b id, db.stakeInfos.get? k = some (.stakeInfoV2 a e b id) → db.ids.get? id = some k

omit hledger in
theorem Apart.listsIds (hkept : ∀ {k a e b id}, db'.stakeInfos.get? k = some (.stakeInfoV2 a e b id) ↔
    w.db.stakeInfos.get? k = some (.stakeInfoV2 a e b id)) (ids : db'.ids = w.db.ids) : ListsIds db' where
  behind id k hk := by
    rw [ids] at hk
    obtain ⟨a, e, b, hbehind⟩ := h.behind id k hk
    exact ⟨a, e, b, hkept.2 hbehind⟩
  listed k a e b id hget := by
    rw [ids]
    exact h.listed k a e b id (hkept.1 hget)

theorem Apart.of_comesFrom (hfrom : ComesFrom w.db db') (hids : ListsIds db')
    (min : ∀ k record, db'.stakeInfos.get? k = some record → OfOldKind record →
      stakeAmountMin ≤ (unpackStakeInfo record).amount) : Apart ⟨db', env.height, received, paid⟩ where
  ledger := hledger
  behind := hids.behind
  listed := hids.listed
  unique k k' record record' hget hget' hkind hkind' haddr hsame := by
    obtain ⟨b, hb, hbsame, hbkind⟩ := hfrom k record hget
    obtain ⟨b', hb', hbsame', hbkind'⟩ := hfrom k' record' hget'
    exact h.unique k k' b b' hb hb' (hbkind.2 hkind) (hbkind'.2 hkind') haddr ((hbsame.trans hsame).trans hbsame'.symm)
  before k k' record record' hget hget' hkind hkind' haddr hsame := by
    obtain ⟨b, hb, hbsame, hbkind⟩ := hfrom k record hget
    obtain ⟨b', hb', hbsame', hbkind'⟩ := hfrom k' record' hget'
    exact h.before k k' b b' hb hb' (hbkind.2 hkind) (mt hbkind'.1 hkind') haddr
      ((hbsame.trans hsame).trans hbsame'.symm)
  min := min

/-- A record under the key of the block joins the others. -/
theorem Apart.join (hheight : w.height < env.height)
    (infos : db'.stakeInfos = w.db.stakeInfos.set (getStakeInfoKey stakeAddr env.height) new)
    (first : OfOldKind new → ∀ k record, w.db.stakeInfos.get? k = some record →
      getStakeAddrFromStakeInfoKey k = stakeAddr → ¬ SameStake record new)
    (min : OfOldKind new → stakeAmountMin ≤ (unpackStakeInfo new).amount) (hids : ListsIds db') :
    Apart ⟨db', env.height, received, paid⟩ := by
  refine ⟨hledger, hids.behind, hids.listed, ?_, ?_, fun k record hget hkind => ?_⟩
  · intro k k' record record' hget hget' hkind hkind' haddr hsame
    rw [infos] at hget hget'
    rcases get?_set_cases hget with ⟨rfl, rfl⟩ | ⟨-, hold⟩ <;>
      rcases get?_set_cases hget' with ⟨rfl, rfl⟩ | ⟨-, hold'⟩
    · rfl
    · exact absurd hsame.symm (first hkind k' record' hold' haddr.symm)
    · exact absurd hsame (first hkind' k record hold haddr)
    · exact h.unique k k' record record' hold hold' hkind hkind' haddr hsame
  · intro k k' record record' hget hget' hkind hkind' haddr hsame
    rw [infos] at hget hget'
    rcases get?_set_cases hget with ⟨rfl, rfl⟩ | ⟨-, hold⟩ <;>
      rcases get?_set_cases hget' with ⟨rfl, rfl⟩ | ⟨-, hold'⟩
    · exact le_rfl
    · exact absurd hsame.symm (first hkind k' record' hold' haddr.symm)
    · exact (Prod.Lex.lt_iff.2 (.inr ⟨haddr, (h.ledger.index_le k record hold).trans_lt hheight⟩)).le
    · exact h.before k k' record record' hold hold' hkind hkind' haddr hsame
  · rw [infos] at hget
    rcases get?_set_cases hget with ⟨-, rfl⟩ | ⟨-, hget⟩
    · exact min hkind
    · exact h.min k record hget hkind

theorem Apart.addId (hheight : w.height < env.height) (hhash : w.db.ids.get? send.hash = none)
    (infos : db'.stakeInfos = w.db.stakeInfos.set (getStakeInfoKey send.accountAddress env.height)
      (.stakeInfoV2 send.amount expirationHeight beneficiary send.hash))
    (ids : db'.ids = w.db.ids.set send.hash (getStakeInfoKey send.accountAddress env.height)) :
    Apart ⟨db', env.height, received, paid⟩ := by
  refine h.join hledger hheight infos (fun hkind => by cases hkind) (fun hkind => by cases hkind)
    ⟨fun id k hk => ?_, fun k a e b id hget => ?_⟩
  · rw [ids] at hk
    by_cases hid : id = send.hash
    · subst hid
      rw [get?_set_self] at hk
      obtain rfl := Option.some.inj hk
      exact ⟨send.amount, expirationHeight, beneficiary, by rw [infos, get?_set_self]⟩
    · rw [get?_set_ne _ _ hid] at hk
      obtain ⟨a, e, b, hbehind⟩ := h.behind id k hk
      refine ⟨a, e, b, ?_⟩
      rw [infos, get?_set_ne _ _ (h.ne_fresh hheight hbehind)]
      exact hbehind
  · rw [infos] at hget
    rw [ids]
    rcases get?_set_cases hget with ⟨rfl, hrecord⟩ | ⟨-, hget⟩
    · cases hrecord
      rw [get?_set_self]
    · have hlisted := h.listed k a e b id hget
      rw [get?_set_ne]
      · exact hlisted
      · rintro rfl
        rw [hhash] at hlisted
        cases hlisted

theorem Apart.removeId (get : w.db.ids.get? id = some key)
    (infos : db'.stakeInfos = w.db.stakeInfos.erase key) (ids : db'.ids = w.db.ids.erase id) :
    Apart ⟨db', env.height, received, paid⟩ := by
  obtain ⟨a, e, b, hgone⟩ := h.behind id key get
  refine h.of_comesFrom hledger (comesFrom_erase infos)
    ⟨fun id' k hk => ?_, fun k a' e' b' id' hget => ?_⟩ fun k record hget => ?_
  · rw [ids] at hk
    have hne : id' ≠ id := by
      rintro rfl
      rw [get?_erase_self] at hk
      cases hk
    rw [get?_erase_ne _ hne] at hk
    obtain ⟨a', e', b', hbehind⟩ := h.behind id' k hk
    refine ⟨a', e', b', ?_⟩
    rw [infos, get?_erase_ne]
    · exact hbehind
    · rintro rfl
      rw [hbehind] at hgone
      cases hgone
      exact hne rfl
  · rw [infos] at hget
    obtain ⟨hk, hget⟩ := get?_erase_cases hget
    have hlisted := h.listed k a' e' b' id' hget
    rw [ids, get?_erase_ne]
    · exact hlisted
    · rintro rfl
      rw [get] at hlisted
      exact hk (Option.some.inj hlisted).symm
  · rw [infos] at hget
    exact h.min k record (get?_erase_cases hget).2

theorem Apart.of_effect (hheight : w.height < env.height)
    (hhash : w.db.ids.get? send.hash = none) (heffect : KindEffect env send w.db db' request) :
    Apart ⟨db', env.height, received, paid⟩ := by
  cases heffect with
  | refill get same oldKind newKind min infos ids =>
    have hfrom : ComesFrom w.db db' := by
      intro k record hget
      rw [infos] at hget
      rcases get?_set_cases hget with ⟨rfl, rfl⟩ | ⟨-, hget⟩
      · exact ⟨_, get, same, iff_of_true oldKind newKind⟩
      · exact ⟨record, hget, ⟨rfl, rfl, rfl, rfl⟩, Iff.rfl⟩
    refine h.of_comesFrom hledger hfrom (h.listsIds ⟨fun hget => ?_, fun hget => ?_⟩ ids) fun k record hget hkind => ?_
    · exact get?_of_kinds newKind infos hget
    · rw [infos, get?_set_ne _ _ (ne_of_kinds hget get oldKind)]
      exact hget
    · rw [infos] at hget
      rcases get?_set_cases hget with ⟨-, rfl⟩ | ⟨-, hget⟩
      · exact min
      · exact h.min k record hget hkind
  | remove get oldKind infos ids =>
    refine h.of_comesFrom hledger (comesFrom_erase infos) (h.listsIds ⟨fun hget => ?_, fun hget => ?_⟩ ids)
      fun k record hget => ?_
    · rw [infos] at hget
      exact (get?_erase_cases hget).2
    · rw [infos, get?_erase_ne _ (ne_of_kinds hget get oldKind)]
      exact hget
    · rw [infos] at hget
      exact h.min k record (get?_erase_cases hget).2
  | add newKind first min infos ids =>
    refine h.join hledger hheight infos (fun _ => first) (fun _ => min)
      (h.listsIds ⟨fun hget => get?_of_kinds newKind infos hget, fun hget => ?_⟩ ids)
    rw [infos, get?_set_ne _ _ (h.ne_fresh hheight hget)]
    exact hget
  | addId infos ids => exact h.addId hledger hheight hhash infos ids
  | removeId cancels get infos ids => exact h.removeId hledger get infos ids

omit hledger in
/-- The step of a run that keeps the kinds apart. The hash of a send is not one that came before. -/
theorem Apart.step (ha : w.Allows r) (hhash : w.db.ids.get? r.send.hash = none)
    (hkeeps : KeepsApart w r) : Apart (w.step r) := by
  have hledger := h.ledger.step ha
  unfold QuotaWorld.step at hledger ⊢
  cases hreceive : receive r.env w.db r.send r.request with
  | error e =>
    rw [hreceive] at hledger
    exact ⟨hledger, h.behind, h.listed, h.unique, h.before, h.min⟩
  | ok receipt =>
    rw [hreceive] at hledger
    exact h.of_effect hledger ha.1 hhash (h.kindEffect ha hkeeps hreceive)

end

inductive ApartRun : QuotaWorld → Prop
  | new : ApartRun .new
  | step {w : QuotaWorld} {r : Receive} (hw : ApartRun w) (ha : w.Allows r) (hhash : w.db.ids.get? r.send.hash = none)
      (hkeeps : KeepsApart w r) : ApartRun (w.step r)

theorem ApartRun.apart (h : ApartRun w) : Apart w := by
  induction h with
  | new =>
    exact ⟨ledgerInv_reachable .new, fun id k hk => (by cases hk), fun k _ _ _ _ hk => (by cases hk),
      fun k k' r r' hk => (by cases hk), fun k k' r r' hk => (by cases hk), fun k r hk => (by cases hk)⟩
  | step _ ha hhash hkeeps ih => exact ih.step ha hhash hkeeps

/-! The record behind an id, and the cancel of a stake of the old kind -/

def recordBehind (db : QuotaDb) (id : Hash) : Option StakeRecord := (db.ids.get? id).bind db.stakeInfos.get?

theorem Apart.recordBehind_effect (h : Apart w) (hheight : w.height < env.height)
    (hhash : w.db.ids.get? send.hash = none) (heffect : KindEffect env send w.db db' request)
    (hbehind : recordBehind w.db id = some record)
    (hother : request ≠ .cancelQuotaStaking id ∧ request ≠ .cancelQuotaStakingWithCallback id) :
    recordBehind db' id = some record := by
  obtain ⟨k, hk, hget⟩ := Option.bind_eq_some_iff.1 hbehind
  obtain ⟨a, e, b, hv2⟩ := h.behind id k hk
  rw [hv2] at hget
  obtain rfl := Option.some.inj hget
  refine Option.bind_eq_some_iff.2 ⟨k, ?_⟩
  cases heffect with
  | refill get same oldKind newKind min infos ids =>
    rw [ids, infos, get?_set_ne _ _ (ne_of_kinds hv2 get oldKind)]
    exact ⟨hk, hv2⟩
  | remove get oldKind infos ids =>
    rw [ids, infos, get?_erase_ne _ (ne_of_kinds hv2 get oldKind)]
    exact ⟨hk, hv2⟩
  | add newKind first min infos ids =>
    rw [ids, infos, get?_set_ne _ _ (h.ne_fresh hheight hv2)]
    exact ⟨hk, hv2⟩
  | addId infos ids =>
    rw [ids, infos, get?_set_ne, get?_set_ne _ _ (h.ne_fresh hheight hv2)]
    · exact ⟨hk, hv2⟩
    · rintro rfl
      rw [hhash] at hk
      cases hk
  | @removeId id' key cancels get infos ids =>
    have hne : id ≠ id' := by
      rintro rfl
      rcases cancels with hc | hc
      · exact hother.1 hc
      · exact hother.2 hc
    obtain ⟨a', e', b', hgone⟩ := h.behind id' key get
    rw [ids, infos, get?_erase_ne _ hne, get?_erase_ne]
    · exact ⟨hk, hv2⟩
    · rintro rfl
      rw [hv2] at hgone
      cases hgone
      exact hne rfl

/-- What a record holds is part of the sum of its beneficiary. -/
theorem LedgerInv.amount_le (h : LedgerInv w) (hget : w.db.stakeInfos.get? k = some record) :
    (unpackStakeInfo record).amount ≤ w.db.beneficials.getD (unpackStakeInfo record).beneficiary 0 := by
  rw [h.beneficial]
  have hnone : amountFor (unpackStakeInfo record).beneficiary (.stakeInfo 0 0 0 false 0 0) = 0 := by
    unfold amountFor
    split_ifs <;> rfl
  have hle := le_sum_getD (f := fun _ => amountFor (unpackStakeInfo record).beneficiary) w.db.stakeInfos k
    (.stakeInfo 0 0 0 false 0 0) hnone
  rw [getD_of_get? hget, amountFor, if_pos rfl] at hle
  exact hle

theorem subBeneficial_total (hpos : 0 < amount) (hle : amount ≤ db.beneficials.getD beneficiary 0) :
    ∃ db', db.subBeneficial beneficiary amount = .ok db' := by
  unfold QuotaDb.subBeneficial
  cases hget : db.beneficials.get? beneficiary with
  | none =>
    rw [Store.getD, hget] at hle
    simp at hle
    omega
  | some old =>
    rw [getD_of_get? hget] at hle
    exact ⟨_, if_neg (by omega)⟩

/-- The staker takes all of a stake of the old kind that is due. -/
theorem Apart.cancelStake_full (h : Apart w) (hget : w.db.stakeInfos.get? k = some
      (.stakeInfo amount expirationHeight beneficiary false noDelegateAddress noBid))
    (hsender : send.accountAddress = getStakeAddrFromStakeInfoKey k) (hdue : expirationHeight ≤ env.snapshotHeight) :
    stakeAmountMin ≤ amount ∧ ∃ db', cancelStake env w.db send beneficiary amount =
      .ok (db', [⟨send.accountAddress, amount, .none⟩]) ∧ db'.stakeInfos.get? k = none := by
  have hmin : stakeAmountMin ≤ amount := h.min k _ hget rfl
  have hpos : 0 < stakeAmountMin := by decide
  refine ⟨hmin, ?_⟩
  have hfound : w.db.getStakeInfo send.accountAddress beneficiary false noDelegateAddress noBid env.height =
      (k, some ⟨amount, expirationHeight, beneficiary, false, noDelegateAddress, noBid, none⟩) := by
    refine getStakeInfo_eq hget hsender.symm ⟨rfl, rfl, rfl, rfl⟩ fun k' record' hget' haddr' hasked' => ?_
    have haddr := hsender.symm.trans haddr'.symm
    have hsame : SameStake (.stakeInfo amount expirationHeight beneficiary false noDelegateAddress noBid) record' :=
      Asked.sameStake ⟨rfl, rfl, rfl, rfl⟩ hasked'
    by_cases hkind : OfOldKind record'
    · exact (h.unique k k' _ record' hget hget' rfl hkind haddr hsame).le
    · exact h.before k k' _ record' hget hget' rfl hkind haddr hsame
  have hamount : 0 < amount := by omega
  obtain ⟨db₁, hsub⟩ := subBeneficial_total hamount (h.ledger.amount_le hget)
  refine ⟨{ db₁ with stakeInfos := db₁.stakeInfos.erase k }, ?_, ?_⟩
  · unfold cancelStake cancelPart
    rw [hfound]
    dsimp only
    rw [if_neg (by simp [stakeNotDue, hdue])]
    simp only [unpackStakeInfo] at hsub
    rw [hsub]
    simp only [Nat.sub_self]
    rfl
  · rw [get?_erase_self]

/-- In every run in which a stake of the old kind meets no record with an id: the record behind an id changes only by a
cancel of that id, and a stake of the old kind that is due is cancelled in full by its staker. -/
theorem stakes_stay_apart {w : QuotaWorld} (hw : ApartRun w) :
    (∀ (r : Receive) (id : Hash) (record : StakeRecord), w.Allows r → w.db.ids.get? r.send.hash = none → KeepsApart w r →
      recordBehind w.db id = some record → r.request ≠ .cancelQuotaStaking id →
      r.request ≠ .cancelQuotaStakingWithCallback id → recordBehind (w.step r).db id = some record) ∧
    (∀ (k : StakeInfoKey) (amount expirationHeight : ℕ) (beneficiary : Address) (env : VmEnvironment) (send : SendBlock),
      w.db.stakeInfos.get? k = some (.stakeInfo amount expirationHeight beneficiary false noDelegateAddress noBid) →
      send.accountAddress = getStakeAddrFromStakeInfoKey k → expirationHeight ≤ env.snapshotHeight → send.amount = 0 →
      doSend env.stakeHeight send (.cancelStake beneficiary amount) = true ∧
      ∃ db', receive env w.db send (.cancelStake beneficiary amount) =
        .ok (db', [⟨send.accountAddress, amount, .none⟩]) ∧ db'.stakeInfos.get? k = none) := by
  have h := hw.apart
  refine ⟨fun r id record ha hhash hkeeps hbehind hother hother' => ?_, ?_⟩
  · unfold QuotaWorld.step
    cases hreceive : receive r.env w.db r.send r.request with
    | error e => exact hbehind
    | ok receipt =>
      exact h.recordBehind_effect ha.1 hhash (h.kindEffect ha hkeeps hreceive) hbehind ⟨hother, hother'⟩
  intro k amount expirationHeight beneficiary env send hget hsender hdue hzero
  obtain ⟨hmin, hcancel⟩ := h.cancelStake_full hget hsender hdue
  exact ⟨by simp [doSend, hzero, hmin], hcancel⟩

/-! A stake of the old kind that meets one with an id -/

/-- A stake with an id, and one of the old kind for the same beneficiary. -/
def metStakes : List Receive :=
  [⟨⟨600, 1, 100⟩, ⟨1, 77, stakeAmountMin, viteTokenId⟩, .stakeForQuota 9⟩,
    ⟨⟨600, 2, 200⟩, ⟨1, 78, 2 * stakeAmountMin, viteTokenId⟩, .stake 9⟩]

/-- The stake of the old kind changes the record behind the id. -/
theorem stake_meets_id :
    recordBehind ((metStakes.take 1).foldl step .new).db 77 = some (.stakeInfoV2 stakeAmountMin 700 9 77) ∧
      recordBehind (metStakes.foldl step .new).db 77 =
        some (.stakeInfo (3 * stakeAmountMin) 800 9 false noDelegateAddress noBid) := by
  decide +kernel

def separateStakes : List Receive :=
  [⟨⟨600, 1, 100⟩, ⟨1, 77, 2 * stakeAmountMin, viteTokenId⟩, .stake 9⟩,
    ⟨⟨600, 2, 200⟩, ⟨1, 78, stakeAmountMin, viteTokenId⟩, .stakeForQuota 9⟩]

theorem apartRun_separateStakes : ApartRun (separateStakes.foldl step .new) := by
  unfold separateStakes
  simp only [foldl_cons]
  refine .step (.step .new ⟨by decide +kernel, by decide +kernel⟩ rfl ?_) ⟨by decide +kernel, by decide +kernel⟩
    (by decide +kernel) ?_
  · intro beneficiary _ k record hget
    cases hget
  · intro beneficiary hrequest
    cases hrequest

/-- The stake of the old kind is cancelled in full beside the one with an id. -/
theorem stakes_stay_apart_separate :
    let w := separateStakes.foldl step .new
    ∃ db', receive ⟨600, 3, 700⟩ w.db ⟨1, 79, 0, viteTokenId⟩ (.cancelStake 9 (2 * stakeAmountMin)) =
      .ok (db', [⟨1, 2 * stakeAmountMin, .none⟩]) ∧ db'.stakeInfos.get? (getStakeInfoKey 1 1) = none :=
  ((stakes_stay_apart apartRun_separateStakes).2 (getStakeInfoKey 1 1) (2 * stakeAmountMin) 700 9 ⟨600, 3, 700⟩
    ⟨1, 79, 0, viteTokenId⟩ (by decide +kernel) rfl (by decide) rfl).2

end GoVite.Quota

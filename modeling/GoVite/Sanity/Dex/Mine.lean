import GoVite.Sanity.Dex.Accounts
import GoVite.Sanity.Dex.Dividend
import GoVite.Spec.Dex.PeriodJob

/-! Mining takes VX out of the pool and credits it to users; what it cannot give out it returns. -/

namespace GoVite.Dex
open KeyStore ExceptRules List Except Prod Function

section Amounts
variable {φ : Type}

def itemSum (items : List (φ × ℕ)) : ℕ := (items.map Prod.snd).sum

theorem itemSum_cons (item : φ × ℕ) (items : List (φ × ℕ)) : itemSum (item :: items) = item.2 + itemSum items := rfl

theorem amountForItems_sum (amount : ℕ) (fields : List (φ × ℕ)) (vxAmtLeaved : ℕ) :
    itemSum (amountForItems amount fields vxAmtLeaved).1 + (amountForItems amount fields vxAmtLeaved).2 = vxAmtLeaved := by
  induction fields generalizing vxAmtLeaved with
  | nil => exact Nat.zero_add _
  | cons f fields ih =>
    have hrest := ih (vxAmtLeaved - min (amount * f.2) vxAmtLeaved)
    unfold amountForItems
    rw [itemSum_cons]
    dsimp only
    omega

theorem amountForItems_keys (amount : ℕ) (fields : List (φ × ℕ)) (vxAmtLeaved : ℕ) :
    (amountForItems amount fields vxAmtLeaved).1.map fst = fields.map fst := by
  induction fields generalizing vxAmtLeaved with
  | nil => rfl
  | cons f fields ih =>
    unfold amountForItems
    rw [map_cons, map_cons, ih]

theorem addToFirst_sum (extra : ℕ) {items : List (φ × ℕ)} (h : items ≠ []) :
    itemSum (addToFirst extra items) = itemSum items + extra := by
  cases items with
  | nil => exact absurd rfl h
  | cons item items =>
    unfold addToFirst
    rw [itemSum_cons, itemSum_cons]
    omega

theorem addToFirst_keys (extra : ℕ) (items : List (φ × ℕ)) : (addToFirst extra items).map fst = items.map fst := by
  cases items <;> rfl

variable (A : Arith) (toDivideTotal vxPool : ℕ)

theorem getVxAmountsForEqualItems_keys (mr : MineRate φ) :
    (getVxAmountsForEqualItems A toDivideTotal vxPool mr).1.map fst = mr.fields.map fst := by
  unfold getVxAmountsForEqualItems
  dsimp only
  split_ifs
  · rw [addToFirst_keys, amountForItems_keys]
  · rw [amountForItems_keys]

/-- Whatever the amount, the rates and the rounding are, the items and the rest are the pool. -/
theorem getVxAmountsForEqualItems_sum (mr : MineRate φ) :
    itemSum (getVxAmountsForEqualItems A toDivideTotal vxPool mr).1 +
      (getVxAmountsForEqualItems A toDivideTotal vxPool mr).2 = vxPool := by
  have hsum := amountForItems_sum (min (rateOfAmount A toDivideTotal mr.totalRate) vxPool / mr.total) mr.fields vxPool
  unfold getVxAmountsForEqualItems
  dsimp only
  split_ifs
  · rw [addToFirst_sum]
    · omega
    · intro hnil
      have hkeys := amountForItems_keys (min (rateOfAmount A toDivideTotal mr.totalRate) vxPool / mr.total) mr.fields vxPool
      rw [hnil] at hkeys
      exact mr.fields_ne_nil (map_eq_nil_iff.1 hkeys.symm)
  · exact hsum

theorem getVxAmountToMine_sum (rate : ℚ) :
    (getVxAmountToMine A toDivideTotal vxPool rate).1 + (getVxAmountToMine A toDivideTotal vxPool rate).2 = vxPool := by
  unfold getVxAmountToMine
  dsimp only
  split_ifs <;> dsimp only <;> omega

variable {items : List (φ × ℕ)} [DecidableEq φ]

theorem itemOf_cons_self (field : φ) (amt : ℕ) : itemOf ((field, amt) :: items) field = amt := by
  simp [itemOf]

variable {field field' : φ}

theorem itemOf_cons_ne (amt : ℕ) (h : field ≠ field') :
    itemOf ((field, amt) :: items) field' = itemOf items field' := by
  simp [itemOf, h]

/-- The items of distinct fields, looked up one by one. -/
theorem sum_itemOf (hnodup : (items.map fst).Nodup) : ((items.map fst).map (itemOf items)).sum = itemSum items := by
  induction items with
  | nil => rfl
  | cons item items ih =>
    obtain ⟨hnotin, hnodup⟩ := nodup_cons.1 hnodup
    rw [itemSum_cons, map_cons, map_cons, sum_cons, itemOf_cons_self, ← ih hnodup]
    congr 2
    refine map_congr_left fun field hfield => itemOf_cons_ne _ ?_
    rintro rfl
    exact hnotin hfield

theorem sum_itemOf_getVxAmountsForEqualItems (mr : MineRate φ) :
    ((mr.fields.map fst).map (itemOf (getVxAmountsForEqualItems A toDivideTotal vxPool mr).1)).sum +
      (getVxAmountsForEqualItems A toDivideTotal vxPool mr).2 = vxPool := by
  have hkeys := getVxAmountsForEqualItems_keys A toDivideTotal vxPool mr
  have hlookup := sum_itemOf (hkeys ▸ mr.fields_nodup)
  rw [hkeys] at hlookup
  rw [hlookup, getVxAmountsForEqualItems_sum]

end Amounts

variable {db' : FundDb} {address : Address} {reader : ConsensusReader} {db : FundDb}

section Credits

/-- VX is credited to users one after the other, as available or as locked; the last credit first. -/
inductive VxCredits : FundDb → FundDb → List (Address × ℕ) → Prop
  | none {db db' : FundDb} (h : db'.accounts = db.accounts) : VxCredits db db' []
  | available {db db₁ db' : FundDb} {credits : List (Address × ℕ)} (h : VxCredits db db₁ credits) (address : Address)
      (amount : ℕ) (h' : db'.accounts = (depositAccount db₁ address vxTokenId amount).1.accounts) :
    VxCredits db db' ((address, amount) :: credits)
  | vxLocked {db db₁ db' : FundDb} {credits : List (Address × ℕ)} (h : VxCredits db db₁ credits) (address : Address)
      (amount : ℕ) (h' : db'.accounts = (lockMinedVx db₁ address amount).1.accounts) :
    VxCredits db db' ((address, amount) :: credits)

variable {db₁ db₂ : FundDb} {credits credits' : List (Address × ℕ)}

section
variable (h : VxCredits db db₁ credits)
include h

theorem VxCredits.congr (h' : db'.accounts = db₁.accounts) : VxCredits db db' credits := by
  cases h with
  | none h => exact .none (h'.trans h)
  | available h address amount hlast => exact .available h address amount (h'.trans hlast)
  | vxLocked h address amount hlast => exact .vxLocked h address amount (h'.trans hlast)

theorem VxCredits.trans (h' : VxCredits db₁ db₂ credits') : VxCredits db db₂ (credits' ++ credits) := by
  induction h' with
  | none heq => exact h.congr heq
  | available _ address amount hlast ih => exact .available ih address amount hlast
  | vxLocked _ address amount hlast ih => exact .vxLocked ih address amount hlast

theorem VxCredits.congr_left (h' : db'.accounts = db.accounts) : VxCredits db' db₁ credits := by
  have htrans := (VxCredits.none h'.symm).trans h
  rwa [append_nil] at htrans

end

/-- A weight of accounts that counts what is available and the locked VX. -/
structure CountsVx (w : Account → ℕ) : Prop extends CountsAvailable w where
  vxLocked : ∀ acc x, w { acc with vxLocked := acc.vxLocked + x } = w acc + x

variable {w : Account → ℕ}

/-- What is credited is added to the sum over the accounts. -/
theorem VxCredits.tokenSum_eq (hw : CountsVx w) (token : TokenId) (h : VxCredits db db₁ credits) :
    tokenSum db₁ token w = tokenSum db token w + if vxTokenId = token then itemSum credits else 0 := by
  induction h with
  | none heq =>
    rw [tokenSum_congr heq]
    split_ifs <;> rfl
  | available _ address amount hlast ih =>
    rw [tokenSum_congr hlast, tokenSum_depositAccount hw.toCountsAvailable, ih, itemSum_cons]
    split_ifs <;> omega
  | vxLocked _ address amount hlast ih =>
    unfold lockMinedVx at hlast
    rw [tokenSum_congr hlast, tokenSum_saveAccount hw.zero (hw.vxLocked _ amount), ih, itemSum_cons]
    split_ifs <;> omega

/-- What is credited comes out of an amount, of which some may be left. -/
def CreditedFrom (amount : ℕ) (db db' : FundDb) (left : ℕ) : Prop :=
  ∃ credits, VxCredits db db' credits ∧ itemSum credits + left = amount

theorem CreditedFrom.none {amount : ℕ} (h : db'.accounts = db.accounts) : CreditedFrom amount db db' amount :=
  ⟨[], .none h, Nat.zero_add _⟩

theorem CreditedFrom.trans {amount left left' : ℕ} (h : CreditedFrom amount db db₁ left)
    (h' : CreditedFrom left db₁ db₂ left') : CreditedFrom amount db db₂ left' := by
  obtain ⟨credits, hcredits, hsum⟩ := h
  obtain ⟨credits', hcredits', hsum'⟩ := h'
  refine ⟨credits' ++ credits, hcredits.trans hcredits', ?_⟩
  unfold itemSum at *
  rw [map_append, sum_append]
  omega

variable {amount : ℕ}

theorem onVxMined_credits (h : onVxMined db reader address amount = .ok db₁) :
    VxCredits db db₁ [(address, amount)] := by
  unfold onVxMined at h
  split_ifs at h
  · refine .vxLocked (.none rfl) address amount ?_
    rw [doSettleVxFunds_frame h]
  · cases h
    exact .available (.none rfl) address amount rfl
  · refine .available (.none rfl) address amount ?_
    rw [settleVxFundsAnyway_frame h]

/-- A user who mined nothing is not called. -/
theorem onVxMined_credits_if (h : (if 0 < amount then onVxMined db reader address amount else .ok db) = .ok db₁) :
    ∃ credits, VxCredits db db₁ credits ∧ itemSum credits = amount := by
  split_ifs at h with hpos
  · exact ⟨_, onVxMined_credits h, Nat.add_zero _⟩
  · cases h
    exact ⟨[], .none rfl, by simp only [itemSum, map_nil, sum_nil]; omega⟩

end Credits

variable {r : FundDb × ℕ} {periodId : ℕ} {A : Arith}

section Fees
variable {amtForMarkets : QuoteTokenType → ℕ} {t : QuoteTokenType} {s : FeeMining} {user : Address × List FeesByPeriod}

/-- Each round with the fees of a user only saves fees, or gives the user what is mined for them. -/
theorem mineForFeesOf_cases {s' : FeeMining} (h : mineForFeesOf A reader periodId amtForMarkets s user = .ok s') :
    (∃ fees, s' = { s with db := saveUserFees s.db user.1 fees } ∧
      ∀ first rest, user.2.dropWhile (fun f => f.period < periodId) = first :: rest → first.period ≠ periodId) ∨
    ∃ first rest r db, user.2.dropWhile (fun f => f.period < periodId) = first :: rest ∧ first.period = periodId ∧
      first.fees.foldlM (mineFeeAccount A amtForMarkets) (s, 0) = .ok r ∧
      (if 0 < r.2 then onVxMined r.1.db reader user.1 r.2 else .ok r.1.db) = .ok db ∧
      s' = { r.1 with db := saveUserFees db user.1 rest } := by
  unfold mineForFeesOf at h
  split at h
  · rename_i hdrop
    refine .inl ⟨[], (ok.inj h).symm, fun first rest hcons => ?_⟩
    rw [hdrop] at hcons
    cases hcons
  · rename_i first rest hdrop
    by_cases hperiod : first.period = periodId
    · rw [if_neg (not_not.2 hperiod)] at h
      obtain ⟨r, hfees, h⟩ := bind_ok h
      refine .inr ⟨first, rest, r, ?_⟩
      split_ifs at h with hpos
      · obtain ⟨db, hmined, h⟩ := bind_ok h
        exact ⟨db, hdrop, hperiod, hfees, (if_pos hpos).trans hmined, (ok.inj h).symm⟩
      · exact ⟨r.1.db, hdrop, hperiod, hfees, if_neg hpos, (ok.inj h).symm⟩
    · rw [if_pos hperiod] at h
      refine .inl ⟨first :: rest, (ok.inj h).symm, fun first' rest' hcons => ?_⟩
      rw [hdrop] at hcons
      cases hcons
      exact hperiod

theorem saveUserFees_frame (db : FundDb) (address : Address) (fees : List FeesByPeriod) :
    saveUserFees db address fees = { db with userFees := (saveUserFees db address fees).userFees } := by
  unfold saveUserFees
  split_ifs <;> rfl

variable {fee : ℕ}

/-- A part and the rest are what was left; nothing is once the division is finished. -/
theorem divideByProportion_spec {totalReferAmt partReferAmt dividedReferAmt toDivideTotalAmt toDivideLeaveAmt : ℕ}
    {p : Proportion}
    (hp : p = divideByProportion A totalReferAmt partReferAmt dividedReferAmt toDivideTotalAmt toDivideLeaveAmt) :
    p.proportionAmt + p.toDivideLeaveAmt = toDivideLeaveAmt ∧ p.dividedReferAmt = dividedReferAmt + partReferAmt ∧
      (p.finished = true → p.toDivideLeaveAmt = 0) := by
  subst hp
  unfold divideByProportion
  dsimp only
  split_ifs with h
  · exact ⟨rfl, rfl, fun _ => rfl⟩
  · refine ⟨?_, rfl, nofun⟩
    dsimp only
    omega

theorem accumulateAmount_update (amounts : QuoteTokenType → ℕ) (t : QuoteTokenType) (amt : ℕ) :
    accumulateAmount (update amounts t amt) + amounts t = accumulateAmount amounts + amt := by
  unfold accumulateAmount
  cases t <;> simp [update] <;> omega

/-- What is mined comes out of what is left to divide, and the storage is not touched. -/
def FeeMining.Divides (s s' : FeeMining × ℕ) : Prop :=
  s'.1.db = s.1.db ∧ s'.2 + accumulateAmount s'.1.toDivideVxLeave = s.2 + accumulateAmount s.1.toDivideVxLeave

theorem FeeMining.Divides.trans {a b c : FeeMining × ℕ} (h : Divides a b) (h' : Divides b c) : Divides a c :=
  ⟨h'.1.trans h.1, h'.2.trans h.2⟩

/-- An amount is divided, unless it is empty or the type is used up. -/
theorem divideFee_cases {s s' : FeeMining × ℕ} (h : FeeMining.divideFee A amtForMarkets t fee s = .ok s') :
    (s.1.feeSum t = none ∨ fee = 0) ∧ s' = s ∨ ∃ feeSumAmt p, s.1.feeSum t = some feeSumAmt ∧
      p = divideByProportion A feeSumAmt fee (s.1.dividedFee t) (amtForMarkets t) (s.1.toDivideVxLeave t) ∧
      s' = ({ s.1 with
        feeSum := if p.finished then update s.1.feeSum t none else s.1.feeSum
        dividedFee := update s.1.dividedFee t p.dividedReferAmt
        toDivideVxLeave := update s.1.toDivideVxLeave t p.toDivideLeaveAmt }, s.2 + p.proportionAmt) := by
  unfold FeeMining.divideFee at h
  split at h
  · exact .inl ⟨.inl ‹_›, (ok.inj h).symm⟩
  · split_ifs at h with hfee
    · exact .inl ⟨.inr hfee, (ok.inj h).symm⟩
    · obtain ⟨r, hdivide, h⟩ := bind_ok h
      obtain ⟨-, hdivide⟩ := guard_ok hdivide
      cases hdivide
      exact .inr ⟨_, _, ‹_›, rfl, (ok.inj h).symm⟩

theorem divideFee_divides {s s' : FeeMining × ℕ} (h : FeeMining.divideFee A amtForMarkets t fee s = .ok s') :
    FeeMining.Divides s s' := by
  obtain ⟨-, rfl⟩ | ⟨feeSumAmt, p, -, hp, rfl⟩ := divideFee_cases h
  · exact ⟨rfl, rfl⟩
  · have hadd := (divideByProportion_spec hp).1
    have hupdate := accumulateAmount_update s.1.toDivideVxLeave t p.toDivideLeaveAmt
    refine ⟨rfl, ?_⟩
    dsimp only
    omega

theorem mineFeeAccount_divides {s s' : FeeMining × ℕ} {feeAccount : FeeAccount}
    (h : mineFeeAccount A amtForMarkets s feeAccount = .ok s') : FeeMining.Divides s s' := by
  unfold mineFeeAccount at h
  dsimp only at h
  split_ifs at h
  · cases h
    exact ⟨rfl, rfl⟩
  · obtain ⟨s₁, hbase, h⟩ := bind_ok h
    exact (divideFee_divides hbase).trans (divideFee_divides h)

theorem mineFeeAccounts_divides {fees : List FeeAccount} {r : FeeMining × ℕ}
    (h : fees.foldlM (mineFeeAccount A amtForMarkets) (s, 0) = .ok r) : FeeMining.Divides (s, 0) r :=
  foldlM_inv (fun _ r => FeeMining.Divides (s, 0) r)
    (fun _ _ _ _ hs hstep => hs.trans (mineFeeAccount_divides hstep)) h ⟨rfl, rfl⟩

theorem mineForFeesOf_frame {s' : FeeMining}
    (h : mineForFeesOf A reader periodId amtForMarkets s user = .ok s') : s'.db =
      { s.db.withVx s'.db with userFees := s'.db.userFees } := by
  obtain ⟨fees, rfl, -⟩ | ⟨first, rest, r, db, -, -, hfees, hmined, rfl⟩ := mineForFeesOf_cases h
  · rw [saveUserFees_frame]
  · have hdb := (mineFeeAccounts_divides hfees).1
    rw [saveUserFees_frame]
    split_ifs at hmined
    · rw [onVxMined_frame hmined, hdb]
    · cases hmined
      rw [hdb]

/-- What is mined for one user is taken from what is left. -/
theorem mineForFeesOf_credits {s' : FeeMining} (h : mineForFeesOf A reader periodId amtForMarkets s user = .ok s') :
    CreditedFrom (accumulateAmount s.toDivideVxLeave) s.db s'.db (accumulateAmount s'.toDivideVxLeave) := by
  obtain ⟨fees, rfl, -⟩ | ⟨first, rest, r, db, -, -, hfees, hmined, rfl⟩ := mineForFeesOf_cases h
  · refine .none ?_
    rw [saveUserFees_frame]
  · obtain ⟨credits, hcredits, hsum⟩ := onVxMined_credits_if hmined
    obtain ⟨hdb, hleft⟩ := mineFeeAccounts_divides hfees
    rw [hdb] at hcredits
    refine ⟨credits, hcredits.congr ?_, ?_⟩
    · rw [saveUserFees_frame]
    · rw [hsum]
      exact hleft.trans (Nat.zero_add _)

variable (h : doMineVxForFee A db reader periodId amtForMarkets = .ok r)
include h

/-- Mining for fees marks periods, and writes accounts, the histories of VX and the fees of users. -/
theorem doMineVxForFee_frame : r.1 =
      { db.withVx r.1 with userFees := r.1.userFees, dexFees := r.1.dexFees } ∧
    (r.1.dexFees = db.dexFees ∨ ∃ fuel, markFinishMine db.dexFees fuel periodId = .ok r.1.dexFees) := by
  unfold doMineVxForFee at h
  split at h
  · cases h
    exact ⟨rfl, .inl rfl⟩
  · obtain ⟨dexFees', hmark, h⟩ := bind_ok h
    obtain ⟨s, hrun, h⟩ := bind_ok h
    cases h
    have hframe : s.db = { db.withVx s.db with userFees := s.db.userFees, dexFees := dexFees' } :=
      foldlM_inv (fun _ s => s.db = { db.withVx s.db with userFees := s.db.userFees, dexFees := dexFees' })
        (fun _ s _ s' hs hstep => by rw [mineForFeesOf_frame hstep, hs]) hrun rfl
    rw [hframe]
    exact ⟨rfl, .inr ⟨_, hmark⟩⟩

/-- What is mined for fees and the refund are the amounts for the markets. -/
theorem doMineVxForFee_credits : CreditedFrom (accumulateAmount amtForMarkets) db r.1 r.2 := by
  unfold doMineVxForFee at h
  split at h
  · cases h
    exact .none rfl
  · obtain ⟨dexFees', -, h⟩ := bind_ok h
    obtain ⟨s, hrun, h⟩ := bind_ok h
    cases h
    exact foldlM_inv
      (fun _ s => CreditedFrom (accumulateAmount amtForMarkets) db s.db (accumulateAmount s.toDivideVxLeave))
      (fun _ _ _ _ hs hstep => hs.trans (mineForFeesOf_credits hstep)) hrun ⟨[], .none rfl, Nat.zero_add _⟩

end Fees

section Staking
variable {dexMiningStakedAmount amountToMine : ℕ} {s s' : StakeMining}

theorem mineForStakingOf_credits {user : Address × List AmountByPeriod}
    (h : mineForStakingOf A reader periodId dexMiningStakedAmount amountToMine s user = .ok s') :
    CreditedFrom s.amtLeaved s.db s'.db s'.amtLeaved := by
  unfold mineForStakingOf at h
  dsimp only at h
  split_ifs at h with hfinished hfound hvalid hpos
  · cases h
    exact .none rfl
  · cases h
    exact .none rfl
  · cases h
    exact .none rfl
  · obtain ⟨db', hmined, h⟩ := bind_ok h
    cases h
    exact ⟨_, (onVxMined_credits hmined).congr_left rfl, (divideByProportion_spec rfl).1⟩
  · cases h
    have hzero := (Nat.eq_zero_of_not_pos hpos).symm
    exact ⟨[], .none rfl, (congrArg (· + _) hzero).trans (divideByProportion_spec rfl).1⟩

/-- What is mined for stakes and the refund are the amount to mine. -/
theorem doMineVxForStaking_credits (h : doMineVxForStaking A db reader periodId amountToMine = .ok r) :
    CreditedFrom amountToMine db r.1 r.2 := by
  unfold doMineVxForStaking at h
  dsimp only at h
  split_ifs at h
  · cases h
    exact .none rfl
  · cases h
    exact .none rfl
  · obtain ⟨s, hrun, h⟩ := bind_ok h
    cases h
    exact foldlM_inv (fun _ s => CreditedFrom amountToMine db s.db s.amtLeaved)
      (fun _ _ _ _ hs hstep => hs.trans (mineForStakingOf_credits hstep)) hrun ⟨[], .none rfl, Nat.zero_add _⟩

end Staking

section Jobs
theorem getVxToMineByPeriodId_frame (h : getVxToMineByPeriodId db periodId = .ok r) :
    r.1 = { db with firstMinedVxPeriodId := r.1.firstMinedVxPeriodId } := by
  unfold getVxToMineByPeriodId at h
  split_ifs at h <;> cases h <;> rfl

/-- The part of the makers goes to their pool of the period, the part of the maintainer to its account. -/
theorem doMineVxForMakerMineAndMaintainer_credits {amounts : MineFor → ℕ}
    (h : doMineVxForMakerMineAndMaintainer db reader periodId amounts = .ok db') :
    ∃ credits, VxCredits db db' credits ∧ itemSum credits = amounts .maintainer ∧
      db' = { db.withVx db' with
        makerMiningPools := if amounts .maker = 0 then db.makerMiningPools
          else db.makerMiningPools.set periodId (amounts .maker) } := by
  have hmaker : ∃ db₁ : FundDb, db₁ = { db with
        makerMiningPools := if amounts .maker = 0 then db.makerMiningPools
          else db.makerMiningPools.set periodId (amounts .maker) } ∧
      (if 0 < amounts .maintainer then doMineVxForMaintainer db₁ reader (amounts .maintainer) else .ok db₁) = .ok db' := by
    unfold doMineVxForMakerMineAndMaintainer at h
    by_cases hpos : 0 < amounts .maker
    · rw [if_pos hpos] at h
      obtain ⟨db₁, hmaker, h⟩ := bind_ok h
      refine ⟨db₁, ?_, h⟩
      unfold doMineVxForMaker at hmaker
      split at hmaker
      · cases hmaker
      · rw [if_neg hpos.ne']
        exact (ok.inj hmaker).symm
    · rw [if_neg hpos] at h
      rw [if_pos (Nat.eq_zero_of_not_pos hpos)]
      exact ⟨db, rfl, h⟩
  obtain ⟨db₁, hdb₁, hmaintainer⟩ := hmaker
  split_ifs at hmaintainer with hpos
  · unfold doMineVxForMaintainer at hmaintainer
    split at hmaintainer
    · cases hmaintainer
    · refine ⟨_, (onVxMined_credits hmaintainer).congr_left (by rw [hdb₁]), Nat.add_zero _, ?_⟩
      rw [onVxMined_frame hmaintainer, hdb₁]
  · cases hmaintainer
    refine ⟨[], .none (by rw [hdb₁]), (Nat.eq_zero_of_not_pos hpos).symm, ?_⟩
    rw [hdb₁]

/-- What a job that mined returns: the credits, the part for the makers, and the rest of the pool. -/
structure Mined (db : FundDb) (periodId : ℕ) (r : FundDb × ℕ × ℕ) (credits : List (Address × ℕ)) (put : ℕ) : Prop where
  credited : VxCredits db r.1 credits
  makerPool : r.1.makerMiningPools = if put = 0 then db.makerMiningPools else db.makerMiningPools.set periodId put
  total : itemSum credits + put + r.2.1 + r.2.2 = db.vxMinePool

theorem runMineVxForFeeJob_mined {r : FundDb × ℕ × ℕ} (h : runMineVxForFeeJob A db reader periodId = .ok r) :
    ∃ credits, Mined db periodId r credits 0 := by
  obtain ⟨-, h⟩ := guard_ok h
  obtain ⟨total, htotal, h⟩ := bind_ok h
  obtain ⟨mined, hmined, h⟩ := bind_ok h
  cases h
  have hframe := getVxToMineByPeriodId_frame htotal
  obtain ⟨credits, hcredits, hsum⟩ := doMineVxForFee_credits hmined
  refine ⟨credits, hcredits.congr_left (by rw [hframe]), ?_, ?_⟩
  · rw [(doMineVxForFee_frame hmined).1, hframe, if_pos rfl]
  · have hitems := sum_itemOf_getVxAmountsForEqualItems A total.2 db.vxMinePool (feeMineRateArr db.heightPoint)
    rw [show (feeMineRateArr db.heightPoint).fields.map fst = [.vite, .eth, .btc, .usd] from rfl] at hitems
    simp only [map_cons, map_nil, sum_cons, sum_nil] at hitems
    unfold accumulateAmount at hsum
    dsimp only
    omega

theorem runMineVxForStakingJob_mined {r : FundDb × ℕ × ℕ} (h : runMineVxForStakingJob A db reader periodId = .ok r) :
    ∃ credits, Mined db periodId r credits 0 := by
  obtain ⟨-, h⟩ := guard_ok h
  obtain ⟨total, htotal, h⟩ := bind_ok h
  obtain ⟨mined, hmined, h⟩ := bind_ok h
  cases h
  have hframe := getVxToMineByPeriodId_frame htotal
  obtain ⟨credits, hcredits, hsum⟩ := doMineVxForStaking_credits hmined
  refine ⟨credits, hcredits.congr_left (by rw [hframe]), ?_, ?_⟩
  · rw [(doMineVxForStaking_ok hmined).1, hframe, if_pos rfl]
  · have hamount := getVxAmountToMine_sum A total.2 db.vxMinePool (feeStakingMineRate db.heightPoint)
    dsimp only
    omega

theorem runMineVxForMakerAndMaintainerJob_mined {r : FundDb × ℕ × ℕ}
    (h : runMineVxForMakerAndMaintainerJob A db reader periodId = .ok r) :
    ∃ credits put, Mined db periodId r credits put := by
  obtain ⟨-, h⟩ := guard_ok h
  obtain ⟨total, htotal, h⟩ := bind_ok h
  obtain ⟨db', hmined, h⟩ := bind_ok h
  cases h
  have hframe := getVxToMineByPeriodId_frame htotal
  obtain ⟨credits, hcredits, hsum, hdb'⟩ := doMineVxForMakerMineAndMaintainer_credits hmined
  refine ⟨credits,
    itemOf (getVxAmountsForEqualItems A total.2 db.vxMinePool (makerAndMaintainerArr db.heightPoint)).1 .maker,
    hcredits.congr_left (by rw [hframe]), ?_, ?_⟩
  · rw [hdb', hframe]
  · have hitems := sum_itemOf_getVxAmountsForEqualItems A total.2 db.vxMinePool (makerAndMaintainerArr db.heightPoint)
    have hfields : (makerAndMaintainerArr db.heightPoint).fields.map fst = [.maker, .maintainer] := by
      unfold makerAndMaintainerArr
      split_ifs <;> rfl
    rw [hfields] at hitems
    simp only [map_cons, map_nil, sum_cons, sum_nil] at hitems
    dsimp only
    omega

end Jobs
end GoVite.Dex

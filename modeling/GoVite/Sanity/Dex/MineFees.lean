import GoVite.Sanity.Dex.Mine
import GoVite.Sanity.Dex.Pools

/-! The fees that count for mining: what each user paid in a period, and the sums over the users whose
fees reach the threshold. -/

namespace GoVite.Dex
open KeyStore ExceptRules List Option Store Function FeeAccount MineSum

variable {a b : MineSum} {f : FeeAccount} {current : ℕ} {db : FundDb} {threshold : ℕ} {A : Arith}

section Accounts

def FeeAccount.amounts (f : FeeAccount) : ℕ × ℕ := (f.baseAmount, f.inviteBonusAmount)

def MineSum.amounts (sum : MineSum) : ℕ × ℕ := (sum.base, sum.invitee)

def countedFees (threshold : ℕ) (t : QuoteTokenType) : List FeeAccount → ℕ × ℕ
  | [] => 0
  | f :: fees =>
    if f.quoteTokenType = t then if isValidFeeForMine f threshold then f.amounts else 0
    else countedFees threshold t fees

variable {base invitee : ℕ} {t t' : QuoteTokenType} (needAddSum : Bool) (fees : List FeeAccount)

theorem MineSum.amounts_of (base invitee : ℕ) :
    (of needAddSum base invitee).amounts = if needAddSum then (base, invitee) else 0 := by
  cases needAddSum <;> rfl

theorem MineSum.amounts_add (a b : MineSum) (hb : b.needAddSum = false → b.amounts = 0) :
    (a.add b).amounts = a.amounts + b.amounts := by
  unfold add
  split_ifs with h
  · rfl
  · rw [hb (by simpa using h), add_zero]

/-- More fees do not make a user invalid. -/
theorem isValidFeeForMine_add (h : isValidFeeForMine f threshold = true) (base invitee : ℕ) :
    isValidFeeForMine { f with
      baseAmount := f.baseAmount + base, inviteBonusAmount := f.inviteBonusAmount + invitee } threshold = true := by
  unfold isValidFeeForMine at h ⊢
  rw [decide_eq_true_eq] at h ⊢
  dsimp only
  omega

def withType (t : QuoteTokenType) (types : List QuoteTokenType) : List QuoteTokenType :=
  if t ∈ types then types else types ++ [t]

variable {types : List QuoteTokenType}

theorem withType_cons : withType t (t' :: types) = t' :: if t' = t then types else withType t types := by
  unfold withType
  by_cases h : t' = t
  · rw [if_pos h, if_pos (h ▸ mem_cons_self)]
  · simp only [mem_cons, Ne.symm h, false_or]
    split_ifs <;> rfl

theorem withType_nodup (h : types.Nodup) : (withType t types).Nodup := by
  unfold withType
  split_ifs with hmem
  · exact h
  · rw [← concat_eq_append]
    exact h.concat hmem

theorem addUserFee_types : ((addUserFee fees t base invitee threshold).1.map quoteTokenType) =
      withType t (fees.map quoteTokenType) := by
  induction fees with
  | nil => rfl
  | cons f fees ih =>
    rw [map_cons, withType_cons, ← ih]
    by_cases hf : f.quoteTokenType = t
    · simp [addUserFee, hf]
    · simp [addUserFee, hf]

/-- A fee adds to what counts exactly what `addUserFee` says. -/
theorem addUserFee_counted : countedFees threshold t (addUserFee fees t base invitee threshold).1 =
      countedFees threshold t fees + (addUserFee fees t base invitee threshold).2.amounts := by
  induction fees with
  | nil =>
    unfold addUserFee
    dsimp only [countedFees]
    rw [amounts_of, if_pos rfl, zero_add]
    rfl
  | cons f fees ih =>
    unfold addUserFee
    by_cases hf : f.quoteTokenType = t
    · rw [if_pos hf]
      dsimp only [countedFees]
      rw [if_pos hf, if_pos hf]
      by_cases hvalid : isValidFeeForMine f threshold = true
      · rw [isValidFeeForMine_add hvalid, if_pos hvalid, if_pos hvalid]
        rfl
      · rw [if_neg hvalid, if_neg hvalid, amounts_of, zero_add]
        rfl
    · rw [if_neg hf]
      dsimp only [countedFees]
      rw [if_neg hf, if_neg hf, ih]

theorem addUserFee_counted_ne {threshold' : ℕ} (ht : t ≠ t') (fees : List FeeAccount) :
    countedFees threshold' t' (addUserFee fees t base invitee threshold).1 = countedFees threshold' t' fees := by
  induction fees with
  | nil =>
    unfold addUserFee
    dsimp only [countedFees]
    rw [if_neg ht]
  | cons f fees ih =>
    unfold addUserFee
    by_cases hf : f.quoteTokenType = t
    · rw [if_pos hf]
      dsimp only [countedFees]
      rw [if_neg (hf ▸ ht), if_neg (hf ▸ ht)]
    · rw [if_neg hf]
      dsimp only [countedFees]
      rw [ih]

/-- A sum that is not to be added is empty. -/
def MineSum.Wf (sum : MineSum) : Prop := sum.needAddSum = false → sum.amounts = 0

theorem MineSum.wf_of (base invitee : ℕ) : (of needAddSum base invitee).Wf := by
  cases needAddSum with
  | false => exact fun _ => rfl
  | true =>
    intro h
    cases h

theorem MineSum.wf_add (ha : a.Wf) : (a.add b).Wf := by
  unfold add
  split_ifs
  · intro h
    cases h
  · exact ha

theorem addUserFee_wf : (addUserFee fees t base invitee threshold).2.Wf := by
  induction fees with
  | nil => exact wf_of _ _ _
  | cons f fees ih =>
    unfold addUserFee
    by_cases hf : f.quoteTokenType = t
    · split_ifs <;> exact wf_of _ _ _
    · rw [if_neg hf]
      exact ih

end Accounts

section Users

def feesAt (userFees : List FeesByPeriod) (periodId : ℕ) : List FeeAccount :=
  ((userFees.find? fun f => f.period = periodId).map FeesByPeriod.fees).getD []

theorem feesAt_append_cons {former rest : List FeesByPeriod} {f : FeesByPeriod} {q : ℕ}
    (hformer : ∀ g ∈ former, g.period ≠ q) (hf : f.period = q) : feesAt (former ++ f :: rest) q = f.fees := by
  unfold feesAt
  rw [find?_append, find?_eq_none.2 fun g hg => by simpa using hformer g hg, find?_cons_of_pos (by simpa using hf)]
  rfl

theorem feesAt_concat_ne {f : FeesByPeriod} {q : ℕ} (hf : f.period ≠ q) (former : List FeesByPeriod) :
    feesAt (former ++ [f]) q = feesAt former q := by
  unfold feesAt
  rw [find?_append, find?_cons_of_neg (by simpa using hf), find?_nil, or_none]

/-- The periods of a user's fees are in order, up to the current one. -/
structure InOrder (userFees : List FeesByPeriod) (current : ℕ) : Prop where
  sorted : (userFees.map FeesByPeriod.period).Pairwise (· < ·)
  past : ∀ f ∈ userFees, f.period ≤ current

variable {userFees : List FeesByPeriod} {q : ℕ} {fees : List FeeAccount} (h : InOrder userFees current)
include h

omit h in
theorem InOrder.lt_last {init : List FeesByPeriod} {last f : FeesByPeriod} (h : InOrder (init ++ [last]) current)
    (hf : f ∈ init) : f.period < last.period := by
  have hsorted := h.sorted
  rw [map_append, pairwise_append] at hsorted
  exact hsorted.2.2 f.period (mem_map_of_mem hf) last.period mem_cons_self

/-- What comes before the last entry of the current period is earlier. -/
theorem InOrder.replaceCurrent_eq (fees : List FeeAccount) :
    ∃ former, replaceCurrentFees userFees current fees = former ++ [⟨fees, current⟩] ∧ (∀ f ∈ former, f.period < current) ∧
      (former.map FeesByPeriod.period).Pairwise (· < ·) ∧ ∀ q, q ≠ current → feesAt former q = feesAt userFees q := by
  unfold replaceCurrentFees
  rcases eq_nil_or_concat' userFees with rfl | ⟨init, last, rfl⟩
  · exact ⟨[], rfl, fun f hf => absurd hf not_mem_nil, List.Pairwise.nil, fun _ _ => rfl⟩
  · rw [getLast?_concat]
    dsimp only
    by_cases hlast : last.period = current
    · rw [if_pos hlast, dropLast_concat]
      have hsorted := h.sorted
      rw [map_append, pairwise_append] at hsorted
      exact ⟨init, rfl, fun f hf => hlast ▸ h.lt_last hf, hsorted.1,
        fun q hq => (feesAt_concat_ne (hlast ▸ hq.symm) init).symm⟩
    · rw [if_neg hlast]
      have hlt : last.period < current := lt_of_le_of_ne (h.past last (by simp)) hlast
      refine ⟨init ++ [last], rfl, ?_, h.sorted, fun _ _ => rfl⟩
      exact forall_mem_concat.2 ⟨fun f hf => (h.lt_last hf).trans hlt, hlt⟩

theorem InOrder.replaceCurrent (fees : List FeeAccount) :
    InOrder (replaceCurrentFees userFees current fees) current := by
  obtain ⟨former, heq, hformer, hsorted, -⟩ := h.replaceCurrent_eq fees
  rw [heq]
  constructor
  · rw [map_append]
    exact pairwise_concat.2 ⟨hsorted, forall_mem_map.2 hformer⟩
  · exact forall_mem_concat.2 ⟨fun f hf => (hformer f hf).le, le_rfl⟩

omit h in
theorem feesAt_eq_nil (h : ∀ f ∈ userFees, f.period ≠ q) : feesAt userFees q = [] := by
  unfold feesAt
  rw [find?_eq_none.2 fun f hf => by simpa using h f hf]
  rfl

theorem InOrder.feesAt_replaceCurrent (fees : List FeeAccount) (q : ℕ) :
    feesAt (replaceCurrentFees userFees current fees) q = if q = current then fees else feesAt userFees q := by
  obtain ⟨former, heq, hformer, -, hother⟩ := h.replaceCurrent_eq fees
  rw [heq]
  split_ifs with hq
  · exact feesAt_append_cons (fun f hf => hq ▸ (hformer f hf).ne) hq.symm
  · rw [← hother q hq]
    exact feesAt_concat_ne (Ne.symm hq) former

/-- The fees of the current period are those of the last entry, if it is of the period. -/
theorem InOrder.currentFees_eq : currentFees userFees current = feesAt userFees current := by
  unfold currentFees
  rcases eq_nil_or_concat' userFees with rfl | ⟨init, last, rfl⟩
  · rfl
  · rw [getLast?_concat]
    dsimp only
    split_ifs with hlast
    · exact (feesAt_append_cons (fun f hf => hlast ▸ (h.lt_last hf).ne) hlast).symm
    · refine (feesAt_eq_nil (forall_mem_concat.2 ⟨fun f hf => ?_, hlast⟩)).symm
      exact ((h.lt_last hf).trans_le (h.past last (by simp))).ne

end Users

section Totals

/-- What the users paid in a period and counts for mining. -/
def userTotal (db : FundDb) (periodId : ℕ) (t : QuoteTokenType) : ℕ × ℕ :=
  db.userFees.sum fun _ userFees => countedFees (db.getMineThreshold t) t (feesAt userFees periodId)

def recordedIn (t : QuoteTokenType) : List FeeForMine → ℕ × ℕ
  | [] => 0
  | f :: fees => if f.quoteTokenType = t then (f.baseAmount, f.inviteBonusAmount) else recordedIn t fees

def feesForMineOf (db : FundDb) (periodId : ℕ) : List FeeForMine :=
  ((db.dexFees.get? periodId).map DexFeesByPeriod.feesForMine).getD []

def recordedTotal (db : FundDb) (periodId : ℕ) (t : QuoteTokenType) : ℕ × ℕ := recordedIn t (feesForMineOf db periodId)

/-- The fees of every user are in order, each type once in a period. -/
structure FeesInOrder (db : FundDb) (current : ℕ) : Prop where
  inOrder : ∀ a, InOrder (db.userFees.getD a []) current
  types : ∀ a q, ((feesAt (db.userFees.getD a []) q).map quoteTokenType).Nodup

/-- The change that adds the sum to a total of the period and the type. -/
def addedAt (q current : ℕ) (t t' : QuoteTokenType) (sum : MineSum) : ℕ × ℕ :=
  if q = current ∧ t = t' then sum.amounts else 0

variable {tokenDecimals : ℤ} {t : QuoteTokenType}

/-- What a change to the fees of users keeps, and what it adds to their totals. -/
structure FeesAdded (db db' : FundDb) (current : ℕ) (t : QuoteTokenType) (sum : MineSum) : Prop where
  frame : db' = { db with userFees := db'.userFees }
  wf : sum.Wf
  inOrder : FeesInOrder db' current
  total : ∀ q t', userTotal db' q t' = userTotal db q t' + addedAt q current t t' sum

variable {r : FundDb × MineSum} {mineThreshold : ℕ}

/-- What one user pays is added to the total of the users. -/
theorem innerSettleUserFee_added (h : FeesInOrder db current) (tokenDecimals : ℤ) (address : Address)
    (baseTokenFee inviteBonusTokenFee : ℕ) (hthreshold : mineThreshold = db.getMineThreshold t)
    (hr : r = innerSettleUserFee A db current mineThreshold address tokenDecimals t baseTokenFee inviteBonusTokenFee) :
    FeesAdded db r.1 current t r.2 := by
  unfold innerSettleUserFee at hr
  dsimp only at hr
  rw [(h.inOrder address).currentFees_eq, hthreshold] at hr
  subst hr
  refine ⟨rfl, addUserFee_wf _, ⟨fun a => ?_, fun a q => ?_⟩, fun q t' => ?_⟩
  · rw [getD_set]
    split_ifs
    · exact (h.inOrder address).replaceCurrent _
    · exact h.inOrder a
  · rw [getD_set]
    split_ifs
    · rw [(h.inOrder address).feesAt_replaceCurrent]
      split_ifs
      · rw [addUserFee_types]
        exact withType_nodup (h.types address current)
      · exact h.types address q
    · exact h.types a q
  · refine add_right_cancel ((db.userFees.sum_set_getD address _ []
      (fun _ userFees => countedFees (db.getMineThreshold t') t' (feesAt userFees q)) rfl).trans ?_)
    rw [(h.inOrder address).feesAt_replaceCurrent, add_assoc]
    congr 1
    unfold addedAt
    by_cases hq : q = current
    · rw [if_pos hq]
      by_cases ht : t = t'
      · rw [if_pos ⟨hq, ht⟩, ← ht, hq, addUserFee_counted, add_comm]
      · rw [if_neg (fun h => ht h.2), hq, addUserFee_counted_ne ht, zero_add]
    · rw [if_neg hq, if_neg (fun h => hq h.1), zero_add]

variable {db₁ db₂ : FundDb}

theorem FeesAdded.trans (h : FeesAdded db db₁ current t a)
    (h' : FeesAdded db₁ db₂ current t b) : FeesAdded db db₂ current t (a.add b) := by
  refine ⟨?_, wf_add h.wf, h'.inOrder, fun q t' => ?_⟩
  · rw [h'.frame, h.frame]
  · rw [h'.total, h.total, add_assoc]
    unfold addedAt
    split_ifs
    · rw [amounts_add a b h'.wf]
    · rfl

theorem FeesAdded.refl (h : FeesInOrder db current) (t : QuoteTokenType) : FeesAdded db db current t {} := by
  refine ⟨rfl, fun _ => rfl, h, fun q t' => ?_⟩
  unfold addedAt
  split_ifs <;> exact (add_zero _).symm

/-- The fee of one action: for the payer, and for the inviter if there is one. -/
theorem settleUserFees_added (h : FeesInOrder db current) (tokenDecimals : ℤ) (address : Address) (baseFee : ℕ)
    (hthreshold : mineThreshold = db.getMineThreshold t)
    (hr : r = settleUserFees A db current tokenDecimals t mineThreshold address baseFee) :
    FeesAdded db r.1 current t r.2 := by
  subst hr hthreshold
  unfold settleUserFees
  split
  · exact innerSettleUserFee_added h tokenDecimals address baseFee 0 rfl rfl
  · rename_i inviter _
    have hpayer := innerSettleUserFee_added (A := A) (t := t) h tokenDecimals address baseFee
      (if db.heightPoint.isEarthUpgrade then A.calculateAmountForRate baseFee inviteeBonusRate else 0) rfl rfl
    refine hpayer.trans (innerSettleUserFee_added hpayer.inOrder tokenDecimals inviter 0
      (A.calculateAmountForRate baseFee inviterBonusRate) ?_ rfl)
    rfl

variable {db₀ : FundDb}

theorem minedFees_added (hthreshold : db₀.getMineThreshold t = db.getMineThreshold t)
    (h : FeesInOrder db current) (allowMining : Bool) (feeTokenDecimals : ℤ) (feeActions : List (Address × FeeSettle))
    (hr : r = minedFees A db₀ allowMining current feeTokenDecimals t feeActions db) :
    FeesAdded db r.1 current t r.2 := by
  unfold minedFees at hr
  split_ifs at hr
  all_goals subst hr
  · refine foldlRecOn (motive := fun acc : FundDb × MineSum => FeesAdded db acc.1 current t acc.2) feeActions _ (.refl h t)
      fun acc hacc a _ => ?_
    refine hacc.trans (settleUserFees_added hacc.inOrder feeTokenDecimals a.1 a.2.baseFee ?_ rfl)
    rw [hthreshold, hacc.frame]
    rfl
  · exact .refl h t

theorem addFeeForMine_recorded (fees : List FeeForMine) (t t' : QuoteTokenType) (sum : MineSum) :
    recordedIn t' (addFeeForMine fees t sum) = recordedIn t' fees + if t = t' then sum.amounts else 0 := by
  induction fees with
  | nil =>
    unfold addFeeForMine recordedIn
    split_ifs
    · exact (zero_add _).symm
    · rfl
  | cons f fees ih =>
    unfold addFeeForMine
    by_cases hf : f.quoteTokenType = t
    · rw [if_pos hf]
      unfold recordedIn
      by_cases ht : t = t'
      · rw [if_pos (hf.trans ht), if_pos (hf.trans ht), if_pos ht]
        rfl
      · rw [if_neg (fun h => ht (hf.symm.trans h)), if_neg (fun h => ht (hf.symm.trans h)), if_neg ht, add_zero]
    · rw [if_neg hf]
      unfold recordedIn
      split_ifs with hf' ht
      · exact absurd (hf'.trans ht.symm) hf
      · exact (add_zero _).symm
      · rw [ih, if_pos ‹_›]
      · rw [ih, if_neg ‹_›]

theorem addFeeForMine_types (fees : List FeeForMine) (t : QuoteTokenType) (sum : MineSum) :
    (addFeeForMine fees t sum).map FeeForMine.quoteTokenType = withType t (fees.map FeeForMine.quoteTokenType) := by
  induction fees with
  | nil => rfl
  | cons f fees ih =>
    rw [map_cons, withType_cons, ← ih]
    by_cases hf : f.quoteTokenType = t
    · simp [addFeeForMine, hf]
    · simp [addFeeForMine, hf]

/-- Each type is recorded once in a period. -/
def RecordedOnce (db : FundDb) : Prop := ∀ q, ((feesForMineOf db q).map FeeForMine.quoteTokenType).Nodup

theorem feesForMineOf_save (db : FundDb) (current : ℕ) (fees : DexFeesByPeriod) (q : ℕ) :
    feesForMineOf (saveDexFeesByPeriodId db current fees) q = if q = current then fees.feesForMine else feesForMineOf db q := by
  unfold feesForMineOf saveDexFeesByPeriodId
  rw [get?_set]
  split_ifs <;> rfl

/-- The current pools are those recorded; rolled ones have no fees for mining yet. -/
theorem currentDexFees_feesForMine {r : FundDb × DexFeesByPeriod} (h : currentDexFees A db current = .ok r) :
    r.2.feesForMine = feesForMineOf db current ∧ r.1 = { db with lastDexFeesPeriodId := r.1.lastDexFeesPeriodId } := by
  unfold currentDexFees at h
  unfold feesForMineOf
  split at h
  · rename_i hget
    cases h
    rw [hget]
    exact ⟨rfl, rfl⟩
  · rename_i hget
    rw [hget]
    unfold rollAndGentNewDexFeesByPeriod at h
    dsimp only at h
    split_ifs at h
    · split at h
      · cases h
      · cases h
        exact ⟨rfl, rfl⟩
    · cases h
      exact ⟨rfl, rfl⟩

/-- A settlement adds the same to what the users paid and to what is recorded. -/
theorem settleFees_totals {reader : ConsensusReader} {allowMining : Bool} {tokenId : TokenId} {feeTokenDecimals : ℤ}
    {feeActions : List (Address × FeeSettle)} {feeForDividend : Option ℕ} {db' : FundDb}
    (hperiod : db.getCurrentPeriodId reader = .ok current) (h : FeesInOrder db current) (hrecorded : RecordedOnce db)
    (hsettle : settleFeesWithTokenId A db reader allowMining tokenId feeTokenDecimals t feeActions feeForDividend = .ok db') :
    db'.dexTimestamp = db.dexTimestamp ∧ FeesInOrder db' current ∧ RecordedOnce db' ∧ ∃ sum, ∀ q t',
      userTotal db' q t' = userTotal db q t' + addedAt q current t t' sum ∧
      recordedTotal db' q t' = recordedTotal db q t' + addedAt q current t t' sum := by
  obtain ⟨-, -, rfl⟩ | ⟨periodId, r, mined, hperiod', hcurrent, hmined, hdb'⟩ := settleFeesWithTokenId_ok hsettle
  · refine ⟨rfl, h, hrecorded, {}, fun q t' => ?_⟩
    have hzero : addedAt q current t t' {} = 0 := by
      unfold addedAt
      split_ifs <;> rfl
    rw [hzero]
    exact ⟨rfl, rfl⟩
  · rw [hperiod] at hperiod'
    cases hperiod'
    obtain ⟨hfees, hframe⟩ := currentDexFees_feesForMine hcurrent
    have hadded : FeesAdded r.1 mined.1 current t mined.2 := by
      refine minedFees_added ?_ ?_ allowMining feeTokenDecimals feeActions hmined
      · rw [hframe]
        rfl
      · rw [hframe]
        exact ⟨h.inOrder, h.types⟩
    have hmine : ∀ q, feesForMineOf db' q = if q = current then
        if mined.2.needAddSum then addFeeForMine (feesForMineOf db current) t mined.2 else feesForMineOf db current
        else feesForMineOf db q := by
      intro q
      have hother : feesForMineOf mined.1 q = feesForMineOf db q := by
        rw [hadded.frame, hframe]
        rfl
      rw [hdb', feesForMineOf_save, hother]
      rw [hfees]
    have htotal : ∀ q t', userTotal db' q t' = userTotal mined.1 q t' := by
      intro q t'
      rw [hdb']
      rfl
    have hbefore : ∀ q t', userTotal r.1 q t' = userTotal db q t' := by
      intro q t'
      rw [hframe]
      rfl
    refine ⟨?_, ?_, fun q => ?_, mined.2, fun q t' => ⟨?_, ?_⟩⟩
    · rw [hdb', hadded.frame, hframe]
      rfl
    · rw [hdb']
      exact ⟨hadded.inOrder.inOrder, hadded.inOrder.types⟩
    · rw [hmine]
      split_ifs
      · rw [addFeeForMine_types]
        exact withType_nodup (hrecorded current)
      · exact hrecorded current
      · exact hrecorded q
    · rw [htotal, hadded.total, hbefore]
    · unfold recordedTotal addedAt
      rw [hmine]
      by_cases hq : q = current
      · rw [if_pos hq, hq]
        by_cases hneed : mined.2.needAddSum = true
        · rw [if_pos hneed, addFeeForMine_recorded]
          simp only [true_and]
        · -- nothing is recorded, and nothing is to be added
          rw [if_neg hneed, hadded.wf (by simpa using hneed), ite_self, add_zero]
      · rw [if_neg hq, if_neg (fun h => hq h.1), add_zero]

end Totals
variable {s s' : FeeMining × ℕ}

section Handing

/-- Where the loop over the users is for a type: every reference so far was handed to the division, or the
VX of the type is used up. -/
structure Handed (t : QuoteTokenType) (feeSum : Option ℕ) (references : ℕ) (s : FeeMining) : Prop where
  le : s.dividedFee t ≤ references
  all : ∀ sum, s.feeSum t = some sum → feeSum = some sum ∧ s.dividedFee t = references
  usedUp : s.feeSum t = none → feeSum = none ∨ s.toDivideVxLeave t = 0

variable {amtForMarkets : QuoteTokenType → ℕ} {t t' : QuoteTokenType} {feeSum : Option ℕ} {references : ℕ}

variable {fee : ℕ}

theorem divideFee_other (hne : t' ≠ t) (hs : Handed t feeSum references s.1)
    (h : FeeMining.divideFee A amtForMarkets t' fee s = .ok s') : Handed t feeSum references s'.1 := by
  obtain ⟨-, rfl⟩ | ⟨feeSumAmt, p, -, -, rfl⟩ := divideFee_cases h
  · exact hs
  · have hfeeSum : (if p.finished then update s.1.feeSum t' none else s.1.feeSum) t = s.1.feeSum t := by
      split_ifs
      · exact update_of_ne hne.symm _ _
      · rfl
    constructor
    · simpa only [update_of_ne hne.symm] using hs.le
    · simpa only [hfeeSum, update_of_ne hne.symm] using hs.all
    · simpa only [hfeeSum, update_of_ne hne.symm] using hs.usedUp

theorem divideFee_handed (hs : Handed t feeSum references s.1)
    (h : FeeMining.divideFee A amtForMarkets t fee s = .ok s') : Handed t feeSum (references + fee) s'.1 := by
  obtain ⟨hnone | rfl, rfl⟩ | ⟨feeSumAmt, p, hsome, hp, rfl⟩ := divideFee_cases h
  · refine ⟨hs.le.trans (Nat.le_add_right _ _), fun sum hsum => ?_, hs.usedUp⟩
    rw [hnone] at hsum
    cases hsum
  · exact hs
  · obtain ⟨hsum, hdivided⟩ := hs.all feeSumAmt hsome
    obtain ⟨-, hrefer, hleave⟩ := divideByProportion_spec hp
    rw [hdivided] at hrefer
    cases hfinished : p.finished with
    | true =>
      -- the type ends here, with nothing left of its VX
      constructor
      · simp [hrefer]
      · simp
      · simp [hleave hfinished]
    | false =>
      constructor
      · simp [hrefer]
      · simp [hrefer, hsome, hsum]
      · simp [hsome]

/-- The references of a fee account: its fees, if they count. -/
def referenceOf (threshold : ℕ) (t : QuoteTokenType) (f : FeeAccount) : ℕ :=
  if f.quoteTokenType = t ∧ isValidFeeForMine f threshold = true then f.baseAmount + f.inviteBonusAmount else 0

theorem mineFeeAccount_handed (hs : Handed t feeSum references s.1) (h : mineFeeAccount A amtForMarkets s f = .ok s') :
    Handed t feeSum (references + referenceOf (s.1.db.getMineThreshold t) t f) s'.1 := by
  unfold mineFeeAccount at h
  unfold referenceOf
  dsimp only at h
  by_cases ht : f.quoteTokenType = t
  · rw [ht] at h
    by_cases hvalid : isValidFeeForMine f (s.1.db.getMineThreshold t) = true
    · rw [if_neg (by simp [hvalid])] at h
      rw [if_pos ⟨ht, hvalid⟩]
      obtain ⟨s₁, h₁, h⟩ := bind_ok h
      rw [← add_assoc]
      exact divideFee_handed (divideFee_handed hs h₁) h
    · rw [if_pos (by simp [hvalid])] at h
      cases h
      rw [if_neg (fun h => hvalid h.2)]
      exact hs
  · rw [if_neg (fun h => ht h.1)]
    split_ifs at h
    · cases h
      exact hs
    · obtain ⟨s₁, h₁, h⟩ := bind_ok h
      exact divideFee_other ht (divideFee_other ht hs h₁) h

def together (amounts : ℕ × ℕ) : ℕ := amounts.1 + amounts.2

theorem references_eq_zero {fees : List FeeAccount} (h : t ∉ fees.map quoteTokenType) :
    (fees.map (referenceOf threshold t)).sum = 0 := by
  rw [sum_eq_zero_iff]
  intro x hx
  obtain ⟨f, hf, rfl⟩ := mem_map.1 hx
  refine if_neg fun hvalid => h ?_
  rw [← hvalid.1]
  exact mem_map_of_mem hf

theorem references_eq_counted {fees : List FeeAccount} (h : (fees.map quoteTokenType).Nodup) :
    (fees.map (referenceOf threshold t)).sum = together (countedFees threshold t fees) := by
  induction fees with
  | nil => rfl
  | cons f fees ih =>
    rw [map_cons, nodup_cons] at h
    rw [map_cons, sum_cons, countedFees]
    by_cases ht : f.quoteTokenType = t
    · rw [if_pos ht, references_eq_zero (ht ▸ h.1), referenceOf]
      by_cases hvalid : isValidFeeForMine f threshold = true
      · rw [if_pos ⟨ht, hvalid⟩, if_pos hvalid]
        rfl
      · rw [if_neg (fun h => hvalid h.2), if_neg hvalid]
        rfl
    · rw [if_neg ht, referenceOf, if_neg (fun h => ht h.1), zero_add]
      exact ih h.2

variable {reader : ConsensusReader} {periodId : ℕ} {s s' : FeeMining}

theorem mineFeeAccounts_handed {fees : List FeeAccount} {r : FeeMining × ℕ}
    (h : (fees.map quoteTokenType).Nodup) (hs : Handed t feeSum references s)
    (hfees : fees.foldlM (mineFeeAccount A amtForMarkets) (s, 0) = .ok r) :
    Handed t feeSum (references + together (countedFees (s.db.getMineThreshold t) t fees)) r.1 := by
  rw [← references_eq_counted h]
  refine (foldlM_inv (fun done (r : FeeMining × ℕ) => Handed t feeSum
    (references + (done.map (referenceOf (s.db.getMineThreshold t) t)).sum) r.1 ∧ r.1.db = s.db) ?_ hfees ⟨hs, rfl⟩).1
  rintro done r f r' ⟨hr, hdb⟩ hstep
  refine ⟨?_, (mineFeeAccount_divides hstep).1.trans hdb⟩
  have hnext := mineFeeAccount_handed hr hstep
  rw [hdb, add_assoc] at hnext
  rwa [map_append, sum_append, map_singleton]

variable {userFees rest : List FeesByPeriod}

/-- The entry that a round uses is that of the period. -/
theorem feesAt_dropWhile {first : FeesByPeriod}
    (h : userFees.dropWhile (fun f => f.period < periodId) = first :: rest) (hfirst : first.period = periodId) :
    feesAt userFees periodId = first.fees := by
  rw [← takeWhile_append_dropWhile (l := userFees), h]
  refine feesAt_append_cons (fun f hf => ?_) hfirst
  have hlt := mem_takeWhile_imp hf
  rw [decide_eq_true_eq] at hlt
  exact hlt.ne

/-- In order, no entry after those of earlier periods is of the period if the first of them is not. -/
theorem feesAt_dropWhile_ne (h : InOrder userFees current)
    (hne : ∀ first rest, userFees.dropWhile (fun f => f.period < periodId) = first :: rest → first.period ≠ periodId) :
    feesAt userFees periodId = [] := by
  induction userFees with
  | nil => rfl
  | cons f userFees ih =>
    have hsorted := pairwise_cons.1 h.sorted
    by_cases hf : f.period < periodId
    · have htail : InOrder userFees current := ⟨hsorted.2, fun g hg => h.past g (mem_cons_of_mem f hg)⟩
      rw [dropWhile_cons_of_pos (by simpa using hf)] at hne
      rw [← ih htail hne]
      unfold feesAt
      rw [find?_cons_of_neg (by simpa using hf.ne)]
    · have hfirst := hne f userFees (dropWhile_cons_of_neg (by simpa using hf))
      refine feesAt_eq_nil fun g hg => ?_
      rcases mem_cons.1 hg with rfl | hg
      · exact hfirst
      · have hlater := hsorted.1 g.period (mem_map_of_mem hg)
        omega

/-- A round hands what the user paid and counts to the division. -/
theorem mineForFeesOf_handed {user : Address × List FeesByPeriod} (current : ℕ) (horder : InOrder user.2 current)
    (htypes : ((feesAt user.2 periodId).map quoteTokenType).Nodup) (hs : Handed t feeSum references s)
    (h : mineForFeesOf A reader periodId amtForMarkets s user = .ok s') :
    Handed t feeSum (references + together (countedFees (s.db.getMineThreshold t) t (feesAt user.2 periodId))) s' := by
  obtain ⟨fees, rfl, hnone⟩ | ⟨first, rest, r, db, hdrop, hfirst, hfees, -, rfl⟩ := mineForFeesOf_cases h
  · rw [feesAt_dropWhile_ne horder hnone]
    exact ⟨hs.le, hs.all, hs.usedUp⟩
  · rw [feesAt_dropWhile hdrop hfirst] at htypes ⊢
    have hr := mineFeeAccounts_handed htypes hs hfees
    exact ⟨hr.le, hr.all, hr.usedUp⟩

/-- The loop over the users of `DoMineVxForFee`. -/
def mineForFees (A : Arith) (reader : ConsensusReader) (db : FundDb) (periodId : ℕ) (amtForMarkets : QuoteTokenType → ℕ)
    (dexFees : Store ℕ DexFeesByPeriod) : Except DexError FeeMining :=
  db.userFees.entries.foldlM (mineForFeesOf A reader periodId amtForMarkets)
    { db := { db with dexFees := dexFees }
      feeSum := feeSumMap (feesForMineOf db periodId)
      dividedFee := fun _ => 0
      toDivideVxLeave := amtForMarkets }

theorem doMineVxForFee_eq {fees : DexFeesByPeriod} (hget : db.dexFees.get? periodId = some fees) :
    doMineVxForFee A db reader periodId amtForMarkets = (do
      let dexFees ← markFinishMine db.dexFees (db.dexFees.entries.length + 1) periodId
      let s ← mineForFees A reader db periodId amtForMarkets dexFees
      .ok (s.db, accumulateAmount s.toDivideVxLeave)) := by
  unfold doMineVxForFee mineForFees feesForMineOf
  rw [hget]
  rfl

theorem doMineVxForFee_ok {r : FundDb × ℕ} (h : doMineVxForFee A db reader periodId amtForMarkets = .ok r) :
    db.dexFees.get? periodId = none ∧ r = (db, accumulateAmount amtForMarkets) ∨
    ∃ dexFees s, mineForFees A reader db periodId amtForMarkets dexFees = .ok s ∧
      r = (s.db, accumulateAmount s.toDivideVxLeave) := by
  cases hget : db.dexFees.get? periodId with
  | none =>
    unfold doMineVxForFee at h
    rw [hget] at h
    exact .inl ⟨rfl, (Except.ok.inj h).symm⟩
  | some fees =>
    rw [doMineVxForFee_eq hget] at h
    obtain ⟨dexFees, -, h⟩ := bind_ok h
    obtain ⟨s, hrun, h⟩ := bind_ok h
    exact .inr ⟨dexFees, s, hrun, (Except.ok.inj h).symm⟩

variable {fees : List FeeForMine}

theorem feeSumMap_eq_none (h : t ∉ fees.map FeeForMine.quoteTokenType) : feeSumMap fees t = none := by
  unfold feeSumMap
  rw [find?_eq_none.2, map_none]
  intro f hf ht
  rw [decide_eq_true_eq] at ht
  rw [← ht] at h
  exact h (mem_map_of_mem (mem_reverse.1 hf))

/-- The total that the loop divides by is the recorded one. -/
theorem feeSumMap_eq (h : (fees.map FeeForMine.quoteTokenType).Nodup) :
    feeSumMap fees t = none ∧ recordedIn t fees = 0 ∨ feeSumMap fees t = some (together (recordedIn t fees)) := by
  induction fees with
  | nil => exact .inl ⟨rfl, rfl⟩
  | cons f fees ih =>
    rw [map_cons, nodup_cons] at h
    rw [recordedIn]
    by_cases ht : f.quoteTokenType = t
    · have hnone : fees.reverse.find? (fun f => f.quoteTokenType = t) = none :=
        map_eq_none_iff.1 (feeSumMap_eq_none (ht ▸ h.1))
      rw [if_pos ht, feeSumMap, reverse_cons, find?_append, hnone,
        find?_cons_of_pos (by simpa using ht)]
      exact .inr rfl
    · have hcons : feeSumMap (f :: fees) t = feeSumMap fees t := by
        rw [feeSumMap, reverse_cons, find?_append, find?_cons_of_neg (by simpa using ht), find?_nil,
          or_none]
        rfl
      rw [if_neg ht, hcons]
      exact ih h.2

theorem together_sum (store : Store Address (List FeesByPeriod)) (f : Address → List FeesByPeriod → ℕ × ℕ) :
    together (store.sum f) = (store.entries.map fun user => together (f user.1 user.2)).sum := by
  unfold Store.sum
  induction store.entries with
  | nil => rfl
  | cons user entries ih =>
    rw [map_cons, map_cons, sum_cons, sum_cons, ← ih]
    unfold together
    rw [Prod.fst_add, Prod.snd_add]
    omega

/-- The references that the loop hands to the division are all that counts of the type, unless its VX is
used up before. -/
theorem mineForFees_handed {dexFees : Store ℕ DexFeesByPeriod} (horder : FeesInOrder db current)
    (hrecorded : RecordedOnce db) (htotal : recordedTotal db periodId t = userTotal db periodId t)
    (h : mineForFees A reader db periodId amtForMarkets dexFees = .ok s) :
    s.dividedFee t ≤ together (recordedTotal db periodId t) ∧
      (s.dividedFee t = together (recordedTotal db periodId t) ∨ s.toDivideVxLeave t = 0) := by
  have hloop : Handed t (feeSumMap (feesForMineOf db periodId) t) (together (userTotal db periodId t)) s := by
    unfold userTotal
    rw [together_sum]
    refine (foldlM_inv_mem (fun done (s : FeeMining) => Handed t (feeSumMap (feesForMineOf db periodId) t)
      (done.map fun user => together (countedFees (db.getMineThreshold t) t (feesAt user.2 periodId))).sum s ∧
      s.db.mineThresholds = db.mineThresholds) ?_ h ⟨?_, rfl⟩).1
    · rintro done s user huser s' ⟨hs, hdb⟩ hstep
      have hget : db.userFees.getD user.1 [] = user.2 := getD_of_get? (get?_eq_some_iff.2 huser) []
      have hnext := mineForFeesOf_handed current (by rw [← hget]; exact horder.inOrder user.1)
        (by rw [← hget]; exact horder.types user.1 periodId) hs hstep
      have hthreshold : s.db.getMineThreshold t = db.getMineThreshold t := by
        unfold FundDb.getMineThreshold
        rw [hdb]
      rw [hthreshold] at hnext
      refine ⟨?_, ?_⟩
      · rwa [map_append, sum_append, map_singleton]
      · rw [mineForFeesOf_frame hstep]
        exact hdb
    · constructor
      · exact Nat.zero_le _
      · exact fun sum hsum => ⟨hsum, rfl⟩
      · exact fun hnone => .inl hnone
  rw [htotal]
  refine ⟨hloop.le, ?_⟩
  cases hsum : s.feeSum t with
  | some sum => exact .inl (hloop.all sum hsum).2
  | none =>
    rcases hloop.usedUp hsum with hnone | hleave
    · -- no entry of the type: nothing counts and nothing was handed over
      rcases feeSumMap_eq (hrecorded periodId) with ⟨-, hzero⟩ | hsome
      · rw [← htotal, recordedTotal, hzero] at hloop ⊢
        exact .inl (Nat.le_zero.1 hloop.le)
      · rw [hsome] at hnone
        cases hnone
    · exact .inr hleave

end Handing

end GoVite.Dex

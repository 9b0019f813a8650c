import GoVite.Spec.Dex.Matcher

/-! What one transaction does to an order. `SubBigIntAbs` hides a negative difference; the bounds of `Bounded` make each
subtraction exact and are kept. -/

namespace GoVite.Dex

section Upgrades
variable {hp : HeightPoint} (h : hp.isVersion12Upgrade = true)
include h

theorem HeightPoint.isDexFee_of_v12 : hp.isDexFeeUpgrade = true := by
  simp only [isVersion12Upgrade, isDexFeeUpgrade, decide_eq_true_eq] at h ⊢
  omega

theorem HeightPoint.isEarth_of_v12 : hp.isEarthUpgrade = true := by
  simp only [isVersion12Upgrade, isEarthUpgrade, decide_eq_true_eq] at h ⊢
  omega

theorem HeightPoint.isVersion11_of_v12 : hp.isVersion11Upgrade = true := by
  simp only [isVersion12Upgrade, isVersion11Upgrade, decide_eq_true_eq] at h ⊢
  omega

end Upgrades

theorem subBigIntAbs_of_le {a b : ℕ} (h : b ≤ a) : subBigIntAbs a b = a - b := by
  unfold subBigIntAbs
  omega

/-- The executed part of an order stays within the order and within its lock. -/
structure Order.Bounded (o : Order) : Prop where
  quantity : o.executedQuantity ≤ o.quantity
  amount : o.side = false → o.executedAmount ≤ o.amount
  fee : o.side = false → o.executedBaseFee + o.executedOperatorFee ≤ o.lockedBuyFee

/-- What an order still holds of the funds locked for it. -/
def Order.reserved (o : Order) : ℕ :=
  match o.side with
  | false => (o.amount - o.executedAmount) + (o.lockedBuyFee - o.executedBaseFee - o.executedOperatorFee)
  | true => o.quantity - o.executedQuantity

variable {o : Order} (A : Arith)

theorem calculateRefund_eq (h : o.Bounded) : calculateRefund o = o.reserved := by
  unfold calculateRefund Order.reserved
  cases hs : o.side with
  | false =>
    have hfee := h.fee hs
    rw [subBigIntAbs_of_le (h.amount hs), subBigIntAbs_of_le (a := o.lockedBuyFee) (by omega),
      subBigIntAbs_of_le (by omega)]
  | true => exact subBigIntAbs_of_le h.quantity

structure Order.Fresh (o : Order) : Prop where
  status : o.status = .pending
  cancelReason : o.cancelReason = .cancelledByUser
  executedQuantity : o.executedQuantity = 0
  executedAmount : o.executedAmount = 0
  executedBaseFee : o.executedBaseFee = 0
  executedOperatorFee : o.executedOperatorFee = 0

theorem Order.Fresh.not_finished (h : o.Fresh) : ¬o.finished := by simp [Order.finished, h.status]

theorem Order.Fresh.bounded (h : o.Fresh) : o.Bounded := by
  refine ⟨?_, fun _ => ?_, fun _ => ?_⟩
  · rw [h.executedQuantity]; exact Nat.zero_le _
  · rw [h.executedAmount]; exact Nat.zero_le _
  · rw [h.executedBaseFee, h.executedOperatorFee]; exact Nat.zero_le _

def Order.wholeLock (o : Order) : ℕ := if o.side then o.quantity else o.amount + o.lockedBuyFee

theorem Order.Fresh.reserved (h : o.Fresh) : o.reserved = o.wholeLock := by
  unfold Order.reserved Order.wholeLock
  cases hs : o.side with
  | false => simp [h.executedAmount, h.executedBaseFee, h.executedOperatorFee]
  | true => simp [h.executedQuantity]

section Fees
variable (amount : ℕ) (rate : ℤ) (origin : ℕ) {locked : ℕ} {used : List ℕ}

theorem calculateExecutedFee_new (side : Bool) :
    (calculateExecutedFee A amount rate side origin locked used).newExecutedFee =
      origin + (calculateExecutedFee A amount rate side origin locked used).incFee := by
  unfold calculateExecutedFee
  cases side <;> dsimp only <;> split_ifs <;> rfl

/-- A buyer's fee never takes more than its lock has left. -/
theorem calculateExecutedFee_buy_le (h : used.sum ≤ locked) :
    used.sum + (calculateExecutedFee A amount rate false origin locked used).incFee ≤ locked := by
  unfold calculateExecutedFee
  dsimp only
  split_ifs with h0 h1 h2
  · exact h
  · exact h
  · dsimp only
    rw [subBigIntAbs_of_le h]
    omega
  · dsimp only
    omega

/-- A fee is at most what the rate gives. -/
theorem calculateExecutedFee_inc_le (side : Bool) :
    (calculateExecutedFee A amount rate side origin locked used).incFee ≤ A.calculateAmountForRate amount rate := by
  unfold calculateExecutedFee
  cases side with
  | false =>
    dsimp only
    split_ifs with h0 h1 h2
    · exact Nat.zero_le _
    · exact Nat.zero_le _
    · dsimp only
      rw [subBigIntAbs_of_le (by omega)]
      omega
    · exact le_rfl
  | true =>
    split_ifs
    · exact Nat.zero_le _
    · exact le_rfl

end Fees

section OrderFees
variable (amount : ℕ) (rate operatorRate : ℤ) {hp : HeightPoint}

theorem calculateFee_new (hfee : hp.isDexFeeUpgrade = true) :
    let fees := calculateFeeAndExecutedFee A o amount rate operatorRate hp
    fees.executedBaseFee = o.executedBaseFee + fees.incBaseFee
      ∧ fees.executedOperatorFee = o.executedOperatorFee + fees.incOperatorFee := by
  unfold calculateFeeAndExecutedFee
  dsimp only
  split_ifs
  · exact ⟨calculateExecutedFee_new _ _ _ _ _, calculateExecutedFee_new _ _ _ _ _⟩
  · exact ⟨calculateExecutedFee_new _ _ _ _ _, rfl⟩

theorem calculateFee_buy_le (hs : o.side = false) (h : o.Bounded) (hfee : hp.isDexFeeUpgrade = true) :
    let fees := calculateFeeAndExecutedFee A o amount rate operatorRate hp
    fees.executedBaseFee + fees.executedOperatorFee ≤ o.lockedBuyFee := by
  have hused : [o.executedBaseFee, o.executedOperatorFee].sum ≤ o.lockedBuyFee := by simpa using h.fee hs
  unfold calculateFeeAndExecutedFee
  simp only [hs]
  -- the base fee is taken first; the operator fee sees it as used
  have hbase := calculateExecutedFee_buy_le A amount rate o.executedBaseFee hused
  set base := calculateExecutedFee A amount rate false o.executedBaseFee o.lockedBuyFee
    [o.executedBaseFee, o.executedOperatorFee]
  have hnew : base.newExecutedFee = o.executedBaseFee + base.incFee := calculateExecutedFee_new _ _ _ _ _
  have hleft : [base.newExecutedFee, o.executedOperatorFee].sum ≤ o.lockedBuyFee := by
    simp only [List.sum_cons] at hbase ⊢
    omega
  split_ifs
  · have hop := calculateExecutedFee_buy_le A amount operatorRate o.executedOperatorFee hleft
    set operator := calculateExecutedFee A amount operatorRate false o.executedOperatorFee o.lockedBuyFee
      [base.newExecutedFee, o.executedOperatorFee]
    have hopNew : operator.newExecutedFee = o.executedOperatorFee + operator.incFee :=
      calculateExecutedFee_new _ _ _ _ _
    simp only [List.sum_cons] at hop
    dsimp only
    omega
  · simpa using hleft

theorem calculateFee_inc_le :
    let fees := calculateFeeAndExecutedFee A o amount rate operatorRate hp
    fees.incBaseFee ≤ A.calculateAmountForRate amount rate
      ∧ fees.incOperatorFee ≤ A.calculateAmountForRate amount operatorRate := by
  unfold calculateFeeAndExecutedFee
  dsimp only
  split_ifs
  · exact ⟨calculateExecutedFee_inc_le _ _ _ _ _, calculateExecutedFee_inc_le _ _ _ _ _⟩
  · exact ⟨calculateExecutedFee_inc_le _ _ _ _ _, Nat.zero_le _⟩
  · exact ⟨calculateExecutedFee_inc_le _ _ _ _ _, Nat.zero_le _⟩

end OrderFees

section Execution

/-- An order after a transaction of the given quantity, amount and fees. -/
def Order.execute (o : Order) (quantity amount fee operatorFee : ℕ) (status : OrderStatus) : Order :=
  { o with
    status := status
    executedQuantity := o.executedQuantity + quantity
    executedAmount := o.executedAmount + amount
    executedBaseFee := o.executedBaseFee + fee
    executedOperatorFee := o.executedOperatorFee + operatorFee }

/-- A transaction takes one order from `o` to `o'`, within what `o` has left. -/
structure Executes (o : Order) (quantity amount fee operatorFee : ℕ) (o' : Order) : Prop where
  eq : o' = o.execute quantity amount fee operatorFee o'.status
  status : o'.status = .fullyExecuted ∨ o'.status = .partialExecuted
  quantity : o.executedQuantity + quantity ≤ o.quantity
  amount : o.side = false → o.executedAmount + amount ≤ o.amount
  fee : o.side = false → o.executedBaseFee + fee + (o.executedOperatorFee + operatorFee) ≤ o.lockedBuyFee

theorem Executes.bounded {o o' : Order} {q a f p : ℕ} (h : Executes o q a f p o') : o'.Bounded := by
  rw [h.eq]
  exact ⟨h.quantity, h.amount, h.fee⟩

def usedLock (side : Bool) (quantity amount fee operatorFee : ℕ) : ℕ :=
  match side with
  | false => amount + (fee + operatorFee)
  | true => quantity

@[simp] theorem Order.side_execute (o : Order) (q a f p : ℕ) (st : OrderStatus) :
    (o.execute q a f p st).side = o.side := rfl

theorem Executes.reserved {o o' : Order} {q a f p : ℕ} (h : Executes o q a f p o') :
    o.reserved = o'.reserved + usedLock o.side q a f p := by
  have hq := h.quantity
  rw [h.eq]
  cases hs : o.side with
  | false =>
    have ha := h.amount hs
    have hf := h.fee hs
    simp only [Order.reserved, Order.side_execute, hs, usedLock]
    dsimp only [Order.execute]
    omega
  | true =>
    simp only [Order.reserved, Order.side_execute, hs, usedLock]
    dsimp only [Order.execute]
    omega

section Update
variable (q a f p : ℕ) (d : ℤ) (price : Price) (hp : HeightPoint)

theorem updateOrder_eq : updateOrder A o q a f p d price hp =
      { o with
        status := (updateOrder A o q a f p d price hp).status
        executedAmount := o.executedAmount + a
        executedBaseFee := f
        executedOperatorFee := p
        executedQuantity := o.executedQuantity + q } := by
  unfold updateOrder
  split_ifs <;> rfl

theorem updateOrder_status_cases : (updateOrder A o q a f p d price hp).status = .fullyExecuted
      ∨ (updateOrder A o q a f p d price hp).status = .partialExecuted := by
  unfold updateOrder updateOrderAfterUpgrade12 updateOrderBeforeUpgrade12
  dsimp only
  split_ifs <;> simp

variable (hm : o.type ≠ .market)
include hm

/-- An order with a price is filled by its last quantity, or when the rest is worth less than one. -/
theorem updateOrder_status_priced : (updateOrder A o q a f p d price hp).status =
    if subBigIntAbs o.quantity o.executedQuantity = q
        ∨ A.calculateRawAmountF (subBigIntAbs (subBigIntAbs o.quantity o.executedQuantity) q) o.price d < 1
      then .fullyExecuted else .partialExecuted := by
  by_cases hv : hp.isVersion12Upgrade = true
  · rw [updateOrder, if_pos hv]
    refine if_congr ?_ rfl rfl
    rw [isDustOrderAfterUpgrade12, if_pos hm, isOrderDustForPrice, decide_eq_true_iff]
    tauto
  · rw [updateOrder, if_neg hv]
    refine if_congr (or_congr Iff.rfl ?_) rfl rfl
    rw [isDustOrder, if_pos hm, isOrderDustForPrice, decide_eq_true_iff, or_iff_right (fun h => hm h.1)]
    rfl

omit hm

theorem updateOrder_status_rest (hq : subBigIntAbs o.quantity o.executedQuantity = q) :
    (updateOrder A o q a f p d price hp).status = .fullyExecuted := by
  unfold updateOrder updateOrderAfterUpgrade12 updateOrderBeforeUpgrade12
  simp [hq]

theorem calculateOrderAmount_le (h : o.Bounded) (hs : o.side = false) :
    o.executedAmount + calculateOrderAmount A o q price d ≤ o.amount := by
  have ha := h.amount hs
  unfold calculateOrderAmount
  simp only [hs, Bool.not_false, true_and]
  split_ifs with hlt
  · rw [subBigIntAbs_of_le ha]
    omega
  · omega

end Update

def takerQuantity (A : Arith) (t m : Order) (mi : MarketInfo) (hp : HeightPoint) : ℕ :=
  if hp.isVersion12Upgrade then takerQuantityAfterUpgrade12 A t m mi else subBigIntAbs t.quantity t.executedQuantity

variable {t m : Order} {mi : MarketInfo} {hp : HeightPoint}

section
variable (t m mi hp)

theorem calculateOrderAndTx_eq : calculateOrderAndTx A t m mi hp =
    executeOrders A (fun o q a f p d price => updateOrder A o q a f p d price hp)
      (takerQuantity A t m mi hp) t m mi hp := by
  by_cases hv : hp.isVersion12Upgrade = true
  · simp only [calculateOrderAndTx, takerQuantity, hv, if_true, calculateOrderAndTxAfterUpgrade12,
      updateOrder]
  · simp only [calculateOrderAndTx, takerQuantity, if_neg hv, calculateOrderAndTxBeforeUpgrade12]

theorem takerQuantity_le : takerQuantity A t m mi hp ≤ subBigIntAbs t.quantity t.executedQuantity := by
  unfold takerQuantity takerQuantityAfterUpgrade12
  split_ifs
  · exact min_le_left _ _
  · exact le_rfl
  · exact le_rfl

theorem taker_status_cases : (calculateOrderAndTx A t m mi hp).taker.status = .fullyExecuted
      ∨ (calculateOrderAndTx A t m mi hp).taker.status = .partialExecuted := by
  rw [calculateOrderAndTx_eq]
  exact updateOrder_status_cases _ _ _ _ _ _ _ _

theorem taker_cancelReason : (calculateOrderAndTx A t m mi hp).taker.cancelReason = t.cancelReason := by
  rw [calculateOrderAndTx_eq]
  dsimp only [executeOrders]
  rw [updateOrder_eq]

variable {t} in
theorem takerQuantity_priced (hm : t.type ≠ .market) :
    takerQuantity A t m mi hp = subBigIntAbs t.quantity t.executedQuantity := by
  unfold takerQuantity takerQuantityAfterUpgrade12
  simp [hm]

end

/-- One side of a transaction whose quantity and amount are within the order. -/
theorem Executes.update {q a : ℕ} (rate operatorRate d : ℤ) (price : Price) (h : o.Bounded)
    (hfee : hp.isDexFeeUpgrade = true) (hq : q ≤ subBigIntAbs o.quantity o.executedQuantity)
    (ha : o.side = false → o.executedAmount + a ≤ o.amount) :
    let fees := calculateFeeAndExecutedFee A o a rate operatorRate hp
    Executes o q a fees.incBaseFee fees.incOperatorFee
      (updateOrder A o q a fees.executedBaseFee fees.executedOperatorFee d price hp) := by
  intro fees
  obtain ⟨hbase, hoperator⟩ := calculateFee_new A a rate operatorRate hfee
  refine ⟨?_, updateOrder_status_cases _ _ _ _ _ _ _ _, ?_, ha, fun hs => ?_⟩
  · rw [updateOrder_eq, Order.execute, hbase, hoperator]
  · rw [subBigIntAbs_of_le h.quantity] at hq
    have hle := h.quantity
    omega
  · rw [← hbase, ← hoperator]
    exact calculateFee_buy_le A _ _ _ hs h hfee

/-- Both sides of a transaction pay for the same quantity and amount, each within its own order. -/
theorem executes_taker (m : Order) (mi : MarketInfo) (h : t.Bounded) (hfee : hp.isDexFeeUpgrade = true) :
    let e := calculateOrderAndTx A t m mi hp
    Executes t e.tx.quantity e.tx.amount e.tx.takerFee e.tx.takerOperatorFee e.taker := by
  rw [calculateOrderAndTx_eq]
  refine .update A _ _ _ _ h hfee ((min_le_left _ _).trans (takerQuantity_le A t m mi hp)) fun hs => ?_
  exact (Nat.add_le_add_left (min_le_left _ _) _).trans (calculateOrderAmount_le A _ _ _ h hs)

theorem executes_maker (t : Order) (mi : MarketInfo) (h : m.Bounded) (hfee : hp.isDexFeeUpgrade = true) :
    let e := calculateOrderAndTx A t m mi hp
    Executes m e.tx.quantity e.tx.amount e.tx.makerFee e.tx.makerOperatorFee e.maker := by
  rw [calculateOrderAndTx_eq]
  refine .update A _ _ _ _ h hfee (min_le_right _ _) fun hs => ?_
  exact (Nat.add_le_add_left (min_le_right _ _) _).trans (calculateOrderAmount_le A _ _ _ h hs)

variable {A} in
/-- A taker with a price that is not filled has used up the maker. -/
theorem maker_filled_of_taker_partial (hm : t.type ≠ .market)
    (hpart : (calculateOrderAndTx A t m mi hp).taker.status ≠ .fullyExecuted) :
    (calculateOrderAndTx A t m mi hp).maker.status = .fullyExecuted := by
  have hq := takerQuantity_priced A m mi hp hm
  rw [calculateOrderAndTx_eq] at hpart ⊢
  refine updateOrder_status_rest _ _ _ _ _ _ _ _ ?_
  by_contra hne
  refine hpart (updateOrder_status_rest _ _ _ _ _ _ _ _ ?_)
  omega

end Execution

end GoVite.Dex

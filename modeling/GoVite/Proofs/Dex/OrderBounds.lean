import GoVite.Sanity.Dex.PlaceOrder

/-! The life of one order, from its creation through every transaction: its executed amounts stay within the order, and
no subtraction is asked for a negative difference. -/

namespace GoVite.Dex

variable {a q f p : ℕ} {o' : Order} {A : Arith}

section Subtractions

/-! The argument pairs of the `SubBigIntAbs` calls, function by function. -/

def orderAmountSubs (A : Arith) (order : Order) (quantity : ℕ) (price : Price) (decimalsDiff : ℤ) : List (ℕ × ℕ) :=
  if !order.side ∧ order.amount < order.executedAmount + A.calculateRawAmount quantity price decimalsDiff then
    [(order.amount, order.executedAmount)]
  else []

def executedFeeSubs (A : Arith) (amount : ℕ) (feeRate : ℤ) (side : Bool) (totalLockedAmount : ℕ)
    (usedAmounts : List ℕ) : List (ℕ × ℕ) :=
  if feeRate ≠ 0 ∧ !side ∧ usedAmounts.sum < totalLockedAmount
      ∧ totalLockedAmount ≤ usedAmounts.sum + A.calculateAmountForRate amount feeRate then
    [(totalLockedAmount, usedAmounts.sum)]
  else []

def feeSubs (A : Arith) (order : Order) (amount : ℕ) (feeRate operatorFeeRate : ℤ) : List (ℕ × ℕ) :=
  let base := calculateExecutedFee A amount feeRate order.side order.executedBaseFee order.lockedBuyFee
    [order.executedBaseFee, order.executedOperatorFee]
  executedFeeSubs A amount feeRate order.side order.lockedBuyFee [order.executedBaseFee, order.executedOperatorFee]
    ++ if base.leaved then executedFeeSubs A amount operatorFeeRate order.side order.lockedBuyFee
        [base.newExecutedFee, order.executedOperatorFee]
      else []

def updateOrderSubs (order : Order) (quantity amount : ℕ) : List (ℕ × ℕ) :=
  [(order.quantity, order.executedQuantity)]
    ++ (if order.type = .market ∧ !order.side then [(order.amount, order.executedAmount)] else [])
    ++ if order.type ≠ .market then
        [(order.quantity, order.executedQuantity), (subBigIntAbs order.quantity order.executedQuantity, quantity)]
      else if !order.side then
        [(order.amount, order.executedAmount), (subBigIntAbs order.amount order.executedAmount, amount)]
      else []

def calculateOrderAndTxSubs (A : Arith) (taker maker : Order) (mi : MarketInfo) (hp : HeightPoint) : List (ℕ × ℕ) :=
  let decimalsDiff := mi.tradeTokenDecimals - mi.quoteTokenDecimals
  let tx := (calculateOrderAndTx A taker maker mi hp).tx
  [(taker.quantity, taker.executedQuantity)]
    ++ (if taker.type = .market ∧ !taker.side then [(taker.amount, taker.executedAmount)] else [])
    ++ [(maker.quantity, maker.executedQuantity)]
    ++ orderAmountSubs A taker tx.quantity maker.price decimalsDiff
    ++ orderAmountSubs A maker tx.quantity maker.price decimalsDiff
    ++ feeSubs A taker tx.amount taker.takerFeeRate taker.takerOperatorFeeRate
    ++ feeSubs A maker tx.amount maker.makerFeeRate maker.makerOperatorFeeRate
    ++ updateOrderSubs taker tx.quantity tx.amount
    ++ updateOrderSubs maker tx.quantity tx.amount

def handleRefundSubs (order : Order) : List (ℕ × ℕ) :=
  if order.side then [(order.quantity, order.executedQuantity)]
  else [(order.amount, order.executedAmount), (order.lockedBuyFee, order.executedBaseFee),
    (subBigIntAbs order.lockedBuyFee order.executedBaseFee, order.executedOperatorFee)]

/-- Every subtraction of the list takes a smaller number from a larger one. -/
def SubsExact (subs : List (ℕ × ℕ)) : Prop := ∀ p ∈ subs, p.2 ≤ p.1

variable {l l' : List (ℕ × ℕ)}

theorem SubsExact.append (h : SubsExact l) (h' : SubsExact l') : SubsExact (l ++ l') := List.forall_mem_append.2 ⟨h, h'⟩

theorem subsExact_nil : SubsExact [] := List.forall_mem_nil _

theorem SubsExact.cons {b : ℕ} (h : b ≤ a) (hl : SubsExact l) : SubsExact ((a, b) :: l) := List.forall_mem_cons.2 ⟨h, hl⟩

theorem subsExact_single {b : ℕ} (h : b ≤ a) : SubsExact [(a, b)] := subsExact_nil.cons h

variable {o : Order}

theorem orderAmountSubs_exact (h : o.Bounded) (q : ℕ) (price : Price) (d : ℤ) :
    SubsExact (orderAmountSubs A o q price d) := by
  unfold orderAmountSubs
  split_ifs with hc
  · exact subsExact_single (h.amount (by simpa using hc.1))
  · exact subsExact_nil

theorem executedFeeSubs_exact (amount : ℕ) (rate : ℤ) (side : Bool) (locked : ℕ) (used : List ℕ) :
    SubsExact (executedFeeSubs A amount rate side locked used) := by
  unfold executedFeeSubs
  split_ifs with hc
  · exact subsExact_single hc.2.2.1.le
  · exact subsExact_nil

theorem feeSubs_exact (amount : ℕ) (rate operatorRate : ℤ) : SubsExact (feeSubs A o amount rate operatorRate) := by
  refine (executedFeeSubs_exact _ _ _ _ _).append ?_
  split_ifs
  · exact executedFeeSubs_exact _ _ _ _ _
  · exact subsExact_nil

theorem updateOrderSubs_exact (h : o.Bounded) (he : Executes o q a f p o') : SubsExact (updateOrderSubs o q a) := by
  have hq : q ≤ subBigIntAbs o.quantity o.executedQuantity := by
    have := he.quantity
    rw [subBigIntAbs_of_le h.quantity]
    omega
  refine ((subsExact_single h.quantity).append ?_).append ?_
  · split_ifs with hc
    · exact subsExact_single (h.amount (by simpa using hc.2))
    · exact subsExact_nil
  · split_ifs with hm hs
    · exact (subsExact_single hq).cons h.quantity
    · have hs' : o.side = false := by simpa using hs
      refine (subsExact_single ?_).cons (h.amount hs')
      have := he.amount hs'
      rw [subBigIntAbs_of_le (h.amount hs')]
      omega
    · exact subsExact_nil

variable {t m : Order}

theorem calculateOrderAndTxSubs_exact (ht : t.Bounded) (hm : m.Bounded) (mi : MarketInfo)
    {hp : HeightPoint} (hfee : hp.isDexFeeUpgrade = true) : SubsExact (calculateOrderAndTxSubs A t m mi hp) := by
  refine SubsExact.append (SubsExact.append (SubsExact.append (SubsExact.append (SubsExact.append (SubsExact.append
    (SubsExact.append (SubsExact.append (subsExact_single ht.quantity) ?_) (subsExact_single hm.quantity))
    (orderAmountSubs_exact ht _ _ _)) (orderAmountSubs_exact hm _ _ _)) (feeSubs_exact _ _ _)) (feeSubs_exact _ _ _))
    (updateOrderSubs_exact ht (executes_taker A m mi ht hfee))) (updateOrderSubs_exact hm (executes_maker A t mi hm hfee))
  split_ifs with hc
  · exact subsExact_single (ht.amount (by simpa using hc.2))
  · exact subsExact_nil

theorem handleRefundSubs_exact (h : o.Bounded) : SubsExact (handleRefundSubs o) := by
  unfold handleRefundSubs
  split_ifs with hs
  · exact subsExact_single h.quantity
  · have hs' : o.side = false := by simpa using hs
    have hfee := h.fee hs'
    refine SubsExact.cons (h.amount hs') (SubsExact.cons (by omega) (subsExact_single ?_))
    rw [subBigIntAbs_of_le (by omega)]
    omega

end Subtractions

variable (A) in
/-- The orders one created order goes through, with the fees of its transactions, whose other side is any order at all.
A killed order is reset and its transactions are dropped. -/
inductive OrderRun : Order → List (ℕ × ℕ) → Prop
  | created {db db' : FundDb} {param : ParamPlaceOrder} {address : Address} {agent : Option Address}
      {sendHash : Hash} {o : Order} (h : doPlaceOrder A db param address agent sendHash = .ok (db', o)) :
      OrderRun o []
  | taker {o : Order} {fees : List (ℕ × ℕ)} (maker : Order) (mi : MarketInfo) (hp : HeightPoint)
      (hv : hp.isVersion12Upgrade = true) (h : OrderRun o fees) :
      OrderRun (calculateOrderAndTx A o maker mi hp).taker (fees ++
        [((calculateOrderAndTx A o maker mi hp).tx.takerFee, (calculateOrderAndTx A o maker mi hp).tx.takerOperatorFee)])
  | maker {o : Order} {fees : List (ℕ × ℕ)} (taker : Order) (mi : MarketInfo) (hp : HeightPoint)
      (hv : hp.isVersion12Upgrade = true) (h : OrderRun o fees) :
      OrderRun (calculateOrderAndTx A taker o mi hp).maker (fees ++
        [((calculateOrderAndTx A taker o mi hp).tx.makerFee, (calculateOrderAndTx A taker o mi hp).tx.makerOperatorFee)])
  | restated {o : Order} {fees : List (ℕ × ℕ)} (status : OrderStatus) (reason : CancelReason)
      (token : Option TokenId) (refund : ℕ) (h : OrderRun o fees) :
      OrderRun { o with status := status, cancelReason := reason, refundToken := token, refundQuantity := refund } fees
  | killed {o : Order} {fees : List (ℕ × ℕ)} (reason : CancelReason) (h : OrderRun o fees) :
      OrderRun (resetExecuted o reason) []

variable {o : Order} {fees : List (ℕ × ℕ)}

theorem OrderRun.bounded (h : OrderRun A o fees) : o.Bounded := by
  induction h with
  | created h =>
    obtain ⟨mi, account, hplaced⟩ := doPlaceOrder_placed h
    exact hplaced.fresh.bounded
  | taker maker mi hp hv h ih => exact (executes_taker A maker mi ih (HeightPoint.isDexFee_of_v12 hv)).bounded
  | maker taker mi hp hv h ih => exact (executes_maker A taker mi ih (HeightPoint.isDexFee_of_v12 hv)).bounded
  | restated status reason token refund h ih => exact ⟨ih.quantity, ih.amount, ih.fee⟩
  | killed reason h ih => exact ⟨Nat.zero_le _, fun _ => Nat.zero_le _, fun _ => Nat.zero_le _⟩

theorem Executes.baseFee (h : Executes o q a f p o') : o'.executedBaseFee = o.executedBaseFee + f := by
  rw [h.eq]
  rfl

theorem Executes.operatorFee (h : Executes o q a f p o') : o'.executedOperatorFee = o.executedOperatorFee + p := by
  rw [h.eq]
  rfl

theorem Executes.charged (h : Executes o q a f p o')
    (ih : o.executedBaseFee = (fees.map Prod.fst).sum ∧ o.executedOperatorFee = (fees.map Prod.snd).sum) :
    o'.executedBaseFee = ((fees ++ [(f, p)]).map Prod.fst).sum
      ∧ o'.executedOperatorFee = ((fees ++ [(f, p)]).map Prod.snd).sum := by
  rw [h.baseFee, h.operatorFee, ih.1, ih.2]
  simp

theorem OrderRun.charged (h : OrderRun A o fees) :
    o.executedBaseFee = (fees.map Prod.fst).sum ∧ o.executedOperatorFee = (fees.map Prod.snd).sum := by
  induction h with
  | created h =>
    obtain ⟨mi, account, hplaced⟩ := doPlaceOrder_placed h
    exact ⟨hplaced.fresh.executedBaseFee, hplaced.fresh.executedOperatorFee⟩
  | taker maker mi hp hv h ih => exact (executes_taker A maker mi h.bounded (HeightPoint.isDexFee_of_v12 hv)).charged ih
  | maker taker mi hp hv h ih => exact (executes_maker A taker mi h.bounded (HeightPoint.isDexFee_of_v12 hv)).charged ih
  | restated status reason token refund h ih => exact ih
  | killed reason h ih => exact ⟨rfl, rfl⟩

/-- Along every life of an order its executed parts stay within the order and its lock, its executed fees are the sums
of those it was charged, and every subtraction is exact. -/
theorem order_arithmetic_never_negative (h : OrderRun A o fees) :
    o.executedQuantity ≤ o.quantity
    ∧ (o.side = false → o.executedAmount ≤ o.amount
        ∧ o.executedBaseFee + o.executedOperatorFee ≤ o.lockedBuyFee)
    ∧ o.executedBaseFee = (fees.map Prod.fst).sum ∧ o.executedOperatorFee = (fees.map Prod.snd).sum
    ∧ (∀ (other : Order) (mi : MarketInfo) (hp : HeightPoint), hp.isVersion12Upgrade = true →
        o.executedBaseFee ≤ (calculateOrderAndTx A o other mi hp).taker.executedBaseFee
        ∧ o.executedOperatorFee ≤ (calculateOrderAndTx A o other mi hp).taker.executedOperatorFee
        ∧ o.executedBaseFee ≤ (calculateOrderAndTx A other o mi hp).maker.executedBaseFee
        ∧ o.executedOperatorFee ≤ (calculateOrderAndTx A other o mi hp).maker.executedOperatorFee)
    ∧ (∀ (other : Order) (otherFees : List (ℕ × ℕ)) (mi : MarketInfo) (hp : HeightPoint),
        OrderRun A other otherFees → hp.isVersion12Upgrade = true → SubsExact (calculateOrderAndTxSubs A o other mi hp))
    ∧ SubsExact (handleRefundSubs o) := by
  have hb := h.bounded
  refine ⟨hb.quantity, fun hs => ⟨hb.amount hs, hb.fee hs⟩, h.charged.1, h.charged.2, ?_, ?_, handleRefundSubs_exact hb⟩
  · intro other mi hp hv
    have ht := executes_taker A other mi hb (HeightPoint.isDexFee_of_v12 hv)
    have hm := executes_maker A other mi hb (HeightPoint.isDexFee_of_v12 hv)
    exact ⟨by rw [ht.baseFee]; omega, by rw [ht.operatorFee]; omega, by rw [hm.baseFee]; omega,
      by rw [hm.operatorFee]; omega⟩
  · intro other otherFees mi hp hother hv
    exact calculateOrderAndTxSubs_exact hb hother.bounded mi (HeightPoint.isDexFee_of_v12 hv)

section Sample
open KeyStore ByteString List

/-- A market between tokens 6 and 7, both with 18 decimals. -/
def sampleMarket : MarketInfo :=
  { marketId := 1, tradeToken := 6, quoteToken := 7, tradeTokenDecimals := 18, quoteTokenDecimals := 18,
    takerOperatorFeeRate := 100, makerOperatorFeeRate := 50 }

/-- User 1 holds the quote token, user 2 the trade token. -/
def sampleFund : FundDb :=
  { heightPoint := ⟨12⟩
    dexTimestamp := 1600000000
    accounts := (Store.empty.set (accountKey 1 7) { available := 10 ^ 21 }).set (accountKey 2 6) { available := 10 ^ 21 }
    marketInfos := Store.empty.set (toLex (6, 7)) sampleMarket }

def sampleParam (side : Bool) : ParamPlaceOrder :=
  { tradeToken := 6, quoteToken := 7, side := side, orderType := .limited, price := Bytes.ofNat 10 (2 ^ 40),
    quantity := 2 * 10 ^ 20 }

variable {ε α : Type}

theorem exists_of_isOk {x : Except ε α} (h : x.isOk = true) : ∃ a, x = .ok a := by
  cases x with
  | error e => cases h
  | ok a => exact ⟨a, rfl⟩

/-- A buy and a sell are placed and matched against each other. -/
theorem order_arithmetic_never_negative_matched : ∃ buy sell : Order,
    (calculateOrderAndTx goArith buy sell sampleMarket ⟨12⟩).taker.executedBaseFee = 4 * 10 ^ 17
    ∧ (calculateOrderAndTx goArith buy sell sampleMarket ⟨12⟩).taker.executedQuantity
      ≤ (calculateOrderAndTx goArith buy sell sampleMarket ⟨12⟩).taker.quantity
    ∧ SubsExact (handleRefundSubs (calculateOrderAndTx goArith buy sell sampleMarket ⟨12⟩).taker) := by
  obtain ⟨⟨db, buy⟩, hbuy⟩ := exists_of_isOk
    (x := doPlaceOrder goArith sampleFund (sampleParam false) 1 none 9) (by decide +kernel)
  obtain ⟨⟨db', sell⟩, hsell⟩ := exists_of_isOk
    (x := doPlaceOrder goArith sampleFund (sampleParam true) 2 none 8) (by decide +kernel)
  have hrun := OrderRun.taker sell sampleMarket ⟨12⟩ (by decide) (OrderRun.created hbuy)
  obtain ⟨hq, -, -, -, -, -, hrefund⟩ := order_arithmetic_never_negative hrun
  have hfee : ((doPlaceOrder goArith sampleFund (sampleParam false) 1 none 9).toOption.bind fun b =>
      (doPlaceOrder goArith sampleFund (sampleParam true) 2 none 8).toOption.map fun s =>
        (calculateOrderAndTx goArith b.2 s.2 sampleMarket ⟨12⟩).taker.executedBaseFee) = some (4 * 10 ^ 17) := by
    decide +kernel
  rw [hbuy, hsell] at hfee
  exact ⟨buy, sell, Option.some.inj hfee, hq, hrefund⟩

end Sample

end GoVite.Dex

import GoVite.Proofs.Dex.OrderBounds
import GoVite.Sanity.Dex.MatchOrder

/-! What one taker moves between users: the quote token that leaves the buyers' locks arrives at the sellers and in the
fees. -/

namespace GoVite.Dex
open ByteString KeyStore List Store SettleWeight Matcher AccountSettle

/-- Sum of one field over the settlements of all addresses in one token of the market. -/
def settleSum (field : AccountSettle → ℕ) (isTradeToken : Bool) (fs : FundSettles) : ℕ :=
  fs.sum fun _ m => m.sum fun k s => if k = isTradeToken then field s else 0

/-- Sum of base and operator fees of all addresses. -/
def feeSum (fees : FeeSettles) : ℕ := fees.sum fun _ f => f.baseFee + f.operatorFee

/-- Neither side of a transaction pays more fees than its amount. -/
structure OrderTx.FeesCovered (tx : OrderTx) : Prop where
  taker : tx.takerFee + tx.takerOperatorFee ≤ tx.amount
  maker : tx.makerFee + tx.makerOperatorFee ≤ tx.amount

section Weights

def incWeight (isTradeToken : Bool) : SettleWeight := { inc := fun _ k => if k = isTradeToken then 1 else 0 }

def reduceWeight (isTradeToken : Bool) : SettleWeight := { reduce := fun _ k => if k = isTradeToken then 1 else 0 }

theorem settleSum_inc (b : Bool) (fs : FundSettles) : settleSum incAvailable b fs = (incWeight b).total fs := by
  refine sum_congr fun a m _ => sum_congr fun k s _ => ?_
  simp [incWeight, weigh]

theorem settleSum_reduce (b : Bool) (fs : FundSettles) : settleSum reduceLocked b fs = (reduceWeight b).total fs := by
  refine sum_congr fun a m _ => sum_congr fun k s _ => ?_
  simp [reduceWeight, weigh]

theorem tx_trade_balance (tx : OrderTx) : (incWeight true).ofTx tx = (reduceWeight true).ofTx tx := by
  unfold ofTx
  cases tx.takerSide <;> simp [buy, sell, incWeight, reduceWeight]

theorem tx_quote_balance {tx : OrderTx} (h : tx.FeesCovered) : (reduceWeight false).ofTx tx =
    (incWeight false).ofTx tx + feeOfTx (fun _ f => f.baseFee + f.operatorFee) tx := by
  have ht := h.taker
  have hm := h.maker
  unfold ofTx feeOfTx
  cases tx.takerSide with
  | false =>
    simp only [buy, sell, incWeight, reduceWeight, subBigIntAbs_of_le hm]
    simp
    omega
  | true =>
    simp only [buy, sell, incWeight, reduceWeight, subBigIntAbs_of_le ht]
    simp
    omega

end Weights

theorem tx_feesCovered {A : Arith} {t m : Order} (mi : MarketInfo) (hp : HeightPoint) (hA : A.FeeHalf)
    (ht : t.RatesValid) (hm : m.RatesValid) : (calculateOrderAndTx A t m mi hp).tx.FeesCovered := by
  rw [calculateOrderAndTx_eq]
  have hbound : ∀ (amount : ℕ) (o : Order) (r r' : ℤ), r ≤ 200 → r' ≤ 200 →
      (calculateFeeAndExecutedFee A o amount r r' hp).incBaseFee
        + (calculateFeeAndExecutedFee A o amount r r' hp).incOperatorFee ≤ amount := by
    intro amount o r r' hr hr'
    obtain ⟨hbase, hoperator⟩ : _ ≤ A.calculateAmountForRate amount r ∧ _ ≤ A.calculateAmountForRate amount r' :=
      calculateFee_inc_le A amount r r'
    have h1 := hA amount r hr
    have h2 := hA amount r' hr'
    exact le_trans (Nat.add_le_add hbase hoperator) (by omega)
  exact ⟨hbound _ t _ _ ht.takerFee.2 ht.takerOperatorFee.2, hbound _ m _ _ hm.makerFee.2 hm.makerOperatorFee.2⟩

theorem execute_rates {A : Arith} {t m : Order} {mi : MarketInfo} {hp : HeightPoint} (ht : t.RatesValid) (n : ℕ) :
    (capTaker (calculateOrderAndTx A t m mi hp).taker n).RatesValid := by
  rw [capTaker_eq, calculateOrderAndTx_eq]
  dsimp only [executeOrders]
  rw [updateOrder_eq]
  exact ⟨ht.takerFee, ht.makerFee, ht.takerOperatorFee, ht.makerOperatorFee⟩

theorem pass_feesCovered {A : Arith} (mc : Matcher) {taker : Order} {makers : List Order} (hA : A.FeeHalf)
    (ht : taker.RatesValid) (hm : ∀ m ∈ makers, m.RatesValid) :
    ∀ tx ∈ (mc.pass A taker makers).txs, tx.FeesCovered := by
  have hinv : (mc.pass A taker makers).taker.RatesValid ∧ ∀ tx ∈ (mc.pass A taker makers).txs, tx.FeesCovered := by
    refine recursiveTakeOrder_inv (P := fun t => t.taker.RatesValid ∧ ∀ tx ∈ t.txs, tx.FeesCovered) A mc makers
      (fun t maker expired _ _ h => h) (fun t h => ⟨⟨h.1.takerFee, h.1.makerFee, h.1.takerOperatorFee,
        h.1.makerOperatorFee⟩, h.2⟩) (fun t maker hmem h => ⟨execute_rates h.1 _, ?_⟩)
      ⟨ht, fun tx htx => absurd htx not_mem_nil⟩
    exact forall_mem_concat.2 ⟨h.2, tx_feesCovered _ _ hA h.1 (hm maker hmem)⟩
  exact hinv.2

section Balance
variable {mc : Matcher} {t : Taking}

theorem refund_inc_eq_reduce (b : Bool) : (incWeight b).ofRefund = (reduceWeight b).ofRefund := by
  funext o
  simp [ofRefund, incWeight, reduceWeight]

theorem handleTaking_trade_balance (hfs : mc.fundSettles = .empty) :
    (incWeight true).total (mc.handleTaking t).1.fundSettles
      = (reduceWeight true).total (mc.handleTaking t).1.fundSettles := by
  have htx : t.txs.map (incWeight true).ofTx = t.txs.map (reduceWeight true).ofTx :=
    map_congr_left fun tx _ => tx_trade_balance tx
  rw [total_handleTaking, total_handleTaking, hfs, htx]
  rfl

theorem handleTaking_quote_balance (hfs : mc.fundSettles = .empty) (hfees : mc.feeSettles = .empty)
    (hcov : ∀ tx ∈ t.txs, tx.FeesCovered) :
    (reduceWeight false).total (mc.handleTaking t).1.fundSettles
      = (incWeight false).total (mc.handleTaking t).1.fundSettles + feeSum (mc.handleTaking t).1.feeSettles := by
  have hsum : (t.txs.map (reduceWeight false).ofTx).sum = (t.txs.map (incWeight false).ofTx).sum
      + (t.txs.map (feeOfTx fun _ f => f.baseFee + f.operatorFee)).sum := by
    rw [← sum_map_add]
    exact congrArg List.sum (map_congr_left fun tx htx => tx_quote_balance (hcov tx htx))
  have hfee := mc.feeTotal_handleTaking t (fun _ f => f.baseFee + f.operatorFee) fun a f p f' p' => by
    dsimp only
    omega
  rw [total_handleTaking, total_handleTaking]
  refine Eq.trans ?_ (congrArg _ hfee.symm)
  rw [hfs, hfees, ← refund_inc_eq_reduce]
  split_ifs
  · rfl
  · simp only [total, feeTotal, sum_empty]
    omega

end Balance

/-- Nothing of a killed taker is settled but its own refund. -/
theorem handleTaking_killed_totals {mc : Matcher} {t : Taking} (hfs : mc.fundSettles = .empty)
    (hfees : mc.feeSettles = .empty) (hk : (closedTaker t.taker).killed) (b : Bool) :
    (incWeight b).total (mc.handleTaking t).1.fundSettles = 0
    ∧ (reduceWeight b).total (mc.handleTaking t).1.fundSettles = 0
    ∧ feeSum (mc.handleTaking t).1.feeSettles = 0 := by
  have hfee := mc.feeTotal_handleTaking t (fun _ f => f.baseFee + f.operatorFee) fun a f p f' p' => by
    dsimp only
    omega
  rw [total_handleTaking, total_handleTaking, hfs, if_pos hk, if_pos hk]
  refine ⟨?_, ?_, ?_⟩
  · simp [ofRefund, incWeight]
  · simp [ofRefund, reduceWeight]
  · rw [hfees, if_pos hk] at hfee
    exact hfee

/-- After any taker, what its transactions give to users and fees in each token is what they take from
the locks, and nothing at all if the taker is killed. -/
theorem trade_conservation {A : Arith}
    (hA : A.calculateAmountForRate = calculateAmountForRate ∨ A.calculateAmountForRate = amountForRateHalfUp)
    {db : TradeDb} {marketId : ℕ} {mc : Matcher} (hmc : newMatcher db marketId = .ok mc)
    (hmakers : ∀ id body, db.orders.get? id = some body → body.RatesValid)
    (taker : Order) (htaker : taker.RatesValid) (preHash : Byte) :
    let r := mc.matchOrder A taker preHash
    settleSum incAvailable true r.1.fundSettles
      = settleSum reduceLocked true r.1.fundSettles
    ∧ settleSum reduceLocked false r.1.fundSettles
      = settleSum incAvailable false r.1.fundSettles + feeSum r.1.feeSettles
    ∧ (r.2.cancelReason = .cancelledByFillOrKillNotFilled
        ∨ r.2.cancelReason = .cancelledByExceedMarketOrderAmtThreshold →
      ∀ b, settleSum incAvailable b r.1.fundSettles = 0
        ∧ settleSum reduceLocked b r.1.fundSettles = 0 ∧ feeSum r.1.feeSettles = 0) := by
  have hhalf : A.FeeHalf := by
    intro amount rate hrate
    rcases hA with hA | hA
    · rw [hA]
      exact goArith_feeHalf amount rate hrate
    · rw [hA]
      exact amountForRateHalfUp_half amount rate hrate
  obtain ⟨rfl, -, hfs, hfees⟩ := newMatcher_ok hmc
  have hcov : ∀ tx ∈ (mc.pass A taker (mc.makersFor taker)).txs, tx.FeesCovered :=
    pass_feesCovered mc hhalf htaker fun m hm => hmakers m.id m.toOrderBody (mem_getMakerBook.1 hm).1
  refine ⟨?_, ?_, fun hk b => ?_⟩
  · rw [settleSum_inc, settleSum_reduce, mc.matchOrder_eq]
    simpa using handleTaking_trade_balance hfs
  · rw [settleSum_inc, settleSum_reduce, mc.matchOrder_eq]
    simpa using handleTaking_quote_balance hfs hfees hcov
  · have hkilled := (mc.matchOrder_killed_iff A taker preHash).1 hk
    rw [settleSum_inc, settleSum_reduce, mc.matchOrder_eq]
    simpa using handleTaking_killed_totals hfs hfees hkilled b

section Sample

/-- The request of `sampleParam` as user 2's order in the book, and as user 1's taker. -/
def sampleOrder (side : Bool) (serialNo : ℕ) : Order :=
  { id := composeOrderId 1 side (Bytes.ofNat 10 (2 ^ 40)) 1600000000 serialNo
    address := if side then 2 else 1
    type := .limited
    takerFeeRate := 200
    makerFeeRate := 200
    takerOperatorFeeRate := 100
    makerOperatorFeeRate := 50
    quantity := 2 * 10 ^ 20
    amount := 2 * 10 ^ 20
    lockedBuyFee := if side then 0 else 6 * 10 ^ 17 }

def sampleTrade : TradeDb :=
  { orders := Store.empty.set (sampleOrder true 0).id (sampleOrder true 0).toOrderBody
    marketInfos := Store.empty.set 1 sampleMarket
    heightPoint := ⟨12⟩ }

theorem sampleOrder_rates (side : Bool) (serialNo : ℕ) : (sampleOrder side serialNo).RatesValid := by
  refine ⟨?_, ?_, ?_, ?_⟩ <;> simp [sampleOrder]

/-- The buyer pays 200 and fees of 0.6, the seller receives 200 less fees of 0.5. -/
theorem trade_conservation_matched :
    let r := Matcher.matchOrder goArith { db := sampleTrade, marketInfo := sampleMarket } (sampleOrder false 1) 0
    settleSum reduceLocked false r.1.fundSettles = 2006 * 10 ^ 17
    ∧ settleSum incAvailable true r.1.fundSettles = settleSum reduceLocked true r.1.fundSettles
    ∧ settleSum reduceLocked false r.1.fundSettles
      = settleSum incAvailable false r.1.fundSettles + feeSum r.1.feeSettles := by
  have hmakers : ∀ id body, sampleTrade.orders.get? id = some body → body.RatesValid :=
    forall_set (sampleOrder_rates true 0) fun id body hget => by simp at hget
  have hmc : newMatcher sampleTrade 1 = .ok { db := sampleTrade, marketInfo := sampleMarket } := rfl
  obtain ⟨htrade, hquote, -⟩ := trade_conservation (A := goArith) (Or.inl rfl) hmc hmakers (sampleOrder false 1)
    (sampleOrder_rates _ _) 0
  exact ⟨by decide +kernel, htrade, hquote⟩

end Sample

end GoVite.Dex

import GoVite.Proofs.Dex.UncrossedBook

/-! Rounding in a pass of a buyer, with rational numbers in place of floats. Amounts are rounded half up in each
execution, so that together they may exceed the buyer's, and what a market buy has left may pay for one more unit. -/

namespace GoVite.Dex
open ByteString KeyStore List

/-- The amount formulas without rounding errors. -/
def Arith.exact (A : Arith) : Arith :=
  { A with
    calculateRawAmountF := fun q price d => q * (bytesToPrice price / 10 ^ d)
    calculateRawQuantityF := fun a price d => a / (bytesToPrice price * 10 ^ d)
    roundAmount := fun x => ⌊x + 1 / 2⌋.toNat
    floorQuantity := fun x => ⌊x⌋.toNat }

/-- What one unit of a maker costs. -/
def unitPrice (mi : MarketInfo) (maker : Order) : ℚ :=
  bytesToPrice maker.price / 10 ^ (mi.tradeTokenDecimals - mi.quoteTokenDecimals)

/-- What is left of an order's quantity. -/
def Order.rest (o : Order) : ℕ := subBigIntAbs o.quantity o.executedQuantity

/-- The price of what a taker and a maker both have left. -/
def restPrice (mi : MarketInfo) (taker maker : Order) : ℚ := min taker.rest maker.rest * unitPrice mi maker

def halfUp (x : ℚ) : ℕ := ⌊x + 1 / 2⌋.toNat

/-- The executions of a pass, each with what the pass had collected before it. -/
def executions (A : Arith) (mc : Matcher) : Taking → List Order → List (Taking × Order)
  | _, [] => []
  | t, maker :: makers =>
    if matchPrice t.taker maker then
      (t, maker) :: if (t.execute A mc maker).done then [] else executions A mc (t.execute A mc maker) makers
    else []

def Matcher.executionsOf (A : Arith) (mc : Matcher) (taker : Order) : List (Taking × Order) :=
  executions A mc { taker := taker } (mc.makersFor taker)

def Matcher.executed (A : Arith) (mc : Matcher) (e : Taking × Order) : Execution :=
  calculateOrderAndTx A e.1.taker e.2 mc.marketInfo mc.db.heightPoint

/-- What the quantity of an execution costs. -/
def Matcher.cost (A : Arith) (mc : Matcher) (e : Taking × Order) : ℚ :=
  (mc.executed A e).tx.quantity * unitPrice mc.marketInfo e.2

section Pass
variable {A : Arith} {mc : Matcher} {t : Taking} {makers : List Order} {e : Taking × Order}
  (hv : mc.db.heightPoint.isVersion12Upgrade = true)

include hv in
theorem recursiveTakeOrder_txs (hpost : t.taker.type ≠ .postOnly) :
    (recursiveTakeOrder A mc t makers).txs = t.txs ++ (executions A mc t makers).map fun e => (mc.executed A e).tx := by
  induction makers generalizing t with
  | nil => simp [recursiveTakeOrder, executions]
  | cons maker makers ih =>
    have hof := takerOf_execute A mc t maker
    unfold recursiveTakeOrder executions
    rw [filterTimeout_none (HeightPoint.isVersion11_of_v12 hv)]
    dsimp only
    rw [if_neg hpost]
    split_ifs
    · rfl
    · rw [ih (hof.type ▸ hpost)]
      simp [Taking.execute, Matcher.executed]
    · simp

/-- Before each execution the taker has what it had at first, and is within its order. -/
theorem executions_taker (hfee : mc.db.heightPoint.isDexFeeUpgrade = true) (hb : t.taker.Bounded)
    (he : e ∈ executions A mc t makers) : e.2 ∈ makers ∧ TakerOf t.taker e.1.taker ∧ e.1.taker.Bounded := by
  induction makers generalizing t with
  | nil => cases he
  | cons maker makers ih =>
    unfold executions at he
    split_ifs at he
    · rw [mem_singleton.1 he]
      exact ⟨mem_cons_self, .refl _, hb⟩
    · rcases mem_cons.1 he with rfl | he
      · exact ⟨mem_cons_self, .refl _, hb⟩
      · obtain ⟨hmem, hof, hbounded⟩ := ih (capTaker_bounded (executes_taker A maker mc.marketInfo hb hfee).bounded _) he
        exact ⟨mem_cons_of_mem _ hmem, (takerOf_execute A mc t maker).trans hof, hbounded⟩
    · cases he

/-- A pass that goes on after an execution has not filled its taker. -/
theorem executions_dropLast (he : e ∈ (executions A mc t makers).dropLast) :
    (mc.executed A e).taker.status ≠ .fullyExecuted := by
  induction makers generalizing t with
  | nil => cases he
  | cons maker makers ih =>
    unfold executions at he
    split_ifs at he with hmatch hdone
    · cases he
    · cases hrest : executions A mc (t.execute A mc maker) makers with
      | nil =>
        rw [hrest] at he
        cases he
      | cons e' rest =>
        rw [hrest] at he
        rcases mem_cons.1 he with rfl | he
        · rw [Matcher.executed, (execute_survives (by simpa using hdone)).1]
          decide
        · exact ih (hrest ▸ he)
    · cases he

include hv in
theorem executionsOf_buyer {taker : Order} (hbuy : taker.side = false) (hb : taker.Bounded)
    (he : e ∈ mc.executionsOf A taker) : e.2 ∈ mc.makersFor taker ∧ e.2.side = true ∧ e.1.taker.side = false ∧
      e.1.taker.type = taker.type ∧ e.1.taker.Bounded := by
  obtain ⟨hmem, hof, hbounded⟩ := executions_taker (HeightPoint.isDexFee_of_v12 hv) hb he
  have hbook := inBook_side (mem_getMakerBook.1 hmem).2
  rw [hbuy] at hbook
  exact ⟨hmem, hbook, hof.side.trans hbuy, hof.type, hbounded⟩

end Pass

section Executions
variable (A : Arith) (mi : MarketInfo) (hp : HeightPoint) {t m : Order}

theorem calculateRawAmount_exact (q : ℕ) : A.exact.calculateRawAmount q m.price
    (mi.tradeTokenDecimals - mi.quoteTokenDecimals) = halfUp (q * unitPrice mi m) := rfl

/-- A buyer pays the rounded price, unless it has less left. -/
theorem tx_amount_eq (ht : t.side = false) (hb : t.Bounded) (hm : m.side = true) :
    let e := calculateOrderAndTx A.exact t m mi hp
    e.tx.amount = min (t.amount - t.executedAmount) (halfUp (e.tx.quantity * unitPrice mi m)) := by
  have hle := hb.amount ht
  rw [calculateOrderAndTx_eq]
  dsimp only [executeOrders]
  unfold calculateOrderAmount
  rw [calculateRawAmount_exact, ht, hm, subBigIntAbs_of_le hle]
  simp only [Bool.not_false, Bool.not_true, Bool.false_eq_true, true_and, false_and, if_false]
  split_ifs <;> omega

/-- What a limit order has left of its quantity and its maker of its own is exchanged, whichever is less. -/
theorem tx_quantity_limited (hv : hp.isVersion12Upgrade = true) (htype : t.type = .limited) :
    (calculateOrderAndTx A.exact t m mi hp).tx.quantity = min t.rest m.rest := by
  rw [calculateOrderAndTx_eq]
  dsimp only [executeOrders]
  rw [takerQuantity, if_pos hv]
  unfold takerQuantityAfterUpgrade12
  dsimp only
  rw [if_neg (by simp [htype])]
  rfl

/-- The units a buyer's remaining amount pays for. -/
def affordable (mi : MarketInfo) (t m : Order) : ℕ := ⌊((t.amount - t.executedAmount : ℕ) : ℚ) / unitPrice mi m⌋.toNat

/-- The amount limits the execution, not the quantity of an order. -/
def AmountLimits (mi : MarketInfo) (t m : Order) : Prop :=
  affordable mi t m < t.quantity - t.executedQuantity ∧ affordable mi t m < m.quantity - m.executedQuantity

/-- After paying for what it can afford the buyer cannot afford one more unit. -/
def LeavesDust (mi : MarketInfo) (t m : Order) : Prop :=
  ((t.amount - t.executedAmount : ℕ) : ℚ) < halfUp (affordable mi t m * unitPrice mi m) + unitPrice mi m

theorem calculateRawQuantityF_exact (a : ℕ) : A.exact.calculateRawQuantityF a m.price
    (-(mi.tradeTokenDecimals - mi.quoteTokenDecimals)) = a / unitPrice mi m := by
  rw [unitPrice, div_eq_mul_inv (bytesToPrice _), ← zpow_neg]
  rfl

theorem halfUp_le {x : ℚ} {n : ℕ} (h : x ≤ n) : halfUp x ≤ n := by
  refine Int.toNat_le.2 (Int.lt_add_one_iff.1 (Int.floor_lt.2 ?_))
  push_cast
  linarith

theorem affordable_mul_le (hpos : 0 < unitPrice mi m) :
    (affordable mi t m : ℚ) * unitPrice mi m ≤ (t.amount - t.executedAmount : ℕ) := by
  rw [← le_div_iff₀ hpos, affordable]
  exact Nat.floor_le (div_nonneg (Nat.cast_nonneg _) hpos.le)

section MarketBuy
variable (ht : t.side = false) (htype : t.type = .market) (hb : t.Bounded)
include ht htype hb

theorem isDust_market {q a : ℕ} (hle : a ≤ t.amount - t.executedAmount) (hpos : 0 < unitPrice mi m) :
    isDustOrderAfterUpgrade12 A.exact t q a (mi.tradeTokenDecimals - mi.quoteTokenDecimals) m.price = true
      ↔ ((t.amount - t.executedAmount : ℕ) : ℚ) < a + unitPrice mi m := by
  unfold isDustOrderAfterUpgrade12 isDustMarketBuyOrder isOrderDustForAmount
  rw [if_neg (by simp [htype]), if_pos (by simp [ht]), calculateRawQuantityF_exact, subBigIntAbs_of_le (hb.amount ht),
    subBigIntAbs_of_le hle, decide_eq_true_iff, div_lt_one hpos, Nat.cast_sub hle, sub_lt_iff_lt_add']

variable (hv : hp.isVersion12Upgrade = true) (hm : m.Bounded)
include hv hm

theorem tx_quantity_market : (calculateOrderAndTx A.exact t m mi hp).tx.quantity =
    min (min (t.quantity - t.executedQuantity) (affordable mi t m)) (m.quantity - m.executedQuantity) := by
  rw [calculateOrderAndTx_eq]
  dsimp only [executeOrders]
  rw [takerQuantity, if_pos hv]
  unfold takerQuantityAfterUpgrade12 calculateOrderQuantity Arith.calculateRawQuantity
  dsimp only
  rw [if_pos ⟨htype, by simp [ht]⟩, ← neg_sub, calculateRawQuantityF_exact, subBigIntAbs_of_le hb.quantity,
    subBigIntAbs_of_le (hb.amount ht), subBigIntAbs_of_le hm.quantity]
  rfl

/-- A market buy limited by its amount is filled exactly if it leaves dust. -/
theorem market_filled_iff (hside : m.side = true) (hpos : 0 < unitPrice mi m) (hlim : AmountLimits mi t m) :
    (calculateOrderAndTx A.exact t m mi hp).taker.status = .fullyExecuted ↔ LeavesDust mi t m := by
  have hq : (calculateOrderAndTx A.exact t m mi hp).tx.quantity = affordable mi t m := by
    rw [tx_quantity_market A mi hp ht htype hb hv hm, min_eq_right hlim.1.le, min_eq_left hlim.2.le]
  have hle := halfUp_le (affordable_mul_le mi (t := t) hpos)
  have ha := tx_amount_eq A mi hp ht hb hside
  dsimp only at ha
  rw [hq, min_eq_right hle] at ha
  rw [calculateOrderAndTx_eq] at hq ha ⊢
  dsimp only [executeOrders] at hq ha ⊢
  have hdust := isDust_market A mi (q := affordable mi t m) ht htype hb hle hpos
  rw [updateOrder, if_pos hv, ha, hq]
  dsimp only [updateOrderAfterUpgrade12]
  rw [ite_eq_left_iff, subBigIntAbs_of_le hb.quantity, subBigIntAbs_of_le (hb.amount ht), hdust,
    or_iff_right hlim.1.ne', LeavesDust]
  refine ⟨fun h => ?_, fun h hneg => absurd (Or.inr h) hneg⟩
  -- a buyer with nothing left is dust as well
  by_contra hcov
  refine absurd (h ?_) (by decide)
  rintro (⟨-, -, heq⟩ | hlt)
  · exact hcov (by rw [heq]; linarith)
  · exact hcov hlt

/-- One that its amount does not limit uses up the maker or is filled. -/
theorem maker_used_up (hlim : ¬AmountLimits mi t m)
    (hpart : (calculateOrderAndTx A.exact t m mi hp).taker.status ≠ .fullyExecuted) :
    (calculateOrderAndTx A.exact t m mi hp).maker.executedQuantity = m.quantity := by
  have hq := tx_quantity_market A mi hp ht htype hb hv hm
  have hfilled : t.quantity - t.executedQuantity ≠ (calculateOrderAndTx A.exact t m mi hp).tx.quantity := by
    intro heq
    refine hpart ?_
    rw [calculateOrderAndTx_eq] at heq ⊢
    exact updateOrder_status_rest _ _ _ _ _ _ _ _ ((subBigIntAbs_of_le hb.quantity).trans heq)
  have hle := hm.quantity
  rw [(executes_maker A.exact t mi hm (HeightPoint.isDexFee_of_v12 hv)).eq]
  dsimp only [Order.execute]
  unfold AmountLimits at hlim
  omega

end MarketBuy

end Executions

/-- An execution pays the seller the price of its quantity, if that is at least one. -/
def PaysSeller (A : Arith) (mc : Matcher) (e : Taking × Order) : Prop :=
  1 ≤ mc.cost A e → (mc.executed A e).tx.amount = halfUp (mc.cost A e)

/-- For every limit buyer all sellers are paid exactly if the buyer, before each execution, has the rounded price of what
it and the maker both have left, if that is worth at least one. -/
theorem sellers_paid_iff (A : Arith) (mc : Matcher) (hv : mc.db.heightPoint.isVersion12Upgrade = true)
    (taker : Order) (hbuy : taker.side = false) (htype : taker.type = .limited) (hb : taker.Bounded) :
    let ex := mc.executionsOf A.exact taker
    (mc.pass A.exact taker (mc.makersFor taker)).txs = ex.map (fun e => (mc.executed A.exact e).tx) ∧
    ((∀ e ∈ ex, PaysSeller A.exact mc e) ↔ ∀ e ∈ ex, 1 ≤ restPrice mc.marketInfo e.1.taker e.2 →
      halfUp (restPrice mc.marketInfo e.1.taker e.2) ≤ e.1.taker.amount - e.1.taker.executedAmount) := by
  intro ex
  refine ⟨recursiveTakeOrder_txs hv (by simp [htype]), forall₂_congr fun e he => ?_⟩
  obtain ⟨-, hside, htaker, hty, hbounded⟩ := executionsOf_buyer hv hbuy hb he
  have hamount := tx_amount_eq A mc.marketInfo mc.db.heightPoint htaker hbounded hside
  have hcost : mc.cost A.exact e = restPrice mc.marketInfo e.1.taker e.2 := by
    rw [Matcher.cost, Matcher.executed, tx_quantity_limited _ _ _ hv (hty.trans htype), restPrice, Nat.cast_min]
  refine imp_congr (by rw [hcost]) ?_
  rw [← hcost, Matcher.cost, Matcher.executed]
  omega

/-- For every market buyer: an execution that its amount limits fills it, and every maker before the last is used up,
exactly if each execution that its amount limits leaves dust. -/
theorem market_buy_priority_iff (A : Arith) (mc : Matcher)
    (hv : mc.db.heightPoint.isVersion12Upgrade = true) (taker : Order) (hbuy : taker.side = false)
    (htype : taker.type = .market) (hb : taker.Bounded)
    (hmakers : ∀ m ∈ mc.makersFor taker, m.Bounded ∧ 0 < unitPrice mc.marketInfo m) :
    let ex := mc.executionsOf A.exact taker
    (mc.pass A.exact taker (mc.makersFor taker)).txs = ex.map (fun e => (mc.executed A.exact e).tx) ∧
    (((∀ e ∈ ex, AmountLimits mc.marketInfo e.1.taker e.2 → (mc.executed A.exact e).taker.status = .fullyExecuted) ∧
        ∀ e ∈ ex.dropLast, (mc.executed A.exact e).maker.executedQuantity = e.2.quantity) ↔
      ∀ e ∈ ex, AmountLimits mc.marketInfo e.1.taker e.2 → LeavesDust mc.marketInfo e.1.taker e.2) := by
  intro ex
  have hfilled : ∀ e ∈ ex, AmountLimits mc.marketInfo e.1.taker e.2 →
      ((mc.executed A.exact e).taker.status = .fullyExecuted ↔ LeavesDust mc.marketInfo e.1.taker e.2) := by
    intro e he hlim
    obtain ⟨hmem, hside, htaker, hty, hbounded⟩ := executionsOf_buyer hv hbuy hb he
    obtain ⟨hm, hpos⟩ := hmakers e.2 hmem
    exact market_filled_iff _ _ _ htaker (hty.trans htype) hbounded hv hm hside hpos hlim
  refine ⟨recursiveTakeOrder_txs hv (by simp [htype]), fun h e he hlim => ?_, fun h => ⟨?_, ?_⟩⟩
  · exact (hfilled e he hlim).1 (h.1 e he hlim)
  · exact fun e he hlim => (hfilled e he hlim).2 (h e he hlim)
  · intro e he
    have hex := mem_of_mem_dropLast he
    have hpart := executions_dropLast he
    obtain ⟨hmem, -, htaker, hty, hbounded⟩ := executionsOf_buyer hv hbuy hb hex
    exact maker_used_up _ _ _ htaker (hty.trans htype) hbounded hv (hmakers e.2 hmem).1
      (fun hlim => hpart ((hfilled e hex hlim).2 (h e hex hlim))) hpart

/-- Sell orders of user 2, given by price and quantity. -/
def sampleSells (sells : List (Price × ℕ)) : Matcher :=
  { db := { sampleTrade with
      orders := sells.zipIdx.foldl (fun orders s => orders.set (composeOrderId 1 true s.1.1 1600000000 s.2)
        { (sampleOrder true 0).toOrderBody with quantity := s.1.2, amount := 0 }) .empty }
    marketInfo := sampleMarket }

def samplePrice : Price := Bytes.ofNat 10 (2 ^ 40 + 5 * 10 ^ 11)

/-- A buy of 200 units at 1.5. -/
def sampleBuy : Order :=
  { sampleOrder false 0 with amount := 3 * 10 ^ 20, id := composeOrderId 1 false samplePrice 1600000000 9 }

theorem sampleBuy_bounded : sampleBuy.Bounded := ⟨by decide, by decide, by decide⟩

/-- Two sellers of a hundred units are paid 150 each. -/
theorem sellers_paid_iff_two :
    let mc := sampleSells (.replicate 2 (samplePrice, 10 ^ 20))
    ∀ e ∈ mc.executionsOf goArith.exact sampleBuy, PaysSeller goArith.exact mc e :=
  (sellers_paid_iff goArith _ rfl sampleBuy (by decide) rfl sampleBuy_bounded).2.2 (by decide +kernel)

/-- The last seller of one unit gets nothing. -/
theorem last_seller_unpaid :
    let mc := sampleSells [(samplePrice, 2 * 10 ^ 20 - 3), (samplePrice, 1), (samplePrice, 1), (samplePrice, 1)]
    (mc.pass goArith.exact sampleBuy (mc.makersFor sampleBuy)).txs.map (fun tx => (tx.quantity, tx.amount)) =
      [(2 * 10 ^ 20 - 3, 3 * 10 ^ 20 - 4), (1, 2), (1, 2), (1, 0)] := by
  decide +kernel

/-- A market buy of an amount of 90 and six units. -/
def sampleSpend : Order := { sampleBuy with type := .market, amount := 9 * 10 ^ 19 + 6 }

/-- At 0.9 it pays for 100 units and six, which leaves it an amount of one. -/
theorem priority_lost :
    let mc := sampleSells [(Bytes.ofNat 10 (9 * 10 ^ 11), 10 ^ 20 + 10), (Bytes.ofNat 10 (2 ^ 40), 1)]
    let t := mc.pass goArith.exact sampleSpend (mc.makersFor sampleSpend)
    t.txs.map (fun tx => (tx.quantity, tx.amount)) = [(10 ^ 20 + 6, 9 * 10 ^ 19 + 5), (1, 1)] ∧
      t.modifiedMakers.map (fun m => m.quantity - m.executedQuantity) = [4, 0] := by
  decide +kernel

/-- At price 1 it pays for what the first maker has, then for a part of the second. -/
theorem market_buy_priority_two :
    let mc := sampleSells (.replicate 2 (Bytes.ofNat 10 (2 ^ 40), 6 * 10 ^ 19))
    ∀ e ∈ (mc.executionsOf goArith.exact sampleSpend).dropLast,
      (mc.executed goArith.exact e).maker.executedQuantity = e.2.quantity := by
  refine ((market_buy_priority_iff goArith _ rfl sampleSpend (by decide) rfl
    ⟨by decide, by decide, by decide⟩ ?_).2.2 ?_).2
  · have hmakers : ∀ m ∈ (sampleSells (.replicate 2 (Bytes.ofNat 10 (2 ^ 40), 6 * 10 ^ 19))).makersFor sampleSpend,
        m.executedQuantity = 0 ∧ m.side = true ∧ 0 < unitPrice sampleMarket m := by decide +kernel
    intro m hm
    obtain ⟨hq, hs, hpos⟩ := hmakers m hm
    exact ⟨⟨by simp [hq], by simp [hs], by simp [hs]⟩, hpos⟩
  · unfold AmountLimits LeavesDust
    decide +kernel

end GoVite.Dex

import GoVite.Spec.Dex.Calculator
import GoVite.Spec.Dex.OrderId

/-! The matching engine (`matcher.go`, `leveldb_book.go`). A taker is matched against the opposite side in the order of
the ids; storage, settlements and events are written after its outcome is known. -/

namespace GoVite.Dex
open ByteString KeyStore

def maxTxsCountPerTaker : ℕ := 100
def timeoutSecond : ℕ := 30 * 24 * 3600

/-- Settlements of one block, by address and by whether the token is the trade token. -/
abbrev FundSettles := Store Address (Store Bool AccountSettle)
abbrev FeeSettles := Store Address FeeSettle

structure Matcher where
  db : TradeDb
  marketInfo : MarketInfo
  fundSettles : FundSettles := .empty
  feeSettles : FeeSettles := .empty

def newMatcher (db : TradeDb) (marketId : ℕ) : Except DexError Matcher :=
  match db.marketInfos.get? marketId with
  | some marketInfo => .ok { db, marketInfo }
  | none => .error .tradeMarketNotExists

/-- The orders `nextOrder` yields for one side of a market, in iteration order. -/
def getMakerBook (db : TradeDb) (marketId : ℕ) (side : Bool) : List Order :=
  (db.orders.entries.filter fun e => (getBookPrefix marketId side).toList.isPrefixOf e.1.toList).map
    fun e => e.2.render e.1

def getOrderById (db : TradeDb) (orderId : OrderId) : Except DexError Order :=
  match db.orders.get? orderId with
  | some body => .ok (body.render orderId)
  | none => .error .orderNotExists

section Fees

structure ExecutedFee where
  incFee : ℕ
  newExecutedFee : ℕ
  leaved : Bool
  deriving DecidableEq, Repr

/-- The fee one transaction adds to an order; a buyer's is capped by what is left of its lock. -/
def calculateExecutedFee (A : Arith) (amount : ℕ) (feeRate : ℤ) (side : Bool)
    (originExecutedFee totalLockedAmount : ℕ) (usedAmounts : List ℕ) : ExecutedFee :=
  if feeRate = 0 then ⟨0, originExecutedFee, true⟩
  else
    let incFee := A.calculateAmountForRate amount feeRate
    match side with
    | false =>
      let totalUsedAmount := usedAmounts.sum
      if totalLockedAmount ≤ totalUsedAmount then ⟨0, originExecutedFee, false⟩
      else if totalLockedAmount ≤ totalUsedAmount + incFee then
        let incFee := subBigIntAbs totalLockedAmount totalUsedAmount
        ⟨incFee, originExecutedFee + incFee, false⟩
      else ⟨incFee, originExecutedFee + incFee, true⟩
    | true => ⟨incFee, originExecutedFee + incFee, true⟩

structure OrderFees where
  incBaseFee : ℕ
  executedBaseFee : ℕ
  incOperatorFee : ℕ
  executedOperatorFee : ℕ
  deriving DecidableEq, Repr

def calculateFeeAndExecutedFee (A : Arith) (order : Order) (amount : ℕ) (feeRate operatorFeeRate : ℤ)
    (heightPoint : HeightPoint) : OrderFees :=
  let base := calculateExecutedFee A amount feeRate order.side order.executedBaseFee order.lockedBuyFee
    [order.executedBaseFee, order.executedOperatorFee]
  if base.leaved then
    let operator := calculateExecutedFee A amount operatorFeeRate order.side order.executedOperatorFee
      order.lockedBuyFee [base.newExecutedFee, order.executedOperatorFee]
    ⟨base.incFee, base.newExecutedFee, operator.incFee, operator.newExecutedFee⟩
  else if heightPoint.isDexFeeUpgrade then
    ⟨base.incFee, base.newExecutedFee, 0, order.executedOperatorFee⟩
  else ⟨base.incFee, base.newExecutedFee, 0, 0⟩

end Fees

section OrderUpdate
variable (A : Arith) (order : Order)

/-- A buyer never spends more than its order's amount. -/
def calculateOrderAmount (quantity : ℕ) (price : Price) (decimalsDiff : ℤ) : ℕ :=
  let amount := A.calculateRawAmount quantity price decimalsDiff
  if !order.side ∧ order.amount < order.executedAmount + amount then
    subBigIntAbs order.amount order.executedAmount
  else amount

def calculateOrderQuantity (amount : ℕ) (price : Price) (decimalsDiff : ℤ) : ℕ :=
  A.calculateRawQuantity amount price decimalsDiff

def isOrderDustForPrice (quantity : ℕ) (decimalsDiff : ℤ) (price : Price) : Bool :=
  A.calculateRawAmountF (subBigIntAbs (subBigIntAbs order.quantity order.executedQuantity) quantity)
    price decimalsDiff < 1

def isOrderDustForAmount (amount : ℕ) (decimalsDiff : ℤ) (price : Price) : Bool :=
  A.calculateRawQuantityF (subBigIntAbs (subBigIntAbs order.amount order.executedAmount) amount)
    price decimalsDiff < 1

def isDustOrder (quantity : ℕ) (decimalsDiff : ℤ) (executedPrice : Price) : Bool :=
  if order.type ≠ .market then isOrderDustForPrice A order quantity decimalsDiff order.price
  else isOrderDustForPrice A order quantity decimalsDiff executedPrice

def isDustMarketBuyOrder (amount : ℕ) (decimalsDiff : ℤ) (executedPrice : Price) : Bool :=
  if !order.side then isOrderDustForAmount A order amount decimalsDiff executedPrice else false

def isDustOrderAfterUpgrade12 (quantity amount : ℕ) (decimalsDiff : ℤ) (executedPrice : Price) : Bool :=
  if order.type ≠ .market then isOrderDustForPrice A order quantity decimalsDiff order.price
  else isDustMarketBuyOrder A order amount (-decimalsDiff) executedPrice

def updateOrderAfterUpgrade12 (quantity amount executedBaseFee executedOperatorFee : ℕ)
    (decimalsDiff : ℤ) (executedPrice : Price) : Order :=
  { order with
    status :=
      if subBigIntAbs order.quantity order.executedQuantity = quantity
          ∨ order.type = .market ∧ !order.side ∧ subBigIntAbs order.amount order.executedAmount = amount
          ∨ isDustOrderAfterUpgrade12 A order quantity amount decimalsDiff executedPrice then
        .fullyExecuted
      else .partialExecuted
    executedAmount := order.executedAmount + amount
    executedBaseFee := executedBaseFee
    executedOperatorFee := executedOperatorFee
    executedQuantity := order.executedQuantity + quantity }

/-- Before version 12 the executed amount is raised ahead of the test for a filled order. -/
def updateOrderBeforeUpgrade12 (quantity amount executedBaseFee executedOperatorFee : ℕ)
    (decimalsDiff : ℤ) (executedPrice : Price) : Order :=
  let order := { order with executedAmount := order.executedAmount + amount }
  { order with
    status :=
      if subBigIntAbs order.quantity order.executedQuantity = quantity
          ∨ order.type = .market ∧ !order.side ∧ subBigIntAbs order.amount order.executedAmount = amount
          ∨ isDustOrder A order quantity decimalsDiff executedPrice then
        .fullyExecuted
      else .partialExecuted
    executedBaseFee := executedBaseFee
    executedOperatorFee := executedOperatorFee
    executedQuantity := order.executedQuantity + quantity }

def updateOrder (quantity amount executedBaseFee executedOperatorFee : ℕ)
    (decimalsDiff : ℤ) (executedPrice : Price) (heightPoint : HeightPoint) : Order :=
  if heightPoint.isVersion12Upgrade then
    updateOrderAfterUpgrade12 A order quantity amount executedBaseFee executedOperatorFee decimalsDiff executedPrice
  else
    updateOrderBeforeUpgrade12 A order quantity amount executedBaseFee executedOperatorFee decimalsDiff executedPrice

end OrderUpdate

section Transaction

/-- Both orders after a transaction, and its record. -/
structure Execution where
  taker : Order
  maker : Order
  tx : OrderTx

/-- The common body of `calculateOrderAndTxAfterUpgrade12` and `calculateOrderAndTxBeforeUpgrade12`. -/
def executeOrders (A : Arith) (update : Order → ℕ → ℕ → ℕ → ℕ → ℤ → Price → Order) (takerQuantity : ℕ)
    (taker maker : Order) (marketInfo : MarketInfo) (heightPoint : HeightPoint) : Execution :=
  let decimalsDiff := marketInfo.tradeTokenDecimals - marketInfo.quoteTokenDecimals
  let executeQuantity := min takerQuantity (subBigIntAbs maker.quantity maker.executedQuantity)
  let takerAmount := calculateOrderAmount A taker executeQuantity maker.price decimalsDiff
  let makerAmount := calculateOrderAmount A maker executeQuantity maker.price decimalsDiff
  let executeAmount := min takerAmount makerAmount
  let takerFees := calculateFeeAndExecutedFee A taker executeAmount taker.takerFeeRate
    taker.takerOperatorFeeRate heightPoint
  let makerFees := calculateFeeAndExecutedFee A maker executeAmount maker.makerFeeRate
    maker.makerOperatorFeeRate heightPoint
  { taker := update taker executeQuantity executeAmount takerFees.executedBaseFee
      takerFees.executedOperatorFee decimalsDiff maker.price
    maker := update maker executeQuantity executeAmount makerFees.executedBaseFee
      makerFees.executedOperatorFee decimalsDiff maker.price
    tx := {
      takerSide := taker.side
      takerId := taker.id
      makerId := maker.id
      price := maker.price
      quantity := executeQuantity
      amount := executeAmount
      takerFee := takerFees.incBaseFee
      makerFee := makerFees.incBaseFee
      takerOperatorFee := takerFees.incOperatorFee
      makerOperatorFee := makerFees.incOperatorFee
      timestamp := taker.timestamp
      takerAddress := taker.address
      makerAddress := maker.address
      tradeToken := marketInfo.tradeToken
      quoteToken := marketInfo.quoteToken } }

/-- Since version 12 the quantity of a market buy is bounded by what its amount can pay. -/
def takerQuantityAfterUpgrade12 (A : Arith) (taker maker : Order) (marketInfo : MarketInfo) : ℕ :=
  let takerQuantity := subBigIntAbs taker.quantity taker.executedQuantity
  if taker.type = .market ∧ !taker.side then
    let maxTakerAmount := subBigIntAbs taker.amount taker.executedAmount
    min takerQuantity (calculateOrderQuantity A maxTakerAmount maker.price
      (marketInfo.quoteTokenDecimals - marketInfo.tradeTokenDecimals))
  else takerQuantity

def calculateOrderAndTxAfterUpgrade12 (A : Arith) (taker maker : Order) (marketInfo : MarketInfo)
    (heightPoint : HeightPoint) : Execution :=
  executeOrders A (updateOrderAfterUpgrade12 A) (takerQuantityAfterUpgrade12 A taker maker marketInfo)
    taker maker marketInfo heightPoint

def calculateOrderAndTxBeforeUpgrade12 (A : Arith) (taker maker : Order) (marketInfo : MarketInfo)
    (heightPoint : HeightPoint) : Execution :=
  executeOrders A (fun order quantity amount baseFee operatorFee decimalsDiff executedPrice =>
      updateOrder A order quantity amount baseFee operatorFee decimalsDiff executedPrice heightPoint)
    (subBigIntAbs taker.quantity taker.executedQuantity) taker maker marketInfo heightPoint

def calculateOrderAndTx (A : Arith) (taker maker : Order) (marketInfo : MarketInfo)
    (heightPoint : HeightPoint) : Execution :=
  if heightPoint.isVersion12Upgrade then calculateOrderAndTxAfterUpgrade12 A taker maker marketInfo heightPoint
  else calculateOrderAndTxBeforeUpgrade12 A taker maker marketInfo heightPoint

def matchPrice (taker maker : Order) : Bool :=
  if taker.type = .market ∨ taker.price = maker.price then true
  else match taker.side with
    | false => maker.price ≤ taker.price
    | true => taker.price ≤ maker.price

/-- The cancelled maker when it is filtered out, `none` when it is still alive. -/
def filterTimeout (db : TradeDb) (maker : Order) : Option Order :=
  if db.tradeTimestamp = 0 then none
  else if db.tradeTimestamp > maker.timestamp + timeoutSecond && !db.heightPoint.isVersion11Upgrade then
    some { maker with
      status := .cancelled
      cancelReason := match maker.status with
        | .pending => .cancelledOnTimeout
        | .partialExecuted => .partialExecutedCancelledOnTimeout
        | _ => .unknownCancelledOnTimeout }
  else none

/-- A taker that is not filled leaves the market after `maxTxsCountPerTaker` transactions. -/
def capTaker (taker : Order) (txsCount : ℕ) : Order :=
  if taker.status = .partialExecuted ∧ maxTxsCountPerTaker ≤ txsCount then
    { taker with status := .cancelled, cancelReason := .partialExecutedCancelledByMarket }
  else taker

/-- What the recursion over the makers has collected so far. -/
structure Taking where
  taker : Order
  modifiedMakers : List Order := []
  txs : List OrderTx := []

namespace Taking

def addModifiedMaker (t : Taking) (maker : Order) : Taking :=
  { t with modifiedMakers := t.modifiedMakers ++ [maker] }

def cancelPostOnly (t : Taking) : Taking :=
  { t with taker := { t.taker with status := .cancelled, cancelReason := .cancelledByPostOnlyMatched } }

def execute (A : Arith) (mc : Matcher) (t : Taking) (maker : Order) : Taking :=
  let e := calculateOrderAndTx A t.taker maker mc.marketInfo mc.db.heightPoint
  { taker := capTaker e.taker (t.txs ++ [e.tx]).length
    modifiedMakers := t.modifiedMakers ++ [e.maker]
    txs := t.txs ++ [e.tx] }

/-- The taker is finished and asks for no further maker. -/
def done (t : Taking) : Bool := t.taker.finished

end Taking

/-- `recursiveTakeOrder`, over the makers the book still yields. -/
def recursiveTakeOrder (A : Arith) (mc : Matcher) : Taking → List Order → Taking
  | t, [] => t
  | t, maker :: makers =>
    match filterTimeout mc.db maker with
    | some expired =>
      let t := t.addModifiedMaker expired
      if t.done then t else recursiveTakeOrder A mc t makers
    | none =>
      if matchPrice t.taker maker then
        if t.taker.type = .postOnly then t.cancelPostOnly
        else
          let t := t.execute A mc maker
          if t.done then t else recursiveTakeOrder A mc t makers
      else t

end Transaction

/-- The part of an order's lock that its transactions have not used. -/
def calculateRefund (order : Order) : ℕ :=
  match order.side with
  | false => subBigIntAbs order.amount order.executedAmount
      + subBigIntAbs (subBigIntAbs order.lockedBuyFee order.executedBaseFee) order.executedOperatorFee
  | true => subBigIntAbs order.quantity order.executedQuantity

/-- Settlements of one address and token add up. -/
def AccountSettle.add (ac settle : AccountSettle) : AccountSettle :=
  { ac with
    incAvailable := ac.incAvailable + settle.incAvailable
    releaseLocked := ac.releaseLocked + settle.releaseLocked
    reduceLocked := ac.reduceLocked + settle.reduceLocked }

/-- The first five bytes of the hash are left out. -/
def getHashMapOrderIdKey (sendHash : Hash) : ℕ := sendHash % 2 ^ (8 * 27)

namespace Matcher
variable (mc : Matcher)

def updateFundSettle (address : Address) (settle : AccountSettle) : Matcher :=
  let settleMap := mc.fundSettles.getD address .empty
  let ac := settleMap.getD settle.isTradeToken { isTradeToken := settle.isTradeToken }
  { mc with fundSettles := mc.fundSettles.set address (settleMap.set settle.isTradeToken (ac.add settle)) }

def updateFee (address : Address) (feeAmt operatorFee : ℕ) : Matcher :=
  let feeSettle := match mc.feeSettles.get? address with
    | none => { baseFee := feeAmt, operatorFee := operatorFee }
    | some f => { f with baseFee := f.baseFee + feeAmt, operatorFee := f.operatorFee + operatorFee }
  { mc with feeSettles := mc.feeSettles.set address feeSettle }

def addLog (event : TradeEvent) : Matcher :=
  { mc with db := { mc.db with logs := mc.db.logs ++ [event] } }

def emitNewOrder (taker : Order) : Matcher :=
  mc.addLog (.newOrder taker mc.marketInfo.tradeToken mc.marketInfo.quoteToken)

def emitOrderUpdate (order : Order) : Matcher :=
  mc.addLog (.orderUpdate {
    id := order.id
    tradeToken := mc.marketInfo.tradeToken
    quoteToken := mc.marketInfo.quoteToken
    status := order.status
    cancelReason := order.cancelReason
    executedQuantity := order.executedQuantity
    executedAmount := order.executedAmount
    executedBaseFee := order.executedBaseFee
    executedOperatorFee := order.executedOperatorFee
    refundToken := order.refundToken
    refundQuantity := order.refundQuantity })

def saveOrder (order : Order) (isTaker : Bool) : Matcher :=
  { mc with db := { mc.db with
      orders := mc.db.orders.set order.id order.toOrderBody
      hashMapOrderId := match isTaker, order.sendHash with
        | true, some hash => mc.db.hashMapOrderId.set (getHashMapOrderIdKey hash) order.id
        | _, _ => mc.db.hashMapOrderId } }

def deleteOrder (order : Order) : Matcher :=
  { mc with db := { mc.db with
      orders := mc.db.orders.erase order.id
      hashMapOrderId := match order.sendHash with
        | some hash => mc.db.hashMapOrderId.erase (getHashMapOrderIdKey hash)
        | none => mc.db.hashMapOrderId } }

/-- What is still reserved of a finished order goes back to its owner. -/
def handleRefund (order : Order) : Matcher × Order :=
  if order.finished then
    let quantity := calculateRefund order
    if 0 < quantity then
      (mc.updateFundSettle order.address { isTradeToken := order.side, releaseLocked := quantity },
        { order with refundToken := some (lockToken mc.marketInfo order.side), refundQuantity := quantity })
    else (mc, { order with refundToken := none, refundQuantity := 0 })
  else (mc, order)

def handleModifiedMaker (maker : Order) : Matcher :=
  if maker.finished then
    let r := mc.handleRefund maker
    (r.1.deleteOrder r.2).emitOrderUpdate r.2
  else (mc.saveOrder maker false).emitOrderUpdate maker

def handleModifiedMakers (makers : List Order) : Matcher :=
  makers.foldl handleModifiedMaker mc

/-- The two settlements of a buyer and the two of a seller in one transaction. -/
def buySettles (quantity amount fee operatorFee : ℕ) : AccountSettle × AccountSettle :=
  ({ isTradeToken := true, incAvailable := quantity },
    { isTradeToken := false, reduceLocked := amount + (fee + operatorFee) })

def sellSettles (quantity amount fee operatorFee : ℕ) : AccountSettle × AccountSettle :=
  ({ isTradeToken := false, incAvailable := subBigIntAbs amount (fee + operatorFee) },
    { isTradeToken := true, reduceLocked := quantity })

def handleTxFundSettle (tx : OrderTx) : Matcher :=
  let taker := if tx.takerSide then sellSettles tx.quantity tx.amount tx.takerFee tx.takerOperatorFee
    else buySettles tx.quantity tx.amount tx.takerFee tx.takerOperatorFee
  let maker := if tx.takerSide then buySettles tx.quantity tx.amount tx.makerFee tx.makerOperatorFee
    else sellSettles tx.quantity tx.amount tx.makerFee tx.makerOperatorFee
  ((((((mc.updateFundSettle tx.takerAddress taker.1).updateFundSettle tx.takerAddress taker.2).updateFundSettle
    tx.makerAddress maker.1).updateFundSettle tx.makerAddress maker.2).updateFee
      tx.takerAddress tx.takerFee tx.takerOperatorFee).updateFee
      tx.makerAddress tx.makerFee tx.makerOperatorFee)

def handleTx (tx : OrderTx) : Matcher := (mc.handleTxFundSettle tx).addLog (.transaction tx)

def handleTxs (txs : List OrderTx) : Matcher := txs.foldl handleTx mc

end Matcher

/-- A killed taker reads as never executed. -/
def resetExecuted (order : Order) (reason : CancelReason) : Order :=
  { order with
    status := .cancelled
    cancelReason := reason
    executedAmount := 0
    executedBaseFee := 0
    executedOperatorFee := 0
    executedQuantity := 0 }

/-- The killed taker when a market order spent more than its threshold. -/
def checkMarketOrderAmtThreshold (taker : Order) : Option Order :=
  if taker.type = .market
      ∧ taker.marketOrderAmtThreshold < taker.executedAmount + taker.executedBaseFee + taker.executedOperatorFee then
    some (resetExecuted taker .cancelledByExceedMarketOrderAmtThreshold)
  else none

/-- What becomes of a taker that is neither filled nor cancelled when the makers run out. -/
def closeTaker (taker : Order) : Order :=
  if taker.type = .market ∨ taker.type = .immediateOrCancel then
    { taker with status := .cancelled, cancelReason := .cancelledByMarket }
  else if taker.type = .fillOrKill then resetExecuted taker .cancelledByFillOrKillNotFilled
  else taker

namespace Matcher
variable (mc : Matcher)

/-- The taker is refunded when it leaves the market and stored when it stays. -/
def closeOrSaveTaker (taker : Order) : Matcher × Order :=
  match checkMarketOrderAmtThreshold taker with
  | some taker => mc.handleRefund taker
  | none =>
    if taker.status = .partialExecuted ∨ taker.status = .pending then
      let taker := closeTaker taker
      if taker.status = .cancelled then mc.handleRefund taker else (mc.saveOrder taker true, taker)
    else mc.handleRefund taker

def handleTakerRes (taker : Order) : Matcher × Order :=
  let r := mc.closeOrSaveTaker taker
  (r.1.emitNewOrder r.2, r.2)

/-- The trade contract's clock follows the taker on one block in eight. -/
def tryUpdateTimestamp (timestamp : ℕ) (preHash : Byte) : Matcher :=
  if preHash.val < 32 then { mc with db := { mc.db with tradeTimestamp := timestamp } } else mc

/-- The makers and transactions of a killed taker are dropped. -/
def handleTaking (t : Taking) : Matcher × Order :=
  let r := mc.handleTakerRes t.taker
  if r.2.cancelReason = .cancelledByFillOrKillNotFilled
      ∨ r.2.cancelReason = .cancelledByExceedMarketOrderAmtThreshold then r
  else ((r.1.handleModifiedMakers t.modifiedMakers).handleTxs t.txs, r.2)

def doMatchTaker (A : Arith) (mc : Matcher) (taker : Order) (makers : List Order) (preHash : Byte) : Matcher × Order :=
  let r := match makers with
    | [] => mc.handleTakerRes taker
    | _ :: _ => mc.handleTaking (recursiveTakeOrder A mc { taker := taker } makers)
  (r.1.tryUpdateTimestamp taker.timestamp preHash, r.2)

/-- The matcher after a taker, and the taker as it ends. `preHash` is the first byte of the hash. -/
def matchOrder (A : Arith) (mc : Matcher) (taker : Order) (preHash : Byte) : Matcher × Order :=
  mc.doMatchTaker A taker (getMakerBook mc.db mc.marketInfo.marketId (!taker.side)) preHash

def cancelOrderById (order : Order) : Matcher :=
  let order := { order with
    status := .cancelled
    cancelReason := match order.status with
      | .pending => .cancelledByUser
      | .partialExecuted => .partialExecutedUserCancelled
      | _ => order.cancelReason }
  let r := mc.handleRefund order
  (r.1.emitOrderUpdate r.2).deleteOrder r.2

end Matcher
end GoVite.Dex

import GoVite.Spec.Dex.Matcher

/-! The trade contract (`contracts_dex_trade.go`, `trade_helper.go`). A method returns the new storage and the settle
message for the fund contract, if any; an error leaves the storage as it was. -/

namespace GoVite.Dex
open ByteString KeyStore

/-- Settlements by address, the trade token's before the quote token's. -/
def fundActionsOf (fundSettles : FundSettles) : List FundSettle :=
  fundSettles.entries.map fun e => ⟨e.1, e.2.values.reverse⟩

def handleSettleActions (fundSettles : FundSettles) (feeSettles : FeeSettles) (marketInfo : MarketInfo) :
    Option SettleActions :=
  if fundSettles.entries.isEmpty && feeSettles.entries.isEmpty then none
  else some {
    tradeToken := marketInfo.tradeToken
    quoteToken := marketInfo.quoteToken
    fundActions := fundActionsOf fundSettles
    feeActions := feeSettles.entries }

/-- What a method of the trade contract leaves behind. -/
structure TradeResult where
  db : TradeDb
  settle : Option SettleActions

/-- `MethodDexTradePlaceOrder.DoReceive`, on the order of the message. -/
def placeOrderReceive (A : Arith) (db : TradeDb) (order : Order) (preHash : Byte) : Except DexError TradeResult := do
  let matcher ← newMatcher db order.marketId
  let mc := (matcher.matchOrder A order preHash).1
  .ok ⟨mc.db, handleSettleActions mc.fundSettles mc.feeSettles mc.marketInfo⟩

def handleCancelOrderById (db : TradeDb) (orderId : List Byte) (operator : Address) : Except DexError TradeResult :=
  match deComposeOrderId orderId with
  | .error _ => .error .invalidOrderId
  | .ok id => do
    let matcher ← newMatcher db (marketIdOf id)
    let order ← getOrderById db id
    if operator ≠ order.address ∧ some operator ≠ order.agent then .error .cancelOrderOwnerInvalid
    else if order.status ≠ .pending ∧ order.status ≠ .partialExecuted then .error .cancelOrderInvalidStatus
    else
      let mc := matcher.cancelOrderById order
      .ok ⟨mc.db, handleSettleActions mc.fundSettles .empty mc.marketInfo⟩

/-- `MethodDexTradeCancelOrderByTransactionHash.DoReceive`; the fund contract's inner cancel is the
same with the owner it names as operator. -/
def cancelOrderByHashReceive (db : TradeDb) (sendHash : Hash) (operator : Address) : Except DexError TradeResult :=
  match db.hashMapOrderId.get? (getHashMapOrderIdKey sendHash) with
  | none => .error .invalidOrderHash
  | some id => handleCancelOrderById db id.toList operator

/-- `MethodDexTradeSyncNewMarket.DoReceive`. -/
def syncNewMarketReceive (db : TradeDb) (marketInfo : MarketInfo) : TradeDb :=
  { db with marketInfos := db.marketInfos.set marketInfo.marketId marketInfo }

section Expire

/-- The loop variables of `CleanExpireOrders`. -/
structure ExpireScan where
  marketId : ℕ := 0
  matcher : Option Matcher := none
  expiredMakers : List Order := []

/-- The market of the action: the first non-zero market id, which every later id must repeat. -/
def scanMarketId (marketId mkId : ℕ) : Except DexError ℕ :=
  if marketId = 0 then .ok mkId else if mkId ≠ marketId then .error .multiMarketsInOneAction else .ok marketId

/-- The matcher of the action is made at the first id. -/
def scanMatcher (db : TradeDb) (matcher : Option Matcher) (marketId : ℕ) : Except DexError Matcher :=
  match matcher with
  | some matcher => .ok matcher
  | none => newMatcher db marketId

/-- The stored order of an id, cancelled, if it is expired. -/
def expiredOrder (db : TradeDb) (id : OrderId) : Option Order :=
  (db.orders.get? id).bind fun body => filterTimeout db (body.render id)

def scanOrderId (db : TradeDb) (s : ExpireScan) (orderId : List Byte) : Except DexError ExpireScan := do
  let id ← deComposeOrderId orderId
  let marketId ← scanMarketId s.marketId (marketIdOf id)
  let matcher ← scanMatcher db s.matcher marketId
  .ok ⟨marketId, some matcher, s.expiredMakers ++ (expiredOrder db id).toList⟩

/-- The consecutive 22-byte pieces of `orderIds`. -/
def splitOrderIds (orderIds : List Byte) : List (List Byte) :=
  (List.range (orderIds.length / orderIdBytesLength)).map fun i =>
    (orderIds.drop (i * orderIdBytesLength)).take orderIdBytesLength

/-- `CleanExpireOrders`: the storage after it, and the settlements and market it returns. -/
def cleanExpireOrders (db : TradeDb) (orderIds : List Byte) :
    Except DexError (TradeDb × Option (FundSettles × MarketInfo)) :=
  if db.tradeTimestamp = 0 then .error .notSetTimestamp
  else do
    let s ← (splitOrderIds orderIds).foldlM (scanOrderId db) {}
    match s.matcher, s.expiredMakers with
    | some matcher, _ :: _ =>
      let mc := matcher.handleModifiedMakers s.expiredMakers
      .ok (mc.db, some (mc.fundSettles, mc.marketInfo))
    | _, _ => .ok (db, none)

end Expire

end GoVite.Dex

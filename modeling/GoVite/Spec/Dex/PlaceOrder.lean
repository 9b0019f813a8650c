import GoVite.Spec.Dex.FundDb
import GoVite.Spec.Dex.OrderId

/-! Placing an order in the fund contract (`fund_helper.go`): its funds are locked, and it is sent to the trade
contract. -/

namespace GoVite.Dex
open KeyStore BigFloat

structure ParamPlaceOrder where
  tradeToken : TokenId
  quoteToken : TokenId
  side : Bool
  orderType : OrderType
  price : Price
  quantity : ℕ
  deriving DecidableEq, Repr

def isAdvancedLimitOrder (type : OrderType) (enrichOrderFork : Bool) : Bool :=
  enrichOrderFork && (type == .postOnly || type == .fillOrKill || type == .immediateOrCancel)

def isMarketOrder (type : OrderType) (enrichOrderFork : Bool) : Bool := enrichOrderFork && type == .market

def maxTotalFeeRate (order : OrderBody) : ℤ :=
  max (order.takerFeeRate + order.takerOperatorFeeRate) (order.makerFeeRate + order.makerOperatorFeeRate)

def isAmountTooSmall (db : FundDb) (amount : ℕ) (marketInfo : MarketInfo) : Bool :=
  let decimals := (quoteTokenTypeInfos marketInfo.quoteTokenType).decimals
  let tradeThreshold := db.getTradeThreshold marketInfo.quoteTokenType
  if decimals = marketInfo.quoteTokenDecimals then amount < tradeThreshold
  else adjustAmountForDecimalsDiff amount (marketInfo.quoteTokenDecimals - decimals) < tradeThreshold

/-- Invited users pay nine tenths of a rate, in the truncating division of the source. -/
def inviteeRate (invited : Bool) (rate : ℤ) : ℤ := if invited then Int.tdiv (rate * 9) 10 else rate

/-- Staking users pay a reduced base rate. -/
def vipFeeRate (db : FundDb) (address : Address) : ℤ :=
  baseFeeRate - if db.superVIPStaking address then baseFeeRate
    else if db.vipStaking address then vipReduceFeeRate else 0

def renderFeeRate (db : FundDb) (address : Address) (order : OrderBody) (marketInfo : MarketInfo) : OrderBody :=
  if db.heightPoint.isDexStableMarketUpgrade && marketInfo.stableMarket then order
  else
    let invited := (db.inviterByInvitee.get? address).isSome
    { order with
      takerFeeRate := inviteeRate invited (vipFeeRate db address)
      takerOperatorFeeRate := inviteeRate invited marketInfo.takerOperatorFeeRate
      makerFeeRate := inviteeRate invited (vipFeeRate db address)
      makerOperatorFeeRate := inviteeRate invited marketInfo.makerOperatorFeeRate }

/-- The market of a request, when orders may be placed on it. -/
def checkMarket (db : FundDb) (param : ParamPlaceOrder) (address : Address) (agent : Option Address) :
    Except DexError MarketInfo :=
  if db.dexStopped then .error .dexStopped
  else match db.getMarketInfo param.tradeToken param.quoteToken with
    | none => .error .tradeMarketNotExists
    | some marketInfo =>
      if !marketInfo.valid then .error .tradeMarketNotExists
      else if marketInfo.stopped then .error .tradeMarketStopped
      else if agent.any fun a => !db.isMarketGrantedToAgent address a marketInfo.marketId then
        .error .tradeMarketNotGranted
      else .ok marketInfo

/-- The amount and fee lock of an order with a price. -/
def renderAmount (A : Arith) (order : OrderBody) (side : Bool) (price : Price) (marketInfo : MarketInfo) : OrderBody :=
  let amount := A.calculateRawAmount order.quantity price
    (marketInfo.tradeTokenDecimals - marketInfo.quoteTokenDecimals)
  { order with
    amount := amount
    lockedBuyFee := if side then order.lockedBuyFee else A.calculateAmountForRate amount (maxTotalFeeRate order) }

/-- The order of a request, without its id and its lock. -/
def renderBody (A : Arith) (db : FundDb) (param : ParamPlaceOrder) (address : Address) (agent : Option Address)
    (sendHash : Hash) (enrichOrderFork : Bool) (marketInfo : MarketInfo) : OrderBody :=
  let order := renderFeeRate db address
    { address := address, type := param.orderType, quantity := param.quantity } marketInfo
  let order := if param.orderType = .limited ∨ isAdvancedLimitOrder param.orderType enrichOrderFork then
      renderAmount A order param.side param.price marketInfo
    else order
  if db.heightPoint.isStemUpgrade then
    { order with
      agent := if db.heightPoint.isDexRobotUpgrade then none else agent
      sendHash := some sendHash }
  else order

/-- `RenderOrder`: the storage with the used serial number, the order and its market. -/
def renderOrder (A : Arith) (db : FundDb) (param : ParamPlaceOrder) (address : Address) (agent : Option Address)
    (sendHash : Hash) (enrichOrderFork : Bool) : Except DexError (FundDb × Order × MarketInfo) := do
  let marketInfo ← checkMarket db param address agent
  if db.dexTimestamp = 0 then .error .notSetTimestamp
  else
    let serialNo := db.newAndSaveOrderSerialNo db.dexTimestamp
    let order := renderBody A db param address agent sendHash enrichOrderFork marketInfo
    if (param.orderType = .limited ∨ isAdvancedLimitOrder param.orderType enrichOrderFork)
        ∧ isAmountTooSmall db (order.amount + order.lockedBuyFee) marketInfo then .error .orderAmountTooSmall
    else .ok (serialNo.1, { order with
      id := composeOrderId marketInfo.marketId param.side param.price db.dexTimestamp serialNo.2 }, marketInfo)

/-- A buy without a price, which locks everything available. -/
def isMarketBuy (order : Order) (enrichOrderFork : Bool) : Bool :=
  !order.side && !(order.type == .limited || isAdvancedLimitOrder order.type enrichOrderFork)

/-- A priced buy locks its amount and fee, a market buy everything available, a sell its quantity. -/
def lockAmountOf (order : Order) (available : ℕ) (enrichOrderFork : Bool) : ℕ :=
  if order.side then order.quantity
  else if isMarketBuy order enrichOrderFork then available
  else order.amount + order.lockedBuyFee

/-- The order with the amount of a market buy and the threshold of a market order filled in. -/
def renderLock (db : FundDb) (order : Order) (marketInfo : MarketInfo) (lockAmount : ℕ) (enrichOrderFork : Bool) : Order :=
  { order with
    amount := if isMarketBuy order enrichOrderFork then lockAmount else order.amount
    marketOrderAmtThreshold := if order.type = .market then
        adjustAmountForDecimalsDiff (db.getMarketOrderAmtThreshold marketInfo.quoteTokenType)
          ((quoteTokenTypeInfos marketInfo.quoteTokenType).decimals - marketInfo.quoteTokenDecimals)
      else order.marketOrderAmtThreshold }

/-- `CheckAndLockFundForNewOrder`: the storage with the funds locked, and the order. -/
def checkAndLockFundForNewOrder (db : FundDb) (order : Order) (marketInfo : MarketInfo) (enrichOrderFork : Bool) :
    Except DexError (FundDb × Order) :=
  let token := lockToken marketInfo order.side
  match db.accounts.get? (accountKey order.address token) with
  | none => .error .exceedFundAvailable
  | some account =>
    let lockAmount := lockAmountOf order account.available enrichOrderFork
    if isMarketBuy order enrichOrderFork ∧ isAmountTooSmall db lockAmount marketInfo then .error .orderAmountTooSmall
    else if account.available < lockAmount then .error .exceedFundAvailable
    else .ok (db.saveAccount order.address token
      { account with available := account.available - lockAmount, locked := account.locked + lockAmount },
      renderLock db order marketInfo lockAmount enrichOrderFork)

/-- `int32(float32(r) / (float32(100000) + float32(r)) * float32(100000)) + 1`. -/
def adjustedFeeRate (feeRate : ℤ) : ℤ :=
  let f32 := roundPrec 24
  let quotient := f32 (f32 feeRate / f32 (f32 rateCardinalNum + f32 feeRate))
  ⌊f32 (quotient * f32 rateCardinalNum)⌋ + 1

/-- `RenderMarketBuyOrderAmountAndFee`: the locked amount is divided into amount and fee. -/
def renderMarketBuyOrderAmountAndFee (A : Arith) (order : Order) : Order :=
  let feeRate := maxTotalFeeRate order.toOrderBody
  if 0 < feeRate then
    let fee := A.calculateAmountForRate order.amount (adjustedFeeRate feeRate)
    { order with lockedBuyFee := fee, amount := subBigIntAbs order.amount fee }
  else order

/-- `DoPlaceOrder`: the storage after it, and the order sent to the trade contract. -/
def doPlaceOrder (A : Arith) (db : FundDb) (param : ParamPlaceOrder) (address : Address) (agent : Option Address)
    (sendHash : Hash) : Except DexError (FundDb × Order) :=
  let enrichOrderFork := param.orderType != .limited && db.heightPoint.isVersion11Upgrade
  if param.orderType ≠ .limited ∧ !enrichOrderFork then .error .invalidOrderType
  else do
    let rendered ← renderOrder A db param address agent sendHash enrichOrderFork
    let locked ← checkAndLockFundForNewOrder rendered.1 rendered.2.1 rendered.2.2 enrichOrderFork
    .ok (locked.1, if !locked.2.side ∧ isMarketOrder locked.2.type enrichOrderFork then
        renderMarketBuyOrderAmountAndFee A locked.2 else locked.2)

end GoVite.Dex

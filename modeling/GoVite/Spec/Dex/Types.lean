import GoVite.Lib.Bytes
import GoVite.Lib.Store

/-! Data of the two exchange contracts. Amounts are the unsigned big integers the source keeps as byte strings (`nil` is
zero), rates are its `int32`s. -/

namespace GoVite.Dex
open ByteString KeyStore

abbrev Address := ℕ
abbrev TokenId := ℕ
abbrev Hash := ℕ

/-- The highest upgrade active at the current snapshot height; upgrades activate in order. -/
structure HeightPoint where
  version : ℕ
  deriving DecidableEq, Repr

namespace HeightPoint
variable (hp : HeightPoint)

def isDexFeeUpgrade : Bool := 3 ≤ hp.version
def isStemUpgrade : Bool := 4 ≤ hp.version
def isEarthUpgrade : Bool := 6 ≤ hp.version
def isDexMiningUpgrade : Bool := 7 ≤ hp.version
def isDexRobotUpgrade : Bool := 8 ≤ hp.version
def isDexStableMarketUpgrade : Bool := 9 ≤ hp.version
def isVersion10Upgrade : Bool := 10 ≤ hp.version
def isVersion11Upgrade : Bool := 11 ≤ hp.version
def isVersion12Upgrade : Bool := 12 ≤ hp.version

end HeightPoint

inductive OrderStatus
  | pending | partialExecuted | fullyExecuted | cancelled | newFailed
  deriving DecidableEq, Repr

inductive CancelReason
  | cancelledByUser | cancelledByMarket | cancelledOnTimeout | partialExecutedUserCancelled
  | partialExecutedCancelledByMarket | partialExecutedCancelledOnTimeout | unknownCancelledOnTimeout
  | cancelledByPostOnlyMatched | cancelledByFillOrKillNotFilled | cancelledByExceedMarketOrderAmtThreshold
  deriving DecidableEq, Repr

inductive OrderType
  | limited | market | postOnly | fillOrKill | immediateOrCancel
  deriving DecidableEq, Repr

/-- Five bytes of integer part, five of decimal part in units of `10 ^ -12`. -/
abbrev Price := Bytes (5 + 5)

/-- 22 bytes: market id, side, price, timestamp and serial number. -/
abbrev OrderId := Bytes (3 + (1 + (5 + 5 + (5 + 3))))

/-- What is serialized under an order's id. -/
structure OrderBody where
  address : Address
  type : OrderType
  takerFeeRate : ℤ := 0
  makerFeeRate : ℤ := 0
  takerOperatorFeeRate : ℤ := 0
  makerOperatorFeeRate : ℤ := 0
  quantity : ℕ
  amount : ℕ := 0
  lockedBuyFee : ℕ := 0
  status : OrderStatus := .pending
  cancelReason : CancelReason := .cancelledByUser
  executedQuantity : ℕ := 0
  executedAmount : ℕ := 0
  executedBaseFee : ℕ := 0
  executedOperatorFee : ℕ := 0
  refundToken : Option TokenId := none
  refundQuantity : ℕ := 0
  agent : Option Address := none
  sendHash : Option Hash := none
  marketOrderAmtThreshold : ℕ := 0
  deriving DecidableEq, Repr

/-- Market, side, price and timestamp are not serialized; they are rendered from the id. -/
structure Order extends OrderBody where
  id : OrderId
  deriving DecidableEq, Repr

inductive QuoteTokenType
  | vite | eth | btc | usd
  deriving DecidableEq, Repr

structure MarketInfo where
  marketId : ℕ
  tradeToken : TokenId
  quoteToken : TokenId
  quoteTokenType : QuoteTokenType := .vite
  tradeTokenDecimals : ℤ
  quoteTokenDecimals : ℤ
  takerOperatorFeeRate : ℤ := 0
  makerOperatorFeeRate : ℤ := 0
  allowMining : Bool := false
  valid : Bool := true
  owner : Address := 0
  creator : Address := 0
  stopped : Bool := false
  stableMarket : Bool := false
  timestamp : ℕ := 0
  deriving DecidableEq, Repr

structure OrderTx where
  takerSide : Bool
  takerId : OrderId
  makerId : OrderId
  price : Price
  quantity : ℕ
  amount : ℕ
  takerFee : ℕ
  makerFee : ℕ
  takerOperatorFee : ℕ
  makerOperatorFee : ℕ
  timestamp : ℕ
  takerAddress : Address
  makerAddress : Address
  tradeToken : TokenId
  quoteToken : TokenId
  deriving DecidableEq, Repr

structure AccountSettle where
  isTradeToken : Bool
  incAvailable : ℕ := 0
  reduceLocked : ℕ := 0
  releaseLocked : ℕ := 0
  deriving DecidableEq, Repr

structure FeeSettle where
  baseFee : ℕ
  operatorFee : ℕ
  deriving DecidableEq, Repr

structure FundSettle where
  address : Address
  accountSettles : List AccountSettle
  deriving DecidableEq, Repr

/-- The settle message of one block; all of it belongs to one market. -/
structure SettleActions where
  tradeToken : TokenId
  quoteToken : TokenId
  fundActions : List FundSettle
  feeActions : List (Address × FeeSettle)
  deriving DecidableEq, Repr

/-- The data of an order-update event. -/
structure OrderUpdateInfo where
  id : OrderId
  tradeToken : TokenId
  quoteToken : TokenId
  status : OrderStatus
  cancelReason : CancelReason
  executedQuantity : ℕ
  executedAmount : ℕ
  executedBaseFee : ℕ
  executedOperatorFee : ℕ
  refundToken : Option TokenId
  refundQuantity : ℕ
  deriving DecidableEq, Repr

inductive TradeEvent
  | newOrder (order : Order) (tradeToken quoteToken : TokenId)
  | orderUpdate (info : OrderUpdateInfo)
  | transaction (tx : OrderTx)
  deriving DecidableEq, Repr

/-- Storage of the trade contract and the events of the current block. -/
structure TradeDb where
  orders : Store OrderId OrderBody := .empty
  marketInfos : Store ℕ MarketInfo := .empty
  hashMapOrderId : Store Hash OrderId := .empty
  tradeTimestamp : ℕ := 0
  heightPoint : HeightPoint
  logs : List TradeEvent := []

inductive DexError
  | tradeMarketNotExists | orderNotExists | deComposeOrderIdFail | invalidOrderId | invalidOrderHash
  | cancelOrderOwnerInvalid | cancelOrderInvalidStatus | notSetTimestamp | multiMarketsInOneAction
  | invalidOperation | invalidInputParam | dexStopped | tradeMarketStopped | tradeMarketNotGranted
  | invalidOrderType | orderAmountTooSmall | exceedFundAvailable | exceedFundLocked | invalidToken
  | sumInitiationNegative | sumUpdatedNegative | noDexFeesFoundForValidPeriod
  | oracleTimestampExceedPeriodGap | invalidTimestampFromTimeOracle | lockedVxAmountLeavedNotValid
  | notTerminating | invalidMinedAmount | notSetMakerMiningAdmin | notSetMaintainer
  | invalidSourceAddress | jobPeriodNotBeforeCurrent | jobPeriodNotExpected | noVxAvailable
  | vipStakingExists | superVipStakingExists | vipStakingNotExists | superVIPStakingNotExists
  | stakingInfoByIdNotExists | onlyOwnerAllow | invalidAmountForStakeCallback | invalidIdForStakeCallback
  | tradeMarketExists | tradeMarketInvalidTokenPair | tradeMarketInvalidQuoteToken | invalidQuoteTokenType
  | alreadyQuoteType | pendingNewMarketInnerConflict | getTokenInfoCallbackInnerConflict
  deriving DecidableEq, Repr

end GoVite.Dex

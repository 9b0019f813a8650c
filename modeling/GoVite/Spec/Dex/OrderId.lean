import GoVite.Spec.Dex.Types

/-! Order ids (`utils.go`, `order.go`): the key an order is stored under, and the fields
`RenderOrderById` reads back from it. -/

namespace GoVite.Dex
open ByteString

def orderIdBytesLength : ℕ := 22

/-- `ComposeOrderId`, given the timestamp and serial number it takes from the database. -/
def composeOrderId (marketId : ℕ) (side : Bool) (price : Price) (timestamp serialNo : ℕ) : OrderId :=
  (Bytes.ofNat 3 marketId).append ((Bytes.ofNat 1 (if side then 1 else 0)).append
    ((if side then price else price.not).append ((Bytes.ofNat 5 timestamp).append (Bytes.ofNat 3 serialNo))))

def marketIdOf (id : OrderId) : ℕ := id.left.val

def sideOf (id : OrderId) : Bool := id.right.left.val == 1

def priceOf (id : OrderId) : Price := if sideOf id then id.right.right.left else id.right.right.left.not

def timestampOf (id : OrderId) : ℕ := id.right.right.right.left.val

/-- The last three bytes, which nothing reads back but which order ids of one second. -/
def serialNoOf (id : OrderId) : ℕ := id.right.right.right.right.val

namespace Order

def marketId (o : Order) : ℕ := marketIdOf o.id

/-- `false` is buy, `true` is sell. -/
def side (o : Order) : Bool := sideOf o.id

def price (o : Order) : Price := priceOf o.id

def timestamp (o : Order) : ℕ := timestampOf o.id

/-- Full execution and cancellation take an order out of the market. -/
def finished (o : Order) : Prop := o.status = .fullyExecuted ∨ o.status = .cancelled

instance (o : Order) : Decidable o.finished :=
  inferInstanceAs (Decidable (o.status = .fullyExecuted ∨ o.status = .cancelled))

end Order

def lockToken (marketInfo : MarketInfo) (side : Bool) : TokenId :=
  if side then marketInfo.tradeToken else marketInfo.quoteToken

/-- `DeSerializeCompact`. -/
def OrderBody.render (body : OrderBody) (id : OrderId) : Order := { body with id := id }

/-- A raw byte string as an order id; `DeComposeOrderId` rejects every other length. -/
def deComposeOrderId (idBytes : List Byte) : Except DexError OrderId :=
  if h : idBytes.length = orderIdBytesLength then .ok ⟨idBytes, h⟩ else .error .deComposeOrderIdFail

/-- The common prefix of the ids of one side of one market. -/
def getBookPrefix (marketId : ℕ) (side : Bool) : Bytes (3 + 1) :=
  (Bytes.ofNat 3 marketId).append (Bytes.ofNat 1 (if side then 1 else 0))

end GoVite.Dex

import GoVite.Spec.Dex.Accounts
import GoVite.Spec.Dex.SettleFund
import GoVite.Spec.Dex.Trade

/-! The fund and the trade contract as two parties. Messages are delivered at any later time and in any order; one that
is refused is gone, and its sender is not told. -/

namespace GoVite.Dex
open ByteString KeyStore

inductive CancelRequest
  | byId (orderId : List Byte) (operator : Address)
  | byHash (sendHash : Hash) (owner : Address)
  deriving DecidableEq, Repr

structure Exchange where
  fund : FundDb
  trade : TradeDb
  placing : List Order := []
  cancelling : List CancelRequest := []
  settling : List SettleActions := []

/-- A call of a user or of the time oracle, or the delivery of one of the messages under way. -/
inductive ExchangeAction
  | place (param : ParamPlaceOrder) (address : Address) (agent : Option Address) (sendHash : Hash)
  | requestCancel (request : CancelRequest)
  | deliverPlace (i : ℕ) (preHash : Byte)
  | deliverCancel (i : ℕ)
  | deliverSettle (i : ℕ)
  | setTimestamp (timestamp : ℕ)
  | deposit (address : Address) (token : TokenId) (amount : ℕ)
  | withdraw (address : Address) (token : TokenId) (amount : ℕ)

namespace Exchange

/-- The trade contract's answer to a message. -/
def tradeResult (s : Exchange) (res : Except DexError TradeResult) : Exchange :=
  match res with
  | .ok r => { s with trade := r.db, settling := s.settling ++ r.settle.toList }
  | .error _ => s

/-- A call of the fund contract; a refused one changes nothing. -/
def fundResult (s : Exchange) (res : Except DexError FundDb) : Exchange :=
  match res with
  | .ok fund => { s with fund := fund }
  | .error _ => s

def cancelReceive (db : TradeDb) : CancelRequest → Except DexError TradeResult
  | .byId orderId operator => handleCancelOrderById db orderId operator
  | .byHash sendHash owner => cancelOrderByHashReceive db sendHash owner

def step (A : Arith) (reader : ConsensusReader) (s : Exchange) : ExchangeAction → Exchange
  | .place param address agent sendHash =>
    match doPlaceOrder A s.fund param address agent sendHash with
    | .ok (fund, order) => { s with fund := fund, placing := s.placing ++ [order] }
    | .error _ => s
  | .requestCancel request => { s with cancelling := s.cancelling ++ [request] }
  | .deliverPlace i preHash =>
    match s.placing[i]? with
    | none => s
    | some order => { s with placing := s.placing.eraseIdx i }.tradeResult (placeOrderReceive A s.trade order preHash)
  | .deliverCancel i =>
    match s.cancelling[i]? with
    | none => s
    | some request => { s with cancelling := s.cancelling.eraseIdx i }.tradeResult (cancelReceive s.trade request)
  | .deliverSettle i =>
    match s.settling[i]? with
    | none => s
    | some actions => { s with settling := s.settling.eraseIdx i }.fundResult
        ((settleFundActions s.fund reader actions).map Settled.db)
  | .setTimestamp timestamp => s.fundResult (setDexTimestamp A s.fund reader timestamp)
  | .deposit address token amount => { s with fund := (depositAccount s.fund address token amount).1 }
  | .withdraw address token amount => s.fundResult ((reduceAccount s.fund address token amount).map Prod.fst)

def run (A : Arith) (reader : ConsensusReader) (s : Exchange) (actions : List ExchangeAction) : Exchange :=
  actions.foldl (step A reader) s

end Exchange
end GoVite.Dex

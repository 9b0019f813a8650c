import GoVite.Spec.Dex.Exchange
import GoVite.Spec.Dex.Market

/-! Agents of a user in a market (`fund_storage.go`, `contracts_dex_fund.go`): users' calls reach the fund contract,
which sends on to the trade contract. -/

namespace GoVite.Dex
open ByteString KeyStore SwapRemove

inductive AgentActionType
  | grantAgent | revokeAgent
  deriving DecidableEq, Repr

structure ParamConfigMarketAgents where
  actionType : AgentActionType
  agent : Address
  tradeTokens : List TokenId
  quoteTokens : List TokenId
  deriving DecidableEq, Repr

structure ParamCancelOrderByHash where
  sendHash : Hash
  principal : Address
  tradeToken : TokenId
  quoteToken : TokenId
  deriving DecidableEq, Repr

def grantMarketToAgent (db : FundDb) (principal agent : Address) (marketId : ℕ) : FundDb :=
  let key := FundDb.grantedMarketToAgentKey principal marketId
  let agents := db.grantedMarkets.getD key []
  if agent ∈ agents then db else { db with grantedMarkets := db.grantedMarkets.set key (agents ++ [agent]) }

/-- The last agent moves into the place of the removed one. -/
def withoutAgent (agents : List Address) (agent : Address) : List Address :=
  ((takeFirst (fun a => a == agent) agents).map Prod.snd).getD agents

def revokeMarketFromAgent (db : FundDb) (principal agent : Address) (marketId : ℕ) : FundDb :=
  let key := FundDb.grantedMarketToAgentKey principal marketId
  let agents := db.grantedMarkets.getD key []
  if agents = [] then db
  else { db with grantedMarkets := db.grantedMarkets.set key (withoutAgent agents agent) }

def configMarket (db : FundDb) (principal : Address) (actionType : AgentActionType) (agent : Address) (marketId : ℕ) : FundDb :=
  match actionType with
  | .grantAgent =>
    if db.isMarketGrantedToAgent principal agent marketId then db else grantMarketToAgent db principal agent marketId
  | .revokeAgent =>
    if db.isMarketGrantedToAgent principal agent marketId then revokeMarketFromAgent db principal agent marketId else db

def configMarketAgent (principal : Address) (actionType : AgentActionType) (agent : Address) (db : FundDb)
    (market : TokenId × TokenId) : Except DexError FundDb :=
  match db.getMarketInfo market.1 market.2 with
  | none => .error .tradeMarketNotExists
  | some marketInfo => .ok (configMarket db principal actionType agent marketInfo.marketId)

def ParamConfigMarketAgents.markets (param : ParamConfigMarketAgents) : List (TokenId × TokenId) :=
  param.tradeTokens.zip param.quoteTokens

def methodConfigMarketAgents (db : FundDb) (sender : Address) (param : ParamConfigMarketAgents) : Except DexError FundDb :=
  if param.tradeTokens = [] ∨ param.tradeTokens.length ≠ param.quoteTokens.length ∨ sender = param.agent then
    .error .invalidInputParam
  else param.markets.foldlM (configMarketAgent sender param.actionType param.agent) db

/-- The user whose order is to be cancelled. -/
def checkCancelAgentOrder (db : FundDb) (sender : Address) (param : ParamCancelOrderByHash) : Except DexError Address :=
  if param.principal ≠ 0 ∧ param.principal ≠ sender then
    match db.getMarketInfo param.tradeToken param.quoteToken with
    | none => .error .tradeMarketNotExists
    | some marketInfo =>
      if !db.isMarketGrantedToAgent param.principal sender marketInfo.marketId then .error .tradeMarketNotGranted
      else .ok param.principal
  else .ok sender

/-- `MethodDexCancelOrderBySendHash`: the owner in the cancellation that the trade contract is sent. -/
def methodCancelOrderBySendHash (db : FundDb) (sender : Address) (param : ParamCancelOrderByHash) : Except DexError Address :=
  if param.principal ≠ 0 ∧ param.principal ≠ sender ∧ (param.tradeToken = 0 ∨ param.quoteToken = 0) then
    .error .invalidInputParam
  else checkCancelAgentOrder db sender param

/-- One action of a user on an agent in a market. -/
structure AgentConfig where
  principal : Address
  agent : Address
  market : TokenId × TokenId
  actionType : AgentActionType
  deriving DecidableEq, Repr

/-- The calls of users, the messages on their way and whatever else the fund contract does. -/
inductive DeskAction
  | openNewMarket (sender : Address) (param : ParamOpenNewMarket)
  | getTokenInfoCallback (param : ParamGetTokenInfoCallback)
  | configMarketAgents (sender : Address) (param : ParamConfigMarketAgents)
  | placeOrder (sender : Address) (param : ParamPlaceOrder) (sendHash : Hash)
  | placeAgentOrder (sender : Address) (param : ParamPlaceOrder) (principal : Address) (sendHash : Hash)
  | cancelOrderBySendHash (sender : Address) (param : ParamCancelOrderByHash)
  | deliverPlace (i : ℕ) (preHash : Byte)
  | deliverCancel (i : ℕ)
  | deliverSync (i : ℕ)
  | elsewhere (db : FundDb)

/-- A cancellation on its way, with the call it comes from and the actions on agents up to that call. -/
structure CancelCall where
  sender : Address
  param : ParamCancelOrderByHash
  owner : Address
  configs : List AgentConfig

/-- An order that the call of a user placed or cancelled, and the actions on agents up to that call. -/
structure Deed where
  sender : Address
  order : Order
  configs : List AgentConfig

/-- The two contracts and the messages between them; `configs` and `deeds` record what happened, the
latest first. -/
structure Desk where
  fund : FundDb
  trade : TradeDb
  placing : List Order := []
  cancelling : List CancelCall := []
  syncing : List MarketInfo := []
  configs : List AgentConfig := []
  deeds : List Deed := []

namespace Desk

/-- The markets among the calls to be sent. -/
def newMarkets : List MarketCall → List MarketInfo
  | [] => []
  | .syncNewMarket marketInfo :: calls => marketInfo :: newMarkets calls
  | .getTokenInfo _ _ :: calls => newMarkets calls
  | .burn _ :: calls => newMarkets calls

def marketResult (s : Desk) (res : Except DexError (FundDb × List MarketCall)) : Desk :=
  match res with
  | .ok r => { s with fund := r.1, syncing := s.syncing ++ newMarkets r.2 }
  | .error _ => s

def placeResult (s : Desk) (sender : Address) (res : Except DexError (FundDb × Order)) : Desk :=
  match res with
  | .ok r => { s with fund := r.1, placing := s.placing ++ [r.2], deeds := ⟨sender, r.2, s.configs⟩ :: s.deeds }
  | .error _ => s

def configsOf (sender : Address) (param : ParamConfigMarketAgents) : List AgentConfig :=
  (param.markets.map fun market => ⟨sender, param.agent, market, param.actionType⟩).reverse

/-- The order that a send hash leads to. -/
def orderOfHash (db : TradeDb) (sendHash : Hash) : Option Order :=
  (db.hashMapOrderId.get? (getHashMapOrderIdKey sendHash)).bind fun id => (db.orders.get? id).map fun body => body.render id

def cancelResult (s : Desk) (call : CancelCall) : Desk :=
  match cancelOrderByHashReceive s.trade call.param.sendHash call.owner with
  | .ok r => { s with
    trade := r.db
    deeds := (orderOfHash s.trade call.param.sendHash).toList.map (fun o => ⟨call.sender, o, call.configs⟩) ++ s.deeds }
  | .error _ => s

/-- Anything else may happen to the fund contract that leaves markets, agents and the upgrades alone. -/
def elsewhere (s : Desk) (db : FundDb) : Desk :=
  { s with fund := { db with
    heightPoint := s.fund.heightPoint
    marketInfos := s.fund.marketInfos
    lastMarketId := s.fund.lastMarketId
    grantedMarkets := s.fund.grantedMarkets } }

def step (A : Arith) (reader : ConsensusReader) (s : Desk) : DeskAction → Desk
  | .openNewMarket sender param => s.marketResult (methodOpenNewMarket A s.fund reader sender param)
  | .getTokenInfoCallback param => s.marketResult (methodGetTokenInfoCallback A s.fund reader param)
  | .configMarketAgents sender param =>
    match methodConfigMarketAgents s.fund sender param with
    | .ok fund => { s with fund := fund, configs := configsOf sender param ++ s.configs }
    | .error _ => s
  | .placeOrder sender param sendHash => s.placeResult sender (doPlaceOrder A s.fund param sender none sendHash)
  | .placeAgentOrder sender param principal sendHash =>
    s.placeResult sender (doPlaceOrder A s.fund param principal (some sender) sendHash)
  | .cancelOrderBySendHash sender param =>
    match methodCancelOrderBySendHash s.fund sender param with
    | .ok owner => { s with cancelling := s.cancelling ++ [⟨sender, param, owner, s.configs⟩] }
    | .error _ => s
  | .deliverPlace i preHash =>
    match s.placing[i]? with
    | none => s
    | some order =>
      match placeOrderReceive A s.trade order preHash with
      | .ok r => { s with trade := r.db, placing := s.placing.eraseIdx i }
      | .error _ => { s with placing := s.placing.eraseIdx i }
  | .deliverCancel i =>
    match s.cancelling[i]? with
    | none => s
    | some call => { s with cancelling := s.cancelling.eraseIdx i }.cancelResult call
  | .deliverSync i =>
    match s.syncing[i]? with
    | none => s
    | some marketInfo => { s with
      trade := syncNewMarketReceive s.trade marketInfo, syncing := s.syncing.eraseIdx i }
  | .elsewhere db => s.elsewhere db

def run (A : Arith) (reader : ConsensusReader) (s : Desk) (actions : List DeskAction) : Desk :=
  actions.foldl (step A reader) s

end Desk
end GoVite.Dex

import GoVite.Lib.SwapRemove
import GoVite.Spec.Dex.Accounts
import GoVite.Spec.Dex.Fees

/-! New markets, quote tokens and token owners (`fund_helper.go`, `contracts_dex_fund.go`). The first request about a
token waits for the asset contract's answer, which is the token's record from then on. -/

namespace GoVite.Dex
open KeyStore SwapRemove

def newMarketFeeAmount : ℕ := commonTokenPow * 10000
def newMarketFeeMineAmount : ℕ := commonTokenPow * 1000
def newMarketFeeDonateAmount : ℕ := commonTokenPow * 4000
def newMarketFeeBurnAmount : ℕ := commonTokenPow * 5000

/-- The addresses are twenty bytes and a zero for no contract. -/
def initOwner : Address := 0xa8a00b3a2f60f5defb221c68f79b65f3620ee87400
def initViteTokenOwner : Address := 0x050697d3810c30816b005a03511c734c1159f50900

/-- What the asset contract is asked for a token for. -/
inductive GetTokenFor
  | newMarket | setQuote | transferOwner
  deriving DecidableEq, Repr

/-- The calls that the methods send. -/
inductive MarketCall
  | getTokenInfo (token : TokenId) (bid : GetTokenFor)
  | syncNewMarket (marketInfo : MarketInfo)
  | burn (amount : ℕ)
  deriving DecidableEq, Repr

structure ParamOpenNewMarket where
  tradeToken : TokenId
  quoteToken : TokenId
  deriving DecidableEq, Repr

structure ParamGetTokenInfoCallback where
  tokenId : TokenId
  bid : GetTokenFor
  exist : Bool
  decimals : ℤ
  owner : Address
  deriving DecidableEq, Repr

namespace QuoteTokenType

/-- The numbers of the source start at one. -/
def number : QuoteTokenType → ℕ
  | .vite => 1
  | .eth => 2
  | .btc => 3
  | .usd => 4

def ofNumber? : ℕ → Option QuoteTokenType
  | 1 => some .vite
  | 2 => some .eth
  | 3 => some .btc
  | 4 => some .usd
  | _ => none

end QuoteTokenType

/-- Zero for a token that is no quote token. -/
def TokenInfo.quoteTokenTypeNumber (tokenInfo : TokenInfo) : ℕ := (tokenInfo.quoteTokenType.map QuoteTokenType.number).getD 0

def isOwner (db : FundDb) (address : Address) : Bool := address = db.owner.getD initOwner

def saveTokenInfo (db : FundDb) (token : TokenId) (tokenInfo : TokenInfo) : FundDb :=
  { db with tokenInfos := db.tokenInfos.set token tokenInfo }

def saveMarketInfo (db : FundDb) (marketInfo : MarketInfo) (tradeToken quoteToken : TokenId) : FundDb :=
  { db with marketInfos := db.marketInfos.set (toLex (tradeToken, quoteToken)) marketInfo }

def deleteMarketInfo (db : FundDb) (tradeToken quoteToken : TokenId) : FundDb :=
  { db with marketInfos := db.marketInfos.erase (toLex (tradeToken, quoteToken)) }

def newAndSaveMarketId (db : FundDb) : FundDb × ℕ :=
  ({ db with lastMarketId := db.lastMarketId + 1 }, db.lastMarketId + 1)

section Pending
variable (db : FundDb)

/-- The first waiting request about the token, and the list without it. -/
def filterPending {α : Type} (tokenOf : α → TokenId) (pendings : List α) (token : TokenId) : Except DexError (α × List α) :=
  match takeFirst (fun action => tokenOf action == token) pendings with
  | none => .error .getTokenInfoCallbackInnerConflict
  | some r => .ok r

def filterPendingNewMarkets (tradeToken : TokenId) : Except DexError (FundDb × List TokenId) := do
  let r ← filterPending NewMarketAction.tradeToken db.pendingNewMarkets tradeToken
  if r.1.quoteTokens = [] then .error .getTokenInfoCallbackInnerConflict
  else .ok ({ db with pendingNewMarkets := r.2 }, r.1.quoteTokens)

def filterPendingSetQuotes (token : TokenId) : Except DexError (FundDb × SetQuoteTokenAction) := do
  let r ← filterPending SetQuoteTokenAction.token db.pendingSetQuotes token
  .ok ({ db with pendingSetQuotes := r.2 }, r.1)

def filterPendingTransferTokenOwners (token : TokenId) : Except DexError (FundDb × TransferTokenOwnerAction) := do
  let r ← filterPending TransferTokenOwnerAction.token db.pendingTransferTokenOwners token
  .ok ({ db with pendingTransferTokenOwners := r.2 }, r.1)

/-- The quote token joins the waiting markets of its trade token. -/
def addQuoteToken (tradeToken quoteToken : TokenId) : List NewMarketAction → Except DexError (List NewMarketAction)
  | [] => .ok [⟨tradeToken, [quoteToken]⟩]
  | action :: actions =>
    if action.tradeToken = tradeToken then
      if quoteToken ∈ action.quoteTokens then .error .pendingNewMarketInnerConflict
      else .ok ({ action with quoteTokens := action.quoteTokens ++ [quoteToken] } :: actions)
    else (addQuoteToken tradeToken quoteToken actions).map (action :: ·)

def addToPendingNewMarkets (tradeToken quoteToken : TokenId) : Except DexError FundDb := do
  let pendings ← addQuoteToken tradeToken quoteToken db.pendingNewMarkets
  .ok { db with pendingNewMarkets := pendings }

def addToPendingSetQuotes (token : TokenId) (quoteTokenType : QuoteTokenType) : FundDb :=
  { db with pendingSetQuotes := db.pendingSetQuotes ++ [⟨token, quoteTokenType⟩] }

def addToPendingTransferTokenOwners (token : TokenId) (origin new : Address) : FundDb :=
  { db with pendingTransferTokenOwners := db.pendingTransferTokenOwners ++ [⟨token, origin, new⟩] }

end Pending

/-- A token's record as the asset contract's answer gives it; VITE has an owner of its own here. -/
def newTokenInfoFromCallback (db : FundDb) (param : ParamGetTokenInfoCallback) : FundDb × TokenInfo :=
  if param.tokenId = viteTokenId then
    ({ db with viteOwnerInitiated := true }, { decimals := param.decimals, owner := initViteTokenOwner })
  else (db, { decimals := param.decimals, owner := param.owner })

section NewMarket
variable (db : FundDb)

/-- With the trade token's record the market is valid. -/
def renderMarketInfoWithTradeTokenInfo (marketInfo : MarketInfo) (tradeTokenInfo : TokenInfo) : MarketInfo :=
  { marketInfo with
    tradeTokenDecimals := tradeTokenInfo.decimals
    valid := true
    owner := tradeTokenInfo.owner }

/-- The part of `RenderMarketInfo` that needs the trade token's record. -/
def renderTradeToken (marketInfo : MarketInfo) (quoteTokenInfo : TokenInfo) (creator : Address) :
    Option TokenInfo → Except DexError MarketInfo
  | none => .ok marketInfo
  | some tradeTokenInfo =>
    if quoteTokenInfo.quoteTokenTypeNumber < tradeTokenInfo.quoteTokenTypeNumber then .error .tradeMarketInvalidTokenPair
    else if tradeTokenInfo.owner ≠ creator then .error .onlyOwnerAllow
    else .ok (renderMarketInfoWithTradeTokenInfo marketInfo tradeTokenInfo)

/-- `RenderMarketInfo`; a stored market is only rendered for its own creator. -/
def renderMarketInfo (marketInfo : MarketInfo) (tradeToken quoteToken : TokenId)
    (tradeTokenInfo : Option TokenInfo) (creator : Address) : Except DexError MarketInfo :=
  match db.tokenInfos.get? quoteToken with
  | none => .error .tradeMarketInvalidQuoteToken
  | some quoteTokenInfo =>
    match quoteTokenInfo.quoteTokenType with
    | none => .error .tradeMarketInvalidQuoteToken
    | some quoteTokenType => do
      let marketInfo ← renderTradeToken { marketInfo with
        tradeToken := tradeToken
        quoteToken := quoteToken
        quoteTokenType := quoteTokenType
        quoteTokenDecimals := quoteTokenInfo.decimals } quoteTokenInfo creator
        (tradeTokenInfo.or (db.tokenInfos.get? tradeToken))
      if marketInfo.timestamp = 0 ∧ db.dexTimestamp = 0 then .error .notSetTimestamp
      else .ok { marketInfo with
        creator := creator
        timestamp := if marketInfo.timestamp = 0 then db.dexTimestamp else marketInfo.timestamp }

/-- The calls for a market that became valid; since the earth upgrade VITE is burnt with the dividends. -/
def newMarketCalls (marketInfo : MarketInfo) : List MarketCall :=
  .syncNewMarket marketInfo :: if db.heightPoint.isEarthUpgrade then [] else [.burn newMarketFeeBurnAmount]

/-- `OnNewMarketValid`: without the fee the market is deleted, and the call succeeds. -/
def onNewMarketValid (A : Arith) (db : FundDb) (reader : ConsensusReader) (marketInfo : MarketInfo)
    (tradeToken quoteToken : TokenId) (address : Address) : Except DexError (FundDb × List MarketCall) :=
  match reduceAccount db address viteTokenId newMarketFeeAmount with
  | .error _ => .ok (deleteMarketInfo db tradeToken quoteToken, [])
  | .ok reduced => do
    let donateAmount := if db.heightPoint.isEarthUpgrade then newMarketFeeDonateAmount + newMarketFeeBurnAmount
      else newMarketFeeDonateAmount
    let db ← settleFeesWithTokenId A reduced.1 reader true viteTokenId (quoteTokenTypeInfos .vite).decimals .vite
      [(address, ⟨newMarketFeeMineAmount, 0⟩)] (some donateAmount)
    let numbered := newAndSaveMarketId db
    let marketInfo := { marketInfo with marketId := numbered.2 }
    .ok (saveMarketInfo numbered.1 marketInfo tradeToken quoteToken, newMarketCalls db marketInfo)

def onNewMarketPending (param : ParamOpenNewMarket) (marketInfo : MarketInfo) :
    Except DexError (FundDb × List MarketCall) := do
  let db ← addToPendingNewMarkets (saveMarketInfo db marketInfo param.tradeToken param.quoteToken)
    param.tradeToken param.quoteToken
  .ok (db, [.getTokenInfo param.tradeToken .newMarket])

/-- A market of a request before it is rendered. -/
def blankMarketInfo : MarketInfo :=
  { marketId := 0, tradeToken := 0, quoteToken := 0, tradeTokenDecimals := 0, quoteTokenDecimals := 0, valid := false }

def existsValidMarket (tradeToken quoteToken : TokenId) : Bool :=
  (db.getMarketInfo tradeToken quoteToken).any MarketInfo.valid

/-- `MethodDexFundOpenNewMarket`; a market that is not valid is overwritten. -/
def methodOpenNewMarket (A : Arith) (db : FundDb) (reader : ConsensusReader) (sender : Address)
    (param : ParamOpenNewMarket) : Except DexError (FundDb × List MarketCall) :=
  if param.tradeToken = param.quoteToken then .error .tradeMarketInvalidTokenPair
  else if existsValidMarket db param.tradeToken param.quoteToken then .error .tradeMarketExists
  else do
    let marketInfo ← renderMarketInfo db blankMarketInfo param.tradeToken param.quoteToken none sender
    if marketInfo.valid then onNewMarketValid A db reader marketInfo param.tradeToken param.quoteToken sender
    else onNewMarketPending db param marketInfo

/-- A waiting market with the trade token's record: it becomes valid or is deleted. -/
def validatePending (A : Arith) (reader : ConsensusReader) (tradeToken : TokenId) (tradeTokenInfo : TokenInfo)
    (r : FundDb × List MarketCall) (quoteToken : TokenId) : Except DexError (FundDb × List MarketCall) :=
  match r.1.getMarketInfo tradeToken quoteToken with
  | none => .ok r
  | some marketInfo =>
    if marketInfo.valid then .ok r
    else match renderMarketInfo r.1 marketInfo tradeToken quoteToken (some tradeTokenInfo) marketInfo.creator with
      | .error .notSetTimestamp => .error .notSetTimestamp
      | .error _ => .ok (deleteMarketInfo r.1 tradeToken quoteToken, r.2)
      | .ok marketInfo => do
        let next ← onNewMarketValid A r.1 reader marketInfo tradeToken quoteToken marketInfo.creator
        .ok (next.1, r.2 ++ next.2)

def onNewMarketGetTokenInfoSuccess (A : Arith) (db : FundDb) (reader : ConsensusReader) (param : ParamGetTokenInfoCallback) :
    Except DexError (FundDb × List MarketCall) := do
  let answered := newTokenInfoFromCallback db param
  let filtered ← filterPendingNewMarkets (saveTokenInfo answered.1 param.tokenId answered.2) param.tokenId
  filtered.2.foldlM (validatePending A reader param.tokenId answered.2) (filtered.1, [])

/-- A waiting market of a token that does not exist is deleted. -/
def dropPending (tradeToken : TokenId) (db : FundDb) (quoteToken : TokenId) : FundDb :=
  if (db.getMarketInfo tradeToken quoteToken).any fun marketInfo => !marketInfo.valid then
    deleteMarketInfo db tradeToken quoteToken
  else db

def onNewMarketGetTokenInfoFailed (tradeToken : TokenId) : Except DexError FundDb := do
  let filtered ← filterPendingNewMarkets db tradeToken
  .ok (filtered.2.foldl (dropPending tradeToken) filtered.1)

end NewMarket

section SetQuote

/-- The action for a new quote token of `MethodDexFundTradeAdminConfig`. -/
def methodNewQuoteToken (db : FundDb) (sender : Address) (token : TokenId) (quoteTokenType : ℕ) :
    Except DexError (FundDb × List MarketCall) :=
  if !isOwner db sender then .error .onlyOwnerAllow
  else match QuoteTokenType.ofNumber? quoteTokenType with
    | none => .error .invalidQuoteTokenType
    | some type =>
      match db.tokenInfos.get? token with
      | none => .ok (addToPendingSetQuotes db token type, [.getTokenInfo token .setQuote])
      | some tokenInfo =>
        if tokenInfo.quoteTokenType.isSome then .error .alreadyQuoteType
        else .ok (saveTokenInfo db token { tokenInfo with quoteTokenType := some type }, [])

def onSetQuoteGetTokenInfoSuccess (db : FundDb) (param : ParamGetTokenInfoCallback) : Except DexError FundDb := do
  let filtered ← filterPendingSetQuotes db param.tokenId
  let answered := newTokenInfoFromCallback filtered.1 param
  .ok (saveTokenInfo answered.1 param.tokenId { answered.2 with quoteTokenType := some filtered.2.quoteTokenType })

end SetQuote

section TransferOwner

def methodTransferTokenOwnership (db : FundDb) (sender : Address) (token : TokenId) (newOwner : Address) :
    Except DexError (FundDb × List MarketCall) :=
  match db.tokenInfos.get? token with
  | none => .ok (addToPendingTransferTokenOwners db token sender newOwner, [.getTokenInfo token .transferOwner])
  | some tokenInfo =>
    if tokenInfo.owner = sender then .ok (saveTokenInfo db token { tokenInfo with owner := newOwner }, [])
    else .error .onlyOwnerAllow

/-- Whether the asset contract's answer lets the requesting user transfer the token. -/
def mayTransfer (db : FundDb) (param : ParamGetTokenInfoCallback) (origin : Address) : Bool :=
  origin == param.owner
    || (param.tokenId == viteTokenId && origin == initViteTokenOwner && !db.viteOwnerInitiated)

def onTransferOwnerGetTokenInfoSuccess (db : FundDb) (param : ParamGetTokenInfoCallback) : Except DexError FundDb := do
  let filtered ← filterPendingTransferTokenOwners db param.tokenId
  if mayTransfer filtered.1 param filtered.2.origin then
    let answered := newTokenInfoFromCallback filtered.1 param
    .ok (saveTokenInfo answered.1 param.tokenId { answered.2 with owner := filtered.2.new })
  else .error .onlyOwnerAllow

end TransferOwner

def methodGetTokenInfoCallback (A : Arith) (db : FundDb) (reader : ConsensusReader) (param : ParamGetTokenInfoCallback) :
    Except DexError (FundDb × List MarketCall) :=
  match param.bid, param.exist with
  | .newMarket, true => onNewMarketGetTokenInfoSuccess A db reader param
  | .newMarket, false => (onNewMarketGetTokenInfoFailed db param.tokenId).map (·, [])
  | .setQuote, true => (onSetQuoteGetTokenInfoSuccess db param).map (·, [])
  | .setQuote, false => (filterPendingSetQuotes db param.tokenId).map fun r => (r.1, [])
  | .transferOwner, true => (onTransferOwnerGetTokenInfoSuccess db param).map (·, [])
  | .transferOwner, false => (filterPendingTransferTokenOwners db param.tokenId).map fun r => (r.1, [])

end GoVite.Dex

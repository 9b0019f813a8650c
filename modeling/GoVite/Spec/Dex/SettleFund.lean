import GoVite.Spec.Dex.Fees
import GoVite.Spec.Dex.Histories

/-! The fund contract's side of a settle message (`fund_settle.go`). A lock that is too small is emptied and reported,
which stops the block only before the fee upgrade. -/

namespace GoVite.Dex
open KeyStore

/-- An account after one settlement, and whether its lock was exceeded. -/
structure SettledAccount where
  account : Account
  exceed : Bool
  deriving DecidableEq, Repr

def settleAccount (account : Account) (accountSettle : AccountSettle) : SettledAccount :=
  let reduced := if accountSettle.reduceLocked ≠ 0 then safeSubBigInt account.locked accountSettle.reduceLocked
    else (account.locked, 0, false)
  let released := if accountSettle.releaseLocked ≠ 0 then safeSubBigInt reduced.1 accountSettle.releaseLocked
    else (reduced.1, 0, false)
  { account := { account with
      locked := released.1
      available := account.available + released.2.1 + accountSettle.incAvailable }
    exceed := reduced.2.2 || released.2.2 }

/-- `OnSettleVx`: since the earth upgrade only locked VX counts. -/
def onSettleVx (db : FundDb) (reader : ConsensusReader) (address : Address) (fundSettle : AccountSettle)
    (updatedVxAccount : Account) : Except DexError FundDb :=
  if db.heightPoint.isEarthUpgrade then .ok db
  else doSettleVxFunds db reader address (fundSettle.incAvailable - fundSettle.reduceLocked) updatedVxAccount

/-- The storage after some settlements, and whether one of them exceeded its lock. -/
structure Settled where
  db : FundDb
  exceed : Bool := false

/-- One round of the loop of `DoSettleFund`. -/
def settleOne (reader : ConsensusReader) (address : Address) (marketInfo : MarketInfo) (s : Settled)
    (accountSettle : AccountSettle) : Except DexError Settled :=
  let token := lockToken marketInfo accountSettle.isTradeToken
  match s.db.tokenInfos.get? token with
  | none => .error .invalidToken
  | some _ =>
    let r := settleAccount (s.db.account address token) accountSettle
    if r.exceed ∧ !s.db.heightPoint.isDexFeeUpgrade then .error .exceedFundLocked
    else do
      let db := s.db.saveAccount address token r.account
      let db ← if token = vxTokenId then onSettleVx db reader address accountSettle r.account else .ok db
      .ok ⟨db, s.exceed || r.exceed⟩

def doSettleFund (reader : ConsensusReader) (marketInfo : MarketInfo) (s : Settled) (action : FundSettle) :
    Except DexError Settled :=
  action.accountSettles.foldlM (settleOne reader action.address marketInfo) s

/-- The fund actions of `MethodDexFundSettleOrders.DoReceive`. -/
def settleFundActions (db : FundDb) (reader : ConsensusReader) (settleActions : SettleActions) : Except DexError Settled :=
  match db.getMarketInfo settleActions.tradeToken settleActions.quoteToken with
  | none => .error .tradeMarketNotExists
  | some marketInfo => settleActions.fundActions.foldlM (doSettleFund reader marketInfo) { db := db }

end GoVite.Dex

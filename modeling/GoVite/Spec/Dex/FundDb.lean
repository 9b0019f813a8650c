import GoVite.Spec.Dex.Calculator

/-! Storage of the fund contract (`fund_storage.go`): user accounts and what placing an order reads. -/

namespace GoVite.Dex
open KeyStore

/-- The token ids are ten letters each. -/
def viteTokenId : TokenId := 0x5649544520544f4b454e
def vxTokenId : TokenId := 0x564954455820434f494e

structure Account where
  available : ℕ := 0
  locked : ℕ := 0
  vxLocked : ℕ := 0
  vxUnlocking : ℕ := 0
  cancellingStake : ℕ := 0
  deriving DecidableEq, Repr

/-- A user's account in one token. -/
abbrev AccountKey := Address ×ₗ TokenId

def accountKey (address : Address) (token : TokenId) : AccountKey := toLex (address, token)

/-- The number of the last order id of its second. -/
structure SerialNo where
  no : ℕ
  timestamp : ℕ
  deriving DecidableEq, Repr

structure TokenInfo where
  decimals : ℤ
  owner : Address
  quoteTokenType : Option QuoteTokenType := none
  deriving DecidableEq, Repr

/-- Requests about a token that wait for the asset contract's answer. -/
structure NewMarketAction where
  tradeToken : TokenId
  quoteTokens : List TokenId
  deriving DecidableEq, Repr

structure SetQuoteTokenAction where
  token : TokenId
  quoteTokenType : QuoteTokenType
  deriving DecidableEq, Repr

structure TransferTokenOwnerAction where
  token : TokenId
  origin : Address
  new : Address
  deriving DecidableEq, Repr

/-- An amount that is valid from a period on. -/
structure AmountByPeriod where
  period : ℕ
  amount : ℕ
  deriving DecidableEq, Repr

/-- The amounts of each user by period, oldest first, and of all users together. -/
structure Histories where
  users : Store Address (List AmountByPeriod) := .empty
  sums : List AmountByPeriod := []

/-- The dividend pool of one token in one period. -/
structure FeeForDividend where
  token : TokenId
  dividendPoolAmount : ℕ := 0
  notRoll : Bool := false
  deriving DecidableEq, Repr

structure FeeForMine where
  quoteTokenType : QuoteTokenType
  baseAmount : ℕ
  inviteBonusAmount : ℕ
  deriving DecidableEq, Repr

structure DexFeesByPeriod where
  feesForDividend : List FeeForDividend := []
  feesForMine : List FeeForMine := []
  lastValidPeriod : ℕ := 0
  finishDividend : Bool := false
  finishMine : Bool := false
  deriving DecidableEq, Repr

/-- The fees of one user in one period, for mining. -/
structure FeeAccount where
  quoteTokenType : QuoteTokenType
  baseAmount : ℕ := 0
  inviteBonusAmount : ℕ := 0
  deriving DecidableEq, Repr

structure FeesByPeriod where
  fees : List FeeAccount
  period : ℕ
  deriving DecidableEq, Repr

/-- How often a user staked for being a VIP, and the ids of the stakes that have one. -/
structure VIPStaking where
  timestamp : ℕ
  stakedTimes : ℕ
  stakingHashes : List Hash := []
  deriving DecidableEq, Repr

inductive StakeType
  | mining | vip | superVIP | principalSuperVIP
  deriving DecidableEq, Repr

inductive StakeStatus
  | submitted | confirmed
  deriving DecidableEq, Repr

/-- A stake that the fund contract made for a user. -/
structure DelegateStakeInfo where
  stakeType : StakeType
  address : Address
  principal : Address
  amount : ℕ
  status : StakeStatus := .submitted
  serialNo : ℕ := 0
  deriving DecidableEq, Repr

structure OperatorMarketFee where
  marketId : ℕ
  takerOperatorFeeRate : ℤ
  makerOperatorFeeRate : ℤ
  amount : ℕ
  deriving DecidableEq, Repr

structure OperatorFeeAccount where
  token : TokenId
  marketFees : List OperatorMarketFee
  deriving DecidableEq, Repr

structure FundDb where
  heightPoint : HeightPoint
  dexTimestamp : ℕ := 0
  dexStopped : Bool := false
  accounts : Store AccountKey Account := .empty
  tokenInfos : Store TokenId TokenInfo := .empty
  marketInfos : Store (TokenId ×ₗ TokenId) MarketInfo := .empty
  /-- The last market id that was given; zero if none was. -/
  lastMarketId : ℕ := 0
  pendingNewMarkets : List NewMarketAction := []
  pendingSetQuotes : List SetQuoteTokenAction := []
  pendingTransferTokenOwners : List TransferTokenOwnerAction := []
  viteOwnerInitiated : Bool := false
  owner : Option Address := none
  orderIdSerialNo : Option SerialNo := none
  tradeThresholds : QuoteTokenType → Option ℕ := fun _ => none
  marketOrderAmtThresholds : QuoteTokenType → Option ℕ := fun _ => none
  superVIPStakings : Store Address VIPStaking := .empty
  vipStakings : Store Address VIPStaking := .empty
  inviterByInvitee : Store Address Address := .empty
  /-- The agents of a principal in a market, under the last three bytes of the market's id. -/
  grantedMarkets : Store (Address ×ₗ ℕ) (List Address) := .empty
  /-- VX of the users and in total, before the earth upgrade and since then. -/
  vxFunds : Histories := {}
  vxLockedFunds : Histories := {}
  miningStakings : Histories := {}
  dexFees : Store ℕ DexFeesByPeriod := .empty
  /-- The period the pools were last rolled for; zero if never. -/
  lastDexFeesPeriodId : ℕ := 0
  userFees : Store Address (List FeesByPeriod) := .empty
  /-- By period and operator. -/
  operatorFees : Store (ℕ ×ₗ Address) (List OperatorFeeAccount) := .empty
  mineThresholds : QuoteTokenType → Option ℕ := fun _ => none
  /-- The VX that can still be mined, and what was mined for the makers of a period. -/
  vxMinePool : ℕ := 0
  makerMiningPools : Store ℕ ℕ := .empty
  makerMiningAdmin : Option Address := none
  maintainer : Option Address := none
  normalMineStarted : Bool := false
  /-- Zero before the first normal mining. -/
  firstMinedVxPeriodId : ℕ := 0
  autoLockMinedVx : Address → Bool := fun _ => false
  /-- Unlocked VX and cancelled stakes of each user, by the period they were given back in. -/
  vxUnlocks : Store Address (List AmountByPeriod) := .empty
  cancelStakes : Store Address (List AmountByPeriod) := .empty
  /-- Stakes for mining in total, of the first version and of the second. -/
  miningStakedAmounts : Store Address ℕ := .empty
  miningStakedV2Amounts : Store Address ℕ := .empty
  /-- Under the id without its first three bytes. -/
  delegateStakeInfos : Store ℕ DelegateStakeInfo := .empty
  delegateStakeIndexSerialNos : Store Address ℕ := .empty
  delegateStakeAddressIndexes : Store (Address ×ₗ ℕ) (StakeType × Hash) := .empty
  periodJobTrigger : Option Address := none
  /-- By the number of the job; zero if there was none. -/
  lastJobPeriodIds : ℕ → ℕ := fun _ => 0

/-- The consensus reader the contracts are called with: the index of the day of a timestamp. -/
structure ConsensusReader where
  getIndexByTime : ℕ → ℕ

/-- The reader of the source: days since the first block of the chain, as a `uint64`. -/
def ConsensusReader.daily (genesisTime : ℕ) : ConsensusReader where
  getIndexByTime t := (if t < genesisTime then 2 ^ 64 - (genesisTime - t) else t - genesisTime) / 86400

namespace FundDb
variable (db : FundDb)

/-- `GetCurrentPeriodId`, which panics before the first timestamp. -/
def getCurrentPeriodId (reader : ConsensusReader) : Except DexError ℕ :=
  if db.dexTimestamp = 0 then .error .notSetTimestamp else .ok (reader.getIndexByTime db.dexTimestamp)

def getMarketInfo (tradeToken quoteToken : TokenId) : Option MarketInfo :=
  db.marketInfos.get? (toLex (tradeToken, quoteToken))

def superVIPStaking (address : Address) : Bool := (db.superVIPStakings.get? address).isSome

def vipStaking (address : Address) : Bool := (db.vipStakings.get? address).isSome

def grantedMarketToAgentKey (principal : Address) (marketId : ℕ) : Address ×ₗ ℕ := toLex (principal, marketId % 2 ^ 24)

def isMarketGrantedToAgent (principal agent : Address) (marketId : ℕ) : Bool :=
  agent ∈ db.grantedMarkets.getD (grantedMarketToAgentKey principal marketId) []

def getTradeThreshold (t : QuoteTokenType) : ℕ :=
  (db.tradeThresholds t).getD (quoteTokenTypeInfos t).defaultTradeThreshold

def getMineThreshold (t : QuoteTokenType) : ℕ :=
  (db.mineThresholds t).getD (quoteTokenTypeInfos t).defaultMineThreshold

def getMarketOrderAmtThreshold (t : QuoteTokenType) : ℕ :=
  (db.marketOrderAmtThresholds t).getD (quoteTokenTypeInfos t).defaultMarketOrderAmtThreshold

/-- A missing account reads as an empty one. -/
def account (address : Address) (token : TokenId) : Account :=
  db.accounts.getD (accountKey address token) {}

def saveAccount (address : Address) (token : TokenId) (account : Account) : FundDb :=
  { db with accounts := db.accounts.set (accountKey address token) account }

/-- `NewAndSaveOrderSerialNo`: numbers restart with every new timestamp. -/
def newAndSaveOrderSerialNo (timestamp : ℕ) : FundDb × ℕ :=
  let no := match db.orderIdSerialNo with
    | none => 0
    | some last => if timestamp = last.timestamp then last.no + 1 else 0
  ({ db with orderIdSerialNo := some ⟨no, timestamp⟩ }, no)

end FundDb
end GoVite.Dex

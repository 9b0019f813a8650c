import GoVite.Sanity.Dex.Pools
import GoVite.Spec.Dex.Market

/-! What requests about markets and tokens do to the storage: markets change one at a time and never
once they are valid. -/

namespace GoVite.Dex
open KeyStore ExceptRules SwapRemove Store

variable {A : Arith} {reader : ConsensusReader} {db db' : FundDb} {tradeToken quoteToken : TokenId}

theorem getMarketInfo_save (mi : MarketInfo) (t q : TokenId) : (saveMarketInfo db mi tradeToken quoteToken).getMarketInfo t q
    = if t = tradeToken ∧ q = quoteToken then some mi else db.getMarketInfo t q := by
  unfold FundDb.getMarketInfo saveMarketInfo
  rw [get?_set]
  exact if_congr (by rw [toLex_inj, Prod.mk.injEq]) rfl rfl

theorem getMarketInfo_delete (t q : TokenId) : (deleteMarketInfo db tradeToken quoteToken).getMarketInfo t q
    = if t = tradeToken ∧ q = quoteToken then none else db.getMarketInfo t q := by
  unfold FundDb.getMarketInfo deleteMarketInfo
  rw [get?_erase]
  exact if_congr (by rw [toLex_inj, Prod.mk.injEq]) rfl rfl

section
variable {allowMining : Bool} {tokenId : TokenId} {feeTokenDecimals : ℤ} {quoteTokenType : QuoteTokenType}
  {feeActions : List (Address × FeeSettle)} {feeForDividend : Option ℕ}

/-- A settlement of fees writes pools and fees of users only. -/
theorem settleFeesWithTokenId_frame
    (h : settleFeesWithTokenId A db reader allowMining tokenId feeTokenDecimals quoteTokenType feeActions feeForDividend = .ok db') :
    db' = { db with
      dexFees := db'.dexFees, userFees := db'.userFees, lastDexFeesPeriodId := db'.lastDexFeesPeriodId } := by
  obtain ⟨-, -, rfl⟩ | ⟨periodId, current, -, hcurrent, feesForMine, userFees, hdb'⟩ := settleFeesWithTokenId_cases h
  · rfl
  · have hdb : current.1 = { db with lastDexFeesPeriodId := current.1.lastDexFeesPeriodId } := by
      unfold currentDexFees at hcurrent
      split at hcurrent
      · cases hcurrent
        rfl
      · rw [rollAndGentNewDexFeesByPeriod_ok hcurrent]
    rw [hdb', saveDexFeesByPeriodId, hdb]

/-- The pools of the last period that was opened are stored. -/
def FeesStored (db : FundDb) : Prop := 0 < db.lastDexFeesPeriodId → (db.dexFees.get? db.lastDexFeesPeriodId).isSome

theorem FeesStored.currentDexFees (h : FeesStored db) (periodId : ℕ) : ∃ current, currentDexFees A db periodId = .ok current := by
  unfold Dex.currentDexFees
  split
  · exact ⟨_, rfl⟩
  · unfold rollAndGentNewDexFeesByPeriod
    dsimp only
    split_ifs with hpos
    · obtain ⟨former, hformer⟩ := Option.isSome_iff_exists.1 (h hpos)
      rw [hformer]
      exact ⟨_, rfl⟩
    · exact ⟨_, rfl⟩

theorem FeesStored.settleFees (h : FeesStored db)
    (hs : settleFeesWithTokenId A db reader allowMining tokenId feeTokenDecimals quoteTokenType feeActions feeForDividend = .ok db') :
    FeesStored db' := by
  obtain ⟨-, -, rfl⟩ | ⟨periodId, current, -, hcurrent, feesForMine, userFees, rfl⟩ := settleFeesWithTokenId_cases hs
  · exact h
  · intro hpos
    unfold saveDexFeesByPeriodId at hpos ⊢
    rw [get?_set]
    split_ifs with hid
    · rfl
    · unfold Dex.currentDexFees at hcurrent
      split at hcurrent
      · cases hcurrent
        exact h hpos
      · rw [rollAndGentNewDexFeesByPeriod_ok hcurrent] at hid
        exact absurd rfl hid

theorem FeesStored.settleFees_total (h : FeesStored db) (htime : db.dexTimestamp ≠ 0) : ∃ db',
    settleFeesWithTokenId A db reader allowMining tokenId feeTokenDecimals quoteTokenType feeActions feeForDividend = .ok db' := by
  unfold settleFeesWithTokenId
  by_cases hempty : feeActions = [] ∧ feeForDividend = none
  · rw [if_pos hempty]
    exact ⟨db, rfl⟩
  · rw [if_neg hempty]
    have hperiod : db.getCurrentPeriodId reader = .ok (reader.getIndexByTime db.dexTimestamp) := if_neg htime
    obtain ⟨current, hcurrent⟩ := h.currentDexFees (reader.getIndexByTime db.dexTimestamp)
    exact bind_total hperiod (bind_total hcurrent ⟨_, rfl⟩)

end

/-- One market after another is deleted, left to wait or registered; a valid one is never touched. -/
inductive Registers : FundDb → FundDb → Prop
  | elsewhere {db db' : FundDb} (hmarkets : db'.marketInfos = db.marketInfos) (hid : db'.lastMarketId = db.lastMarketId)
      (hgranted : db'.grantedMarkets = db.grantedMarkets) (hheight : db'.heightPoint = db.heightPoint) : Registers db db'
  | delete {db : FundDb} {tradeToken quoteToken : TokenId} (hnew : existsValidMarket db tradeToken quoteToken = false) :
      Registers db (deleteMarketInfo db tradeToken quoteToken)
  | pend {db : FundDb} {tradeToken quoteToken : TokenId} {mi : MarketInfo}
      (hnew : existsValidMarket db tradeToken quoteToken = false) (hvalid : mi.valid = false) (hid : mi.marketId = 0) :
      Registers db (saveMarketInfo db mi tradeToken quoteToken)
  | register {db : FundDb} {tradeToken quoteToken : TokenId} {mi : MarketInfo}
      (hnew : existsValidMarket db tradeToken quoteToken = false) (hvalid : mi.valid = true)
      (hid : mi.marketId = db.lastMarketId + 1) :
      Registers db (saveMarketInfo (newAndSaveMarketId db).1 mi tradeToken quoteToken)
  | trans {a b c : FundDb} (hab : Registers a b) (hbc : Registers b c) : Registers a c

theorem Registers.refl (db : FundDb) : Registers db db := .elsewhere rfl rfl rfl rfl

variable {address creator : Address} {r : FundDb × List MarketCall}

section NewMarket
variable {mi mi' : MarketInfo}

theorem onNewMarketValid_cases (h : onNewMarketValid A db reader mi tradeToken quoteToken address = .ok r) :
    r = (deleteMarketInfo db tradeToken quoteToken, []) ∨
    ∃ reduced settled, reduceAccount db address viteTokenId newMarketFeeAmount = .ok reduced ∧
      settleFeesWithTokenId A reduced.1 reader true viteTokenId (quoteTokenTypeInfos .vite).decimals .vite
        [(address, ⟨newMarketFeeMineAmount, 0⟩)] (some (if db.heightPoint.isEarthUpgrade then
          newMarketFeeDonateAmount + newMarketFeeBurnAmount else newMarketFeeDonateAmount)) = .ok settled ∧
      settled = { db with
        accounts := settled.accounts, dexFees := settled.dexFees, userFees := settled.userFees
        lastDexFeesPeriodId := settled.lastDexFeesPeriodId } ∧
      r = (saveMarketInfo (newAndSaveMarketId settled).1 { mi with marketId := settled.lastMarketId + 1 } tradeToken quoteToken,
        newMarketCalls settled { mi with marketId := settled.lastMarketId + 1 }) := by
  unfold onNewMarketValid at h
  cases hreduce : reduceAccount db address viteTokenId newMarketFeeAmount with
  | error e =>
    rw [hreduce] at h
    exact .inl (Except.ok.inj h).symm
  | ok reduced =>
    rw [hreduce] at h
    obtain ⟨settled, hsettled, h⟩ := bind_ok h
    refine .inr ⟨reduced, settled, rfl, hsettled, ?_, (Except.ok.inj h).symm⟩
    rw [settleFeesWithTokenId_frame hsettled, (reduceAccount_ok hreduce).2.2]
    rfl

theorem onNewMarketValid_registers (hnew : existsValidMarket db tradeToken quoteToken = false)
    (hvalid : mi.valid = true) (h : onNewMarketValid A db reader mi tradeToken quoteToken address = .ok r) :
    Registers db r.1 := by
  obtain rfl | ⟨reduced, settled, -, -, hframe, rfl⟩ := onNewMarketValid_cases h
  · exact .delete hnew
  · have hmarkets : settled.marketInfos = db.marketInfos := by rw [hframe]
    have hfee : Registers db settled := .elsewhere hmarkets (by rw [hframe]) (by rw [hframe]) (by rw [hframe])
    exact hfee.trans (.register (by rwa [existsValidMarket, FundDb.getMarketInfo, hmarkets]) hvalid rfl)

variable {tradeTokenInfo : Option TokenInfo}

theorem renderTradeToken_ok {quoteTokenInfo : TokenInfo}
    (h : renderTradeToken mi quoteTokenInfo creator tradeTokenInfo = .ok mi') :
    mi'.marketId = mi.marketId ∧ mi'.valid = (mi.valid || tradeTokenInfo.isSome) ∧ mi'.timestamp = mi.timestamp := by
  cases tradeTokenInfo with
  | none =>
    cases h
    simp
  | some tradeTokenInfo =>
    obtain ⟨-, h⟩ := guard_ok h
    obtain ⟨-, h⟩ := guard_ok h
    cases h
    simp [renderMarketInfoWithTradeTokenInfo]

/-- A rendered market keeps its id and is valid once the trade token's record is known; the first time it needs the
clock. -/
theorem renderMarketInfo_ok
    (h : renderMarketInfo db mi tradeToken quoteToken tradeTokenInfo creator = .ok mi') : mi'.marketId = mi.marketId ∧
      mi'.valid = (mi.valid || (tradeTokenInfo.or (db.tokenInfos.get? tradeToken)).isSome) ∧
      (mi.timestamp = 0 → db.dexTimestamp ≠ 0) := by
  unfold renderMarketInfo at h
  split at h
  · cases h
  · split at h
    · cases h
    · obtain ⟨mi₁, hrender, h⟩ := bind_ok h
      obtain ⟨hclock, h⟩ := guard_ok h
      cases h
      obtain ⟨hid, hvalid, htimestamp⟩ := renderTradeToken_ok hrender
      exact ⟨hid, hvalid, fun hnew htime => hclock ⟨htimestamp.trans hnew, htime⟩⟩

theorem methodOpenNewMarket_registers {sender : Address} {param : ParamOpenNewMarket}
    (h : methodOpenNewMarket A db reader sender param = .ok r) : Registers db r.1 := by
  obtain ⟨-, h⟩ := guard_ok h
  obtain ⟨hnew, h⟩ := guard_ok h
  obtain ⟨mi, hrender, h⟩ := bind_ok h
  have hnew : existsValidMarket db param.tradeToken param.quoteToken = false := by simpa using hnew
  obtain ⟨hid, -⟩ := renderMarketInfo_ok hrender
  split at h
  · exact onNewMarketValid_registers hnew ‹_› h
  · obtain ⟨db', hadd, h⟩ := bind_ok h
    obtain ⟨pendings, -, hadd⟩ := bind_ok hadd
    cases hadd
    cases h
    exact (Registers.pend hnew (by simpa using ‹¬mi.valid = true›) hid).trans (.elsewhere rfl rfl rfl rfl)

/-- A market that waits is dropped or becomes valid, unless it is valid already. -/
theorem validatePending_cases {tradeTokenInfo : TokenInfo} {r' : FundDb × List MarketCall}
    (h : validatePending A reader tradeToken tradeTokenInfo r quoteToken = .ok r') : r'.1 = r.1 ∨
      existsValidMarket r.1 tradeToken quoteToken = false ∧ (r'.1 = deleteMarketInfo r.1 tradeToken quoteToken ∨
        ∃ (mi : MarketInfo) (creator : Address) (next : FundDb × List MarketCall), mi.valid = true ∧
          onNewMarketValid A r.1 reader mi tradeToken quoteToken creator = .ok next ∧ r'.1 = next.1) := by
  unfold validatePending at h
  split at h
  · cases h
    exact .inl rfl
  · rename_i mi hget
    split_ifs at h with hvalid
    · cases h
      exact .inl rfl
    · refine .inr ⟨by simpa [existsValidMarket, hget] using hvalid, ?_⟩
      split at h
      · cases h
      · cases h
        exact .inl rfl
      · rename_i mi' hrender
        obtain ⟨next, hnext, h⟩ := bind_ok h
        cases h
        exact .inr ⟨mi', _, next, by simpa using (renderMarketInfo_ok hrender).2.1, hnext, rfl⟩

theorem validatePending_registers {tradeTokenInfo : TokenInfo} {r' : FundDb × List MarketCall}
    (h : validatePending A reader tradeToken tradeTokenInfo r quoteToken = .ok r') : Registers r.1 r'.1 := by
  obtain heq | ⟨hnew, heq | ⟨mi, creator, next, hvalid, hnext, heq⟩⟩ := validatePending_cases h <;> rw [heq]
  · exact .refl _
  · exact .delete hnew
  · exact onNewMarketValid_registers hnew hvalid hnext

theorem dropPending_registers (quoteToken : TokenId) : Registers db (dropPending tradeToken db quoteToken) := by
  unfold dropPending
  split_ifs with hany
  · cases hget : db.getMarketInfo tradeToken quoteToken with
    | none => simp [hget] at hany
    | some mi => exact .delete (by simpa [existsValidMarket, hget] using hany)
  · exact .refl _

end NewMarket

section Callback
variable {param : ParamGetTokenInfoCallback}

theorem newTokenInfoFromCallback_frame : (newTokenInfoFromCallback db param).1 =
    { db with viteOwnerInitiated := (newTokenInfoFromCallback db param).1.viteOwnerInitiated } := by
  unfold newTokenInfoFromCallback
  split_ifs <;> rfl

theorem filterPendingNewMarkets_ok {filtered : FundDb × List TokenId} (h : filterPendingNewMarkets db tradeToken = .ok filtered) :
    ∃ action, filterPending NewMarketAction.tradeToken db.pendingNewMarkets tradeToken = .ok (action, filtered.1.pendingNewMarkets)
      ∧ filtered = ({ db with pendingNewMarkets := filtered.1.pendingNewMarkets }, action.quoteTokens) := by
  obtain ⟨⟨action, rest⟩, hfilter, h⟩ := bind_ok h
  obtain ⟨-, h⟩ := guard_ok h
  cases h
  exact ⟨action, hfilter, rfl⟩

theorem filterPendingSetQuotes_ok {filtered : FundDb × SetQuoteTokenAction} (h : filterPendingSetQuotes db tradeToken = .ok filtered) :
    filtered.1 = { db with pendingSetQuotes := filtered.1.pendingSetQuotes } := by
  obtain ⟨⟨action, rest⟩, -, h⟩ := bind_ok h
  cases h
  rfl

theorem filterPendingTransferTokenOwners_ok {filtered : FundDb × TransferTokenOwnerAction}
    (h : filterPendingTransferTokenOwners db tradeToken = .ok filtered) :
    filtered.1 = { db with pendingTransferTokenOwners := filtered.1.pendingTransferTokenOwners } := by
  obtain ⟨⟨action, rest⟩, -, h⟩ := bind_ok h
  cases h
  rfl

/-- An answer about a token moves markets only by registering them. -/
theorem methodGetTokenInfoCallback_registers (h : methodGetTokenInfoCallback A db reader param = .ok r) : Registers db r.1 := by
  unfold methodGetTokenInfoCallback at h
  split at h
  · obtain ⟨filtered, hfilter, h⟩ := bind_ok h
    obtain ⟨action, -, hfiltered⟩ := filterPendingNewMarkets_ok hfilter
    have hbefore : Registers db filtered.1 := by
      rw [hfiltered, newTokenInfoFromCallback_frame]
      exact .elsewhere rfl rfl rfl rfl
    refine hbefore.trans ?_
    exact foldlM_inv (fun _ r => Registers filtered.1 r.1)
      (fun _ _ _ _ hr hstep => hr.trans (validatePending_registers hstep)) h (.refl _)
  · obtain ⟨db', hdb', rfl⟩ := map_ok h
    obtain ⟨filtered, hfilter, hdb'⟩ := bind_ok hdb'
    cases hdb'
    obtain ⟨action, -, hfiltered⟩ := filterPendingNewMarkets_ok hfilter
    have hbefore : Registers db filtered.1 := by
      rw [hfiltered]
      exact .elsewhere rfl rfl rfl rfl
    have hdrops : ∀ (tokens : List TokenId) (db : FundDb), Registers db (tokens.foldl (dropPending param.tokenId) db) := by
      intro tokens
      induction tokens with
      | nil => exact fun db => .refl db
      | cons token tokens ih => exact fun db => (dropPending_registers token).trans (ih _)
    exact hbefore.trans (hdrops _ _)
  · obtain ⟨db', hdb', rfl⟩ := map_ok h
    obtain ⟨filtered, hfilter, hdb'⟩ := bind_ok hdb'
    cases hdb'
    rw [newTokenInfoFromCallback_frame, filterPendingSetQuotes_ok hfilter]
    exact .elsewhere rfl rfl rfl rfl
  · obtain ⟨filtered, hfilter, rfl⟩ := map_ok h
    rw [filterPendingSetQuotes_ok hfilter]
    exact .elsewhere rfl rfl rfl rfl
  · obtain ⟨db', hdb', rfl⟩ := map_ok h
    obtain ⟨filtered, hfilter, hdb'⟩ := bind_ok hdb'
    split at hdb'
    · cases hdb'
      rw [newTokenInfoFromCallback_frame, filterPendingTransferTokenOwners_ok hfilter]
      exact .elsewhere rfl rfl rfl rfl
    · cases hdb'
  · obtain ⟨filtered, hfilter, rfl⟩ := map_ok h
    rw [filterPendingTransferTokenOwners_ok hfilter]
    exact .elsewhere rfl rfl rfl rfl

end Callback

/-! Markets become valid without touching the records of tokens or the requests that wait. -/

/-- The records of tokens, the requests that wait and the clock are the same, and the pools stay at hand. -/
structure TokensKept (db db' : FundDb) : Prop where
  tokenInfos : db'.tokenInfos = db.tokenInfos
  pendingNewMarkets : db'.pendingNewMarkets = db.pendingNewMarkets
  pendingSetQuotes : db'.pendingSetQuotes = db.pendingSetQuotes
  pendingTransferTokenOwners : db'.pendingTransferTokenOwners = db.pendingTransferTokenOwners
  dexTimestamp : db'.dexTimestamp = db.dexTimestamp
  feesStored : FeesStored db → FeesStored db'

theorem TokensKept.refl (db : FundDb) : TokensKept db db := ⟨rfl, rfl, rfl, rfl, rfl, id⟩

variable {a b c : FundDb}

theorem TokensKept.trans (h : TokensKept a b) (h' : TokensKept b c) : TokensKept a c :=
  ⟨h'.tokenInfos.trans h.tokenInfos, h'.pendingNewMarkets.trans h.pendingNewMarkets,
    h'.pendingSetQuotes.trans h.pendingSetQuotes, h'.pendingTransferTokenOwners.trans h.pendingTransferTokenOwners,
    h'.dexTimestamp.trans h.dexTimestamp, h'.feesStored ∘ h.feesStored⟩

section Kept
variable {mi : MarketInfo} {r' : FundDb × List MarketCall} {tradeTokenInfo : TokenInfo}

theorem tokensKept_delete (t q : TokenId) : TokensKept db (deleteMarketInfo db t q) := ⟨rfl, rfl, rfl, rfl, rfl, id⟩

theorem onNewMarketValid_kept (h : onNewMarketValid A db reader mi tradeToken quoteToken address = .ok r) :
    TokensKept db r.1 := by
  obtain rfl | ⟨reduced, settled, hreduce, hsettled, hframe, rfl⟩ := onNewMarketValid_cases h
  · exact tokensKept_delete _ _
  · have hfees : FeesStored db → FeesStored settled := fun hdb =>
      FeesStored.settleFees (by rw [(reduceAccount_ok hreduce).2.2]; exact hdb) hsettled
    have hkept : TokensKept db settled := by
      refine ⟨?_, ?_, ?_, ?_, ?_, hfees⟩ <;> rw [hframe]
    exact hkept.trans ⟨rfl, rfl, rfl, rfl, rfl, id⟩

theorem onNewMarketValid_total (hfees : FeesStored db) (htime : db.dexTimestamp ≠ 0) :
    ∃ r, onNewMarketValid A db reader mi tradeToken quoteToken address = .ok r := by
  unfold onNewMarketValid
  cases hreduce : reduceAccount db address viteTokenId newMarketFeeAmount with
  | error e => exact ⟨_, rfl⟩
  | ok reduced =>
    have hred : reduced.1 = db.saveAccount address viteTokenId reduced.2 := (reduceAccount_ok hreduce).2.2
    have hstored : FeesStored reduced.1 := by rw [hred]; exact hfees
    obtain ⟨settled, hsettled⟩ := hstored.settleFees_total (by rw [hred]; exact htime)
    exact bind_total hsettled ⟨_, rfl⟩

theorem validatePending_kept (h : validatePending A reader tradeToken tradeTokenInfo r quoteToken = .ok r') :
    TokensKept r.1 r'.1 := by
  obtain heq | ⟨-, heq | ⟨mi, creator, next, -, hnext, heq⟩⟩ := validatePending_cases h <;> rw [heq]
  · exact .refl _
  · exact tokensKept_delete _ _
  · exact onNewMarketValid_kept hnext

theorem renderMarketInfo_timestamp {tradeInfo : Option TokenInfo} (htime : db.dexTimestamp ≠ 0) :
    renderMarketInfo db mi tradeToken quoteToken tradeInfo creator ≠ .error .notSetTimestamp := by
  intro h
  unfold renderMarketInfo at h
  split at h
  · cases h
  · split at h
    · cases h
    · obtain h | ⟨mi', -, h⟩ := bind_error h
      · cases hinfo : tradeInfo.or (db.tokenInfos.get? tradeToken) with
        | none =>
          rw [hinfo] at h
          cases h
        | some info =>
          rw [hinfo, renderTradeToken] at h
          split_ifs at h <;> cases h
      · rw [if_neg fun hzero => htime hzero.2] at h
        cases h

theorem validatePending_total (hfees : FeesStored r.1) (htime : r.1.dexTimestamp ≠ 0) :
    ∃ r', validatePending A reader tradeToken tradeTokenInfo r quoteToken = .ok r' := by
  unfold validatePending
  split
  · exact ⟨_, rfl⟩
  · split_ifs
    · exact ⟨_, rfl⟩
    · split
      · rename_i herr
        exact absurd herr (renderMarketInfo_timestamp htime)
      · exact ⟨_, rfl⟩
      · obtain ⟨next, hnext⟩ := onNewMarketValid_total hfees htime
        exact bind_total hnext ⟨_, rfl⟩

theorem dropPending_kept (quoteToken : TokenId) : TokensKept db (dropPending tradeToken db quoteToken) := by
  unfold dropPending
  split_ifs
  · exact tokensKept_delete _ _
  · exact .refl _

end Kept

end GoVite.Dex

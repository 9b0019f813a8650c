import GoVite.Lib.Except
import GoVite.Sanity.Dex.Calculator
import GoVite.Sanity.Dex.OrderArith
import GoVite.Sanity.Dex.OrderId

/-! What a successful `doPlaceOrder` did: which order it sends, under which id, and how much it
locked for it. -/

namespace GoVite.Dex
open KeyStore ExceptRules

/-- The operator fee rates a market owner may set. -/
structure MarketInfo.RatesValid (mi : MarketInfo) : Prop where
  taker_nonneg : 0 ≤ mi.takerOperatorFeeRate
  taker_le : mi.takerOperatorFeeRate ≤ maxOperatorFeeRate
  maker_nonneg : 0 ≤ mi.makerOperatorFeeRate
  maker_le : mi.makerOperatorFeeRate ≤ maxOperatorFeeRate

/-- The rates `RenderFeeRate` gives an order. -/
structure OrderBody.RatesValid (o : OrderBody) : Prop where
  takerFee : 0 ≤ o.takerFeeRate ∧ o.takerFeeRate ≤ 200
  makerFee : 0 ≤ o.makerFeeRate ∧ o.makerFeeRate ≤ 200
  takerOperatorFee : 0 ≤ o.takerOperatorFeeRate ∧ o.takerOperatorFeeRate ≤ 200
  makerOperatorFee : 0 ≤ o.makerOperatorFeeRate ∧ o.makerOperatorFeeRate ≤ 200

theorem inviteeRate_bounds (invited : Bool) {rate : ℤ} (h0 : 0 ≤ rate) (h : rate ≤ 200) :
    0 ≤ inviteeRate invited rate ∧ inviteeRate invited rate ≤ 200 := by
  unfold inviteeRate
  split_ifs
  · rw [Int.tdiv_eq_ediv_of_nonneg (by omega)]
    omega
  · exact ⟨h0, h⟩

theorem vipFeeRate_bounds (db : FundDb) (address : Address) :
    0 ≤ vipFeeRate db address ∧ vipFeeRate db address ≤ 200 := by
  unfold vipFeeRate baseFeeRate vipReduceFeeRate
  split_ifs <;> omega

theorem renderFeeRate_rates {db : FundDb} {address : Address} {o : OrderBody} {mi : MarketInfo}
    (ho : o.RatesValid) (hmi : mi.RatesValid) : (renderFeeRate db address o mi).RatesValid := by
  obtain ⟨hbase0, hbase⟩ := vipFeeRate_bounds db address
  unfold renderFeeRate
  split_ifs
  · exact ho
  · exact ⟨inviteeRate_bounds _ hbase0 hbase, inviteeRate_bounds _ hbase0 hbase,
      inviteeRate_bounds _ hmi.taker_nonneg hmi.taker_le, inviteeRate_bounds _ hmi.maker_nonneg hmi.maker_le⟩

theorem maxTotalFeeRate_le {o : OrderBody} (h : o.RatesValid) : maxTotalFeeRate o ≤ 400 := by
  have h1 := h.takerFee
  have h2 := h.makerFee
  have h3 := h.takerOperatorFee
  have h4 := h.makerOperatorFee
  unfold maxTotalFeeRate
  omega

theorem checkMarket_ok {db : FundDb} {param : ParamPlaceOrder} {address : Address} {agent : Option Address}
    {mi : MarketInfo} (h : checkMarket db param address agent = .ok mi) :
    db.getMarketInfo param.tradeToken param.quoteToken = some mi ∧ mi.valid = true := by
  obtain ⟨-, h⟩ := guard_ok h
  split at h
  · cases h
  · rename_i marketInfo hget
    obtain ⟨hvalid, h⟩ := guard_ok h
    obtain ⟨-, h⟩ := guard_ok h
    obtain ⟨-, h⟩ := guard_ok h
    cases h
    exact ⟨hget, by simpa using hvalid⟩

section RenderBody
variable {A : Arith} {db : FundDb} {param : ParamPlaceOrder} {address : Address} {agent : Option Address}
  {sendHash : Hash} {enrich : Bool} {mi : MarketInfo}

/-- Rendering sets rates, amount, fee lock, agent and hash, and nothing else. -/
theorem renderBody_eq : renderBody A db param address agent sendHash enrich mi =
    let b := renderBody A db param address agent sendHash enrich mi
    { address := address, type := param.orderType, quantity := param.quantity,
      takerFeeRate := b.takerFeeRate, makerFeeRate := b.makerFeeRate,
      takerOperatorFeeRate := b.takerOperatorFeeRate, makerOperatorFeeRate := b.makerOperatorFeeRate,
      amount := b.amount, lockedBuyFee := b.lockedBuyFee, agent := b.agent, sendHash := b.sendHash } := by
  unfold renderBody renderAmount renderFeeRate
  split_ifs <;> rfl

theorem renderBody_rates (hmi : mi.RatesValid) : (renderBody A db param address agent sendHash enrich mi).RatesValid := by
  have hzero : (0 : ℤ) ≤ 0 ∧ (0 : ℤ) ≤ 200 := by decide
  have hr : (renderFeeRate db address { address := address, type := param.orderType, quantity := param.quantity }
    mi).RatesValid := renderFeeRate_rates ⟨hzero, hzero, hzero, hzero⟩ hmi
  unfold renderBody renderAmount
  split_ifs <;> exact ⟨hr.takerFee, hr.makerFee, hr.takerOperatorFee, hr.makerOperatorFee⟩

end RenderBody

/-- What a successful `doPlaceOrder` is known to have done, up to the size of the lock. -/
structure Placed (db : FundDb) (param : ParamPlaceOrder) (address : Address) (o : Order) (mi : MarketInfo)
    (account : Account) : Prop where
  marketInfo : db.getMarketInfo param.tradeToken param.quoteToken = some mi
  timestamp_ne : db.dexTimestamp ≠ 0
  fresh : o.Fresh
  address_eq : o.address = address
  type_eq : o.type = param.orderType
  id_eq : o.id = composeOrderId mi.marketId param.side param.price db.dexTimestamp
    (db.newAndSaveOrderSerialNo db.dexTimestamp).2
  account_eq : db.accounts.get? (accountKey address (lockToken mi o.side)) = some account

/-- The storage after `lock` has been moved from available to locked. -/
def FundDb.lockFunds (db : FundDb) (address : Address) (token : TokenId) (account : Account) (lock : ℕ) : FundDb :=
  db.saveAccount address token { account with available := account.available - lock, locked := account.locked + lock }

section Place
variable {A : Arith} {db db' : FundDb} {param : ParamPlaceOrder} {address : Address} {agent : Option Address}
  {sendHash : Hash} {o : Order} {enrich : Bool} {mi : MarketInfo}

/-- The order that is rendered, under its new id. -/
def renderedOrder (A : Arith) (db : FundDb) (param : ParamPlaceOrder) (address : Address) (agent : Option Address)
    (sendHash : Hash) (enrich : Bool) (mi : MarketInfo) : Order :=
  { renderBody A db param address agent sendHash enrich mi with
    id := composeOrderId mi.marketId param.side param.price db.dexTimestamp
      (db.newAndSaveOrderSerialNo db.dexTimestamp).2 }

/-- The order a market buy becomes once its amount is divided into amount and fee. -/
def finishOrder (A : Arith) (o : Order) (enrich : Bool) : Order :=
  if !o.side ∧ isMarketOrder o.type enrich then renderMarketBuyOrderAmountAndFee A o else o

theorem finishOrder_eq (A : Arith) (o : Order) (enrich : Bool) : finishOrder A o enrich =
    { o with amount := (finishOrder A o enrich).amount, lockedBuyFee := (finishOrder A o enrich).lockedBuyFee } := by
  unfold finishOrder renderMarketBuyOrderAmountAndFee
  dsimp only
  split_ifs <;> rfl

theorem doPlaceOrder_ok (h : doPlaceOrder A db param address agent sendHash = .ok (db', o)) :
    ∃ mi account enrich o₀, (param.orderType ≠ .limited → enrich = true)
      ∧ db.getMarketInfo param.tradeToken param.quoteToken = some mi ∧ db.dexTimestamp ≠ 0
      ∧ o₀ = renderedOrder A db param address agent sendHash enrich mi
      ∧ db.accounts.get? (accountKey address (lockToken mi o₀.side)) = some account
      ∧ lockAmountOf o₀ account.available enrich ≤ account.available
      ∧ db' = (db.newAndSaveOrderSerialNo db.dexTimestamp).1.lockFunds address (lockToken mi o₀.side) account
          (lockAmountOf o₀ account.available enrich)
      ∧ o = finishOrder A (renderLock (db.newAndSaveOrderSerialNo db.dexTimestamp).1 o₀ mi
          (lockAmountOf o₀ account.available enrich) enrich) enrich := by
  obtain ⟨henrich, h⟩ := guard_ok h
  set enrich := param.orderType != .limited && db.heightPoint.isVersion11Upgrade
  obtain ⟨⟨db₁, o₀, mi⟩, hrender, hrest⟩ := bind_ok h
  obtain ⟨⟨db₂, o₁⟩, hlock, hres⟩ := bind_ok hrest
  cases hres
  obtain ⟨mi', hmarket, hrender⟩ := bind_ok hrender
  obtain ⟨htime, hrender⟩ := guard_ok hrender
  obtain ⟨-, hrender⟩ := guard_ok hrender
  obtain ⟨rfl, hrendered⟩ := Prod.mk.inj (Except.ok.inj hrender)
  obtain ⟨ho₀, rfl⟩ := Prod.mk.inj hrendered
  have haddr : o₀.address = address := by rw [← ho₀, renderBody_eq]
  unfold checkAndLockFundForNewOrder at hlock
  dsimp only at hlock
  split at hlock
  · cases hlock
  · rename_i account hget
    obtain ⟨-, hlock⟩ := guard_ok hlock
    obtain ⟨hle, hlock⟩ := guard_ok hlock
    obtain ⟨rfl, rfl⟩ := Prod.mk.inj (Except.ok.inj hlock)
    refine ⟨mi', account, enrich, o₀, fun hne => ?_, (checkMarket_ok hmarket).1, htime, ho₀.symm, haddr ▸ hget,
      not_lt.1 hle, by rw [← haddr]; rfl, rfl⟩
    simpa [hne] using henrich

/-- Rendering the lock and finishing a market buy leave the rest of the order alone. -/
theorem finishOrder_renderLock (A : Arith) (db : FundDb) (o₀ : Order) (mi : MarketInfo) (lock : ℕ) (enrich : Bool) :
    let o := finishOrder A (renderLock db o₀ mi lock enrich) enrich
    o = { o₀ with
      amount := o.amount, lockedBuyFee := o.lockedBuyFee, marketOrderAmtThreshold := o.marketOrderAmtThreshold } := by
  unfold finishOrder renderMarketBuyOrderAmountAndFee renderLock
  dsimp only
  split_ifs <;> rfl

theorem doPlaceOrder_placed (h : doPlaceOrder A db param address agent sendHash = .ok (db', o)) :
    ∃ mi account, Placed db param address o mi account := by
  obtain ⟨mi, account, enrich, o₀, -, hmarket, htime, ho₀, hget, -, -, rfl⟩ := doPlaceOrder_ok h
  rw [finishOrder_renderLock]
  rw [renderedOrder, renderBody_eq] at ho₀
  refine ⟨mi, account, hmarket, htime, ?_, ?_, ?_, ?_, hget⟩
  · subst ho₀; exact ⟨rfl, rfl, rfl, rfl, rfl, rfl⟩
  · subst ho₀; rfl
  · subst ho₀; rfl
  · subst ho₀; rfl

/-- A market buy divides what it locked into its amount and its fee. -/
theorem marketBuy_lock (hA : A.FeeWithin) (hr : o.RatesValid) (h0 : o.lockedBuyFee = 0) :
    (renderMarketBuyOrderAmountAndFee A o).amount + (renderMarketBuyOrderAmountAndFee A o).lockedBuyFee = o.amount := by
  unfold renderMarketBuyOrderAmountAndFee
  dsimp only
  split_ifs with hpos
  · have hfee := hA o.amount _ (adjustedFeeRate_le hpos (maxTotalFeeRate_le hr))
    dsimp only
    rw [subBigIntAbs_of_le hfee]
    omega
  · rw [h0, add_zero]

/-- The funds locked are exactly the whole lock of the order that is sent. -/
theorem lockAmountOf_eq {o₀ : Order} {available : ℕ} (hA : A.FeeWithin) (hr : o₀.RatesValid)
    (henrich : o₀.type ≠ .limited → enrich = true)
    (h0 : ¬(o₀.type = .limited ∨ isAdvancedLimitOrder o₀.type enrich = true) → o₀.lockedBuyFee = 0) :
    lockAmountOf o₀ available enrich =
      (finishOrder A (renderLock db o₀ mi (lockAmountOf o₀ available enrich) enrich) enrich).wholeLock := by
  set lock := lockAmountOf o₀ available enrich with hlock
  set o₁ := renderLock db o₀ mi lock enrich with ho₁
  have hside : o₁.side = o₀.side := rfl
  have htype : o₁.type = o₀.type := rfl
  have hfinish : (finishOrder A o₁ enrich).side = o₀.side := by rw [finishOrder_eq]; rfl
  unfold Order.wholeLock
  rw [hfinish]
  cases hs : o₀.side with
  | true =>
    have hq : (finishOrder A o₁ enrich).quantity = o₀.quantity := by rw [finishOrder_eq]; rfl
    rw [if_pos rfl, hq, hlock, lockAmountOf, if_pos hs]
  | false =>
    rw [if_neg (by decide)]
    by_cases hm : o₀.type = .limited ∨ isAdvancedLimitOrder o₀.type enrich = true
    · have hnot : isMarketBuy o₀ enrich = false := by
        rcases hm with hm | hm <;> simp [isMarketBuy, hm]
      have hnotMarket : isMarketOrder o₀.type enrich = false := by
        rcases hm with hm | hm
        · simp [isMarketOrder, hm]
        · cases ht : o₀.type <;> simp_all [isMarketOrder, isAdvancedLimitOrder]
      have hfin : finishOrder A o₁ enrich = o₁ := by
        unfold finishOrder
        rw [htype, hnotMarket]
        simp
      rw [hfin, hlock, lockAmountOf, hs]
      simp [ho₁, renderLock, hnot]
    · have hbuy : isMarketBuy o₀ enrich = true := by
        simp only [isMarketBuy, hs]
        simpa using hm
      have hmarket : isMarketOrder o₀.type enrich = true := by
        cases ht : o₀.type <;> simp_all [isMarketOrder, isAdvancedLimitOrder]
      have hfin : finishOrder A o₁ enrich = renderMarketBuyOrderAmountAndFee A o₁ := by
        unfold finishOrder
        rw [htype, hmarket, hside, hs]
        simp
      have hamount : o₁.amount = lock := by simp [ho₁, renderLock, hbuy]
      have hr₁ : o₁.RatesValid := ⟨hr.takerFee, hr.makerFee, hr.takerOperatorFee, hr.makerOperatorFee⟩
      rw [hfin, marketBuy_lock hA hr₁ (h0 hm), hamount]

theorem doPlaceOrder_lock (hA : A.FeeWithin)
    (hrates : ∀ mi, db.getMarketInfo param.tradeToken param.quoteToken = some mi → mi.RatesValid)
    (h : doPlaceOrder A db param address agent sendHash = .ok (db', o)) :
    ∃ mi account, Placed db param address o mi account
      ∧ db' = (db.newAndSaveOrderSerialNo db.dexTimestamp).1.lockFunds address (lockToken mi o.side) account
        o.wholeLock := by
  obtain ⟨mi', account', hplaced⟩ := doPlaceOrder_placed h
  obtain ⟨mi, account, enrich, o₀, henrich, hmarket, -, ho₀, hget, -, hdb, ho⟩ := doPlaceOrder_ok h
  have hside : o.side = o₀.side := by rw [ho, finishOrder_renderLock]; rfl
  obtain rfl : mi' = mi := Option.mem_unique hplaced.marketInfo hmarket
  obtain rfl : account' = account := by
    have h1 := hplaced.account_eq
    rw [hside] at h1
    exact Option.mem_unique h1 hget
  have hr₀ : o₀.RatesValid := by rw [ho₀]; exact renderBody_rates (hrates _ hmarket)
  have htype : o₀.type = param.orderType := by rw [ho₀, renderedOrder, renderBody_eq]
  have hlock : lockAmountOf o₀ account'.available enrich = o.wholeLock := by
    rw [ho]
    refine lockAmountOf_eq hA hr₀ (fun hne => henrich (htype ▸ hne)) fun hne => ?_
    -- an order without a price has no fee lock before its amount is known
    rw [htype] at hne
    rw [ho₀]
    unfold renderedOrder renderBody renderFeeRate
    split_ifs <;> rfl
  exact ⟨mi', account', hplaced, by rw [hdb, hside, ← hlock]⟩

variable (hmarket : checkMarket db param address agent = .ok mi) (htime : db.dexTimestamp ≠ 0)
  (hsmall : isAmountTooSmall db ((renderBody A db param address agent sendHash false mi).amount
    + (renderBody A db param address agent sendHash false mi).lockedBuyFee) mi = false)
include hmarket htime hsmall

theorem renderOrder_sell : renderOrder A db param address agent sendHash false =
    .ok ((db.newAndSaveOrderSerialNo db.dexTimestamp).1, renderedOrder A db param address agent sendHash false mi, mi) := by
  unfold renderOrder
  rw [hmarket]
  refine (if_neg htime).trans ?_
  refine if_neg fun h => ?_
  rw [hsmall] at h
  cases h.2

/-- A limited sell within the available funds is accepted. -/
theorem doPlaceOrder_sell {account : Account} (hside : param.side = true) (htype : param.orderType = .limited)
    (hacc : db.accounts.get? (accountKey address mi.tradeToken) = some account)
    (havail : param.quantity ≤ account.available) :
    doPlaceOrder A db param address agent sendHash =
      .ok ((db.newAndSaveOrderSerialNo db.dexTimestamp).1.lockFunds address mi.tradeToken account param.quantity,
        renderedOrder A db param address agent sendHash false mi) := by
  have hrender := renderOrder_sell hmarket htime hsmall
  set o := renderedOrder A db param address agent sendHash false mi with ho
  have hos : o.side = true := (sideOf_compose _ _ _ _ _).trans hside
  have hot : o.type = .limited := by rw [ho, renderedOrder, renderBody_eq]; exact htype
  have hoa : o.address = address := by rw [ho, renderedOrder, renderBody_eq]
  have hoq : o.quantity = param.quantity := by rw [ho, renderedOrder, renderBody_eq]
  have hlock : checkAndLockFundForNewOrder (db.newAndSaveOrderSerialNo db.dexTimestamp).1 o mi false
      = .ok ((db.newAndSaveOrderSerialNo db.dexTimestamp).1.lockFunds address mi.tradeToken account param.quantity, o) := by
    have hbuy : isMarketBuy o false = false := by simp [isMarketBuy, hos]
    have hamount : lockAmountOf o account.available false = param.quantity := by simp [lockAmountOf, hos, hoq]
    have hren : ∀ d lock, renderLock d o mi lock false = o := by
      intro d lock
      unfold renderLock
      rw [hbuy, hot]
      simp only [reduceCtorEq, if_false]
      rw [← hot]
    unfold checkAndLockFundForNewOrder
    dsimp only
    rw [hoa, show lockToken mi o.side = mi.tradeToken by simp [lockToken, hos]]
    rw [show (db.newAndSaveOrderSerialNo db.dexTimestamp).1.accounts = db.accounts from rfl, hacc]
    dsimp only
    rw [hbuy, hamount, hren, if_neg (not_lt.2 havail)]
    rfl
  have hfin : (if !o.side ∧ isMarketOrder o.type false then renderMarketBuyOrderAmountAndFee A o else o) = o :=
    if_neg fun h => by simp [hos] at h
  unfold doPlaceOrder
  rw [htype]
  refine (if_neg (by simp)).trans ?_
  simp only [bne_self_eq_false, Bool.false_and]
  rw [hrender]
  change (checkAndLockFundForNewOrder _ o mi false >>= _) = _
  rw [hlock]
  change Except.ok (_, if !o.side ∧ isMarketOrder o.type false then renderMarketBuyOrderAmountAndFee A o else o) = _
  rw [hfin]
end Place

end GoVite.Dex

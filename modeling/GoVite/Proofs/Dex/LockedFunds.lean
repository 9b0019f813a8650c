import GoVite.Proofs.Dex.OrderBounds
import GoVite.Sanity.Dex.FundSettle
import GoVite.Spec.Dex.Exchange

/-! The locks of the fund contract agree with the orders: what a user has locked is what the user's orders still reserve
and what settlements under way are going to take out. -/

namespace GoVite.Dex
open ByteString KeyStore ExceptRules List Store Bytes FundDb Exchange FundSettles Or

/-- What an order reserves of a user's token, given the markets of the trade contract. -/
def reservedFor (marketInfos : Store ℕ MarketInfo) (address : Address) (token : TokenId) (o : Order) : ℕ :=
  if o.address = address ∧ (marketInfos.get? o.marketId).map (lockToken · o.side) = some token then o.reserved else 0

namespace Exchange

/-- What the orders under way, the stored orders and the settlements under way account for. -/
def accountedFor (s : Exchange) (address : Address) (token : TokenId) : ℕ :=
  (s.placing.map (reservedFor s.trade.marketInfos address token)).sum
  + s.trade.orders.sum (fun id body => reservedFor s.trade.marketInfos address token (body.render id))
  + (s.settling.map fun m => m.unlocks address token).sum

def LocksAgree (s : Exchange) : Prop :=
  ∀ address token, (s.fund.account address token).locked = s.accountedFor address token

/-- No settlement under way exceeds the locks, whichever is delivered first. -/
def NeverExceeds (reader : ConsensusReader) (s : Exchange) : Prop :=
  ∀ m ∈ s.settling, ∃ r, settleFundActions s.fund reader m = .ok r ∧ r.exceed = false

/-- The two contracts know the same markets, with ids that fit into an order id. -/
structure Markets (s : Exchange) : Prop where
  fundVersion : s.fund.heightPoint.isVersion12Upgrade = true
  tradeVersion : s.trade.heightPoint.isVersion12Upgrade = true
  ofFund : ∀ tradeToken quoteToken mi, s.fund.getMarketInfo tradeToken quoteToken = some mi →
    mi.RatesValid ∧ mi.marketId < 2 ^ 24 ∧ ∃ mi', s.trade.marketInfos.get? mi.marketId = some mi'
      ∧ ∀ side, lockToken mi' side = lockToken mi side
  ofTrade : ∀ marketId mi', s.trade.marketInfos.get? marketId = some mi' →
    mi'.marketId = marketId ∧ (∀ side, (s.fund.tokenInfos.get? (lockToken mi' side)).isSome = true)
      ∧ ∃ mi, s.fund.getMarketInfo mi'.tradeToken mi'.quoteToken = some mi ∧ ∀ side, lockToken mi side = lockToken mi' side

structure Initial (s : Exchange) : Prop where
  markets : s.Markets
  noSerial : s.fund.orderIdSerialNo = none
  noLocks : ∀ address token, (s.fund.account address token).locked = 0
  noOrders : s.trade.orders = .empty
  noPlacing : s.placing = []
  noSettling : s.settling = []

/-- The timestamp and the serial number of a new order fit into its id. -/
def IdFits (s : Exchange) : ExchangeAction → Prop
  | .place .. => s.fund.dexTimestamp < 2 ^ 40 ∧ (s.fund.newAndSaveOrderSerialNo s.fund.dexTimestamp).2 < 2 ^ 24
  | _ => True

/-- Along a run every id fits. -/
def IdsFit (A : Arith) (reader : ConsensusReader) : Exchange → List ExchangeAction → Prop
  | _, [] => True
  | s, a :: actions => s.IdFits a ∧ IdsFit A reader (s.step A reader a) actions

instance (s : Exchange) (a : ExchangeAction) : Decidable (s.IdFits a) := by
  cases a <;> unfold IdFits <;> infer_instance

instance decidableIdsFit (A : Arith) (reader : ConsensusReader) : (s : Exchange) → (actions : List ExchangeAction) →
    Decidable (IdsFit A reader s actions)
  | _, [] => .isTrue trivial
  | s, a :: actions => @instDecidableAnd _ _ inferInstance (decidableIdsFit A reader (s.step A reader a) actions)

end Exchange

/-- An id that has been given out: of an earlier second, or of this one and not above the last number. -/
def FundDb.Issued (db : FundDb) (id : OrderId) : Prop :=
  timestampOf id < db.dexTimestamp
    ∨ ∃ last, db.orderIdSerialNo = some last ∧ timestampOf id = last.timestamp ∧ serialNoOf id ≤ last.no

structure LockInv (s : Exchange) : Prop where
  markets : s.Markets
  agree : s.LocksAgree
  placing : ∀ o ∈ s.placing, o.Fresh ∧ s.trade.orders.get? o.id = none
    ∧ ∃ mi, s.trade.marketInfos.get? o.marketId = some mi ∧ inBook o.id mi.marketId o.side
  distinct : (s.placing.map Order.id).Nodup
  issued : ∀ o, o ∈ s.placing ∨ Stored s.trade o → s.fund.Issued o.id
  serial : ∀ last, s.fund.orderIdSerialNo = some last → last.timestamp ≤ s.fund.dexTimestamp
  bounded : ∀ o, Stored s.trade o → o.Bounded
  settling : ∀ m ∈ s.settling, ∃ marketId mi, s.trade.marketInfos.get? marketId = some mi
    ∧ m.tradeToken = mi.tradeToken ∧ m.quoteToken = mi.quoteToken

def lockWeight (marketInfos : Store ℕ MarketInfo) (address : Address) (token : TokenId) : LockWeight := fun marketId a side =>
  if a = address ∧ (marketInfos.get? marketId).map (lockToken · side) = some token then 1 else 0

variable {mi : MarketInfo} {address : Address}

section Weights
variable {marketInfos : Store ℕ MarketInfo} {token : TokenId}

theorem held_lockWeight (o : Order) :
    held (lockWeight marketInfos address token) o = reservedFor marketInfos address token o := by
  unfold held lockWeight reservedFor
  split_ifs <;> simp

theorem storedHeld_lockWeight (db : TradeDb) : storedHeld (lockWeight marketInfos address token) db
    = db.orders.sum fun id body => reservedFor marketInfos address token (body.render id) := by
  exact sum_congr fun id body _ => held_lockWeight _

theorem lockWeight_of_get? {marketId : ℕ} (h : marketInfos.get? marketId = some mi) :
    lockWeight marketInfos address token marketId = fun a side => if a = address ∧ lockToken mi side = token then 1 else 0 := by
  funext a side
  unfold lockWeight
  rw [h]
  simp

end Weights

variable {i : ℕ} {s : Exchange} {A : Arith}

/-- Taking one item out of a list takes it out of every sum. -/
theorem sum_eraseIdx {α : Type} {l : List α} {x : α} (h : l[i]? = some x) (f : α → ℕ) :
    (l.map f).sum = f x + ((l.eraseIdx i).map f).sum := by
  obtain ⟨hi, rfl⟩ := List.getElem?_eq_some_iff.1 h
  exact (((getElem_cons_eraseIdx_perm hi).map f).sum_eq).symm

section Ids
variable {db : FundDb} {id : OrderId}

/-- The id of a new order has not been given out before. -/
theorem FundDb.not_issued_of_next (ht : timestampOf id = db.dexTimestamp)
    (hn : serialNoOf id = (db.newAndSaveOrderSerialNo db.dexTimestamp).2) : ¬db.Issued id := by
  rintro (hlt | ⟨last, hlast, htime, hno⟩)
  · exact absurd hlt (by omega)
  · unfold newAndSaveOrderSerialNo at hn
    rw [hlast] at hn
    dsimp only at hn
    rw [if_pos (ht.symm.trans htime)] at hn
    omega

/-- Giving out the next number keeps the ids given out so far. -/
theorem FundDb.Issued.next (hserial : ∀ last, db.orderIdSerialNo = some last → last.timestamp ≤ db.dexTimestamp)
    (h : db.Issued id) : (db.newAndSaveOrderSerialNo db.dexTimestamp).1.Issued id := by
  rcases h with hlt | ⟨last, hlast, htime, hno⟩
  · exact inl hlt
  · rcases (hserial last hlast).lt_or_eq with hlt | heq
    · exact inl (htime ▸ hlt)
    · refine inr ⟨_, rfl, htime.trans heq, ?_⟩
      rw [hlast]
      dsimp only
      rw [if_pos heq.symm]
      omega

end Ids

section Place
variable {param : ParamPlaceOrder} {agent : Option Address} {sendHash : Hash} {fund : FundDb} {o : Order}

theorem LockInv.place (hA : A.FeeWithin) (h : LockInv s) (hfit : s.IdFits (.place param address agent sendHash))
    (hres : doPlaceOrder A s.fund param address agent sendHash = .ok (fund, o)) :
    LockInv { s with fund := fund, placing := s.placing ++ [o] } := by
  obtain ⟨mi, account, hplaced, hfund⟩ :=
    doPlaceOrder_lock hA (fun mi hmi => (h.markets.ofFund _ _ mi hmi).1) hres
  obtain ⟨-, hid24, mi', hmi', htokens⟩ := h.markets.ofFund _ _ mi hplaced.marketInfo
  obtain ⟨htime, hno⟩ := hfit
  have hmarket : o.marketId = mi.marketId := by
    rw [Order.marketId, hplaced.id_eq, marketIdOf_compose, Nat.mod_eq_of_lt hid24]
  have htimestamp : timestampOf o.id = s.fund.dexTimestamp := by
    rw [hplaced.id_eq, timestampOf_compose, Nat.mod_eq_of_lt htime]
  have hserialNo : serialNoOf o.id = (s.fund.newAndSaveOrderSerialNo s.fund.dexTimestamp).2 := by
    rw [hplaced.id_eq, serialNoOf_compose, Nat.mod_eq_of_lt hno]
  have hnew : ¬s.fund.Issued o.id := not_issued_of_next htimestamp hserialNo
  have hside : o.side = param.side := by rw [Order.side, hplaced.id_eq, sideOf_compose]
  rw [← hmarket] at hmi'
  have hlocks (a : Address) (token : TokenId) : reservedFor s.trade.marketInfos a token o
      = if a = o.address ∧ token = lockToken mi o.side then o.wholeLock else 0 := by
    unfold reservedFor
    rw [hmi', hplaced.fresh.reserved]
    simp only [Option.map_some, Option.some.injEq, htokens]
    simp only [eq_comm]
  subst hfund
  constructor
  case markets => exact ⟨h.markets.fundVersion, h.markets.tradeVersion, h.markets.ofFund, h.markets.ofTrade⟩
  case agree =>
    intro a token
    have hold := h.agree a token
    have hacc : s.fund.account address (lockToken mi o.side) = account := account_of_get? hplaced.account_eq
    unfold accountedFor at hold ⊢
    rw [map_append, sum_append, lockFunds, account_saveAccount]
    simp only [map_cons, map_nil, sum_cons, sum_nil]
    rw [hlocks, hplaced.address_eq]
    split_ifs with ha
    · obtain ⟨rfl, rfl⟩ := ha
      rw [hacc] at hold
      dsimp only
      omega
    · change (s.fund.account a token).locked = _
      omega
  case placing =>
    refine forall_mem_concat.2 ⟨h.placing, hplaced.fresh, ?_, mi', hmi', ?_⟩
    · by_contra hstored
      obtain ⟨body, hbody⟩ := Option.ne_none_iff_exists'.1 hstored
      exact hnew (h.issued (body.render o.id) (inr hbody))
    · rw [(h.markets.ofTrade _ mi' hmi').1, hmarket, hside, hplaced.id_eq]
      exact inBook_compose _ _ _ _ _
  case distinct =>
    rw [map_append, nodup_append]
    refine ⟨h.distinct, nodup_singleton _, ?_⟩
    intro id hmem id' hid' heq
    obtain ⟨x, hx, rfl⟩ := mem_map.1 hmem
    rw [map_cons, map_nil, mem_singleton] at hid'
    have hissued := h.issued x (inl hx)
    rw [heq, hid'] at hissued
    exact hnew hissued
  case issued =>
    have hnext : (s.fund.newAndSaveOrderSerialNo s.fund.dexTimestamp).1.Issued o.id :=
      inr ⟨_, rfl, htimestamp, hserialNo.le⟩
    rintro x (hx | hx)
    · revert x
      exact forall_mem_concat.2 ⟨fun x hx => (h.issued x (inl hx)).next h.serial, hnext⟩
    · exact (h.issued x (inr hx)).next h.serial
  case serial =>
    intro last hlast
    cases hlast
    exact le_rfl
  case bounded => exact h.bounded
  case settling => exact h.settling

end Place

variable {m : SettleActions} {db : TradeDb}

section Trade
/-- What a method of the trade contract has to keep, if afterwards these orders are under way. -/
structure TradeKeeps (s : Exchange) (placing : List Order) (r : TradeResult) : Prop where
  frame : r.db.marketInfos = s.trade.marketInfos ∧ r.db.heightPoint = s.trade.heightPoint
  settle : ∀ m ∈ r.settle, ∃ marketId mi, s.trade.marketInfos.get? marketId = some mi
    ∧ m.tradeToken = mi.tradeToken ∧ m.quoteToken = mi.quoteToken
  bounded : ∀ o, Stored r.db o → o.Bounded
  known : ∀ o, Stored r.db o → (∃ o₀, o₀.id = o.id ∧ (o₀ ∈ s.placing ∨ Stored s.trade o₀)) ∧ o.id ∉ placing.map Order.id
  balance : ∀ address token,
    r.db.orders.sum (fun id body => reservedFor s.trade.marketInfos address token (body.render id))
      + (r.settle.toList.map fun m => m.unlocks address token).sum
      + (placing.map (reservedFor s.trade.marketInfos address token)).sum
    = s.trade.orders.sum (fun id body => reservedFor s.trade.marketInfos address token (body.render id))
      + (s.placing.map (reservedFor s.trade.marketInfos address token)).sum

variable {r : TradeResult}

theorem LockInv.trade {placing : List Order} {cancelling : List CancelRequest} (h : LockInv s)
    (hsub : placing.Sublist s.placing) (hr : TradeKeeps s placing r) :
    LockInv { s with trade := r.db, placing := placing, cancelling := cancelling, settling := s.settling ++ r.settle.toList } where
  markets := by
    refine ⟨h.markets.fundVersion, ?_, ?_, ?_⟩
    · rw [hr.frame.2]
      exact h.markets.tradeVersion
    · rw [hr.frame.1]
      exact h.markets.ofFund
    · rw [hr.frame.1]
      exact h.markets.ofTrade
  agree a token := by
    have hold := h.agree a token
    have hbal := hr.balance a token
    unfold accountedFor at hold ⊢
    dsimp only
    rw [hr.frame.1, map_append, sum_append]
    omega
  placing o ho := by
    obtain ⟨hfresh, -, hmarket⟩ := h.placing o (hsub.subset ho)
    refine ⟨hfresh, ?_, ?_⟩
    · by_contra hstored
      obtain ⟨body, hbody⟩ := Option.ne_none_iff_exists'.1 hstored
      exact (hr.known (body.render o.id) hbody).2 (mem_map.2 ⟨o, ho, rfl⟩)
    · rw [hr.frame.1]
      exact hmarket
  distinct := h.distinct.sublist (hsub.map _)
  issued := by
    rintro o (ho | ho)
    · exact h.issued o (inl (hsub.subset ho))
    · obtain ⟨⟨o₀, hid, hknown⟩, -⟩ := hr.known o ho
      rw [← hid]
      exact h.issued o₀ hknown
  serial := h.serial
  bounded := hr.bounded
  settling := by
    rw [hr.frame.1]
    intro m hm
    rcases mem_append.1 hm with hm | hm
    · exact h.settling m hm
    · exact hr.settle m (by simpa using hm)

/-- The message of a block is about the market of the block. -/
theorem handleSettleActions_tokens {fs : FundSettles} {fees : FeeSettles}
    (h : m ∈ handleSettleActions fs fees mi) : m.tradeToken = mi.tradeToken ∧ m.quoteToken = mi.quoteToken := by
  unfold handleSettleActions at h
  split_ifs at h
  · cases h
  · cases h
    exact ⟨rfl, rfl⟩

theorem LockInv.placeOrderReceive (h : LockInv s) {o : Order} (ho : s.placing[i]? = some o) (preHash : Byte) :
    ∃ r, placeOrderReceive A s.trade o preHash = .ok r ∧ TradeKeeps s (s.placing.eraseIdx i) r := by
  obtain ⟨hfresh, hnew, mi, hmi, hbook⟩ := h.placing o (mem_of_getElem? ho)
  obtain ⟨mc, hmc⟩ : ∃ mc, newMatcher s.trade o.marketId = .ok mc := ⟨_, newMatcher_of_get? hmi⟩
  obtain ⟨hdb, hget, hfs, -⟩ := newMatcher_ok hmc
  obtain rfl : mi = mc.marketInfo := Option.mem_unique hmi hget
  have hkeeps : KeepsLocks mc o (mc.matchOrder A o preHash).1 := by
    apply matchOrder_keepsLocks A _ hfresh hbook
    · rw [hdb]
      exact hnew
    · rw [hdb]
      exact h.bounded
    · rw [hdb]
      exact h.markets.tradeVersion
  obtain ⟨hframe, hheight, hinfos⟩ := mc.matchOrder_frame A o preHash
  rw [hdb] at hheight hinfos
  refine ⟨⟨(mc.matchOrder A o preHash).1.db, _⟩, by rw [GoVite.Dex.placeOrderReceive, hmc]; rfl, ?_⟩
  have hperm : (o :: s.placing.eraseIdx i).Perm s.placing := by
    obtain ⟨hi, rfl⟩ := List.getElem?_eq_some_iff.1 ho
    exact getElem_cons_eraseIdx_perm hi
  have hnotin : o.id ∉ (s.placing.eraseIdx i).map Order.id :=
    (nodup_cons.1 ((hperm.map Order.id).nodup_iff.2 h.distinct)).1
  constructor
  case frame => exact ⟨hinfos, hheight⟩
  case settle =>
    intro m hm
    refine ⟨o.marketId, mc.marketInfo, hmi, ?_⟩
    have htokens := handleSettleActions_tokens hm
    rw [hframe] at htokens
    exact htokens
  case bounded => exact hkeeps.bounded
  case known =>
    intro x hx
    rcases hkeeps.known x hx with hid | ⟨x₀, hx₀, hid⟩
    · exact ⟨⟨o, hid.symm, inl (mem_of_getElem? ho)⟩, hid ▸ hnotin⟩
    · rw [hdb] at hx₀
      refine ⟨⟨x₀, hid, inr hx₀⟩, fun hmem => ?_⟩
      -- an order under way is not stored
      obtain ⟨y, hy, hyid⟩ := mem_map.1 hmem
      have hnone := (h.placing y (mem_of_mem_eraseIdx hy)).2.1
      rw [hyid, ← hid] at hnone
      exact absurd (hnone.symm.trans hx₀) (by simp)
  case balance =>
    intro a token
    have hbal := hkeeps.balance (lockWeight s.trade.marketInfos a token)
    rw [storedHeld_lockWeight, storedHeld_lockWeight, held_lockWeight, lockWeight_of_get? hmi, hdb, hfs,
      SettleWeight.total_empty] at hbal
    have hkeyed : FundSettles.Keyed (mc.matchOrder A o preHash).1.fundSettles :=
      mc.matchOrder_fundSettles keyed_updateFundSettle A o preHash (hfs ▸ keyed_empty)
    dsimp only
    rw [unlocks_handleSettleActions hkeyed, hframe, sum_eraseIdx ho]
    omega

def cancelledResult (mc : Matcher) (o : Order) : TradeResult :=
  ⟨(mc.cancelOrderById o).db,
    handleSettleActions (mc.cancelOrderById o).fundSettles .empty (mc.cancelOrderById o).marketInfo⟩

theorem handleCancelOrderById_ok {orderId : List Byte} {operator : Address}
    (h : handleCancelOrderById db orderId operator = .ok r) : ∃ (mc : Matcher) (o : Order),
      newMatcher db o.marketId = .ok mc ∧ Stored db o ∧ r = cancelledResult mc o := by
  unfold handleCancelOrderById at h
  split at h
  · cases h
  · rename_i id _
    obtain ⟨mc, hmc, h⟩ := bind_ok h
    obtain ⟨o, ho, h⟩ := bind_ok h
    obtain ⟨-, h⟩ := guard_ok h
    obtain ⟨-, h⟩ := guard_ok h
    unfold getOrderById at ho
    split at ho
    · rename_i body hbody
      cases ho
      exact ⟨mc, body.render id, hmc, hbody, (Except.ok.inj h).symm⟩
    · cases ho

variable {request : CancelRequest}

theorem cancelReceive_ok (h : cancelReceive db request = .ok r) : ∃ (mc : Matcher) (o : Order),
      newMatcher db o.marketId = .ok mc ∧ Stored db o ∧ r = cancelledResult mc o := by
  cases request with
  | byId orderId operator => exact handleCancelOrderById_ok h
  | byHash sendHash owner =>
    unfold cancelReceive cancelOrderByHashReceive at h
    dsimp only at h
    split at h
    · cases h
    · exact handleCancelOrderById_ok h

theorem LockInv.cancelReceive (h : LockInv s)
    (hres : cancelReceive s.trade request = .ok r) : TradeKeeps s s.placing r := by
  obtain ⟨mc, o, hmc, ho, rfl⟩ := cancelReceive_ok hres
  obtain ⟨hdb, hmi, hfs, -⟩ := newMatcher_ok hmc
  rw [← hdb] at ho
  obtain ⟨hsub, hbal⟩ := cancelOrderById_keepsLocks ho (by rw [hdb]; exact h.bounded)
  obtain ⟨hframe, hheight, hinfos⟩ := mc.cancelOrderById_frame o
  rw [hdb] at hsub hbal hheight hinfos
  constructor
  case frame => exact ⟨hinfos, hheight⟩
  case settle =>
    intro m hm
    refine ⟨o.marketId, mc.marketInfo, hmi, ?_⟩
    have htokens := handleSettleActions_tokens hm
    rw [hframe] at htokens
    exact htokens
  case bounded => exact fun x hx => h.bounded x (hsub x hx)
  case known =>
    intro x hx
    refine ⟨⟨x, rfl, inr (hsub x hx)⟩, fun hmem => ?_⟩
    obtain ⟨y, hy, hyid⟩ := mem_map.1 hmem
    have hnone := (h.placing y hy).2.1
    rw [hyid] at hnone
    exact absurd (hnone.symm.trans (hsub x hx)) (by simp)
  case balance =>
    intro a token
    have hbal := hbal (lockWeight s.trade.marketInfos a token)
    rw [storedHeld_lockWeight, storedHeld_lockWeight, lockWeight_of_get? hmi, hfs, SettleWeight.total_empty] at hbal
    have hkeyed : FundSettles.Keyed (mc.cancelOrderById o).fundSettles :=
      mc.cancelOrderById_fundSettles keyed_updateFundSettle o (hfs ▸ keyed_empty)
    unfold cancelledResult
    dsimp only
    rw [unlocks_handleSettleActions hkeyed, hframe]
    omega

end Trade

section Fund
variable {reader : ConsensusReader}

/-- What a step of the fund contract has to keep, if afterwards these settlements are under way. -/
structure FundKeeps (s : Exchange) (settling : List SettleActions) (fund : FundDb) : Prop where
  marketInfos : fund.marketInfos = s.fund.marketInfos
  tokenInfos : fund.tokenInfos = s.fund.tokenInfos
  heightPoint : fund.heightPoint = s.fund.heightPoint
  orderIdSerialNo : fund.orderIdSerialNo = s.fund.orderIdSerialNo
  dexTimestamp : s.fund.dexTimestamp ≤ fund.dexTimestamp
  locked : ∀ address token, (fund.account address token).locked + (s.settling.map fun m => m.unlocks address token).sum
    = (s.fund.account address token).locked + (settling.map fun m => m.unlocks address token).sum

theorem LockInv.fund {settling : List SettleActions} {fund : FundDb} (h : LockInv s) (hsub : settling.Sublist s.settling)
    (hf : FundKeeps s settling fund) : LockInv { s with fund := fund, settling := settling } where
  markets := by
    refine ⟨?_, h.markets.tradeVersion, ?_, ?_⟩
    · rw [hf.heightPoint]
      exact h.markets.fundVersion
    · unfold getMarketInfo
      rw [hf.marketInfos]
      exact h.markets.ofFund
    · unfold getMarketInfo
      rw [hf.marketInfos, hf.tokenInfos]
      exact h.markets.ofTrade
  agree a token := by
    have hold := h.agree a token
    have hlocked := hf.locked a token
    unfold accountedFor at hold ⊢
    dsimp only
    omega
  placing := h.placing
  distinct := h.distinct
  issued o ho := by
    rcases h.issued o ho with hlt | hlast
    · exact inl (hlt.trans_le hf.dexTimestamp)
    · refine inr ?_
      rw [hf.orderIdSerialNo]
      exact hlast
  serial last hlast := by
    rw [hf.orderIdSerialNo] at hlast
    exact (h.serial last hlast).trans hf.dexTimestamp
  bounded := h.bounded
  settling m hm := h.settling m (hsub.subset hm)

/-- A settlement under way is covered by the locks, so it is received whole. -/
theorem LockInv.settleFundActions (h : LockInv s) (reader : ConsensusReader) (hm : s.settling[i]? = some m) :
    ∃ r, settleFundActions s.fund reader m = .ok r ∧ r.exceed = false ∧ FundKeeps s (s.settling.eraseIdx i) r.db := by
  obtain ⟨marketId, mi', hmi', htrade, hquote⟩ := h.settling m (mem_of_getElem? hm)
  obtain ⟨-, htokens, mi, hmi, hsame⟩ := h.markets.ofTrade marketId mi' hmi'
  have htoken : lockToken mi = m.token := by
    funext side
    unfold SettleActions.token
    rw [hsame, lockToken, htrade, hquote]
  let locks (a : Address) (token : TokenId) : ℕ := (s.placing.map (reservedFor s.trade.marketInfos a token)).sum
    + s.trade.orders.sum (fun id body => reservedFor s.trade.marketInfos a token (body.render id))
    + ((s.settling.eraseIdx i).map fun m => m.unlocks a token).sum
  have hcovered : LocksAre s.fund (fun a token => locks a token
      + (m.fundActions.map (FundSettle.unlocks (lockToken mi) a token)).sum) ⟨s.fund, false⟩ := by
    refine ⟨rfl, rfl, fun a token => ?_⟩
    rw [htoken, h.agree a token, accountedFor, sum_eraseIdx hm]
    change _ = _ + _ + _ + SettleActions.unlocks m a token
    omega
  obtain ⟨r, hr, hlocks⟩ := fundActions_locksAre (HeightPoint.isEarth_of_v12 h.markets.fundVersion)
    (fun side => by rw [hsame]; exact htokens side) hcovered
  unfold GoVite.Dex.settleFundActions
  rw [htrade, hquote, hmi]
  refine ⟨r, hr, hlocks.exceed, ?_, ?_, ?_, ?_, ?_, ?_⟩
  · rw [hlocks.frame]
  · rw [hlocks.frame]
  · rw [hlocks.frame]
  · rw [hlocks.frame]
  · rw [hlocks.frame]
  · intro a token
    rw [hlocks.locked, h.agree a token, accountedFor]
    dsimp only [locks]
    omega

theorem LockInv.fundKeeps_save {address : Address} {token : TokenId} {account : Account}
    (hlocked : account.locked = (s.fund.account address token).locked) :
    FundKeeps s s.settling (s.fund.saveAccount address token account) := by
  refine ⟨rfl, rfl, rfl, rfl, le_rfl, fun a t => ?_⟩
  rw [account_saveAccount]
  split_ifs with hat
  · rw [hat.1, hat.2, hlocked]
  · rfl

theorem LockInv.requests (h : LockInv s) (cancelling : List CancelRequest) : LockInv { s with cancelling := cancelling } :=
  ⟨⟨h.markets.fundVersion, h.markets.tradeVersion, h.markets.ofFund, h.markets.ofTrade⟩, h.agree, h.placing, h.distinct,
    h.issued, h.serial, h.bounded, h.settling⟩

theorem LockInv.step (hA : A.FeeWithin) (h : LockInv s) (a : ExchangeAction) (hfit : s.IdFits a) :
    LockInv (s.step A reader a) := by
  cases a with
  | place param address agent sendHash =>
    unfold Exchange.step
    dsimp only
    split
    · rename_i fund o hres
      exact h.place hA hfit hres
    · exact h
  | requestCancel request => exact h.requests _
  | deliverPlace i preHash =>
    unfold Exchange.step
    dsimp only
    split
    · exact h
    · rename_i o ho
      obtain ⟨r, hr, hkeeps⟩ := h.placeOrderReceive ho preHash
      rw [hr]
      exact h.trade (eraseIdx_sublist _ _) hkeeps
  | deliverCancel i =>
    unfold Exchange.step
    dsimp only
    split
    · exact h
    · rename_i request _
      cases hres : Exchange.cancelReceive s.trade request with
      | error e => exact h.requests _
      | ok r => exact h.trade (List.Sublist.refl _) (h.cancelReceive hres)
  | deliverSettle i =>
    unfold Exchange.step
    dsimp only
    split
    · exact h
    · rename_i m hm
      obtain ⟨r, hr, -, hkeeps⟩ := h.settleFundActions reader hm
      rw [hr]
      exact h.fund (eraseIdx_sublist _ _) hkeeps
  | setTimestamp timestamp =>
    unfold Exchange.step
    dsimp only
    cases hres : setDexTimestamp A s.fund reader timestamp with
    | error e => exact h
    | ok fund =>
      obtain ⟨hlt, hframe⟩ := setDexTimestamp_ok hres
      apply h.fund (List.Sublist.refl _)
      rw [hframe]
      exact ⟨rfl, rfl, rfl, rfl, hlt.le, fun _ _ => rfl⟩
  | deposit address token amount => exact h.fund (List.Sublist.refl _) (LockInv.fundKeeps_save rfl)
  | withdraw address token amount =>
    unfold Exchange.step
    dsimp only
    cases hres : reduceAccount s.fund address token amount with
    | error e => exact h
    | ok r =>
      obtain ⟨-, hacc, hdb⟩ := reduceAccount_ok hres
      apply h.fund (List.Sublist.refl _)
      rw [hdb]
      exact LockInv.fundKeeps_save (by rw [hacc])

end Fund

theorem Exchange.Initial.lockInv (h : s.Initial) : LockInv s where
  markets := h.markets
  agree a token := by
    rw [h.noLocks, accountedFor, h.noPlacing, h.noSettling, h.noOrders]
    rfl
  placing := by simp [h.noPlacing]
  distinct := by simp [h.noPlacing]
  issued := by simp [h.noPlacing, Stored, h.noOrders]
  serial := by simp [h.noSerial]
  bounded := by simp [Stored, h.noOrders]
  settling := by simp [h.noSettling]

theorem LockInv.run {A : Arith} (hA : A.FeeWithin) {reader : ConsensusReader} {actions : List ExchangeAction} {s : Exchange}
    (h : LockInv s) (hfit : Exchange.IdsFit A reader s actions) : LockInv (s.run A reader actions) := by
  induction actions generalizing s with
  | nil => exact h
  | cons a actions ih => exact ih (h.step hA a hfit.1) hfit.2

/-- In every run in which the ids fit, the locked funds of every user and token are what the orders and
the settlements under way account for, and no settlement exceeds its lock. -/
theorem locked_funds_agree {A : Arith} (hA : A.FeeWithin) (reader : ConsensusReader) {s : Exchange} (hinit : s.Initial)
    (actions : List ExchangeAction) (hfit : Exchange.IdsFit A reader s actions) :
    (s.run A reader actions).LocksAgree ∧ (s.run A reader actions).NeverExceeds reader := by
  have h := hinit.lockInv.run hA hfit
  refine ⟨h.agree, fun m hm => ?_⟩
  obtain ⟨i, hi⟩ := getElem?_of_mem hm
  obtain ⟨r, hr, hexceed, -⟩ := h.settleFundActions reader hi
  exact ⟨r, hr, hexceed⟩

/-- In every run in which the ids fit, no two orders on their way to the book have the same id, and none overwrites an
order of the book or finds its market missing there. -/
theorem placed_orders_never_collide {A : Arith} (hA : A.FeeWithin) (reader : ConsensusReader) {s : Exchange}
    (hinit : s.Initial) (actions : List ExchangeAction) (hfit : Exchange.IdsFit A reader s actions) :
    ((s.run A reader actions).placing.map Order.id).Nodup ∧ ∀ o ∈ (s.run A reader actions).placing,
      (s.run A reader actions).trade.orders.get? o.id = none ∧
      ∃ mi, (s.run A reader actions).trade.marketInfos.get? o.marketId = some mi ∧ inBook o.id mi.marketId o.side := by
  have h := hinit.lockInv.run hA hfit
  exact ⟨h.distinct, fun o ho => (h.placing o ho).2⟩

section Sample

def sampleReader : ConsensusReader := ⟨fun timestamp => timestamp / 86400⟩

/-- The market of the samples in both contracts, and a seller with this much of the trade token. -/
def sampleExchange (available : ℕ) : Exchange :=
  { fund := { sampleFund with
      accounts := (Store.empty.set (accountKey 1 7) { available := 10 ^ 21 }).set (accountKey 2 6) { available := available }
      tokenInfos := (Store.empty.set 6 { decimals := 18, owner := 0 }).set 7 { decimals := 18, owner := 0 } }
    trade := { heightPoint := ⟨12⟩, marketInfos := Store.empty.set 1 sampleMarket } }

theorem sampleExchange_initial (available : ℕ) : (sampleExchange available).Initial where
  markets := by
    refine ⟨rfl, rfl, ?_, ?_⟩
    · intro tradeToken quoteToken mi hmi
      obtain ⟨-, rfl⟩ | ⟨-, hmi⟩ := get?_set_cases hmi
      · exact ⟨⟨by decide, by decide, by decide, by decide⟩, by decide, sampleMarket, rfl, fun _ => rfl⟩
      · cases hmi
    · intro marketId mi' hmi'
      obtain ⟨hid, rfl⟩ | ⟨-, hmi'⟩ := get?_set_cases hmi'
      · exact ⟨hid.symm, fun side => by cases side <;> rfl, sampleMarket, rfl, fun _ => rfl⟩
      · cases hmi'
  noLocks address token := by
    unfold account sampleExchange
    rw [getD_set, getD_set]
    split_ifs <;> rfl
  noSerial := by rfl
  noOrders := by rfl
  noPlacing := by rfl
  noSettling := by rfl

def sampleHash : Byte := ⟨0, Nat.zero_lt_succ _⟩

/-- A sell and a buy meet; their settlement is still under way. -/
def sampleActions : List ExchangeAction :=
  [.place (sampleParam true) 2 none 8, .place (sampleParam false) 1 none 9, .deliverPlace 0 sampleHash,
    .deliverPlace 0 sampleHash]

theorem locked_funds_agree_settling :
    let s := (sampleExchange (10 ^ 21)).run goArith sampleReader sampleActions
    s.settling.length = 1 ∧ (s.fund.account 2 6).locked = 2 * 10 ^ 20 ∧ s.LocksAgree ∧ s.NeverExceeds sampleReader := by
  refine ⟨by decide +kernel, by decide +kernel, ?_⟩
  exact locked_funds_agree goArith_feeWithin sampleReader (sampleExchange_initial _) sampleActions (by decide +kernel)

theorem placed_orders_never_collide_two :
    let s := (sampleExchange (10 ^ 21)).run goArith sampleReader (sampleActions.take 2)
    s.placing.length = 2 ∧ (s.placing.map Order.id).Nodup :=
  ⟨by decide +kernel, (placed_orders_never_collide goArith_feeWithin sampleReader (sampleExchange_initial _) _
    (by decide +kernel)).1⟩

def sampleSell (serialNo : ℕ) : Order :=
  { renderBody goArith (sampleExchange 0).fund (sampleParam true) 2 none 8 false sampleMarket with
    id := composeOrderId 1 true (Bytes.ofNat 10 (2 ^ 40)) 1600000000 serialNo }

/-- The state after `n` sells in one second, none of them delivered. -/
structure AfterSells (total n : ℕ) (s : Exchange) : Prop where
  fund : s.fund = { (sampleExchange total).fund with accounts := s.fund.accounts, orderIdSerialNo := s.fund.orderIdSerialNo }
  account : s.fund.accounts.get? (accountKey 2 6)
    = some { available := total - n * (sampleParam true).quantity, locked := n * (sampleParam true).quantity }
  next : (s.fund.newAndSaveOrderSerialNo s.fund.dexTimestamp).2 = n
  trade : s.trade = (sampleExchange total).trade
  placing : s.placing = (List.range n).map sampleSell
  settling : s.settling = []

variable {n total : ℕ}

theorem AfterSells.step (h : AfterSells total n s) (htotal : (n + 1) * (sampleParam true).quantity ≤ total) :
    AfterSells total (n + 1) (s.step goArith sampleReader (.place (sampleParam true) 2 none 8)) := by
  have htime : s.fund.dexTimestamp = 1600000000 := by rw [h.fund]; rfl
  have hbody : renderBody goArith s.fund (sampleParam true) 2 none 8 false sampleMarket
      = renderBody goArith (sampleExchange 0).fund (sampleParam true) 2 none 8 false sampleMarket := by
    rw [h.fund]
    rfl
  rw [Nat.succ_mul] at htotal
  have hsmall : isAmountTooSmall s.fund ((renderBody goArith s.fund (sampleParam true) 2 none 8 false sampleMarket).amount
      + (renderBody goArith s.fund (sampleParam true) 2 none 8 false sampleMarket).lockedBuyFee) sampleMarket = false := by
    rw [hbody, h.fund]
    change isAmountTooSmall (sampleExchange 0).fund _ _ = false
    decide +kernel
  have hres := doPlaceOrder_sell (by rw [h.fund]; rfl) (by rw [htime]; decide) hsmall rfl rfl h.account
    (by dsimp only; omega)
  rw [renderedOrder, hbody, h.next] at hres
  unfold Exchange.step
  dsimp only
  rw [hres]
  constructor
  case fund =>
    dsimp only [lockFunds, saveAccount, newAndSaveOrderSerialNo]
    rw [h.fund]
  case account =>
    refine (get?_set_self _ _ _).trans ?_
    rw [Nat.succ_mul, ← Nat.sub_sub]
  case next =>
    refine Eq.trans (b := (s.fund.newAndSaveOrderSerialNo s.fund.dexTimestamp).2 + 1) (if_pos rfl) ?_
    rw [h.next]
  case trade => exact h.trade
  case placing =>
    rw [htime, h.placing, range_succ, map_append]
    rfl
  case settling => exact h.settling

theorem afterSells_run (htotal : n * (sampleParam true).quantity ≤ total) : AfterSells total n
    ((sampleExchange total).run goArith sampleReader (List.replicate n (.place (sampleParam true) 2 none 8))) := by
  induction n with
  | zero =>
    refine ⟨rfl, ?_, rfl, rfl, rfl, rfl⟩
    exact get?_set_self _ _ _
  | succ n ih =>
    rw [replicate_succ', run, foldl_append]
    refine (ih ?_).step htotal
    rw [Nat.succ_mul] at htotal
    omega

theorem sampleSell_reserved (serialNo : ℕ) :
    reservedFor (sampleExchange 0).trade.marketInfos 2 6 (sampleSell serialNo) = (sampleParam true).quantity := by
  have hmarket : (sampleSell serialNo).marketId = 1 := marketIdOf_compose _ _ _ _ _
  have hside : (sampleSell serialNo).side = true := sideOf_compose _ _ _ _ _
  have hbody : (sampleSell serialNo).address = 2 ∧ (sampleSell serialNo).quantity - (sampleSell serialNo).executedQuantity
      = (sampleParam true).quantity := by
    exact ⟨rfl, rfl⟩
  unfold reservedFor Order.reserved
  rw [hmarket]
  exact (if_pos ⟨rfl, rfl⟩).trans hbody.2

/-- Three bytes of serial number repeat after `2 ^ 24` orders. -/
theorem sampleSell_repeats (hn : n % 2 ^ 24 = 0) : sampleSell n = sampleSell 0 := by
  have hserial : (ofNat 3 n : Bytes 3) = ofNat 3 0 := by
    apply val_injective
    rw [val_ofNat]
    exact hn
  unfold sampleSell composeOrderId
  rw [hserial]

/-- The trade contract's storage after the sell is delivered once and once more. -/
def sampleDelivered (db : TradeDb) : TradeDb :=
  (Matcher.matchOrder goArith { db := db, marketInfo := sampleMarket } (sampleSell 0) sampleHash).1.db

theorem sampleDelivered_twice : (sampleDelivered (sampleDelivered (sampleExchange 0).trade)).orders.sum
    (fun id body => reservedFor (sampleExchange 0).trade.marketInfos 2 6 (body.render id)) = (sampleParam true).quantity := by
  decide +kernel

theorem sampleDelivered_ok (hmarket : db.marketInfos.get? (sampleSell 0).marketId = some sampleMarket)
    (hsettle : let mc := (Matcher.matchOrder goArith { db := db, marketInfo := sampleMarket } (sampleSell 0) sampleHash).1
      handleSettleActions mc.fundSettles mc.feeSettles mc.marketInfo = none) :
    placeOrderReceive goArith db (sampleSell 0) sampleHash = .ok ⟨sampleDelivered db, none⟩ := by
  unfold placeOrderReceive
  rw [newMatcher_of_get? hmarket]
  exact congrArg (fun settle => Except.ok (TradeResult.mk (sampleDelivered db) settle)) hsettle

/-- Delivering a sell that settles nothing moves it into the book. -/
theorem step_deliverPlace (hi : s.placing[i]? = some (sampleSell 0))
    (hr : placeOrderReceive goArith s.trade (sampleSell 0) sampleHash = .ok ⟨db, none⟩) :
    s.step goArith sampleReader (.deliverPlace i sampleHash)
      = { s with placing := s.placing.eraseIdx i, trade := db } := by
  unfold step
  dsimp only
  rw [hi]
  dsimp only
  rw [hr]
  simp [tradeResult]

/-- Two sells with the same id are delivered: the second overwrites the first, and nothing accounts for
its lock any more. -/
theorem AfterSells.repeated (h : AfterSells total (n + 1) s) (hpos : 0 < n) (hn : n % 2 ^ 24 = 0) :
    let s' := s.run goArith sampleReader [.deliverPlace 0 sampleHash, .deliverPlace (n - 1) sampleHash]
    (s'.fund.account 2 6).locked = s'.accountedFor 2 6 + (sampleParam true).quantity := by
  have hfirst : s.placing[0]? = some (sampleSell 0) := by
    rw [h.placing]
    simp
  have hsecond : (s.placing.eraseIdx 0)[n - 1]? = some (sampleSell 0) := by
    rw [getElem?_eraseIdx, if_neg (by omega), Nat.sub_add_cancel hpos, h.placing, getElem?_map,
      getElem?_range (by omega), Option.map_some, sampleSell_repeats hn]
  have htrade : s.trade = (sampleExchange 0).trade := h.trade
  have hdelivered : placeOrderReceive goArith (sampleExchange 0).trade (sampleSell 0) sampleHash
      = .ok ⟨sampleDelivered (sampleExchange 0).trade, none⟩ := sampleDelivered_ok rfl (by decide +kernel)
  have hagain : placeOrderReceive goArith (sampleDelivered (sampleExchange 0).trade) (sampleSell 0) sampleHash
      = .ok ⟨sampleDelivered (sampleDelivered (sampleExchange 0).trade), none⟩ :=
    sampleDelivered_ok (by decide +kernel) (by decide +kernel)
  have hrun : s.run goArith sampleReader [.deliverPlace 0 sampleHash, .deliverPlace (n - 1) sampleHash]
      = { s with
        placing := (s.placing.eraseIdx 0).eraseIdx (n - 1)
        trade := sampleDelivered (sampleDelivered (sampleExchange 0).trade) } := by
    unfold run
    rw [← htrade] at hdelivered
    rw [← htrade] at hagain
    rw [foldl_cons, step_deliverPlace hfirst hdelivered, foldl_cons, step_deliverPlace hsecond hagain,
      foldl_nil, htrade]
  have hinfos : (sampleDelivered (sampleDelivered (sampleExchange 0).trade)).marketInfos
      = (sampleExchange 0).trade.marketInfos := by
    unfold sampleDelivered
    rw [(Matcher.matchOrder_frame _ _ _ _).2.2, (Matcher.matchOrder_frame _ _ _ _).2.2]
  have hone := sampleSell_reserved
  have hall : (s.placing.map (reservedFor (sampleExchange 0).trade.marketInfos 2 6)).sum
      = (n + 1) * (sampleParam true).quantity := by
    have hconst : reservedFor (sampleExchange 0).trade.marketInfos 2 6 ∘ sampleSell
        = fun _ => (sampleParam true).quantity := by
      funext k
      rw [Function.comp_apply, hone]
    rw [h.placing, map_map, hconst, map_const', length_range, sum_replicate_nat]
  have herase := sum_eraseIdx hfirst (reservedFor (sampleExchange 0).trade.marketInfos 2 6)
  have herase' := sum_eraseIdx hsecond (reservedFor (sampleExchange 0).trade.marketInfos 2 6)
  have hlocked : (s.fund.account 2 6).locked = (n + 1) * (sampleParam true).quantity := by
    rw [account_of_get? h.account]
  rw [hone] at herase
  rw [hone] at herase'
  rw [hrun]
  unfold accountedFor
  dsimp only
  rw [hinfos, sampleDelivered_twice, h.settling]
  simp only [map_nil, sum_nil]
  omega

/-- One more sell than there are serial numbers, and the delivery of the first and the last of them. -/
def sampleRepeated (n : ℕ) : List ExchangeAction :=
  List.replicate (n + 1) (.place (sampleParam true) 2 none 8)
    ++ [.deliverPlace 0 sampleHash, .deliverPlace (n - 1) sampleHash]

theorem sampleRepeated_disagree (hpos : 0 < n) (hn : n % 2 ^ 24 = 0) :
    ¬((sampleExchange ((n + 1) * (sampleParam true).quantity)).run goArith sampleReader (sampleRepeated n)).LocksAgree := by
  intro hagree
  have h := (afterSells_run le_rfl).repeated hpos hn
  have hlost := hagree 2 6
  unfold sampleRepeated run at hlost
  rw [foldl_append] at hlost
  dsimp only [run] at h
  have hquantity : 0 < (sampleParam true).quantity := by decide
  omega

/-- After `2 ^ 24` orders in one second the ids repeat, and the locks no longer agree with the orders. -/
theorem locked_funds_disagree_repeated_id : (sampleExchange ((2 ^ 24 + 1) * (sampleParam true).quantity)).Initial
    ∧ ¬((sampleExchange ((2 ^ 24 + 1) * (sampleParam true).quantity)).run goArith sampleReader
      (sampleRepeated (2 ^ 24))).LocksAgree :=
  ⟨sampleExchange_initial _, sampleRepeated_disagree (by decide) (by decide)⟩

end Sample

end GoVite.Dex

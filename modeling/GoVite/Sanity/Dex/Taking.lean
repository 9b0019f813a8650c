import GoVite.Sanity.Dex.OrderArith
import GoVite.Sanity.Dex.OrderId

/-! One pass of a taker over the makers, as a relation with one rule per branch of `recursiveTakeOrder`. -/

namespace GoVite.Dex
open KeyStore Taking

variable (A : Arith) (mc : Matcher)

inductive TakeRun : Taking → List Order → Taking → Prop
  | exhausted (t : Taking) : TakeRun t [] t
  | unmatched {t : Taking} {maker : Order} (makers : List Order) (halive : filterTimeout mc.db maker = none)
      (hmatch : matchPrice t.taker maker = false) : TakeRun t (maker :: makers) t
  | postOnly {t : Taking} {maker : Order} (makers : List Order) (halive : filterTimeout mc.db maker = none)
      (hmatch : matchPrice t.taker maker = true) (htype : t.taker.type = .postOnly) :
      TakeRun t (maker :: makers) t.cancelPostOnly
  | expired {t t' : Taking} {maker expired : Order} {makers : List Order}
      (hexpired : filterTimeout mc.db maker = some expired)
      (hrest : TakeRun (t.addModifiedMaker expired) makers t') : TakeRun t (maker :: makers) t'
  | last {t : Taking} {maker : Order} (makers : List Order) (halive : filterTimeout mc.db maker = none)
      (hmatch : matchPrice t.taker maker = true) (htype : t.taker.type ≠ .postOnly)
      (hdone : (t.execute A mc maker).done = true) : TakeRun t (maker :: makers) (t.execute A mc maker)
  | next {t t' : Taking} {maker : Order} {makers : List Order} (halive : filterTimeout mc.db maker = none)
      (hmatch : matchPrice t.taker maker = true) (htype : t.taker.type ≠ .postOnly)
      (hdone : (t.execute A mc maker).done = false)
      (hrest : TakeRun (t.execute A mc maker) makers t') : TakeRun t (maker :: makers) t'

theorem recursiveTakeOrder_run (t : Taking) (makers : List Order) (hlive : t.done = false) :
    TakeRun A mc t makers (recursiveTakeOrder A mc t makers) := by
  induction makers generalizing t with
  | nil => exact .exhausted t
  | cons maker makers ih =>
    unfold recursiveTakeOrder
    split
    · rename_i expired hexpired
      have hlive' : (t.addModifiedMaker expired).done = false := hlive
      dsimp only
      rw [hlive']
      exact .expired hexpired (ih _ hlive')
    · rename_i halive
      dsimp only
      split_ifs with hmatch htype hdone
      · exact .postOnly makers halive hmatch htype
      · exact .last makers halive hmatch htype hdone
      · exact .next halive hmatch htype (by simpa using hdone) (ih _ (by simpa using hdone))
      · exact .unmatched makers halive (by simpa using hmatch)

/-- What every branch of the recursion keeps holds at its end. -/
theorem recursiveTakeOrder_inv {P : Taking → Prop} (A : Arith) (mc : Matcher) (makers : List Order)
    (hexpired : ∀ t maker expired, maker ∈ makers → filterTimeout mc.db maker = some expired → P t →
      P (t.addModifiedMaker expired))
    (hpost : ∀ t : Taking, P t → P t.cancelPostOnly)
    (hexec : ∀ t maker, maker ∈ makers → P t → P (t.execute A mc maker)) {t : Taking} (h : P t) :
    P (recursiveTakeOrder A mc t makers) := by
  induction makers generalizing t with
  | nil => exact h
  | cons maker makers ih =>
    have hrest : ∀ t, P t → P (recursiveTakeOrder A mc t makers) := fun t ht =>
      ih (fun t m e hm => hexpired t m e (List.mem_cons_of_mem _ hm)) (fun t m hm => hexec t m (List.mem_cons_of_mem _ hm)) ht
    unfold recursiveTakeOrder
    split
    · rename_i expired hexp
      have hadd := hexpired t maker expired List.mem_cons_self hexp h
      dsimp only
      split_ifs
      · exact hadd
      · exact hrest _ hadd
    · have hex := hexec t maker List.mem_cons_self h
      dsimp only
      split_ifs
      · exact hpost t h
      · exact hex
      · exact hrest _ hex
      · exact h

theorem filterTimeout_none {db : TradeDb} (h : db.heightPoint.isVersion11Upgrade = true) (maker : Order) :
    filterTimeout db maker = none := by
  unfold filterTimeout
  simp [h]

theorem filterTimeout_some {db : TradeDb} {maker expired : Order} (h : filterTimeout db maker = some expired) :
    expired = { maker with status := .cancelled, cancelReason := expired.cancelReason } := by
  unfold filterTimeout at h
  split_ifs at h
  cases h
  rfl

section Cap
variable (o : Order) (n : ℕ)

theorem capTaker_eq : capTaker o n = { o with status := (capTaker o n).status, cancelReason := (capTaker o n).cancelReason } := by
  unfold capTaker
  split_ifs <;> rfl

theorem capTaker_bounded {o : Order} (h : o.Bounded) (n : ℕ) : (capTaker o n).Bounded := by
  rw [capTaker_eq]
  exact ⟨h.quantity, h.amount, h.fee⟩

end Cap

/-- An order with a price counts as filled at this executed quantity. -/
def Order.FilledAt (A : Arith) (mi : MarketInfo) (o : Order) (executed : ℕ) : Prop :=
  o.quantity ≤ executed
    ∨ A.calculateRawAmountF (o.quantity - executed) o.price (mi.tradeTokenDecimals - mi.quoteTokenDecimals) < 1

/-- A taker during its pass: only what executions write has changed. -/
structure TakerOf (o o' : Order) : Prop where
  id : o'.id = o.id
  address : o'.address = o.address
  type : o'.type = o.type
  quantity : o'.quantity = o.quantity
  amount : o'.amount = o.amount
  lockedBuyFee : o'.lockedBuyFee = o.lockedBuyFee

theorem TakerOf.refl (o : Order) : TakerOf o o := ⟨rfl, rfl, rfl, rfl, rfl, rfl⟩

theorem TakerOf.trans {a b c : Order} (h : TakerOf a b) (h' : TakerOf b c) : TakerOf a c :=
  ⟨h'.id.trans h.id, h'.address.trans h.address, h'.type.trans h.type, h'.quantity.trans h.quantity,
    h'.amount.trans h.amount, h'.lockedBuyFee.trans h.lockedBuyFee⟩

variable {o o' : Order}

section
variable (h : TakerOf o o')
include h

theorem TakerOf.price : o'.price = o.price := congrArg priceOf h.id

theorem TakerOf.side : o'.side = o.side := congrArg sideOf h.id

theorem TakerOf.wholeLock : o'.wholeLock = o.wholeLock := by
  unfold Order.wholeLock
  rw [h.side, h.quantity, h.amount, h.lockedBuyFee]

theorem TakerOf.matchPrice : matchPrice o' = matchPrice o := by
  funext m
  unfold GoVite.Dex.matchPrice
  rw [h.type, h.price, h.side]

theorem TakerOf.filledAt {A : Arith} {mi : MarketInfo} (n : ℕ) : o'.FilledAt A mi n ↔ o.FilledAt A mi n := by
  unfold Order.FilledAt
  rw [h.quantity, h.price]

end

theorem takerOf_execute (t : Taking) (maker : Order) :
    TakerOf t.taker (t.execute A mc maker).taker := by
  unfold execute
  dsimp only
  rw [capTaker_eq, calculateOrderAndTx_eq]
  dsimp only [executeOrders]
  rw [updateOrder_eq]
  exact ⟨rfl, rfl, rfl, rfl, rfl, rfl⟩

theorem TakeRun.takerOf {A : Arith} {mc : Matcher} {t t' : Taking} {makers : List Order}
    (h : TakeRun A mc t makers t') : TakerOf t.taker t'.taker := by
  induction h with
  | exhausted t | unmatched => exact .refl _
  | postOnly => exact ⟨rfl, rfl, rfl, rfl, rfl, rfl⟩
  | expired _ _ ih => exact ih
  | last => exact takerOf_execute A mc _ _
  | next _ _ _ _ _ ih => exact (takerOf_execute A mc _ _).trans ih

section Execute
variable {A} {t : Taking} (maker : Order)

theorem execute_txs_length : (t.execute A mc maker).txs.length = t.txs.length + 1 := by
  simp [execute]

theorem execute_executedQuantity (hm : t.taker.type ≠ .market) :
    (t.execute A mc maker).taker.executedQuantity = t.taker.executedQuantity
      + min (subBigIntAbs t.taker.quantity t.taker.executedQuantity) (subBigIntAbs maker.quantity maker.executedQuantity) := by
  unfold execute
  dsimp only
  rw [capTaker_eq, calculateOrderAndTx_eq, ← takerQuantity_priced A maker mc.marketInfo mc.db.heightPoint hm]
  dsimp only [executeOrders]
  rw [updateOrder_eq]

/-- Whether a transaction fills a taker depends on what the maker has left alone. -/
theorem taker_filled_iff (hm : t.taker.type ≠ .market) (hb : t.taker.executedQuantity ≤ t.taker.quantity) :
    (calculateOrderAndTx A t.taker maker mc.marketInfo mc.db.heightPoint).taker.status = .fullyExecuted
      ↔ t.taker.FilledAt A mc.marketInfo
        (t.taker.executedQuantity + subBigIntAbs maker.quantity maker.executedQuantity) := by
  rw [calculateOrderAndTx_eq]
  dsimp only [executeOrders]
  rw [updateOrder_status_priced _ _ _ _ _ _ _ _ hm, takerQuantity_priced A maker mc.marketInfo _ hm,
    subBigIntAbs_of_le hb]
  set rest := subBigIntAbs maker.quantity maker.executedQuantity
  unfold Order.FilledAt
  have hmin : subBigIntAbs (t.taker.quantity - t.taker.executedQuantity)
      (min (t.taker.quantity - t.taker.executedQuantity) rest)
      = t.taker.quantity - (t.taker.executedQuantity + rest) := by
    rw [subBigIntAbs_of_le (min_le_left _ _)]
    omega
  have hfull : t.taker.quantity - t.taker.executedQuantity
      = min (t.taker.quantity - t.taker.executedQuantity) rest
      ↔ t.taker.quantity ≤ t.taker.executedQuantity + rest := by omega
  rw [hmin, ← hfull]
  split_ifs with h
  · exact iff_of_true rfl h
  · exact iff_of_false (by simp) h

section
variable (A t)

/-- The three ways a transaction can leave the taker: filled, stopped by the number of transactions, or
going on to the next maker. -/
theorem execute_cases :
    let e := calculateOrderAndTx A t.taker maker mc.marketInfo mc.db.heightPoint
    e.taker.status = .fullyExecuted ∧ (t.execute A mc maker).taker = e.taker
    ∨ e.taker.status = .partialExecuted ∧ maxTxsCountPerTaker ≤ t.txs.length + 1
      ∧ (t.execute A mc maker).taker
        = { e.taker with status := .cancelled, cancelReason := .partialExecutedCancelledByMarket }
    ∨ e.taker.status = .partialExecuted ∧ t.txs.length + 1 < maxTxsCountPerTaker
      ∧ (t.execute A mc maker).taker = e.taker := by
  have hlen : ∀ tx, (t.txs ++ [tx]).length = t.txs.length + 1 := fun tx => by simp
  unfold execute capTaker
  dsimp only
  rw [hlen]
  rcases taker_status_cases A t.taker maker mc.marketInfo mc.db.heightPoint with h | h
  · exact Or.inl ⟨h, if_neg (by simp [h])⟩
  · by_cases hcap : maxTxsCountPerTaker ≤ t.txs.length + 1
    · exact Or.inr (Or.inl ⟨h, hcap, if_pos ⟨h, hcap⟩⟩)
    · exact Or.inr (Or.inr ⟨h, by omega, if_neg fun hc => hcap hc.2⟩)

theorem execute_cancelReason : (t.execute A mc maker).taker.cancelReason = t.taker.cancelReason
      ∨ (t.execute A mc maker).taker.cancelReason = .partialExecutedCancelledByMarket := by
  have hreason := taker_cancelReason A t.taker maker mc.marketInfo mc.db.heightPoint
  rcases execute_cases A mc t maker with ⟨-, heq⟩ | ⟨-, -, heq⟩ | ⟨-, -, heq⟩
  · exact Or.inl (by rw [heq, hreason])
  · exact Or.inr (by rw [heq])
  · exact Or.inl (by rw [heq, hreason])

end

variable {mc maker} in
theorem execute_survives (hdone : (t.execute A mc maker).done = false) :
    (calculateOrderAndTx A t.taker maker mc.marketInfo mc.db.heightPoint).taker.status = .partialExecuted
    ∧ t.txs.length + 1 < maxTxsCountPerTaker
    ∧ (t.execute A mc maker).taker = (calculateOrderAndTx A t.taker maker mc.marketInfo mc.db.heightPoint).taker := by
  rcases execute_cases A mc t maker with ⟨hst, heq⟩ | ⟨-, -, heq⟩ | h
  · simp [done, Order.finished, heq, hst] at hdone
  · simp [done, Order.finished, heq] at hdone
  · exact h

end Execute

end GoVite.Dex

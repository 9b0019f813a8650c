import GoVite.Sanity.Dex.OrderArith

/-! What the writing half of the matcher does to storage, settlements and fees. Every question about settlements is a
weighted sum over them, answered by one lemma per function. -/

namespace GoVite.Dex
open KeyStore List Store

/-- A weight for each kind of entry of a settlement, by address and by token of the market. -/
structure SettleWeight where
  inc : Address → Bool → ℕ := fun _ _ => 0
  reduce : Address → Bool → ℕ := fun _ _ => 0
  release : Address → Bool → ℕ := fun _ _ => 0

open SettleWeight

namespace SettleWeight

def weigh (w : SettleWeight) (address : Address) (isTradeToken : Bool) (s : AccountSettle) : ℕ :=
  w.inc address isTradeToken * s.incAvailable + w.reduce address isTradeToken * s.reduceLocked
    + w.release address isTradeToken * s.releaseLocked

def total (w : SettleWeight) (fs : FundSettles) : ℕ := fs.sum fun a m => m.sum (w.weigh a)

@[simp] theorem total_empty (w : SettleWeight) : w.total .empty = 0 := rfl

def buy (w : SettleWeight) (address : Address) (quantity amount fee operatorFee : ℕ) : ℕ :=
  w.inc address true * quantity + w.reduce address false * (amount + (fee + operatorFee))

def sell (w : SettleWeight) (address : Address) (quantity amount fee operatorFee : ℕ) : ℕ :=
  w.inc address false * subBigIntAbs amount (fee + operatorFee) + w.reduce address true * quantity

def ofTx (w : SettleWeight) (tx : OrderTx) : ℕ :=
  match tx.takerSide with
  | false => w.buy tx.takerAddress tx.quantity tx.amount tx.takerFee tx.takerOperatorFee
      + w.sell tx.makerAddress tx.quantity tx.amount tx.makerFee tx.makerOperatorFee
  | true => w.sell tx.takerAddress tx.quantity tx.amount tx.takerFee tx.takerOperatorFee
      + w.buy tx.makerAddress tx.quantity tx.amount tx.makerFee tx.makerOperatorFee

end SettleWeight

def feeTotal (w : Address → FeeSettle → ℕ) (fees : FeeSettles) : ℕ := fees.sum w

def feeOfTx (w : Address → FeeSettle → ℕ) (tx : OrderTx) : ℕ :=
  w tx.takerAddress ⟨tx.takerFee, tx.takerOperatorFee⟩ + w tx.makerAddress ⟨tx.makerFee, tx.makerOperatorFee⟩

def SettleWeight.ofRefund (w : SettleWeight) (o : Order) : ℕ :=
  if o.finished then w.release o.address o.side * calculateRefund o else 0

def transactionsOf (logs : List TradeEvent) : List OrderTx :=
  logs.filterMap fun
    | .transaction tx => some tx
    | _ => none

namespace Matcher
variable (mc : Matcher)

def transactions : List OrderTx := transactionsOf mc.db.logs

variable (w : SettleWeight) (txs : List OrderTx) (o : Order)

theorem total_updateFundSettle (a : Address) (s : AccountSettle) :
    w.total (mc.updateFundSettle a s).fundSettles = w.total mc.fundSettles + w.weigh a s.isTradeToken s := by
  unfold total updateFundSettle
  dsimp only
  set m := mc.fundSettles.getD a .empty
  set ac := m.getD s.isTradeToken { isTradeToken := s.isTradeToken }
  have hinner : (m.set s.isTradeToken (ac.add s)).sum (w.weigh a) + w.weigh a s.isTradeToken ac
      = m.sum (w.weigh a) + w.weigh a s.isTradeToken (ac.add s) :=
    sum_set_getD m _ _ { isTradeToken := s.isTradeToken } _ (by simp [weigh])
  have houter : (mc.fundSettles.set a (m.set s.isTradeToken (ac.add s))).sum (fun a m => m.sum (w.weigh a))
      + m.sum (w.weigh a) = mc.fundSettles.sum (fun a m => m.sum (w.weigh a))
        + (m.set s.isTradeToken (ac.add s)).sum (w.weigh a) :=
    sum_set_getD mc.fundSettles a _ .empty _ rfl
  have hadd : w.weigh a s.isTradeToken (ac.add s) = w.weigh a s.isTradeToken ac + w.weigh a s.isTradeToken s := by
    simp only [weigh, AccountSettle.add]
    ring
  omega

theorem feeTotal_updateFee (w : Address → FeeSettle → ℕ) (a : Address) (f p : ℕ)
    (hw : ∀ a f p f' p', w a ⟨f + f', p + p'⟩ = w a ⟨f, p⟩ + w a ⟨f', p'⟩) :
    feeTotal w (mc.updateFee a f p).feeSettles = feeTotal w mc.feeSettles + w a ⟨f, p⟩ := by
  unfold feeTotal updateFee
  cases h : mc.feeSettles.get? a with
  | none =>
    have hset := sum_set mc.feeSettles a ⟨f, p⟩ w
    rw [h] at hset
    simpa using hset
  | some s =>
    have hset := sum_set mc.feeSettles a ⟨s.baseFee + f, s.operatorFee + p⟩ w
    rw [h, hw] at hset
    simp only [Option.map_some, Option.getD_some] at hset ⊢
    have hs : w a s = w a ⟨s.baseFee, s.operatorFee⟩ := rfl
    omega

theorem total_handleTxFundSettle (tx : OrderTx) :
    w.total (mc.handleTxFundSettle tx).fundSettles = w.total mc.fundSettles + w.ofTx tx := by
  change w.total (Matcher.updateFundSettle _ _ _).fundSettles = _
  rw [total_updateFundSettle, total_updateFundSettle, total_updateFundSettle, total_updateFundSettle]
  cases hs : tx.takerSide <;>
    simp [ofTx, hs, buySettles, sellSettles, weigh, buy, sell] <;>
    ring

theorem total_handleTxs : w.total (mc.handleTxs txs).fundSettles = w.total mc.fundSettles + (txs.map w.ofTx).sum := by
  induction txs generalizing mc with
  | nil => rfl
  | cons tx txs ih =>
    change w.total ((mc.handleTx tx).handleTxs txs).fundSettles = _
    rw [ih]
    change w.total (mc.handleTxFundSettle tx).fundSettles + _ = _
    rw [total_handleTxFundSettle, map_cons, sum_cons, add_assoc]

theorem feeTotal_handleTxs (w : Address → FeeSettle → ℕ)
    (hw : ∀ a f p f' p', w a ⟨f + f', p + p'⟩ = w a ⟨f, p⟩ + w a ⟨f', p'⟩) (txs : List OrderTx) :
    feeTotal w (mc.handleTxs txs).feeSettles = feeTotal w mc.feeSettles + (txs.map (feeOfTx w)).sum := by
  induction txs generalizing mc with
  | nil => rfl
  | cons tx txs ih =>
    change feeTotal w ((mc.handleTx tx).handleTxs txs).feeSettles = _
    rw [ih]
    change feeTotal w (Matcher.updateFee (Matcher.updateFee _ _ _ _) _ _ _).feeSettles + _ = _
    rw [feeTotal_updateFee _ w _ _ _ hw, feeTotal_updateFee _ w _ _ _ hw, map_cons, sum_cons, feeOfTx]
    change feeTotal w mc.feeSettles + _ + _ + _ = _
    ring

theorem handleTxs_db : (mc.handleTxs txs).db = { mc.db with logs := mc.db.logs ++ txs.map .transaction } := by
  induction txs generalizing mc with
  | nil => simp [handleTxs]
  | cons tx txs ih =>
    change ((mc.handleTx tx).handleTxs txs).db = _
    rw [ih]
    simp [handleTx, addLog, handleTxFundSettle, updateFee, updateFundSettle]

theorem transactions_handleTxs : (mc.handleTxs txs).transactions = mc.transactions ++ txs := by
  unfold transactions transactionsOf
  rw [handleTxs_db]
  simp [filterMap_map]

theorem handleTxs_marketInfo : (mc.handleTxs txs).marketInfo = mc.marketInfo := by
  induction txs generalizing mc with
  | nil => rfl
  | cons tx txs ih => exact ih (mc.handleTx tx)

section Refund
theorem handleRefund_frame : (mc.handleRefund o).1 = { mc with fundSettles := (mc.handleRefund o).1.fundSettles } := by
  unfold handleRefund
  dsimp only
  split_ifs <;> rfl

theorem handleRefund_order : (mc.handleRefund o).2 = { o with
    refundToken := (mc.handleRefund o).2.refundToken, refundQuantity := (mc.handleRefund o).2.refundQuantity } := by
  unfold handleRefund
  dsimp only
  split_ifs <;> rfl

theorem handleRefund_quantity (h : o.finished) : (mc.handleRefund o).2.refundQuantity = calculateRefund o := by
  unfold handleRefund
  dsimp only
  split_ifs with hpos
  · rfl
  · exact (Nat.eq_zero_of_not_pos hpos).symm

theorem total_handleRefund (w : SettleWeight) :
    w.total (mc.handleRefund o).1.fundSettles = w.total mc.fundSettles + w.ofRefund o := by
  unfold handleRefund ofRefund
  by_cases hf : o.finished
  · dsimp only
    split_ifs with hpos
    · rw [total_updateFundSettle]
      simp [weigh]
    · rw [Nat.eq_zero_of_not_pos hpos]
      simp
  · rw [if_neg hf, if_neg hf]
    rfl

end Refund

section ModifiedMakers

theorem handleModifiedMaker_orders : (mc.handleModifiedMaker o).db.orders =
    if o.finished then mc.db.orders.erase o.id else mc.db.orders.set o.id o.toOrderBody := by
  unfold handleModifiedMaker
  by_cases hf : o.finished
  · rw [if_pos hf, if_pos hf]
    change (mc.handleRefund o).1.db.orders.erase (mc.handleRefund o).2.id = _
    rw [handleRefund_frame, handleRefund_order]
  · rw [if_neg hf, if_neg hf]
    rfl

theorem total_handleModifiedMaker :
    w.total (mc.handleModifiedMaker o).fundSettles = w.total mc.fundSettles + w.ofRefund o := by
  unfold handleModifiedMaker
  by_cases hf : o.finished
  · rw [if_pos hf]
    exact mc.total_handleRefund o w
  · rw [if_neg hf, ofRefund, if_neg hf]
    rfl

theorem handleModifiedMaker_frame : ∃ fs orders ids logs, mc.handleModifiedMaker o =
    { mc with fundSettles := fs, db := { mc.db with orders := orders, hashMapOrderId := ids, logs := logs } } := by
  unfold handleModifiedMaker
  dsimp only
  rw [handleRefund_frame]
  split_ifs <;> exact ⟨_, _, _, _, rfl⟩

theorem transactions_handleModifiedMaker : (mc.handleModifiedMaker o).transactions = mc.transactions := by
  unfold handleModifiedMaker transactions
  split_ifs
  · change transactionsOf ((mc.handleRefund o).1.db.logs ++ _) = _
    rw [handleRefund_frame]
    simp [transactionsOf]
  · simp [transactionsOf, emitOrderUpdate, addLog, saveOrder]

variable (makers : List Order)

theorem transactions_handleModifiedMakers : (mc.handleModifiedMakers makers).transactions = mc.transactions := by
  induction makers generalizing mc with
  | nil => rfl
  | cons o makers ih => exact (ih _).trans (mc.transactions_handleModifiedMaker o)

theorem total_handleModifiedMakers : w.total (mc.handleModifiedMakers makers).fundSettles
      = w.total mc.fundSettles + (makers.map w.ofRefund).sum := by
  induction makers generalizing mc with
  | nil => rfl
  | cons o makers ih =>
    change w.total ((mc.handleModifiedMaker o).handleModifiedMakers makers).fundSettles = _
    rw [ih, total_handleModifiedMaker, map_cons, sum_cons, add_assoc]

theorem handleModifiedMakers_frame : ∃ fs orders ids logs, mc.handleModifiedMakers makers =
    { mc with fundSettles := fs, db := { mc.db with orders := orders, hashMapOrderId := ids, logs := logs } } := by
  induction makers generalizing mc with
  | nil => exact ⟨_, _, _, _, rfl⟩
  | cons o makers ih =>
    obtain ⟨fs, orders, ids, logs, hrest⟩ := ih (mc.handleModifiedMaker o)
    obtain ⟨_, _, _, _, hfirst⟩ := mc.handleModifiedMaker_frame o
    exact ⟨fs, orders, ids, logs, hrest.trans (by rw [hfirst])⟩

theorem find?_id_eq_none {makers : List Order} {id : OrderId} (hid : id ∉ makers.map Order.id) :
    makers.find? (fun o => o.id = id) = none := by
  refine find?_eq_none.2 fun x hx => ?_
  have hne : x.id ≠ id := fun h => hid (mem_map.2 ⟨x, hx, h⟩)
  simpa using hne

/-- Each order of the list is read back as written, or gone; all others are untouched. -/
theorem handleModifiedMakers_get? (hnd : (makers.map Order.id).Nodup) (id : OrderId) :
    (mc.handleModifiedMakers makers).db.orders.get? id =
      match makers.find? (fun o => o.id = id) with
      | some o => if o.finished then none else some o.toOrderBody
      | none => mc.db.orders.get? id := by
  induction makers generalizing mc with
  | nil => rfl
  | cons o makers ih =>
    obtain ⟨hnot, hnd'⟩ := nodup_cons.1 hnd
    change ((mc.handleModifiedMaker o).handleModifiedMakers makers).db.orders.get? id = _
    rw [ih _ hnd', handleModifiedMaker_orders]
    by_cases hid : o.id = id
    · rw [find?_id_eq_none (hid ▸ hnot), find?_cons_of_pos (by simpa using hid)]
      dsimp only
      subst hid
      split_ifs <;> simp
    · rw [find?_cons_of_neg (by simpa using hid)]
      cases makers.find? (fun o => o.id = id) with
      | some x => rfl
      | none =>
        split_ifs
        · exact get?_erase_ne _ (Ne.symm hid)
        · exact get?_set_ne _ _ (Ne.symm hid)

section Written
variable {makers : List Order} (hnd : (makers.map Order.id).Nodup)
include hnd

theorem handleModifiedMakers_get?_mem {o : Order} (ho : o ∈ makers) :
    (mc.handleModifiedMakers makers).db.orders.get? o.id = if o.finished then none else some o.toOrderBody := by
  rw [mc.handleModifiedMakers_get? makers hnd]
  cases hf : makers.find? (fun x => x.id = o.id) with
  | none => simpa using find?_eq_none.1 hf o ho
  | some x =>
    have hx : x.id = o.id := by simpa using find?_some hf
    rw [inj_on_of_nodup_map hnd (mem_of_find?_eq_some hf) ho hx]

end Written

/-- An update event for every maker, on top of the events so far. -/
theorem handleModifiedMakers_logs : ∃ infos : List OrderUpdateInfo,
    (mc.handleModifiedMakers makers).db.logs = mc.db.logs ++ infos.map .orderUpdate
    ∧ infos.map (fun i => (i.id, i.status)) = makers.map fun o => (o.id, o.status) := by
  induction makers generalizing mc with
  | nil => exact ⟨[], by simp [handleModifiedMakers], rfl⟩
  | cons o makers ih =>
    obtain ⟨info, hlog, hinfo⟩ : ∃ info : OrderUpdateInfo,
        (mc.handleModifiedMaker o).db.logs = mc.db.logs ++ [.orderUpdate info]
          ∧ (info.id, info.status) = (o.id, o.status) := by
      unfold handleModifiedMaker
      split_ifs
      · have hdb : ((mc.handleRefund o).1.deleteOrder (mc.handleRefund o).2).db.logs = mc.db.logs := by
          change (mc.handleRefund o).1.db.logs = _
          rw [handleRefund_frame]
        refine ⟨_, congrArg (fun logs => logs ++ [_]) hdb, ?_⟩
        rw [handleRefund_order]
      · exact ⟨_, rfl, rfl⟩
    obtain ⟨infos, hlogs, hinfos⟩ := ih (mc.handleModifiedMaker o)
    refine ⟨info :: infos, ?_, by simp [hinfo, hinfos]⟩
    change ((mc.handleModifiedMaker o).handleModifiedMakers makers).db.logs = _
    rw [hlogs, hlog]
    simp

end ModifiedMakers

end Matcher
end GoVite.Dex

import GoVite.Sanity.Dex.Settle
import GoVite.Sanity.Dex.Taking

/-! `matchOrder` as a whole: one pass over the makers, the outcome for the taker, the writes. -/

namespace GoVite.Dex
open ByteString KeyStore Order

variable {db : TradeDb} {marketId : ℕ}

theorem newMatcher_ok {mc : Matcher} (h : newMatcher db marketId = .ok mc) :
    mc.db = db ∧ db.marketInfos.get? marketId = some mc.marketInfo ∧ mc.fundSettles = .empty ∧ mc.feeSettles = .empty := by
  unfold newMatcher at h
  split at h
  · rename_i marketInfo hget
    cases h
    exact ⟨rfl, hget, rfl, rfl⟩
  · cases h

theorem newMatcher_of_get? {mi : MarketInfo} (h : db.marketInfos.get? marketId = some mi) :
    newMatcher db marketId = .ok { db := db, marketInfo := mi } := by
  unfold newMatcher
  rw [h]

/-- The taker after its outcome is decided, before any refund is filled in. -/
def closedTaker (o : Order) : Order :=
  match checkMarketOrderAmtThreshold o with
  | some killed => killed
  | none => if o.status = .partialExecuted ∨ o.status = .pending then closeTaker o else o

def Order.resting (o : Order) : Prop := o.status = .partialExecuted ∨ o.status = .pending

instance (o : Order) : Decidable o.resting :=
  inferInstanceAs (Decidable (o.status = .partialExecuted ∨ o.status = .pending))

/-- The two outcomes that drop the makers and transactions of the pass. -/
def Order.killed (o : Order) : Prop :=
  o.cancelReason = .cancelledByFillOrKillNotFilled ∨ o.cancelReason = .cancelledByExceedMarketOrderAmtThreshold

instance (o : Order) : Decidable o.killed := inferInstanceAs (Decidable (_ ∨ _))

variable {makers : List Order}

theorem TakeRun.not_killed {A : Arith} {mc : Matcher} {t t' : Taking}
    (h : TakeRun A mc t makers t') (hk : ¬t.taker.killed) : ¬t'.taker.killed := by
  have hexec : ∀ (t : Taking) (maker : Order), ¬t.taker.killed → ¬(t.execute A mc maker).taker.killed := by
    intro t maker hk
    unfold killed at hk ⊢
    rcases execute_cancelReason A mc t maker with h | h <;> rw [h]
    · exact hk
    · decide
  induction h with
  | exhausted t => exact hk
  | unmatched => exact hk
  | postOnly => simp [Taking.cancelPostOnly, killed]
  | expired _ _ ih => exact ih hk
  | last => exact hexec _ _ hk
  | next _ _ _ _ _ ih => exact ih (hexec _ _ hk)

/-- During a pass the taker is in the market or has left it. -/
theorem TakeRun.resting_or_finished {A : Arith} {mc : Matcher} {t t' : Taking}
    (h : TakeRun A mc t makers t') (ht : t.taker.resting ∨ t.taker.finished) : t'.taker.resting ∨ t'.taker.finished := by
  have hexec : ∀ (t : Taking) (maker : Order), (t.execute A mc maker).taker.resting ∨ (t.execute A mc maker).taker.finished := by
    intro t maker
    unfold resting finished
    rcases execute_cases A mc t maker with ⟨hst, heq⟩ | ⟨-, -, heq⟩ | ⟨hst, -, heq⟩
    · rw [heq, hst]
      decide
    · rw [heq]
      simp
    · rw [heq, hst]
      decide
  induction h with
  | exhausted t => exact ht
  | unmatched => exact ht
  | postOnly => exact Or.inr (Or.inr rfl)
  | expired _ _ ih => exact ih ht
  | last => exact hexec _ _
  | next _ _ _ _ _ ih => exact ih (hexec _ _)

section Closed
variable {o : Order}

/-- The taker is left as it is, cancelled with its executed parts, or reset altogether. -/
theorem closedTaker_cases (o : Order) :
    closedTaker o = o ∧ (o.resting → o.type = .limited ∨ o.type = .postOnly)
    ∨ closedTaker o = { o with status := .cancelled, cancelReason := .cancelledByMarket }
    ∨ closedTaker o = resetExecuted o (closedTaker o).cancelReason ∧ (closedTaker o).killed := by
  unfold closedTaker
  cases hc : checkMarketOrderAmtThreshold o with
  | some killed =>
    unfold checkMarketOrderAmtThreshold at hc
    split_ifs at hc
    cases hc
    exact .inr (.inr ⟨rfl, .inr rfl⟩)
  | none =>
    split_ifs with hr
    · unfold closeTaker
      split_ifs with h1 h2
      · exact .inr (.inl rfl)
      · exact .inr (.inr ⟨rfl, .inl rfl⟩)
      · refine .inl ⟨rfl, fun _ => ?_⟩
        cases ht : o.type <;> simp_all
    · exact .inl ⟨rfl, fun h => absurd h hr⟩

theorem closedTaker_eq (o : Order) :
    closedTaker o = { o with status := (closedTaker o).status, cancelReason := (closedTaker o).cancelReason }
      ∧ ((closedTaker o).killed → o.killed)
    ∨ closedTaker o = resetExecuted o (closedTaker o).cancelReason ∧ (closedTaker o).killed := by
  rcases closedTaker_cases o with ⟨h, -⟩ | h | h
  · exact .inl ⟨by rw [h], by rw [h]; exact id⟩
  · exact .inl ⟨by rw [h], fun hk => by simp [h, killed] at hk⟩
  · exact .inr h

theorem calculateRefund_resetExecuted (o : Order) (reason : CancelReason) :
    calculateRefund (resetExecuted o reason) = o.wholeLock := by
  have hside : (resetExecuted o reason).side = o.side := rfl
  unfold calculateRefund wholeLock
  rw [hside]
  cases o.side <;> simp [resetExecuted, subBigIntAbs]

theorem closedTaker_of_not_market (ht : o.type ≠ .market) : closedTaker o = if o.resting then closeTaker o else o := by
  have hnone : checkMarketOrderAmtThreshold o = none := by simp [checkMarketOrderAmtThreshold, ht]
  rw [closedTaker, hnone]
  rfl

theorem closedTaker_fillOrKill (ht : o.type = .fillOrKill) (hr : o.resting) :
    closedTaker o = resetExecuted o .cancelledByFillOrKillNotFilled := by
  rw [closedTaker_of_not_market (by simp [ht]), if_pos hr]
  simp [closeTaker, ht]

/-- A finished taker without a threshold is left as it is. -/
theorem closedTaker_finished (ht : o.type ≠ .market) (hr : ¬o.resting) : closedTaker o = o := by
  rw [closedTaker_of_not_market ht, if_neg hr]

/-- Only limited and post-only takers stay in the market, and they stay as the pass left them. -/
theorem closedTaker_resting (h : (closedTaker o).resting) :
    closedTaker o = o ∧ (o.type = .limited ∨ o.type = .postOnly) := by
  rcases closedTaker_cases o with ⟨heq, htype⟩ | heq | ⟨heq, -⟩
  · exact ⟨heq, htype (heq ▸ h)⟩
  · simp [heq, resting] at h
  · rw [heq] at h
    simp [resting, resetExecuted] at h

theorem closedTaker_resting_or_finished (h : o.resting ∨ o.finished) :
    (closedTaker o).resting ∨ (closedTaker o).finished := by
  rcases closedTaker_cases o with ⟨heq, -⟩ | heq | ⟨heq, -⟩ <;> rw [heq]
  · exact h
  · exact .inr (.inr rfl)
  · exact .inr (.inr rfl)

@[simp] theorem closedTaker_id (o : Order) : (closedTaker o).id = o.id := by
  rcases closedTaker_eq o with ⟨h, -⟩ | ⟨h, -⟩
  · rw [h]
  · rw [h]
    rfl

end Closed

namespace Matcher
variable (mc : Matcher)

theorem closeOrSaveTaker_eq (o : Order) : mc.closeOrSaveTaker o =
    if (closedTaker o).resting then (mc.saveOrder (closedTaker o) true, closedTaker o)
    else mc.handleRefund (closedTaker o) := by
  unfold closeOrSaveTaker closedTaker
  cases hc : checkMarketOrderAmtThreshold o with
  | some killed =>
    have hst : killed.status = .cancelled := by
      unfold checkMarketOrderAmtThreshold at hc
      split_ifs at hc
      cases hc
      rfl
    simp [resting, hst]
  | none =>
    by_cases hr : o.status = .partialExecuted ∨ o.status = .pending
    · simp only [if_pos hr]
      have hclose : (closeTaker o).status = .cancelled ∨ (closeTaker o).status = o.status := by
        unfold closeTaker resetExecuted
        split_ifs <;> simp
      by_cases hcan : (closeTaker o).status = .cancelled
      · simp [resting, hcan]
      · have hst := hclose.resolve_left hcan
        have hrest : (closeTaker o).resting := by
          unfold resting
          rw [hst]
          exact hr
        rw [if_neg hcan, if_pos hrest]
    · simp only [if_neg hr]
      rw [if_neg (show ¬o.resting from hr)]

/-- The order of the outcome, with its refund fields filled in. -/
theorem closeOrSaveTaker_order (o : Order) : (mc.closeOrSaveTaker o).2 = { closedTaker o with
    refundToken := (mc.closeOrSaveTaker o).2.refundToken
    refundQuantity := (mc.closeOrSaveTaker o).2.refundQuantity } := by
  rw [closeOrSaveTaker_eq]
  split_ifs
  · rfl
  · exact mc.handleRefund_order _

theorem closeOrSaveTaker_orders (o : Order) : (mc.closeOrSaveTaker o).1.db.orders =
    if (closedTaker o).resting then mc.db.orders.set (closedTaker o).id (closedTaker o).toOrderBody
    else mc.db.orders := by
  rw [closeOrSaveTaker_eq]
  split_ifs
  · rfl
  · rw [handleRefund_frame]

theorem resting_not_finished {o : Order} (h : o.resting) : ¬o.finished := by
  unfold finished
  rcases h with h | h <;> simp [h]

theorem total_closeOrSaveTaker (w : SettleWeight) (o : Order) :
    w.total (mc.closeOrSaveTaker o).1.fundSettles = w.total mc.fundSettles + w.ofRefund (closedTaker o) := by
  rw [closeOrSaveTaker_eq]
  split_ifs with hr
  · rw [SettleWeight.ofRefund, if_neg (resting_not_finished hr)]
    rfl
  · exact mc.total_handleRefund _ w

theorem closeOrSaveTaker_frame (o : Order) : ∃ fs orders ids, (mc.closeOrSaveTaker o).1 =
    { mc with fundSettles := fs, db := { mc.db with orders := orders, hashMapOrderId := ids } } := by
  rw [closeOrSaveTaker_eq]
  split_ifs
  · exact ⟨_, _, _, rfl⟩
  · exact ⟨_, _, _, mc.handleRefund_frame _⟩

theorem handleTakerRes_frame (o : Order) : ∃ fs orders ids logs, (mc.handleTakerRes o).1 =
    { mc with fundSettles := fs, db := { mc.db with orders := orders, hashMapOrderId := ids, logs := logs } } := by
  obtain ⟨fs, orders, ids, h⟩ := mc.closeOrSaveTaker_frame o
  exact ⟨fs, orders, ids, _, congrArg (emitNewOrder · (mc.closeOrSaveTaker o).2) h⟩

def pass (A : Arith) (taker : Order) (makers : List Order) : Taking := recursiveTakeOrder A mc { taker := taker } makers

theorem pass_run (A : Arith) {taker : Order} (hlive : ¬taker.finished) (makers : List Order) :
    TakeRun A mc { taker := taker } makers (mc.pass A taker makers) :=
  recursiveTakeOrder_run A mc _ _ (by simpa [Taking.done] using hlive)

section HandleTaking
variable (t : Taking)

theorem handleTaking_order : (mc.handleTaking t).2 = (mc.closeOrSaveTaker t.taker).2 := by
  unfold handleTaking handleTakerRes
  dsimp only
  split_ifs <;> rfl

theorem handleTaking_cancelReason : (mc.closeOrSaveTaker t.taker).2.cancelReason = (closedTaker t.taker).cancelReason := by
  rw [closeOrSaveTaker_order]

/-- Of a killed taker only its own refund is written. -/
theorem handleTaking_eq : mc.handleTaking t = if (closedTaker t.taker).killed then mc.handleTakerRes t.taker
    else (((mc.handleTakerRes t.taker).1.handleModifiedMakers t.modifiedMakers).handleTxs t.txs,
      (mc.handleTakerRes t.taker).2) := by
  refine if_congr ?_ rfl rfl
  rw [killed, ← handleTaking_cancelReason mc]
  rfl

/-- The settlements of a taker: its own refund, and unless it is killed the refunds of the makers that
left the market and the transactions. -/
theorem total_handleTaking (w : SettleWeight) : w.total (mc.handleTaking t).1.fundSettles =
    w.total mc.fundSettles + w.ofRefund (closedTaker t.taker) + if (closedTaker t.taker).killed then 0
      else (t.modifiedMakers.map w.ofRefund).sum + (t.txs.map w.ofTx).sum := by
  have htaker : w.total (mc.handleTakerRes t.taker).1.fundSettles
      = w.total mc.fundSettles + w.ofRefund (closedTaker t.taker) := mc.total_closeOrSaveTaker w t.taker
  rw [handleTaking_eq]
  split_ifs
  · rw [htaker, add_zero]
  · rw [total_handleTxs, total_handleModifiedMakers, htaker]
    ring

theorem feeTotal_handleTaking (w : Address → FeeSettle → ℕ)
    (hw : ∀ a f p f' p', w a ⟨f + f', p + p'⟩ = w a ⟨f, p⟩ + w a ⟨f', p'⟩) :
    feeTotal w (mc.handleTaking t).1.feeSettles = feeTotal w mc.feeSettles
      + if (closedTaker t.taker).killed then 0 else (t.txs.map (feeOfTx w)).sum := by
  obtain ⟨_, _, _, _, htaker⟩ := mc.handleTakerRes_frame t.taker
  obtain ⟨_, _, _, _, hmakers⟩ := (mc.handleTakerRes t.taker).1.handleModifiedMakers_frame t.modifiedMakers
  rw [handleTaking_eq]
  split_ifs
  · rw [htaker, add_zero]
  · rw [feeTotal_handleTxs _ w hw, hmakers, htaker]

theorem transactions_handleTaking : (mc.handleTaking t).1.transactions =
    mc.transactions ++ if (closedTaker t.taker).killed then [] else t.txs := by
  have htaker : (mc.handleTakerRes t.taker).1.transactions = mc.transactions := by
    change transactionsOf ((mc.closeOrSaveTaker t.taker).1.db.logs ++ _) = _
    obtain ⟨_, _, _, hclose⟩ := mc.closeOrSaveTaker_frame t.taker
    rw [hclose]
    simp [transactionsOf, transactions]
  rw [handleTaking_eq]
  split_ifs
  · rw [htaker, List.append_nil]
  · rw [transactions_handleTxs, transactions_handleModifiedMakers, htaker]

theorem handleTaking_frame : (mc.handleTaking t).1.marketInfo = mc.marketInfo
    ∧ (mc.handleTaking t).1.db.heightPoint = mc.db.heightPoint
    ∧ (mc.handleTaking t).1.db.marketInfos = mc.db.marketInfos := by
  obtain ⟨_, _, _, _, htaker⟩ := mc.handleTakerRes_frame t.taker
  obtain ⟨_, _, _, _, hmakers⟩ := (mc.handleTakerRes t.taker).1.handleModifiedMakers_frame t.modifiedMakers
  rw [handleTaking_eq]
  split_ifs
  · rw [htaker]
    exact ⟨rfl, rfl, rfl⟩
  · rw [handleTxs_marketInfo, handleTxs_db, hmakers, htaker]
    exact ⟨rfl, rfl, rfl⟩

theorem handleTaking_orders_killed {t : Taking} (hk : (closedTaker t.taker).killed) (hpass : ¬t.taker.killed) :
    (mc.handleTaking t).1.db.orders = mc.db.orders := by
  rw [handleTaking_eq, if_pos hk]
  change (mc.closeOrSaveTaker t.taker).1.db.orders = _
  rw [closeOrSaveTaker_orders, if_neg]
  intro hr
  rw [(closedTaker_resting hr).1] at hk
  exact hpass hk

section Stored
variable {t : Taking} (hk : ¬(closedTaker t.taker).killed) (hnd : (t.modifiedMakers.map Order.id).Nodup)
include hk hnd

theorem handleTaking_get?_changed {o : Order} (ho : o ∈ t.modifiedMakers) :
    (mc.handleTaking t).1.db.orders.get? o.id = if o.finished then none else some o.toOrderBody := by
  rw [handleTaking_eq, if_neg hk, handleTxs_db]
  exact handleModifiedMakers_get?_mem _ hnd ho

theorem handleTaking_get?_other {id : OrderId} (hid : id ∉ t.modifiedMakers.map Order.id) :
    (mc.handleTaking t).1.db.orders.get? id = if (closedTaker t.taker).resting ∧ id = t.taker.id
      then some (closedTaker t.taker).toOrderBody else mc.db.orders.get? id := by
  rw [handleTaking_eq, if_neg hk, handleTxs_db]
  refine (handleModifiedMakers_get? _ _ hnd _).trans ?_
  rw [find?_id_eq_none hid]
  change (mc.closeOrSaveTaker t.taker).1.db.orders.get? id = _
  rw [closeOrSaveTaker_orders]
  by_cases hr : (closedTaker t.taker).resting
  · rw [if_pos hr, Store.get?_set]
    simp [hr]
  · simp [hr]

omit hnd in
/-- Every changed maker is announced with its new status. -/
theorem handleTaking_announced {o : Order} (ho : o ∈ t.modifiedMakers) : ∃ info : OrderUpdateInfo,
    .orderUpdate info ∈ (mc.handleTaking t).1.db.logs ∧ info.id = o.id ∧ info.status = o.status := by
  obtain ⟨infos, hlogs, hinfos⟩ := (mc.handleTakerRes t.taker).1.handleModifiedMakers_logs t.modifiedMakers
  have hmem : (o.id, o.status) ∈ infos.map fun i => (i.id, i.status) := by
    rw [hinfos]
    exact List.mem_map.2 ⟨o, ho, rfl⟩
  obtain ⟨info, hinfo, heq⟩ := List.mem_map.1 hmem
  obtain ⟨hid, hst⟩ := Prod.mk.inj heq
  refine ⟨info, ?_, hid, hst⟩
  rw [handleTaking_eq, if_neg hk, handleTxs_db, hlogs]
  simp [hinfo]

end Stored

end HandleTaking

section MatchOrder
variable (A : Arith) (taker : Order) (preHash : Byte)

def makersFor : List Order := getMakerBook mc.db mc.marketInfo.marketId (!taker.side)

theorem matchOrder_eq : mc.matchOrder A taker preHash =
    ((mc.handleTaking (mc.pass A taker (mc.makersFor taker))).1.tryUpdateTimestamp taker.timestamp preHash,
      (mc.handleTaking (mc.pass A taker (mc.makersFor taker))).2) := by
  change mc.doMatchTaker A taker (mc.makersFor taker) preHash = _
  cases mc.makersFor taker with
  | cons maker makers => rfl
  | nil =>
    unfold doMatchTaker handleTaking pass recursiveTakeOrder
    dsimp only
    split_ifs <;> rfl

variable (ts : ℕ)

@[simp] theorem tryUpdateTimestamp_kept : (mc.tryUpdateTimestamp ts preHash).fundSettles = mc.fundSettles
    ∧ (mc.tryUpdateTimestamp ts preHash).feeSettles = mc.feeSettles
    ∧ (mc.tryUpdateTimestamp ts preHash).db.orders = mc.db.orders
    ∧ (mc.tryUpdateTimestamp ts preHash).db.logs = mc.db.logs
    ∧ (mc.tryUpdateTimestamp ts preHash).transactions = mc.transactions := by
  unfold tryUpdateTimestamp
  split_ifs <;> exact ⟨rfl, rfl, rfl, rfl, rfl⟩

theorem matchOrder_frame : (mc.matchOrder A taker preHash).1.marketInfo = mc.marketInfo
    ∧ (mc.matchOrder A taker preHash).1.db.heightPoint = mc.db.heightPoint
    ∧ (mc.matchOrder A taker preHash).1.db.marketInfos = mc.db.marketInfos := by
  rw [matchOrder_eq]
  have hframe := mc.handleTaking_frame (mc.pass A taker (mc.makersFor taker))
  unfold tryUpdateTimestamp
  split_ifs <;> exact hframe

/-- The reason the taker ends with says whether the pass was dropped. -/
theorem matchOrder_killed_iff : (mc.matchOrder A taker preHash).2.killed
    ↔ (closedTaker (mc.pass A taker (mc.makersFor taker)).taker).killed := by
  rw [matchOrder_eq, killed]
  rw [handleTaking_order, handleTaking_cancelReason]
  rfl

end MatchOrder

section Cancel
variable (o : Order)

def cancelled (o : Order) : Order :=
  { o with
    status := .cancelled
    cancelReason := match o.status with
      | .pending => .cancelledByUser
      | .partialExecuted => .partialExecutedUserCancelled
      | _ => o.cancelReason }

theorem cancelOrderById_orders : (mc.cancelOrderById o).db.orders = mc.db.orders.erase o.id := by
  change (mc.handleRefund (cancelled o)).1.db.orders.erase (mc.handleRefund (cancelled o)).2.id = _
  rw [handleRefund_frame, handleRefund_order]
  rfl

theorem cancelOrderById_frame : (mc.cancelOrderById o).marketInfo = mc.marketInfo
    ∧ (mc.cancelOrderById o).db.heightPoint = mc.db.heightPoint
    ∧ (mc.cancelOrderById o).db.marketInfos = mc.db.marketInfos := by
  have h := mc.handleRefund_frame (cancelled o)
  exact ⟨(congrArg marketInfo h :), (congrArg (·.db.heightPoint) h :), (congrArg (·.db.marketInfos) h :)⟩

theorem transactions_cancelOrderById : (mc.cancelOrderById o).transactions = mc.transactions := by
  change transactionsOf ((mc.handleRefund (cancelled o)).1.db.logs ++ _) = _
  rw [handleRefund_frame]
  simp [transactionsOf, transactions]

theorem total_cancelOrderById (w : SettleWeight) :
    w.total (mc.cancelOrderById o).fundSettles = w.total mc.fundSettles + w.release o.address o.side * calculateRefund o := by
  change w.total (mc.handleRefund (cancelled o)).1.fundSettles = _
  rw [total_handleRefund, SettleWeight.ofRefund]
  rfl

end Cancel

section FundSettles
variable {P : FundSettles → Prop}
  (hP : ∀ (mc : Matcher) (a : Address) (s : AccountSettle), P mc.fundSettles → P (mc.updateFundSettle a s).fundSettles)
include hP

theorem handleRefund_fundSettles (o : Order) (h : P mc.fundSettles) : P (mc.handleRefund o).1.fundSettles := by
  unfold handleRefund
  dsimp only
  split_ifs
  · exact hP mc _ _ h
  · exact h
  · exact h

theorem handleModifiedMakers_fundSettles (makers : List Order) (h : P mc.fundSettles) :
    P (mc.handleModifiedMakers makers).fundSettles := by
  induction makers generalizing mc with
  | nil => exact h
  | cons o makers ih =>
    apply ih (mc.handleModifiedMaker o)
    unfold handleModifiedMaker
    split_ifs
    · exact handleRefund_fundSettles mc hP o h
    · exact h

theorem handleTxs_fundSettles (txs : List OrderTx) (h : P mc.fundSettles) : P (mc.handleTxs txs).fundSettles := by
  induction txs generalizing mc with
  | nil => exact h
  | cons tx txs ih => exact ih (mc.handleTx tx) (hP _ _ _ (hP _ _ _ (hP _ _ _ (hP _ _ _ h))))

/-- Whatever `updateFundSettle` keeps about the settlements is kept by a taker. -/
theorem matchOrder_fundSettles (A : Arith) (taker : Order) (preHash : Byte) (h : P mc.fundSettles) :
    P (mc.matchOrder A taker preHash).1.fundSettles := by
  rw [matchOrder_eq, (tryUpdateTimestamp_kept ..).1]
  set t := mc.pass A taker (mc.makersFor taker)
  have hclose : P (mc.handleTakerRes t.taker).1.fundSettles := by
    change P (mc.closeOrSaveTaker t.taker).1.fundSettles
    rw [closeOrSaveTaker_eq]
    split_ifs
    · exact h
    · exact handleRefund_fundSettles mc hP _ h
  rw [handleTaking_eq]
  split_ifs
  · exact hclose
  · exact handleTxs_fundSettles _ hP _ (handleModifiedMakers_fundSettles _ hP _ hclose)

theorem cancelOrderById_fundSettles (o : Order) (h : P mc.fundSettles) : P (mc.cancelOrderById o).fundSettles :=
  handleRefund_fundSettles mc hP (cancelled o) h

end FundSettles

end Matcher

end GoVite.Dex

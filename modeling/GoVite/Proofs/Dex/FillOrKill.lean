import Mathlib.Data.List.TakeWhile
import GoVite.Proofs.Dex.TradeConservation

/-! Fill-or-kill. A taker that runs out of makers is killed without a trace, but one that is stopped by the limit of
transactions keeps what it has executed. -/

namespace GoVite.Dex
open ByteString KeyStore List

/-- The makers a taker with a price can be executed against, in book order. -/
def liveCrossing (mc : Matcher) (taker : Order) (makers : List Order) : List Order :=
  (makers.filter fun m => (filterTimeout mc.db m).isNone).takeWhile (matchPrice taker)

/-- What a list of makers has left to trade. -/
def soldBy (makers : List Order) : ℕ := (makers.map fun m => subBigIntAbs m.quantity m.executedQuantity).sum

section Crossing
variable {mc : Matcher} {taker maker : Order} {makers : List Order}

theorem liveCrossing_matched (h : filterTimeout mc.db maker = none) (hmatch : matchPrice taker maker = true) :
    liveCrossing mc taker (maker :: makers) = maker :: liveCrossing mc taker makers := by
  simp [liveCrossing, h, hmatch]

@[simp] theorem soldBy_cons (m : Order) (ms : List Order) :
    soldBy (m :: ms) = subBigIntAbs m.quantity m.executedQuantity + soldBy ms := rfl

end Crossing

/-- How the pass of a taker with a price ends, from a state with less than the maximal number of
transactions: filled, stopped by that number, or out of makers. -/
inductive PassEnd (A : Arith) (mc : Matcher) (t t' : Taking) (crossing : List Order) : Prop
  | filled (k : ℕ) (hk : 1 ≤ k) (hcap : t.txs.length + k ≤ maxTxsCountPerTaker)
      (hfilled : t.taker.FilledAt A mc.marketInfo (t.taker.executedQuantity + soldBy (crossing.take k)))
      (hstatus : t'.taker.status = .fullyExecuted)
  | capped (hlen : maxTxsCountPerTaker ≤ t.txs.length + crossing.length)
      (hnot : ∀ k, 1 ≤ k → t.txs.length + k ≤ maxTxsCountPerTaker →
        ¬t.taker.FilledAt A mc.marketInfo (t.taker.executedQuantity + soldBy (crossing.take k)))
      (hstatus : t'.taker.status = .cancelled) (hreason : t'.taker.cancelReason = .partialExecutedCancelledByMarket)
      (htxs : t'.txs.length = maxTxsCountPerTaker)
  | exhausted (hlen : t.txs.length + crossing.length < maxTxsCountPerTaker) (hstatus : t'.taker.resting)

section Pass
variable {A : Arith} {mc : Matcher} {t t' : Taking} {makers : List Order}

section
variable (hm : t.taker.type ≠ .market) (hb : t.taker.executedQuantity ≤ t.taker.quantity)
include hm hb

theorem passEnd_last {maker : Order}
    (hlen : t.txs.length < maxTxsCountPerTaker) (hdone : (t.execute A mc maker).done = true) (crossing : List Order) :
    PassEnd A mc t (t.execute A mc maker) (maker :: crossing) := by
  have hsold : soldBy ((maker :: crossing).take 1) = subBigIntAbs maker.quantity maker.executedQuantity := by simp [soldBy]
  have hfilled := taker_filled_iff (A := A) mc maker hm hb
  rcases execute_cases A mc t maker with ⟨hst, heq⟩ | ⟨hst, hcap, heq⟩ | ⟨hst, -, heq⟩
  · exact .filled 1 le_rfl hlen (by rw [hsold]; exact hfilled.1 hst) (by rw [heq, hst])
  · refine .capped (by simp; omega) (fun k hk hkcap => ?_) (by rw [heq]) (by rw [heq]) ?_
    · obtain rfl : k = 1 := by omega
      rw [hsold, ← hfilled, hst]
      simp
    · rw [execute_txs_length]
      omega
  · simp [Taking.done, Order.finished, heq, hst] at hdone

/-- A transaction the taker survives has used up the maker. -/
theorem passEnd_next {maker : Order} {crossing : List Order} (hdone : (t.execute A mc maker).done = false)
    (hrest : PassEnd A mc (t.execute A mc maker) t' crossing) : PassEnd A mc t t' (maker :: crossing) := by
  have hfilled := taker_filled_iff (A := A) mc maker hm hb
  obtain ⟨hst, hlt, heq⟩ := execute_survives hdone
  have hnot : ¬t.taker.FilledAt A mc.marketInfo
      (t.taker.executedQuantity + subBigIntAbs maker.quantity maker.executedQuantity) := by
    rw [← hfilled, hst]
    simp
  have hused : (t.execute A mc maker).taker.executedQuantity
      = t.taker.executedQuantity + subBigIntAbs maker.quantity maker.executedQuantity := by
    rw [execute_executedQuantity mc maker hm, subBigIntAbs_of_le hb]
    unfold Order.FilledAt at hnot
    omega
  have hstep : ∀ k, (t.execute A mc maker).taker.FilledAt A mc.marketInfo
      ((t.execute A mc maker).taker.executedQuantity + soldBy (crossing.take k))
      ↔ t.taker.FilledAt A mc.marketInfo (t.taker.executedQuantity + soldBy ((maker :: crossing).take (k + 1))) := by
    intro k
    rw [(takerOf_execute A mc t maker).filledAt, hused, take_succ_cons, soldBy_cons, add_assoc]
  have hlen := execute_txs_length (A := A) (t := t) mc maker
  cases hrest with
  | filled k hk hcap hfill hstatus => exact .filled (k + 1) (by omega) (by omega) ((hstep k).1 hfill) hstatus
  | capped hcross hnotk hstatus hreason htxs =>
    refine .capped (by simp only [length_cons]; omega) (fun k hk hcap => ?_) hstatus hreason htxs
    obtain ⟨j, rfl⟩ : ∃ j, k = j + 1 := ⟨k - 1, by omega⟩
    rcases Nat.eq_zero_or_pos j with rfl | hj
    · simpa [soldBy] using hnot
    · exact fun h => hnotk j hj (by omega) ((hstep j).2 h)
  | exhausted hcross hstatus => exact .exhausted (by simp only [length_cons]; omega) hstatus

end

theorem TakeRun.passEnd (h : TakeRun A mc t makers t') (hm : t.taker.type ≠ .market) (hp : t.taker.type ≠ .postOnly)
    (hb : t.taker.executedQuantity ≤ t.taker.quantity) (hlen : t.txs.length < maxTxsCountPerTaker)
    (hrest : t.taker.resting) : PassEnd A mc t t' (liveCrossing mc t.taker makers) := by
  induction h with
  | exhausted t => exact .exhausted (by simpa [liveCrossing] using hlen) hrest
  | unmatched makers halive hmatch =>
    exact .exhausted (by simpa [liveCrossing, halive, hmatch] using hlen) hrest
  | postOnly makers halive hmatch htype => exact absurd htype hp
  | expired hexpired _ ih =>
    rw [liveCrossing, filter_cons_of_neg (by simp [hexpired])]
    have h := ih hm hp hb hlen hrest
    cases h with
    | filled k hk hcap hfill hstatus => exact .filled k hk hcap hfill hstatus
    | capped hcross hnotk hstatus hreason htxs => exact .capped hcross hnotk hstatus hreason htxs
    | exhausted hcross hstatus => exact .exhausted hcross hstatus
  | last makers halive hmatch htype hdone =>
    rw [liveCrossing_matched halive hmatch]
    exact passEnd_last hm hb hlen hdone _
  | @next t t' maker makers halive hmatch htype hdone _ ih =>
    rw [liveCrossing_matched halive hmatch]
    have htaker := takerOf_execute A mc t maker
    obtain ⟨hst, hlt, heq⟩ := execute_survives hdone
    refine passEnd_next hm hb hdone ?_
    have hcross : liveCrossing mc (t.execute A mc maker).taker makers = liveCrossing mc t.taker makers := by
      unfold liveCrossing
      rw [htaker.matchPrice]
    rw [← hcross]
    refine ih (by rw [htaker.type]; exact hm) (by rw [htaker.type]; exact hp) ?_ ?_ (Or.inl (by rw [heq, hst]))
    · rw [execute_executedQuantity mc maker hm, htaker.quantity, subBigIntAbs_of_le hb]
      omega
    · rw [execute_txs_length]
      exact hlt

end Pass

/-- Nothing happened but the refund of the taker's whole lock. -/
structure KilledWhole (mc : Matcher) (taker : Order) (r : Matcher × Order) : Prop where
  transactions : r.1.transactions = mc.transactions
  orders : r.1.db.orders = mc.db.orders
  feeSettles : r.1.feeSettles = .empty
  settles : ∀ w : SettleWeight, w.total r.1.fundSettles = w.release taker.address taker.side * taker.wholeLock
  refund : r.2.refundQuantity = taker.wholeLock

section Outcome
variable {A : Arith} {mc : Matcher} {taker : Order} (preHash : Byte)

/-- A taker that runs out of makers is killed whole. -/
theorem matchOrder_killedWhole {t : Taking} (hfs : mc.fundSettles = .empty) (hfees : mc.feeSettles = .empty)
    (hof : TakerOf taker t.taker) (ht : t.taker.type = .fillOrKill) (hrest : t.taker.resting) :
    KilledWhole mc taker (mc.handleTaking t) := by
  have hclosed := closedTaker_fillOrKill ht hrest
  have hk : (closedTaker t.taker).killed := by rw [hclosed]; exact Or.inl rfl
  have hfin : (closedTaker t.taker).finished := by rw [hclosed]; exact Or.inr rfl
  have hnotrest : ¬(closedTaker t.taker).resting := fun h => Matcher.resting_not_finished h hfin
  have hrefund : calculateRefund (closedTaker t.taker) = taker.wholeLock := by
    rw [hclosed, calculateRefund_resetExecuted, hof.wholeLock]
  refine ⟨?_, ?_, ?_, fun w => ?_, ?_⟩
  · rw [mc.transactions_handleTaking, if_pos hk, append_nil]
  · rw [mc.handleTaking_eq, if_pos hk]
    change (mc.closeOrSaveTaker t.taker).1.db.orders = _
    rw [mc.closeOrSaveTaker_orders, if_neg hnotrest]
  · obtain ⟨_, _, _, _, htaker⟩ := mc.handleTakerRes_frame t.taker
    rw [mc.handleTaking_eq, if_pos hk, htaker, hfees]
  · rw [mc.total_handleTaking, if_pos hk, hfs, SettleWeight.ofRefund, if_pos hfin, hrefund, hclosed]
    simp only [SettleWeight.total, Store.sum_empty, zero_add, add_zero]
    rw [show (resetExecuted t.taker .cancelledByFillOrKillNotFilled).address = taker.address from hof.address,
      show (resetExecuted t.taker .cancelledByFillOrKillNotFilled).side = taker.side from hof.side]
  · rw [mc.handleTaking_order, mc.closeOrSaveTaker_eq, if_neg hnotrest, mc.handleRefund_quantity _ hfin, hrefund]

/-- The fate of a fill-or-kill taker: filled, or killed whole, except when the maximal number of
transactions is reached first. -/
theorem matchOrder_passEnd (A : Arith) (mc : Matcher) (taker : Order) (htype : taker.type = .fillOrKill) (hfresh : taker.Fresh) :
    PassEnd A mc { taker := taker } (mc.pass A taker (mc.makersFor taker)) (liveCrossing mc taker (mc.makersFor taker)) := by
  refine (mc.pass_run A hfresh.not_finished _).passEnd (by simp [htype]) (by simp [htype]) ?_
    (show 0 < maxTxsCountPerTaker by decide) (Or.inr hfresh.status)
  exact hfresh.bounded.quantity

section
variable {t : Taking} (hpass : mc.pass A taker (mc.makersFor taker) = t) (htype : taker.type ≠ .market)
  (hof : TakerOf taker t.taker)
include hpass htype hof

theorem matchOrder_filled (hst : t.taker.status = .fullyExecuted) :
    (mc.matchOrder A taker preHash).2.status = .fullyExecuted := by
  have hclosed : closedTaker t.taker = t.taker := closedTaker_finished (by rwa [hof.type]) (by simp [Order.resting, hst])
  rw [mc.matchOrder_eq, hpass]
  rw [mc.handleTaking_order, mc.closeOrSaveTaker_order, hclosed]
  exact hst

/-- A capped taker is not filled, and its transactions are settled. -/
theorem matchOrder_capped (hst : t.taker.status = .cancelled)
    (hreason : t.taker.cancelReason = .partialExecutedCancelledByMarket) (htxs : t.txs.length = maxTxsCountPerTaker) :
    ¬((mc.matchOrder A taker preHash).2.status = .fullyExecuted
      ∨ KilledWhole mc taker (mc.matchOrder A taker preHash)) := by
  have hclosed : closedTaker t.taker = t.taker := closedTaker_finished (by rwa [hof.type]) (by simp [Order.resting, hst])
  rw [mc.matchOrder_eq, hpass]
  rintro (hfull | hkill)
  · rw [mc.handleTaking_order, mc.closeOrSaveTaker_order, hclosed] at hfull
    exact absurd (hst.symm.trans hfull) (by decide)
  · have hsettled := hkill.transactions
    simp only [Matcher.tryUpdateTimestamp_kept] at hsettled
    rw [mc.transactions_handleTaking, hclosed, if_neg (by simp [Order.killed, hreason])] at hsettled
    have hlen := congrArg length hsettled
    rw [length_append, htxs] at hlen
    simp [maxTxsCountPerTaker] at hlen

end

end Outcome

/-- A fill-or-kill taker is filled or killed whole exactly when fewer live makers cross its price than
transactions are allowed, or that many of them fill it. -/
theorem fillOrKill_all_or_nothing (A : Arith) {db : TradeDb} {marketId : ℕ} {mc : Matcher}
    (hmc : newMatcher db marketId = .ok mc) {taker : Order} (htype : taker.type = .fillOrKill) (hfresh : taker.Fresh)
    (preHash : Byte) :
    ((mc.matchOrder A taker preHash).2.status = .fullyExecuted
      ∨ KilledWhole mc taker (mc.matchOrder A taker preHash))
    ↔ (liveCrossing mc taker (mc.makersFor taker)).length < maxTxsCountPerTaker
      ∨ ∃ k, 1 ≤ k ∧ k ≤ maxTxsCountPerTaker
        ∧ taker.FilledAt A mc.marketInfo (soldBy ((liveCrossing mc taker (mc.makersFor taker)).take k)) := by
  obtain ⟨-, -, hfs, hfees⟩ := newMatcher_ok hmc
  have hof := (mc.pass_run A hfresh.not_finished (mc.makersFor taker)).takerOf
  have hend := matchOrder_passEnd A mc taker htype hfresh
  have hzero : ∀ n, ({ taker := taker } : Taking).taker.executedQuantity + n = n := fun n => by
    simp [hfresh.executedQuantity]
  cases hend with
  | filled k hk hcap hfilled hstatus =>
    rw [hzero] at hfilled
    exact iff_of_true (Or.inl (matchOrder_filled preHash rfl (by simp [htype]) hof hstatus))
      (Or.inr ⟨k, hk, by simpa using hcap, hfilled⟩)
  | exhausted hlen hstatus =>
    have hkill := matchOrder_killedWhole hfs hfees hof (hof.type.trans htype) hstatus
    refine iff_of_true (Or.inr ?_) (Or.inl (by simpa using hlen))
    rw [mc.matchOrder_eq]
    exact ⟨by simpa using hkill.transactions, by simpa using hkill.orders, by simpa using hkill.feeSettles,
      by simpa using hkill.settles, hkill.refund⟩
  | capped hlen hnot hstatus hreason htxs =>
    refine iff_of_false (matchOrder_capped preHash rfl (by simp [htype]) hof hstatus hreason htxs) ?_
    rintro (hlt | ⟨k, hk, hcap, hfilled⟩)
    · exact absurd hlt (Nat.not_lt.2 (by simpa using hlen))
    · refine hnot k hk (by simpa using hcap) ?_
      rw [hzero]
      exact hfilled

section Sample

/-- A fill-or-kill buy of 200 trade tokens. -/
def sampleTaker : Order := { sampleOrder false 1000 with type := .fillOrKill }

theorem sampleTaker_fresh : sampleTaker.Fresh := ⟨rfl, rfl, rfl, rfl, rfl, rfl⟩

def sampleMaker (serialNo : ℕ) : Order := { sampleOrder true serialNo with quantity := 10 ^ 18, amount := 10 ^ 18 }

theorem sampleMaker_inBook (serialNo : ℕ) : inBook (sampleMaker serialNo).id 1 true := inBook_compose _ _ _ _ _

theorem sampleMaker_lt {i j : ℕ} (hij : i < j) (hj : j < 100) : (sampleMaker i).id < (sampleMaker j).id := by
  refine (id_lt_iff (sampleMaker_inBook i) (sampleMaker_inBook j)).2 (Or.inr ⟨?_, Or.inr ⟨?_, ?_⟩⟩)
  · simp [sampleMaker, sampleOrder]
  · simp [sampleMaker, sampleOrder]
  · simp [sampleMaker, sampleOrder]
    omega

def sampleBook : Matcher :=
  { db := { sampleTrade with
      orders := {
        entries := (range 100).map fun i => ((sampleMaker i).id, (sampleMaker i).toOrderBody)
        sorted := by
          rw [map_map, pairwise_map]
          exact pairwise_lt_range.imp_of_mem fun _ hj hij => sampleMaker_lt hij (mem_range.1 hj) } }
    marketInfo := sampleMarket }

theorem sampleBook_crossing :
    liveCrossing sampleBook sampleTaker (sampleBook.makersFor sampleTaker) = (range 100).map sampleMaker := by
  have hbook : sampleBook.makersFor sampleTaker = (range 100).map sampleMaker := by
    have hside : sampleTaker.side = false := sideOf_compose _ _ _ _ _
    unfold Matcher.makersFor getMakerBook
    rw [filter_eq_self.2]
    · exact map_map
    · intro e he
      obtain ⟨i, -, rfl⟩ := mem_map.1 he
      exact (isPrefixOf_iff_inBook _ _ _).2 (sampleMaker_inBook i)
  have halive : ∀ m, (filterTimeout sampleBook.db m).isNone = true := fun m => by
    rfl
  rw [hbook, liveCrossing, filter_eq_self.2 fun m _ => halive m, takeWhile_eq_self_iff.2]
  intro m hm
  obtain ⟨i, -, rfl⟩ := mem_map.1 hm
  simp [matchPrice, Order.price, sampleTaker, sampleMaker, sampleOrder]

theorem fillOrKill_one_maker :
    let mc : Matcher := { db := sampleTrade, marketInfo := sampleMarket }
    (mc.makersFor sampleTaker).length = 1 ∧ ((mc.matchOrder goArith sampleTaker 0).2.status = .fullyExecuted
      ∨ KilledWhole mc sampleTaker (mc.matchOrder goArith sampleTaker 0)) := by
  have hmc : newMatcher sampleTrade 1 = .ok { db := sampleTrade, marketInfo := sampleMarket } := rfl
  exact ⟨by decide +kernel, (fillOrKill_all_or_nothing goArith hmc rfl sampleTaker_fresh 0).2
    (Or.inl (by decide +kernel))⟩

/-- A hundred makers that sell half of what the taker wants: it keeps the half. -/
theorem fillOrKill_hundred_makers : ¬((sampleBook.matchOrder goArith sampleTaker 0).2.status = .fullyExecuted
    ∨ KilledWhole sampleBook sampleTaker (sampleBook.matchOrder goArith sampleTaker 0)) := by
  have hof := (sampleBook.pass_run goArith sampleTaker_fresh.not_finished (sampleBook.makersFor sampleTaker)).takerOf
  have hend := matchOrder_passEnd goArith sampleBook sampleTaker rfl sampleTaker_fresh
  rw [sampleBook_crossing] at hend
  cases hend with
  | filled k hk hcap hfilled hstatus =>
    have hk100 : k ≤ 100 := by simpa [maxTxsCountPerTaker] using hcap
    have hsold : soldBy (((range 100).map sampleMaker).take k) = k * 10 ^ 18 := by
      rw [← map_take, take_range, min_eq_left hk100, soldBy]
      simp [Function.comp_def, sampleMaker, subBigIntAbs, sampleOrder]
    have hnot : ∀ k ≤ 100, ¬sampleTaker.FilledAt goArith sampleMarket (0 + k * 10 ^ 18) := by
      unfold Order.FilledAt
      decide +kernel
    rw [hsold] at hfilled
    exact absurd hfilled (hnot k hk100)
  | exhausted hlen _ => simp [maxTxsCountPerTaker] at hlen
  | capped _ _ hstatus hreason htxs => exact matchOrder_capped 0 rfl (by decide) hof hstatus hreason htxs

end Sample

end GoVite.Dex

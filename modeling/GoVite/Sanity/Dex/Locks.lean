import GoVite.Sanity.Dex.Hits
import GoVite.Sanity.Dex.PlaceOrder

/-! What the trade contract does to the locks behind the orders: what an order loses of its lock turns up in the
settlements of the block. -/

namespace GoVite.Dex
open ByteString KeyStore List Store SettleWeight Matcher

/-- Weights of locks by market, address and side. -/
abbrev LockWeight := ℕ → Address → Bool → ℕ

def held (r : LockWeight) (o : Order) : ℕ := r o.marketId o.address o.side * o.reserved

/-- What a settlement takes out of a lock in one market, weighed. -/
def lockSettle (r : Address → Bool → ℕ) : SettleWeight := { reduce := r, release := r }

def storedHeld (r : LockWeight) (db : TradeDb) : ℕ := db.orders.sum fun id body => held r (body.render id)

section Pass
variable {A : Arith} {mc : Matcher} {t t' : Taking} {maker : Order} {makers : List Order} {r : LockWeight}

theorem held_execute_taker (A : Arith) (mc : Matcher) (t : Taking) (maker : Order) :
    held r (t.execute A mc maker).taker
      = held r (calculateOrderAndTx A t.taker maker mc.marketInfo mc.db.heightPoint).taker := by
  unfold Taking.execute
  dsimp only
  rw [capTaker_eq]
  rfl

theorem bounded_execute (ht : t.taker.Bounded) (hfee : mc.db.heightPoint.isDexFeeUpgrade = true) :
    (t.execute A mc maker).taker.Bounded :=
  capTaker_bounded (executes_taker A maker mc.marketInfo ht hfee).bounded _

/-- The locks over the hits of a pass: what taker and makers held before is what they hold afterwards
together with what the transactions settle. -/
structure HitsBalance (r : LockWeight) (t t' : Taking) (hits : List Hit) : Prop where
  taker : t'.taker.Bounded
  changed : ∀ h ∈ hits, h.changed.Bounded
  balance : held r t.taker + (hits.map fun h => held r h.maker).sum
    = held r t'.taker + (hits.map fun h => held r h.changed).sum
      + (hits.map fun h => (lockSettle (r t.taker.marketId)).ofTx h.tx).sum

section
variable (r : LockWeight) (ht : t.taker.Bounded) (hm : maker.Bounded)
  (hfee : mc.db.heightPoint.isDexFeeUpgrade = true) (hside : maker.side = !t.taker.side)
  (hmarket : maker.marketId = t.taker.marketId)
include ht hm hfee hside hmarket

/-- One transaction moves what both sides used into the settlements. -/
theorem held_execute :
    let e := calculateOrderAndTx A t.taker maker mc.marketInfo mc.db.heightPoint
    held r t.taker + held r maker
      = held r e.taker + held r e.maker + (lockSettle (r t.taker.marketId)).ofTx e.tx := by
  have htaker := executes_taker A maker mc.marketInfo ht hfee
  have hmaker := executes_maker A t.taker mc.marketInfo hm hfee
  set e := calculateOrderAndTx A t.taker maker mc.marketInfo mc.db.heightPoint with he
  have hsideTx : e.tx.takerSide = t.taker.side := by rw [he, calculateOrderAndTx_eq]; rfl
  have htaddr : e.tx.takerAddress = t.taker.address := by rw [he, calculateOrderAndTx_eq]; rfl
  have hmaddr : e.tx.makerAddress = maker.address := by rw [he, calculateOrderAndTx_eq]; rfl
  have htw : held r e.taker = r t.taker.marketId t.taker.address t.taker.side * e.taker.reserved := by
    rw [htaker.eq]
    rfl
  have hmw : held r e.maker = r t.taker.marketId maker.address maker.side * e.maker.reserved := by
    rw [← hmarket, hmaker.eq]
    rfl
  dsimp only
  rw [htw, hmw, held, held, htaker.reserved, hmaker.reserved, hmarket, hside]
  unfold ofTx
  rw [hsideTx, htaddr, hmaddr]
  cases t.taker.side <;> simp only [usedLock, buy, sell, lockSettle, Bool.not_false, Bool.not_true] <;> ring

theorem hitsBalance_single : HitsBalance r t (t.execute A mc maker) [hitOf A mc t maker] := by
  refine ⟨bounded_execute ht hfee, fun h hh => ?_, ?_⟩
  · rw [mem_singleton.1 hh]
    exact (executes_maker A t.taker mc.marketInfo hm hfee).bounded
  · simpa [hitOf, held_execute_taker] using held_execute r ht hm hfee hside hmarket

end

theorem HitsBalance.cons {hits : List Hit} {h : Hit} {t₁ : Taking} (h1 : HitsBalance r t t₁ [h])
    (h2 : HitsBalance r t₁ t' hits) (hmarket : t₁.taker.marketId = t.taker.marketId) :
    HitsBalance r t t' (h :: hits) := by
  refine ⟨h2.taker, fun x hx => ?_, ?_⟩
  · rcases mem_cons.1 hx with rfl | hx
    · exact h1.changed x mem_cons_self
    · exact h2.changed x hx
  · have b1 := h1.balance
    have b2 := h2.balance
    rw [hmarket] at b2
    simp only [map_cons, map_nil, sum_cons, sum_nil] at b1 ⊢
    omega

theorem TakeRun.hits_balance (r : LockWeight) (h : TakeRun A mc t makers t')
    (halive : ∀ m ∈ makers, filterTimeout mc.db m = none) (hfee : mc.db.heightPoint.isDexFeeUpgrade = true)
    (ht : t.taker.Bounded)
    (hmakers : ∀ m ∈ makers, m.Bounded ∧ m.side = (!t.taker.side) ∧ m.marketId = t.taker.marketId) :
    ∃ hits, PassHits t makers t' hits ∧ HitsBalance r t t' hits := by
  have hnil : ∀ t : Taking, t.taker.Bounded → HitsBalance r t t [] := fun t ht => ⟨ht, by simp, by simp⟩
  induction h with
  | exhausted t => exact ⟨[], passHits_nil (by simp), hnil t ht⟩
  | @unmatched t maker makers _ hmatch => exact ⟨[], passHits_nil (by simpa using hmatch), hnil t ht⟩
  | postOnly makers _ hmatch htype =>
    exact ⟨[], passHits_postOnly, ⟨ht.quantity, ht.amount, ht.fee⟩, by simp, rfl⟩
  | expired hexpired => simp [halive _ mem_cons_self] at hexpired
  | last makers _ hmatch htype hdone =>
    obtain ⟨hm, hside, hmarket⟩ := hmakers _ mem_cons_self
    exact ⟨_, passHits_last hmatch htype hdone, hitsBalance_single r ht hm hfee hside hmarket⟩
  | @next t t' maker makers _ hmatch htype hdone _ ih =>
    have hof := takerOf_execute A mc t maker
    have hmid : (t.execute A mc maker).taker.marketId = t.taker.marketId := congrArg marketIdOf hof.id
    obtain ⟨hm, hside, hmarket⟩ := hmakers _ mem_cons_self
    obtain ⟨hits, hhits, hbal⟩ := ih (fun m hm => halive m (mem_cons_of_mem _ hm)) (bounded_execute ht hfee)
      fun m hm => by
        rw [hof.side, hmid]
        exact hmakers m (mem_cons_of_mem _ hm)
    exact ⟨_, passHits_next hmatch htype hdone hhits, (hitsBalance_single r ht hm hfee hside hmarket).cons hbal hmid⟩

end Pass

variable {o taker : Order}

section Stored
variable {mc : Matcher} {hits : List Hit} {t' : Taking} {r : LockWeight}

/-- Of a changed maker, what is not stored is released. -/
theorem held_stays_or_refunded (r : LockWeight) (h : o.Bounded) :
    (if o.finished then 0 else held r o) + (lockSettle (r o.marketId)).ofRefund o = held r o := by
  unfold ofRefund
  split_ifs
  · rw [calculateRefund_eq h, zero_add]
    rfl
  · rfl

theorem handleModifiedMaker_held (mc : Matcher) (o : Order) :
    storedHeld r (mc.handleModifiedMaker o).db + ((mc.db.orders.get? o.id).map fun body => held r (body.render o.id)).getD 0
      = storedHeld r mc.db + if o.finished then 0 else held r o := by
  unfold storedHeld
  rw [mc.handleModifiedMaker_orders]
  split_ifs
  · rw [add_zero, mc.db.orders.sum_erase o.id]
  · exact mc.db.orders.sum_set o.id o.toOrderBody _

theorem handleModifiedMakers_held (mc : Matcher) (hits : List Hit) (hnd : (hits.map fun h => h.maker.id).Nodup)
    (hids : ∀ h ∈ hits, h.changed.id = h.maker.id) (hstored : ∀ h ∈ hits, Stored mc.db h.maker) :
    storedHeld r (mc.handleModifiedMakers (hits.map Hit.changed)).db + (hits.map fun h => held r h.maker).sum
      = storedHeld r mc.db + (hits.map fun h => if h.changed.finished then 0 else held r h.changed).sum := by
  induction hits generalizing mc with
  | nil => rfl
  | cons x hits ih =>
    obtain ⟨hnot, hnd'⟩ := nodup_cons.1 hnd
    have hx := hstored x mem_cons_self
    have hid := hids x mem_cons_self
    have hstep := handleModifiedMaker_held (r := r) mc x.changed
    rw [hid, hx] at hstep
    have hrest := ih (mc.handleModifiedMaker x.changed) hnd' (fun h hh => hids h (mem_cons_of_mem _ hh)) ?_
    · change storedHeld r ((mc.handleModifiedMaker x.changed).handleModifiedMakers (hits.map Hit.changed)).db + _ = _
      simp only [map_cons, sum_cons, Option.map_some, Option.getD_some] at hstep ⊢
      have hmaker : held r (x.maker.toOrderBody.render x.maker.id) = held r x.maker := rfl
      omega
    · intro h hh
      have hne : h.maker.id ≠ x.changed.id := fun heq =>
        hnot (mem_map.2 ⟨h, hh, heq.trans hid⟩)
      unfold Stored
      rw [mc.handleModifiedMaker_orders]
      split_ifs
      · rw [get?_erase_ne _ hne]
        exact hstored h (mem_cons_of_mem _ hh)
      · rw [get?_set_ne _ _ hne]
        exact hstored h (mem_cons_of_mem _ hh)

/-- A taker that stays adds what it holds, and one that leaves is refunded. -/
theorem closeOrSaveTaker_held (mc : Matcher) (r : LockWeight) (hclosed : (closedTaker o).Bounded)
    (hst : o.resting ∨ o.finished) (hnew : mc.db.orders.get? o.id = none) :
    storedHeld r (mc.closeOrSaveTaker o).1.db + (lockSettle (r o.marketId)).ofRefund (closedTaker o)
      = storedHeld r mc.db + held r (closedTaker o) := by
  have hmarket : (closedTaker o).marketId = o.marketId := congrArg marketIdOf (closedTaker_id o)
  have hrefund := held_stays_or_refunded r hclosed
  rw [hmarket] at hrefund
  rw [← hrefund, ← add_assoc]
  congr 1
  unfold storedHeld
  rw [mc.closeOrSaveTaker_orders]
  split_ifs with hr hf hf
  · exact absurd hf (resting_not_finished hr)
  · have hset := mc.db.orders.sum_set (closedTaker o).id (closedTaker o).toOrderBody fun id body => held r (body.render id)
    rw [← closedTaker_id o] at hnew
    rw [hnew] at hset
    exact hset
  · rfl
  · exact absurd ((closedTaker_resting_or_finished hst).resolve_left hr) hf

theorem resetExecuted_fresh_lock (o : Order) (reason : CancelReason) :
    (resetExecuted o reason).Bounded ∧ (resetExecuted o reason).reserved = o.wholeLock := by
  have hb : (resetExecuted o reason).Bounded := ⟨Nat.zero_le _, fun _ => Nat.zero_le _, fun _ => Nat.zero_le _⟩
  refine ⟨hb, ?_⟩
  rw [← calculateRefund_eq hb, calculateRefund_resetExecuted]

theorem closedTaker_bounded (h : o.Bounded) : (closedTaker o).Bounded := by
  rcases closedTaker_eq o with ⟨heq, -⟩ | ⟨heq, -⟩
  · rw [heq]
    exact ⟨h.quantity, h.amount, h.fee⟩
  · rw [heq]
    exact (resetExecuted_fresh_lock o _).1

/-- A taker that is not killed holds what the pass left it. -/
theorem held_closedTaker (hk : ¬(closedTaker o).killed) : held r (closedTaker o) = held r o := by
  rcases closedTaker_eq o with ⟨heq, -⟩ | ⟨-, hkilled⟩
  · rw [heq]
    rfl
  · exact absurd hkilled hk

theorem held_closedTaker_killed (hk : (closedTaker o).killed) (hpass : ¬o.killed) :
    held r (closedTaker o) = r o.marketId o.address o.side * o.wholeLock := by
  rcases closedTaker_eq o with ⟨-, hkilled⟩ | ⟨heq, -⟩
  · exact absurd (hkilled hk) hpass
  · rw [heq, held, (resetExecuted_fresh_lock o _).2]
    rfl

theorem Order.Fresh.held (h : o.Fresh) : held r o = r o.marketId o.address o.side * o.wholeLock := by
  unfold GoVite.Dex.held
  rw [h.reserved]

theorem hits_stay_or_refunded (r : LockWeight) {M : ℕ} (hb : ∀ h ∈ hits, h.changed.Bounded)
    (hmarket : ∀ h ∈ hits, h.changed.marketId = M) :
    (hits.map fun h => if h.changed.finished then 0 else held r h.changed).sum
      + ((hits.map Hit.changed).map (lockSettle (r M)).ofRefund).sum = (hits.map fun h => held r h.changed).sum := by
  rw [map_map, ← sum_map_add]
  refine congrArg List.sum (map_congr_left fun h hh => ?_)
  have hstep := held_stays_or_refunded r (hb h hh)
  rw [hmarket h hh] at hstep
  exact hstep

/-- What a taker brought and the book held is what the book holds afterwards and what is settled. -/
theorem handleTaking_held (r : LockWeight) (hfresh : taker.Fresh)
    (hbook : inBook taker.id mc.marketInfo.marketId taker.side) (hnew : mc.db.orders.get? taker.id = none)
    (h : PassHits { taker := taker } (mc.makersFor taker) t' hits) (hbal : HitsBalance r { taker := taker } t' hits)
    (hof : TakerOf taker t'.taker) (hpass : ¬t'.taker.killed) (hst : t'.taker.resting ∨ t'.taker.finished) :
    storedHeld r (mc.handleTaking t').1.db + (lockSettle (r taker.marketId)).total (mc.handleTaking t').1.fundSettles
      = storedHeld r mc.db + held r taker + (lockSettle (r taker.marketId)).total mc.fundSettles := by
  have hmarket : t'.taker.marketId = taker.marketId := congrArg marketIdOf hof.id
  have hclose := closeOrSaveTaker_held mc r (closedTaker_bounded hbal.taker) hst (by rw [hof.id]; exact hnew)
  rw [hmarket] at hclose
  have htotal := mc.total_handleTaking t' (lockSettle (r taker.marketId))
  by_cases hk : (closedTaker t'.taker).killed
  · have hdb : storedHeld r (mc.handleTaking t').1.db = storedHeld r (mc.closeOrSaveTaker t'.taker).1.db := by
      rw [handleTaking_eq, if_pos hk]
      rfl
    rw [held_closedTaker_killed hk hpass, hmarket, hof.address, hof.side, hof.wholeLock, ← hfresh.held] at hclose
    rw [if_pos hk] at htotal
    omega
  · have hchanged : t'.modifiedMakers = hits.map Hit.changed := by simpa using h.changed
    have htxs : t'.txs = hits.map Hit.tx := by simpa using h.txs
    have hdb : storedHeld r (mc.handleTaking t').1.db
        = storedHeld r ((mc.handleTakerRes t'.taker).1.handleModifiedMakers (hits.map Hit.changed)).db := by
      rw [handleTaking_eq, if_neg hk, hchanged]
      unfold storedHeld
      rw [handleTxs_db]
    have hmarkets : ∀ x ∈ hits, x.changed.marketId = taker.marketId := by
      intro x hx
      have hmaker := inBook_marketId (mem_getMakerBook.1 (h.maker_mem hx)).2
      exact (congrArg marketIdOf (h.valid x hx).id).trans (hmaker.trans (inBook_marketId hbook).symm)
    have hnd : (hits.map fun x => x.maker.id).Nodup := by
      have hnd := h.changed_nodup
      rw [h.changed_ids, map_map] at hnd
      exact hnd
    have hmakers := handleModifiedMakers_held (r := r) (mc.handleTakerRes t'.taker).1 hits hnd
      (fun x hx => (h.valid x hx).id) fun x hx => ?_
    · have hstays := hits_stay_or_refunded r hbal.changed hmarkets
      have hsame : storedHeld r (mc.handleTakerRes t'.taker).1.db = storedHeld r (mc.closeOrSaveTaker t'.taker).1.db := rfl
      have htx : (t'.txs.map (lockSettle (r taker.marketId)).ofTx).sum
          = (hits.map fun x => (lockSettle (r taker.marketId)).ofTx x.tx).sum := by
        rw [htxs, map_map]
        rfl
      have hbalance := hbal.balance
      dsimp only at hbalance
      rw [held_closedTaker hk] at hclose
      rw [if_neg hk, hchanged] at htotal
      omega
    · -- the taker is stored under an id of its own
      have hx := h.maker_stored hx
      have hne : x.maker.id ≠ (closedTaker t'.taker).id := by
        intro heq
        rw [closedTaker_id, hof.id] at heq
        unfold Stored at hx
        rw [heq, hnew] at hx
        cases hx
      change (mc.closeOrSaveTaker t'.taker).1.db.orders.get? x.maker.id = _
      rw [mc.closeOrSaveTaker_orders]
      split_ifs
      · rw [get?_set_ne _ _ hne]
        exact hx
      · exact hx

end Stored

section Match
variable {A : Arith} {mc : Matcher}

/-- What the matcher promises about the locks of a new taker, for every weight. -/
structure KeepsLocks (mc : Matcher) (taker : Order) (mc' : Matcher) : Prop where
  bounded : ∀ o, Stored mc'.db o → o.Bounded
  known : ∀ o, Stored mc'.db o → o.id = taker.id ∨ ∃ o₀, Stored mc.db o₀ ∧ o₀.id = o.id
  balance : ∀ r : LockWeight, storedHeld r mc'.db + (lockSettle (r taker.marketId)).total mc'.fundSettles
    = storedHeld r mc.db + held r taker + (lockSettle (r taker.marketId)).total mc.fundSettles

theorem matchOrder_keepsLocks (A : Arith) (hv : mc.db.heightPoint.isVersion12Upgrade = true) (hfresh : taker.Fresh)
    (hbook : inBook taker.id mc.marketInfo.marketId taker.side) (hnew : mc.db.orders.get? taker.id = none)
    (hbounded : ∀ o, Stored mc.db o → o.Bounded) (preHash : Byte) :
    KeepsLocks mc taker (mc.matchOrder A taker preHash).1 := by
  have hrun := mc.pass_run A hfresh.not_finished (mc.makersFor taker)
  have hpass := hrun.not_killed (by simp [Order.killed, hfresh.cancelReason])
  have hst := hrun.resting_or_finished (Or.inl (Or.inr hfresh.status))
  have hof : TakerOf taker _ := hrun.takerOf
  have h11 : mc.db.heightPoint.isVersion11Upgrade = true := HeightPoint.isVersion11_of_v12 hv
  have hmakers : ∀ m ∈ mc.makersFor taker, m.Bounded ∧ m.side = (!taker.side) ∧ m.marketId = taker.marketId := by
    intro m hm
    obtain ⟨hstored, hin⟩ := mem_getMakerBook.1 hm
    exact ⟨hbounded m hstored, inBook_side hin, (inBook_marketId hin).trans (inBook_marketId hbook).symm⟩
  have hhits : ∀ r : LockWeight, ∃ hits, PassHits { taker := taker } (mc.makersFor taker) _ hits
      ∧ HitsBalance r { taker := taker } _ hits := fun r =>
    hrun.hits_balance r (fun m _ => filterTimeout_none h11 m) (HeightPoint.isDexFee_of_v12 hv) hfresh.bounded hmakers
  rw [mc.matchOrder_eq]
  have hstored : ∀ o, Stored _ o → o.Bounded ∧ (o.id = taker.id ∨ ∃ o₀, Stored mc.db o₀ ∧ o₀.id = o.id) := fun o ho => by
    obtain ⟨hits, h, hbal⟩ := hhits fun _ _ _ => 0
    rcases h.stored hpass hof ho with ho | ⟨x, hx, rfl, -⟩ | ⟨rfl, -⟩
    · exact ⟨hbounded o ho, Or.inr ⟨o, ho, rfl⟩⟩
    · exact ⟨hbal.changed x hx, Or.inr ⟨x.maker, h.maker_stored hx, (h.valid x hx).id.symm⟩⟩
    · exact ⟨hbal.taker, Or.inl hof.id⟩
  constructor
  case bounded =>
    intro o ho
    simp only [Stored, tryUpdateTimestamp_kept] at ho
    exact (hstored o ho).1
  case known =>
    intro o ho
    simp only [Stored, tryUpdateTimestamp_kept] at ho
    exact (hstored o ho).2
  case balance =>
    intro r
    obtain ⟨hits, h, hbal⟩ := hhits r
    have hheld := handleTaking_held r hfresh hbook hnew h hbal hof hpass hst
    unfold storedHeld at hheld ⊢
    simpa using hheld

theorem cancelOrderById_keepsLocks (ho : Stored mc.db o) (hbounded : ∀ o, Stored mc.db o → o.Bounded) :
    (∀ x, Stored (mc.cancelOrderById o).db x → Stored mc.db x)
    ∧ ∀ r : LockWeight, storedHeld r (mc.cancelOrderById o).db
        + (lockSettle (r o.marketId)).total (mc.cancelOrderById o).fundSettles
      = storedHeld r mc.db + (lockSettle (r o.marketId)).total mc.fundSettles := by
  refine ⟨fun x hx => ?_, fun r => ?_⟩
  · unfold Stored at hx ⊢
    rw [mc.cancelOrderById_orders] at hx
    exact (get?_erase_cases hx).2
  · have herase := mc.db.orders.sum_erase o.id fun id body => held r (body.render id)
    rw [ho] at herase
    rw [mc.total_cancelOrderById, calculateRefund_eq (hbounded o ho)]
    unfold storedHeld
    rw [mc.cancelOrderById_orders, herase]
    change _ + (_ + held r o) = _ + held r o + _
    omega

end Match

end GoVite.Dex

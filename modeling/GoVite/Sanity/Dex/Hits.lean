import GoVite.Sanity.Dex.MatchOrder

/-! The makers one pass executes, when none has expired: an initial segment of the book, each once, and all but the last
used up. -/

namespace GoVite.Dex
open KeyStore List

/-- One transaction of a pass: the maker as stored, the transaction, and the maker afterwards. -/
structure Hit where
  maker : Order
  tx : OrderTx
  changed : Order

structure Hit.Valid (taker : Order) (h : Hit) : Prop where
  takerId : h.tx.takerId = taker.id
  makerId : h.tx.makerId = h.maker.id
  price : h.tx.price = h.maker.price
  matched : matchPrice taker h.maker = true
  notPostOnly : taker.type ≠ .postOnly
  id : h.changed.id = h.maker.id
  type : h.changed.type = h.maker.type
  status : h.changed.status = .fullyExecuted ∨ h.changed.status = .partialExecuted

/-- The pass from `t` to `t'` over `makers` made exactly these hits. -/
structure PassHits (t : Taking) (makers : List Order) (t' : Taking) (hits : List Hit) : Prop where
  makers_eq : hits.map Hit.maker = makers.take hits.length
  txs : t'.txs = t.txs ++ hits.map Hit.tx
  changed : t'.modifiedMakers = t.modifiedMakers ++ hits.map Hit.changed
  valid : ∀ h ∈ hits, h.Valid t.taker
  count : t.txs.length < maxTxsCountPerTaker → t'.txs.length ≤ maxTxsCountPerTaker
  filled : t.taker.type ≠ .market → ∀ h ∈ hits.dropLast, h.changed.status = .fullyExecuted
  resting : t.taker.type ≠ .market → t'.taker.resting → (∀ h ∈ hits, h.changed.status = .fullyExecuted)
    ∧ ∀ m ∈ (makers.drop hits.length).head?, matchPrice t.taker m = false

section Pass
variable {A : Arith} {mc : Matcher} {t t' : Taking} {maker : Order} {makers : List Order}

def hitOf (A : Arith) (mc : Matcher) (t : Taking) (maker : Order) : Hit :=
  { maker := maker
    tx := (calculateOrderAndTx A t.taker maker mc.marketInfo mc.db.heightPoint).tx
    changed := (calculateOrderAndTx A t.taker maker mc.marketInfo mc.db.heightPoint).maker }

section
variable (hmatch : matchPrice t.taker maker = true) (htype : t.taker.type ≠ .postOnly)
include hmatch htype

theorem hitOf_valid : (hitOf A mc t maker).Valid t.taker := by
  unfold hitOf
  rw [calculateOrderAndTx_eq]
  refine ⟨rfl, rfl, rfl, hmatch, htype, ?_, ?_, updateOrder_status_cases _ _ _ _ _ _ _ _⟩
  · dsimp only [executeOrders]
    rw [updateOrder_eq]
  · dsimp only [executeOrders]
    rw [updateOrder_eq]

omit hmatch htype in
theorem Hit.Valid.of_takerOf {o o' : Order} (hof : TakerOf o o') {h : Hit} (hv : h.Valid o') : h.Valid o :=
  ⟨hv.takerId.trans hof.id, hv.makerId, hv.price, by rw [← hof.matchPrice]; exact hv.matched,
    by rw [← hof.type]; exact hv.notPostOnly, hv.id, hv.type, hv.status⟩

omit hmatch htype in
theorem passHits_nil (hnext : ∀ m ∈ makers.head?, matchPrice t.taker m = false) : PassHits t makers t [] :=
  ⟨rfl, by simp, by simp, by simp, fun h => h.le, by simp, fun _ _ => ⟨by simp, hnext⟩⟩

omit hmatch htype in
theorem passHits_postOnly : PassHits t makers t.cancelPostOnly [] := by
  refine ⟨rfl, by simp [Taking.cancelPostOnly], by simp [Taking.cancelPostOnly], by simp, fun h => h.le, by simp,
    fun _ hr => ?_⟩
  simp [Taking.cancelPostOnly, Order.resting] at hr

theorem passHits_last (hdone : (t.execute A mc maker).done = true) :
    PassHits t (maker :: makers) (t.execute A mc maker) [hitOf A mc t maker] := by
  refine ⟨rfl, rfl, rfl, ?_, fun h => ?_, by simp, fun _ hrest => ?_⟩
  · intro h hh
    rw [mem_singleton.1 hh]
    exact hitOf_valid hmatch htype
  · rw [execute_txs_length]
    exact h
  · exact absurd (of_decide_eq_true hdone) (Matcher.resting_not_finished hrest)

theorem passHits_next {hits : List Hit}
    (hdone : (t.execute A mc maker).done = false) (hrest : PassHits (t.execute A mc maker) makers t' hits) :
    PassHits t (maker :: makers) t' (hitOf A mc t maker :: hits) := by
  obtain ⟨hst, hlt, -⟩ := execute_survives hdone
  have hof := takerOf_execute A mc t maker
  -- the taker goes on, so it has used up this maker
  have hfull : t.taker.type ≠ .market → (hitOf A mc t maker).changed.status = .fullyExecuted := fun hm =>
    maker_filled_of_taker_partial hm (by rw [hst]; decide)
  have htype' : t.taker.type ≠ .market → (t.execute A mc maker).taker.type ≠ .market := fun hm => by
    rw [hof.type]
    exact hm
  refine ⟨?_, ?_, ?_, ?_, fun _ => hrest.count ?_, fun hm => ?_, fun hm hr => ?_⟩
  · simp [hrest.makers_eq, hitOf]
  · rw [hrest.txs]
    simp [Taking.execute, hitOf]
  · rw [hrest.changed]
    simp [Taking.execute, hitOf]
  · intro h hh
    rcases mem_cons.1 hh with rfl | hh
    · exact hitOf_valid hmatch htype
    · exact (hrest.valid h hh).of_takerOf hof
  · rw [execute_txs_length]
    exact hlt
  · intro h hh
    cases hits with
    | nil => simp at hh
    | cons x hits =>
      rcases mem_cons.1 hh with rfl | hh
      · exact hfull hm
      · exact hrest.filled (htype' hm) h hh
  · obtain ⟨hall, hnext⟩ := hrest.resting (htype' hm) hr
    refine ⟨fun h hh => ?_, fun m hmem => ?_⟩
    · rcases mem_cons.1 hh with rfl | hh
      · exact hfull hm
      · exact hall h hh
    · rw [← hof.matchPrice]
      exact hnext m hmem

end

theorem TakeRun.hits (h : TakeRun A mc t makers t') (halive : ∀ m ∈ makers, filterTimeout mc.db m = none) :
    ∃ hits, PassHits t makers t' hits := by
  induction h with
  | exhausted t => exact ⟨[], passHits_nil (by simp)⟩
  | unmatched makers _ hmatch => exact ⟨[], passHits_nil (by simpa using hmatch)⟩
  | postOnly => exact ⟨[], passHits_postOnly⟩
  | expired hexpired => simp [halive _ mem_cons_self] at hexpired
  | last makers _ hmatch htype hdone => exact ⟨_, passHits_last hmatch htype hdone⟩
  | next _ hmatch htype hdone _ ih =>
    obtain ⟨hits, hhits⟩ := ih fun m hm => halive m (mem_cons_of_mem _ hm)
    exact ⟨_, passHits_next hmatch htype hdone hhits⟩

end Pass

theorem pass_hits (A : Arith) {mc : Matcher} {taker : Order} (hv : mc.db.heightPoint.isVersion12Upgrade = true)
    (hlive : ¬taker.finished) :
    ∃ hits, PassHits { taker := taker } (mc.makersFor taker) (mc.pass A taker (mc.makersFor taker)) hits := by
  have h11 := HeightPoint.isVersion11_of_v12 hv
  exact (mc.pass_run A hlive _).hits fun m _ => filterTimeout_none h11 m

section Book
variable {t' : Taking} {mc : Matcher} {taker : Order} {hits : List Hit}
  (h : PassHits { taker := taker } (mc.makersFor taker) t' hits)
include h

theorem PassHits.maker_mem {x : Hit} (hx : x ∈ hits) : x.maker ∈ mc.makersFor taker := by
  refine mem_of_mem_take (i := hits.length) ?_
  rw [← h.makers_eq]
  exact mem_map.2 ⟨x, hx, rfl⟩

theorem PassHits.changed_ids : t'.modifiedMakers.map Order.id = (hits.map Hit.maker).map Order.id := by
  rw [h.changed, map_append, map_map, map_map]
  exact map_congr_left fun x hx => (h.valid x hx).id

theorem PassHits.changed_nodup : (t'.modifiedMakers.map Order.id).Nodup := by
  rw [h.changed_ids, h.makers_eq, map_take]
  exact (getMakerBook_nodup mc.db mc.marketInfo.marketId (!taker.side)).sublist (take_sublist _ _)

theorem PassHits.maker_stored {x : Hit} (hx : x ∈ hits) : Stored mc.db x.maker :=
  (mem_getMakerBook.1 (h.maker_mem hx)).1

/-- An order stored after the pass was stored before, or is a changed maker, or is the taker, if it stays. -/
theorem PassHits.stored (hpass : ¬t'.taker.killed) (hof : TakerOf taker t'.taker) {o : Order}
    (ho : Stored (mc.handleTaking t').1.db o) :
    Stored mc.db o ∨ (∃ x ∈ hits, x.changed = o ∧ ¬x.changed.finished)
    ∨ o = t'.taker ∧ t'.taker.resting ∧ ¬(closedTaker t'.taker).killed
      ∧ (taker.type = .limited ∨ taker.type = .postOnly) := by
  unfold Stored at ho
  by_cases hk : (closedTaker t'.taker).killed
  · rw [mc.handleTaking_orders_killed hk hpass] at ho
    exact Or.inl ho
  by_cases hid : o.id ∈ t'.modifiedMakers.map Order.id
  · obtain ⟨c, hc, hcid⟩ := mem_map.1 hid
    rw [← hcid, mc.handleTaking_get?_changed hk h.changed_nodup hc] at ho
    rw [h.changed] at hc
    obtain ⟨x, hx, rfl⟩ := mem_map.1 (by simpa using hc)
    split_ifs at ho with hfin
    exact Or.inr (Or.inl ⟨x, hx, Order.eq_of_body (Option.some.inj ho) hcid, hfin⟩)
  · rw [mc.handleTaking_get?_other hk h.changed_nodup hid] at ho
    split_ifs at ho with hnew
    · obtain ⟨hclosed, htype⟩ := closedTaker_resting hnew.1
      have hrest := hnew.1
      rw [hclosed] at ho hrest
      rw [hof.type] at htype
      exact Or.inr (Or.inr ⟨Order.eq_of_body (Option.some.inj ho).symm hnew.2, hrest, hk, htype⟩)
    · exact Or.inl ho

end Book

end GoVite.Dex

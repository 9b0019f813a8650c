import GoVite.Proofs.Dex.TradeConservation
import GoVite.Sanity.Dex.Hits

/-! Price-time priority. The book is iterated in the byte order of the ids, and a pass takes an
initial segment of it. -/

namespace GoVite.Dex
open ByteString KeyStore List

/-- `a` is to be executed before `b`: it has the better price, or the same price and came earlier. -/
def Priority (side : Bool) (a b : Order) : Prop :=
  BetterPrice side a.price b.price ∨ a.price = b.price ∧ EarlierId a.id b.id

/-- A price no worse than the taker's limit. -/
def WithinLimit (taker : Order) (price : Price) : Prop :=
  if taker.side then taker.price ≤ price else price ≤ taker.price

instance (taker : Order) (price : Price) : Decidable (WithinLimit taker price) :=
  inferInstanceAs (Decidable (if taker.side then taker.price ≤ price else price ≤ taker.price))

theorem matchPrice_iff_withinLimit {taker : Order} (htype : taker.type ≠ .market) (maker : Order) :
    matchPrice taker maker = true ↔ WithinLimit taker maker.price := by
  unfold matchPrice WithinLimit
  by_cases heq : taker.price = maker.price
  · simp [heq]
  · cases hs : taker.side <;> simp [htype, heq]

theorem makersFor_priority (mc : Matcher) (taker : Order) : (mc.makersFor taker).Pairwise (Priority (!taker.side)) := by
  refine (getMakerBook_sorted mc.db mc.marketInfo.marketId (!taker.side)).imp_of_mem fun ha hb hlt => ?_
  exact (id_lt_iff (mem_getMakerBook.1 ha).2 (mem_getMakerBook.1 hb).2).1 hlt

section Hits
variable {t' : Taking} {mc : Matcher} {taker : Order} {hits : List Hit}
  (h : PassHits { taker := taker } (mc.makersFor taker) t' hits)
include h

theorem PassHits.prefix_makerIds : (hits.map Hit.tx).map OrderTx.makerId <+: (mc.makersFor taker).map Order.id := by
  have hids : (hits.map Hit.tx).map OrderTx.makerId = (hits.map Hit.maker).map Order.id := by
    rw [map_map, map_map]
    exact map_congr_left fun x hx => (h.valid x hx).makerId
  rw [hids, h.makers_eq, map_take]
  exact take_prefix _ _

theorem PassHits.tx_valid (htype : taker.type ≠ .market) : ∀ tx ∈ hits.map Hit.tx, ∃ m ∈ mc.makersFor taker,
    tx.makerId = m.id ∧ tx.price = m.price ∧ WithinLimit taker tx.price := by
  intro tx htx
  obtain ⟨x, hx, rfl⟩ := mem_map.1 htx
  have hvalid := h.valid x hx
  refine ⟨x.maker, h.maker_mem hx, hvalid.makerId, hvalid.price, ?_⟩
  rw [hvalid.price]
  exact (matchPrice_iff_withinLimit htype x.maker).1 hvalid.matched

/-- The makers before the last are the hits before the last. -/
theorem PassHits.mem_dropLast {m : Order} (hm : m ∈ (mc.makersFor taker).take (hits.length - 1)) :
    ∃ x ∈ hits.dropLast, x.maker = m := by
  have hdrop : hits.dropLast.map Hit.maker = (mc.makersFor taker).take (hits.length - 1) := by
    rw [dropLast_eq_take, map_take, h.makers_eq, take_take, min_eq_left (Nat.sub_le _ _)]
  rw [← hdrop] at hm
  exact mem_map.1 hm

end Hits

/-- A taker with a price takes the book from its top: an initial segment in the order of price and time,
each maker once and at its own price, all but the last used up and deleted. -/
theorem price_time_priority (A : Arith) (mc : Matcher) (hv : mc.db.heightPoint.isVersion12Upgrade = true)
    (taker : Order) (hlive : ¬taker.finished) (htype : taker.type ≠ .market) (preHash : Byte) :
    let book := mc.makersFor taker
    let r := mc.matchOrder A taker preHash
    (∀ o, o ∈ book ↔ mc.db.orders.get? o.id = some o.toOrderBody ∧ inBook o.id mc.marketInfo.marketId (!taker.side))
    ∧ book.Pairwise (Priority (!taker.side))
    ∧ ∃ txs, r.1.transactions = mc.transactions ++ txs ∧ txs.length ≤ maxTxsCountPerTaker
      ∧ txs.map OrderTx.makerId <+: book.map Order.id ∧ (txs.map OrderTx.makerId).Nodup
      ∧ (∀ tx ∈ txs, ∃ m ∈ book, tx.makerId = m.id ∧ tx.price = m.price ∧ WithinLimit taker tx.price)
      ∧ ∀ m ∈ book.take (txs.length - 1), r.1.db.orders.get? m.id = none ∧ ∃ info : OrderUpdateInfo,
        .orderUpdate info ∈ r.1.db.logs ∧ info.id = m.id ∧ info.status = .fullyExecuted := by
  refine ⟨fun o => mem_getMakerBook, makersFor_priority mc taker, ?_⟩
  obtain ⟨hits, h⟩ := pass_hits A hv hlive
  set t' := mc.pass A taker (mc.makersFor taker) with ht'
  have htxs : t'.txs = hits.map Hit.tx := by simpa using h.txs
  have hnodup := getMakerBook_nodup mc.db mc.marketInfo.marketId (!taker.side)
  have htransactions := mc.transactions_handleTaking t'
  rw [mc.matchOrder_eq]
  simp only [Matcher.tryUpdateTimestamp_kept]
  by_cases hk : (closedTaker t'.taker).killed
  · rw [if_pos hk] at htransactions
    exact ⟨[], htransactions, by simp, by simp, by simp, by simp, by simp⟩
  · rw [if_neg hk, htxs] at htransactions
    have hcount : t'.txs.length ≤ maxTxsCountPerTaker := h.count (by simp [maxTxsCountPerTaker])
    refine ⟨hits.map Hit.tx, htransactions, by rw [← htxs]; exact hcount, h.prefix_makerIds,
      hnodup.sublist h.prefix_makerIds.sublist, h.tx_valid htype, fun m hm => ?_⟩
    rw [length_map] at hm
    obtain ⟨x, hx, rfl⟩ := h.mem_dropLast hm
    have hmem := mem_of_mem_dropLast hx
    have hfull := h.filled htype x hx
    have hchanged : x.changed ∈ t'.modifiedMakers := by
      rw [h.changed]
      simpa using ⟨x, hmem, rfl⟩
    have hget := mc.handleTaking_get?_changed hk h.changed_nodup hchanged
    obtain ⟨info, hlog, hid, hst⟩ := mc.handleTaking_announced hk hchanged
    rw [(h.valid x hmem).id] at hget hid
    exact ⟨hget.trans (if_pos (Or.inl hfull)), info, hlog, hid, hst.trans hfull⟩

/-- A sell of half the size of the taker, and a later one. -/
def firstSell : Order := { sampleOrder true 0 with quantity := 10 ^ 20, amount := 10 ^ 20 }

def twoSells : Matcher where
  db := { sampleTrade with
    orders := (Store.empty.set firstSell.id firstSell.toOrderBody).set (sampleOrder true 1).id
      (sampleOrder true 1).toOrderBody }
  marketInfo := sampleMarket

/-- The first maker is used up before the second is hit. -/
theorem price_time_priority_twoSells :
    let r := (twoSells.matchOrder goArith (sampleOrder false 2) 0).1
    r.transactions.map OrderTx.makerId = [firstSell.id, (sampleOrder true 1).id]
    ∧ r.db.orders.get? firstSell.id = none ∧ ∃ info : OrderUpdateInfo,
      .orderUpdate info ∈ r.db.logs ∧ info.id = firstSell.id ∧ info.status = .fullyExecuted := by
  have hids : (twoSells.matchOrder goArith (sampleOrder false 2) 0).1.transactions.map OrderTx.makerId
      = [firstSell.id, (sampleOrder true 1).id] := by decide +kernel
  obtain ⟨-, -, txs, htxs, -, -, -, -, hused⟩ :=
    price_time_priority goArith twoSells (by decide) (sampleOrder false 2) (by decide) (by decide) 0
  have hlen : txs.length = 2 := by
    rw [← List.length_map OrderTx.makerId, ← nil_append txs]
    exact htxs ▸ congrArg List.length hids
  refine ⟨hids, hused firstSell ?_⟩
  rw [hlen]
  decide +kernel

end GoVite.Dex

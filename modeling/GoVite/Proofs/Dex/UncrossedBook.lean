import GoVite.Proofs.Dex.PriceTime

/-! The book is never crossed: a taker is stored only when every maker it matches has been used up. Whether two orders
cross depends on their ids alone. -/

namespace GoVite.Dex
open ByteString KeyStore List Order

variable (A : Arith)

/-- The storage after a list of takers, newest first, and cancellations of stored orders in between. -/
inductive BookRun : List Order → TradeDb → Prop
  | empty {db : TradeDb} (hv : db.heightPoint.isVersion12Upgrade = true) (horders : db.orders = .empty)
      (hlogs : db.logs = []) : BookRun [] db
  | taker {takers : List Order} {db : TradeDb} {marketId : ℕ} {mc : Matcher} {o : Order} (preHash : Byte)
      (hrun : BookRun takers db) (hmc : newMatcher db marketId = .ok mc)
      (hmarket : inBook o.id mc.marketInfo.marketId o.side) (hfresh : o.Fresh) (hid : o.id ∉ takers.map Order.id) :
      BookRun (o :: takers) (mc.matchOrder A o preHash).1.db
  | cancel {takers : List Order} {db : TradeDb} {marketId : ℕ} {mc : Matcher} {id : OrderId} {o : Order}
      (hrun : BookRun takers db) (hmc : newMatcher db marketId = .ok mc) (hget : getOrderById db id = .ok o) :
      BookRun takers (mc.cancelOrderById o).db

/-- What is kept along a run, for the orders that have been takers so far. -/
structure BookInv (takers : List Order) (db : TradeDb) : Prop where
  version : db.heightPoint.isVersion12Upgrade = true
  known : ∀ o, Stored db o → o.id ∈ takers.map Order.id
  side : ∀ o, Stored db o → ∃ marketId, inBook o.id marketId o.side
  type : ∀ o, Stored db o → o.type = .limited ∨ o.type = .postOnly
  status : ∀ o, Stored db o → o.status = .pending ∨ o.status = .partialExecuted
  uncrossed : ∀ b s, Stored db b → Stored db s → b.marketId = s.marketId → b.side = false → s.side = true →
    b.price < s.price
  distinct : (takers.map Order.id).Nodup
  takers : ∀ tx ∈ transactionsOf db.logs, ∃ o ∈ takers, tx.takerId = o.id ∧ o.type ≠ .postOnly

variable {A} {o o' : Order} {mc : Matcher}

theorem Order.side_of_id (h : o.id = o'.id) : o.side = o'.side := congrArg sideOf h

theorem Order.price_of_id (h : o.id = o'.id) : o.price = o'.price := congrArg priceOf h

theorem Order.marketId_of_id (h : o.id = o'.id) : o.marketId = o'.marketId := congrArg marketIdOf h

section Worse
variable {taker a b : Order}

/-- A maker behind one that the taker does not match is not matched either. -/
theorem unmatched_of_priority (htype : taker.type ≠ .market) (ha : matchPrice taker a = false)
    (hab : Priority (!taker.side) a b) : matchPrice taker b = false := by
  rw [Bool.eq_false_iff, Ne, matchPrice_iff_withinLimit htype] at ha ⊢
  unfold WithinLimit at ha ⊢
  cases hs : taker.side with
  | false =>
    rw [hs] at ha hab
    simp only [Bool.false_eq_true, if_false, not_le] at ha hab ⊢
    rcases hab with hab | ⟨heq, -⟩
    · exact ha.trans hab
    · rw [← heq]
      exact ha
  | true =>
    rw [hs] at ha hab
    simp only [if_true, not_le] at ha hab ⊢
    rcases hab with hab | ⟨heq, -⟩
    · exact hab.trans ha
    · rw [← heq]
      exact ha

/-- An unmatched maker is strictly worse than the taker's limit. -/
theorem price_of_unmatched (htype : taker.type ≠ .market) (h : matchPrice taker a = false) :
    if taker.side then a.price < taker.price else taker.price < a.price := by
  rw [Bool.eq_false_iff, Ne, matchPrice_iff_withinLimit htype] at h
  unfold WithinLimit at h
  split_ifs with hs <;> simpa [hs] using h

end Worse

section Match
variable {taker : Order} {hits : List Hit} {t' : Taking}

section
variable (h : PassHits { taker := taker } (mc.makersFor taker) t' hits)
include h

/-- If the taker stays, every maker it matches is a hit, and all hits are used up. -/
theorem PassHits.unmatched_or_filled
    (htype : taker.type ≠ .market) (hrest : t'.taker.resting) {m : Order} (hm : m ∈ mc.makersFor taker) :
    matchPrice taker m = false ∨ ∃ x ∈ hits, x.maker = m ∧ x.changed.status = .fullyExecuted := by
  obtain ⟨hfull, hnext⟩ := h.resting htype hrest
  rw [← take_append_drop hits.length (mc.makersFor taker)] at hm
  rcases mem_append.1 hm with hm | hm
  · rw [← h.makers_eq] at hm
    obtain ⟨x, hx, rfl⟩ := mem_map.1 hm
    exact Or.inr ⟨x, hx, rfl, hfull x hx⟩
  · left
    have hsorted := (makersFor_priority mc taker).sublist (drop_sublist hits.length _)
    cases hdrop : (mc.makersFor taker).drop hits.length with
    | nil =>
      rw [hdrop] at hm
      cases hm
    | cons first rest =>
      rw [hdrop] at hm hnext hsorted
      have hfirst := hnext first rfl
      rcases mem_cons.1 hm with rfl | hm
      · exact hfirst
      · exact unmatched_of_priority htype hfirst ((pairwise_cons.1 hsorted).1 m hm)

/-- An order stored after a taker was stored before, or is the taker itself and stays. -/
theorem matchOrder_stored
    (hpass : ¬t'.taker.killed) (hof : TakerOf taker t'.taker) (ho : Stored (mc.handleTaking t').1.db o) :
    (∃ o₀, Stored mc.db o₀ ∧ o₀.id = o.id ∧ o.type = o₀.type ∧ (o.status = o₀.status ∨ o.status = .partialExecuted))
    ∨ o = t'.taker ∧ t'.taker.resting ∧ ¬(closedTaker t'.taker).killed
      ∧ (taker.type = .limited ∨ taker.type = .postOnly) := by
  rcases h.stored hpass hof ho with ho | ⟨x, hx, rfl, hfin⟩ | hnew
  · exact Or.inl ⟨o, ho, rfl, rfl, Or.inl rfl⟩
  · have hvalid := h.valid x hx
    have hst : x.changed.status = .partialExecuted := hvalid.status.resolve_left fun hfull => hfin (Or.inl hfull)
    exact Or.inl ⟨x.maker, h.maker_stored hx, hvalid.id.symm, hvalid.type, Or.inr hst⟩
  · exact Or.inr hnew

/-- A stored order on the other side of a taker that stays is not matched by it. -/
theorem matchOrder_unmatched
    (hmarket : inBook taker.id mc.marketInfo.marketId taker.side) (htype : taker.type ≠ .market)
    (hrest : t'.taker.resting) (hk : ¬(closedTaker t'.taker).killed) {o₀ : Order}
    (ho : Stored (mc.handleTaking t').1.db o) (ho₀ : Stored mc.db o₀) (hid : o₀.id = o.id) {marketId : ℕ}
    (hbook : inBook o₀.id marketId o₀.side) (hsame : taker.marketId = o.marketId) (hside : o.side = !taker.side) :
    matchPrice taker o = false := by
  have hleft : o₀.id.left = taker.id.left := by
    rw [hid]
    exact (Bytes.val_injective hsame).symm
  have hmem : o₀ ∈ mc.makersFor taker := by
    refine mem_getMakerBook.2 ⟨ho₀, hleft.trans hmarket.1, ?_⟩
    rw [← hside, ← side_of_id hid]
    exact hbook.2
  have hmatch : matchPrice taker o₀ = matchPrice taker o := by
    unfold matchPrice
    rw [price_of_id hid]
  rw [← hmatch]
  refine (h.unmatched_or_filled htype hrest hmem).resolve_right ?_
  rintro ⟨x, hx, rfl, hfull⟩
  have hc : x.changed ∈ t'.modifiedMakers := by
    rw [h.changed]
    simpa using ⟨x, hx, rfl⟩
  have hget := mc.handleTaking_get?_changed hk h.changed_nodup hc
  rw [(h.valid x hx).id, hid, ho] at hget
  exact absurd (hget.trans (if_pos (Or.inl hfull))) (by simp)

end

end Match

section Steps
variable {takers : List Order} {db db' : TradeDb}

theorem BookInv.of_sub (hinv : BookInv takers db) (hv : db'.heightPoint = db.heightPoint)
    (hlogs : transactionsOf db'.logs = transactionsOf db.logs) (hsub : ∀ o, Stored db' o → Stored db o) :
    BookInv takers db' where
  version := by rw [hv]; exact hinv.version
  known := fun o ho => hinv.known o (hsub o ho)
  side := fun o ho => hinv.side o (hsub o ho)
  type := fun o ho => hinv.type o (hsub o ho)
  status := fun o ho => hinv.status o (hsub o ho)
  uncrossed := fun b s hb hs => hinv.uncrossed b s (hsub b hb) (hsub s hs)
  distinct := hinv.distinct
  takers := by rw [hlogs]; exact hinv.takers

theorem BookInv.cancel (hinv : BookInv takers mc.db) (o : Order) : BookInv takers (mc.cancelOrderById o).db := by
  refine hinv.of_sub (mc.cancelOrderById_frame o).2.1 (mc.transactions_cancelOrderById o) fun x hx => ?_
  unfold Stored at hx ⊢
  rw [mc.cancelOrderById_orders] at hx
  exact (Store.get?_erase_cases hx).2

variable {b s : Order}

/-- A taker cannot cross the book: two old orders did not cross before, and a taker that stays matches
nothing that is left on the other side. -/
theorem BookInv.uncrossed_taker {taker : Order} {hits : List Hit} {t' : Taking} (hinv : BookInv takers mc.db)
    (hmarket : inBook taker.id mc.marketInfo.marketId taker.side)
    (h : PassHits { taker := taker } (mc.makersFor taker) t' hits) (hpass : ¬t'.taker.killed) (hof : TakerOf taker t'.taker)
    (hb : Stored (mc.handleTaking t').1.db b) (hs : Stored (mc.handleTaking t').1.db s)
    (hsame : b.marketId = s.marketId) (hbs : b.side = false) (hss : s.side = true) : b.price < s.price := by
  have hpriced : (taker.type = .limited ∨ taker.type = .postOnly) → taker.type ≠ .market := by
    rintro (htype | htype) <;> simp [htype]
  rcases matchOrder_stored h hpass hof hb with ⟨b₀, hb₀, hidb, -, -⟩ | ⟨rfl, hrest, hk, htype⟩
  · rcases matchOrder_stored h hpass hof hs with ⟨s₀, hs₀, hids, -, -⟩ | ⟨rfl, hrest, hk, htype⟩
    · have h₀ := hinv.uncrossed b₀ s₀ hb₀ hs₀
      rw [marketId_of_id hidb, marketId_of_id hids, side_of_id hidb, side_of_id hids,
        price_of_id hidb, price_of_id hids] at h₀
      exact h₀ hsame hbs hss
    · -- the taker is the seller
      have hts : taker.side = true := hof.side.symm.trans hss
      obtain ⟨M, hbook⟩ := hinv.side b₀ hb₀
      have hun := matchOrder_unmatched h hmarket (hpriced htype) hrest hk hb hb₀ hidb hbook
        ((marketId_of_id hof.id).symm.trans hsame.symm) (by rw [hbs, hts]; rfl)
      rw [hof.price]
      simpa [hts] using price_of_unmatched (hpriced htype) hun
  · -- the taker is the buyer
    have htb : taker.side = false := hof.side.symm.trans hbs
    rcases matchOrder_stored h hpass hof hs with ⟨s₀, hs₀, hids, -, -⟩ | ⟨rfl, -⟩
    · obtain ⟨M, hbook⟩ := hinv.side s₀ hs₀
      have hun := matchOrder_unmatched h hmarket (hpriced htype) hrest hk hs hs₀ hids hbook
        ((marketId_of_id hof.id).symm.trans hsame) (by rw [hss, htb]; rfl)
      rw [hof.price]
      simpa [htb] using price_of_unmatched (hpriced htype) hun
    · rw [hbs] at hss
      cases hss

theorem BookInv.taker {taker : Order} (hinv : BookInv takers mc.db) (preHash : Byte)
    (hmarket : inBook taker.id mc.marketInfo.marketId taker.side) (hfresh : taker.Fresh)
    (hid : taker.id ∉ takers.map Order.id) : BookInv (taker :: takers) (mc.matchOrder A taker preHash).1.db := by
  obtain ⟨hits, h⟩ := pass_hits A hinv.version hfresh.not_finished
  have hrun := mc.pass_run A hfresh.not_finished (mc.makersFor taker)
  have hpass := hrun.not_killed (by simp [Order.killed, hfresh.cancelReason])
  have hof : TakerOf taker _ := hrun.takerOf
  have heq := mc.matchOrder_eq A taker preHash
  generalize mc.pass A taker (mc.makersFor taker) = t' at h hpass hof heq
  have hstored : ∀ {o}, Stored (mc.matchOrder A taker preHash).1.db o → Stored (mc.handleTaking t').1.db o := by
    intro o ho
    unfold Stored at ho ⊢
    rw [heq] at ho
    simpa using ho
  have htrans : transactionsOf (mc.matchOrder A taker preHash).1.db.logs = transactionsOf mc.db.logs
      ++ if (closedTaker t'.taker).killed then [] else t'.txs := by
    rw [heq]
    exact (Matcher.tryUpdateTimestamp_kept ..).2.2.2.2.trans (mc.transactions_handleTaking _)
  have hold : ∀ {o}, Stored (mc.matchOrder A taker preHash).1.db o → _ := fun {o} ho =>
    matchOrder_stored h hpass hof (hstored ho)
  constructor
  case version =>
    rw [(mc.matchOrder_frame A taker preHash).2.1]
    exact hinv.version
  case known =>
    intro o ho
    rcases hold ho with ⟨o₀, h₀, hid₀, -, -⟩ | ⟨rfl, -⟩
    · rw [← hid₀]
      exact mem_cons_of_mem _ (hinv.known o₀ h₀)
    · rw [hof.id]
      exact mem_cons_self
  case side =>
    intro o ho
    rcases hold ho with ⟨o₀, h₀, hid₀, -, -⟩ | ⟨rfl, -⟩
    · rw [Order.side_of_id hid₀.symm, ← hid₀]
      exact hinv.side o₀ h₀
    · rw [hof.side, hof.id]
      exact ⟨_, hmarket⟩
  case type =>
    intro o ho
    rcases hold ho with ⟨o₀, h₀, -, htype, -⟩ | ⟨rfl, -, -, htype⟩
    · rw [htype]
      exact hinv.type o₀ h₀
    · rw [hof.type]
      exact htype
  case status =>
    intro o ho
    rcases hold ho with ⟨o₀, h₀, -, -, hst | hst⟩ | ⟨rfl, hrest, -⟩
    · rw [hst]
      exact hinv.status o₀ h₀
    · exact Or.inr hst
    · exact hrest.symm
  case uncrossed => exact fun b s hb hs => hinv.uncrossed_taker hmarket h hpass hof (hstored hb) (hstored hs)
  case distinct => exact nodup_cons.2 ⟨hid, hinv.distinct⟩
  case takers =>
    intro tx htx
    rw [htrans] at htx
    rcases mem_append.1 htx with htx | htx
    · obtain ⟨o, ho, htaker⟩ := hinv.takers tx htx
      exact ⟨o, mem_cons_of_mem _ ho, htaker⟩
    · split_ifs at htx
      · cases htx
      · rw [h.txs] at htx
        obtain ⟨x, hx, rfl⟩ := mem_map.1 (by simpa using htx)
        exact ⟨taker, mem_cons_self, (h.valid x hx).takerId, (h.valid x hx).notPostOnly⟩

theorem BookRun.inv (h : BookRun A takers db) : BookInv takers db := by
  induction h with
  | @empty db hv horders hlogs =>
    have hnone : ∀ o, ¬Stored db o := fun o ho => by simp [Stored, horders] at ho
    exact ⟨hv, fun o ho => absurd ho (hnone o), fun o ho => absurd ho (hnone o), fun o ho => absurd ho (hnone o),
      fun o ho => absurd ho (hnone o), fun b _ hb => absurd hb (hnone b), nodup_nil, by simp [hlogs, transactionsOf]⟩
  | taker preHash _ hmc hmarket hfresh hid ih =>
    obtain ⟨rfl, -⟩ := newMatcher_ok hmc
    exact ih.taker preHash hmarket hfresh hid
  | cancel _ hmc _ ih =>
    obtain ⟨rfl, -⟩ := newMatcher_ok hmc
    exact ih.cancel _

end Steps

/-- In every run from an empty market the best buy is below the best sell, only limited and post-only orders rest, and
no post-only order has taken. -/
theorem book_never_crossed {A : Arith} {takers : List Order} {db : TradeDb} (h : BookRun A takers db) :
    (∀ b s, Stored db b → Stored db s → b.marketId = s.marketId → b.side = false → s.side = true → b.price < s.price)
    ∧ (∀ o, Stored db o → (o.type = .limited ∨ o.type = .postOnly) ∧ (o.status = .pending ∨ o.status = .partialExecuted))
    ∧ ∀ tx ∈ transactionsOf db.logs, ∀ o ∈ takers, tx.takerId = o.id → o.type ≠ .postOnly := by
  have hinv := h.inv
  refine ⟨hinv.uncrossed, fun o ho => ⟨hinv.type o ho, hinv.status o ho⟩, fun tx htx o ho hid => ?_⟩
  obtain ⟨taker, htaker, hid', htype⟩ := hinv.takers tx htx
  rw [inj_on_of_nodup_map hinv.distinct ho htaker (hid.symm.trans hid')]
  exact htype

section Sample

def sampleLowBuy : Order := { sampleOrder false 1 with id := composeOrderId 1 false (Bytes.ofNat 10 (2 ^ 39)) 1600000000 1 }

def sampleEmpty : Matcher := { db := { sampleTrade with orders := .empty }, marketInfo := sampleMarket }

/-- The storage after the sell order, and after the buy order below it. -/
def sampleOneResting : TradeDb := (sampleEmpty.matchOrder goArith (sampleOrder true 0) ⟨0, by decide⟩).1.db

def sampleTwoResting : TradeDb :=
  (Matcher.matchOrder goArith { db := sampleOneResting, marketInfo := sampleMarket } sampleLowBuy ⟨0, by decide⟩).1.db

theorem book_never_crossed_two_orders : Stored sampleTwoResting sampleLowBuy
    ∧ Stored sampleTwoResting (sampleOrder true 0) ∧ sampleLowBuy.price < (sampleOrder true 0).price := by
  have hempty : BookRun goArith [] sampleEmpty.db := .empty (by decide) rfl rfl
  have hsell : BookRun goArith [sampleOrder true 0] sampleOneResting :=
    .taker _ hempty (show newMatcher sampleEmpty.db 1 = .ok sampleEmpty from rfl) (inBook_compose _ _ _ _ _)
      ⟨rfl, rfl, rfl, rfl, rfl, rfl⟩ (by simp)
  have hmarket : sampleOneResting.marketInfos.get? 1 = some sampleMarket := by
    unfold sampleOneResting
    rw [(sampleEmpty.matchOrder_frame goArith (sampleOrder true 0) _).2.2]
    rfl
  have hbuy : BookRun goArith [sampleLowBuy, sampleOrder true 0] sampleTwoResting :=
    .taker _ hsell (newMatcher_of_get? hmarket) (inBook_compose _ _ _ _ _) ⟨rfl, rfl, rfl, rfl, rfl, rfl⟩ (by decide)
  have hstored : Stored sampleTwoResting sampleLowBuy ∧ Stored sampleTwoResting (sampleOrder true 0) := by
    unfold Stored
    decide +kernel
  exact ⟨hstored.1, hstored.2, (book_never_crossed hbuy).1 _ _ hstored.1 hstored.2 (by decide) (by decide) (by decide)⟩

end Sample

end GoVite.Dex

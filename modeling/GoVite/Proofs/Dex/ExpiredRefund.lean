import GoVite.Proofs.Dex.TradeConservation
import GoVite.Spec.Dex.Trade

/-! Refunds of expired orders, which are collected for every id of the list before any is deleted, so that an id listed
twice is refunded twice. -/

namespace GoVite.Dex
open ByteString KeyStore ExceptRules List Option

/-- The ids of a list of bytes, as often as they occur in it. -/
def pieceIds (orderIds : List Byte) : List OrderId :=
  (splitOrderIds orderIds).filterMap fun piece => (deComposeOrderId piece).toOption

/-- The settlements a call returns; none if it is refused or finds nothing to do. -/
def settlesOf (res : Except DexError (TradeDb × Option (FundSettles × MarketInfo))) : FundSettles :=
  match res with
  | .ok (_, some (fundSettles, _)) => fundSettles
  | _ => .empty

def releaseWeight (address : Address) (isTradeToken : Bool) : SettleWeight :=
  { release := fun a b => if a = address ∧ b = isTradeToken then 1 else 0 }

/-- What a user's locks in one token are released by. -/
def released (fs : FundSettles) (address : Address) (isTradeToken : Bool) : ℕ :=
  (releaseWeight address isTradeToken).total fs

/-- What an order still holds of this user's locks in one token. -/
def owedTo (address : Address) (isTradeToken : Bool) (o : Order) : ℕ :=
  if o.address = address ∧ o.side = isTradeToken then calculateRefund o else 0

/-- The same for the expired order stored under an id, if there is one. -/
def expiredOwedTo (db : TradeDb) (address : Address) (isTradeToken : Bool) (id : OrderId) : ℕ :=
  ((expiredOrder db id).map (owedTo address isTradeToken)).getD 0

/-- Every distinct expired order is refunded once, within what the user's orders hold. -/
structure RefundsOnce (db : TradeDb) (orderIds : List Byte) : Prop where
  once : ∀ address isTradeToken, released (settlesOf (cleanExpireOrders db orderIds)) address isTradeToken
    = ∑ id ∈ (pieceIds orderIds).toFinset, expiredOwedTo db address isTradeToken id
  within : ∀ address isTradeToken, released (settlesOf (cleanExpireOrders db orderIds)) address isTradeToken
    ≤ db.orders.sum fun id body => owedTo address isTradeToken (body.render id)

/-- An expired order is stored under this id and still holds something. -/
def Owing (db : TradeDb) (id : OrderId) : Prop := ∃ o, expiredOrder db id = some o ∧ 0 < calculateRefund o

/-- What a call has to be given. The ids name one market, which ids of market 0 may precede; the market of the first id
has to be known, since the matcher is made there. -/
structure Acceptable (db : TradeDb) (ids : List OrderId) : Prop where
  timestamp : db.tradeTimestamp ≠ 0
  oneMarket : (ids.map marketIdOf).IsChain fun a b => a = 0 ∨ b = a
  market : ∀ id ∈ ids.head?, (db.marketInfos.get? (marketIdOf id)).isSome = true

section Accept
variable {db : TradeDb}

/-- Only whole pieces are cut off, so no id is malformed. -/
theorem splitOrderIds_eq (orderIds : List Byte) :
    splitOrderIds orderIds = (pieceIds orderIds).map Bytes.toList := by
  have hlen : ∀ piece ∈ splitOrderIds orderIds, piece.length = orderIdBytesLength := by
    intro piece hpiece
    obtain ⟨i, hi, rfl⟩ := mem_map.1 hpiece
    have hend : (i + 1) * orderIdBytesLength ≤ orderIds.length :=
      (Nat.mul_le_mul_right _ (mem_range.1 hi)).trans (Nat.div_mul_le_self _ _)
    rw [add_one_mul] at hend
    rw [length_take, length_drop]
    omega
  rw [pieceIds, map_filterMap]
  refine (filterMap_some.symm.trans (filterMap_congr fun piece hpiece => ?_))
  rw [deComposeOrderId, dif_pos (hlen piece hpiece)]
  rfl

theorem deComposeOrderId_toList (id : OrderId) : deComposeOrderId id.toList = .ok id := dif_pos id.length_eq

theorem scanMarketId_ok_iff {marketId mkId m : ℕ} :
    scanMarketId marketId mkId = .ok m ↔ (marketId = 0 ∨ mkId = marketId) ∧ m = mkId := by
  unfold scanMarketId
  split_ifs with h0 hne
  · simp [h0, eq_comm]
  · simp [h0, hne]
  · rw [not_not] at hne
    simp [hne, eq_comm]

/-- Once there is a matcher, an id is refused for its market only. -/
theorem scan_total_iff (ids : List OrderId) {s : ExpireScan} {mc : Matcher} (hmc : s.matcher = some mc) :
    (∃ s', (ids.map Bytes.toList).foldlM (scanOrderId db) s = .ok s')
      ↔ (s.marketId :: ids.map marketIdOf).IsChain fun a b => a = 0 ∨ b = a := by
  induction ids generalizing s with
  | nil => exact iff_of_true ⟨s, rfl⟩ (.singleton _)
  | cons id ids ih =>
    have hstep : scanOrderId db s id.toList = scanMarketId s.marketId (marketIdOf id) >>= fun marketId =>
        .ok ⟨marketId, some mc, s.expiredMakers ++ (expiredOrder db id).toList⟩ := by
      rw [scanOrderId, deComposeOrderId_toList, hmc]
      rfl
    rw [map_cons, foldlM_cons, hstep, map_cons, isChain_cons_cons]
    constructor
    · rintro ⟨s', h⟩
      obtain ⟨s₁, h₁, hrest⟩ := bind_ok h
      obtain ⟨m, hm, hs₁⟩ := bind_ok h₁
      cases hs₁
      obtain ⟨hmarket, rfl⟩ := scanMarketId_ok_iff.1 hm
      exact ⟨hmarket, (ih rfl).1 ⟨s', hrest⟩⟩
    · rintro ⟨hmarket, hrest⟩
      rw [scanMarketId_ok_iff.2 ⟨hmarket, rfl⟩]
      exact (ih rfl).2 hrest

theorem cleanExpireOrders_total_iff (orderIds : List Byte) :
    (∃ res, cleanExpireOrders db orderIds = .ok res) ↔ Acceptable db (pieceIds orderIds) := by
  have hscan : (∃ res, cleanExpireOrders db orderIds = .ok res) ↔ db.tradeTimestamp ≠ 0 ∧
      ∃ s, ((pieceIds orderIds).map Bytes.toList).foldlM (scanOrderId db) {} = .ok s := by
    rw [← splitOrderIds_eq]
    constructor
    · rintro ⟨res, h⟩
      obtain ⟨htime, h⟩ := guard_ok h
      obtain ⟨s, hs, -⟩ := bind_ok h
      exact ⟨htime, s, hs⟩
    · rintro ⟨htime, s, hs⟩
      rw [cleanExpireOrders, if_neg htime]
      refine bind_total hs ?_
      split
      · exact ⟨_, rfl⟩
      · exact ⟨_, rfl⟩
  rw [hscan]
  cases pieceIds orderIds with
  | nil => exact ⟨fun h => ⟨h.1, .nil, by simp⟩, fun h => ⟨h.timestamp, {}, rfl⟩⟩
  | cons id ids =>
    have hfirst : scanOrderId db {} id.toList = newMatcher db (marketIdOf id) >>= fun mc =>
        .ok ⟨marketIdOf id, some mc, (expiredOrder db id).toList⟩ := by
      rw [scanOrderId, deComposeOrderId_toList]
      rfl
    rw [map_cons, foldlM_cons, hfirst, newMatcher]
    cases hinfo : db.marketInfos.get? (marketIdOf id) with
    | none =>
      refine iff_of_false (fun ⟨_, s, h⟩ => by cases h) fun h => ?_
      have hknown := h.market id rfl
      rw [hinfo] at hknown
      exact absurd hknown Bool.false_ne_true
    | some info =>
      have hrest : (∃ s, (ids.map Bytes.toList).foldlM (scanOrderId db)
          ⟨marketIdOf id, some { db, marketInfo := info }, (expiredOrder db id).toList⟩ = .ok s) ↔ _ := scan_total_iff ids rfl
      refine ⟨fun h => ⟨h.1, hrest.1 h.2, fun first hmem => ?_⟩, fun h => ⟨h.timestamp, hrest.2 h.oneMarket⟩⟩
      cases hmem
      rw [hinfo]
      rfl

end Accept

section Scan
variable {db : TradeDb}

structure Scanned (db : TradeDb) (pieces : List (List Byte)) (s : ExpireScan) : Prop where
  expiredMakers : s.expiredMakers = (pieces.filterMap fun piece => (deComposeOrderId piece).toOption).filterMap (expiredOrder db)
  matcher : ∀ mc, s.matcher = some mc → mc.db = db ∧ mc.fundSettles = .empty
  started : s.matcher = none → pieces = []

variable {pieces : List (List Byte)} {s s' : ExpireScan}

theorem scanOrderId_scanned {piece : List Byte}
    (hs : Scanned db pieces s) (h : scanOrderId db s piece = .ok s') : Scanned db (pieces ++ [piece]) s' := by
  obtain ⟨id, hid, h1⟩ := bind_ok h
  obtain ⟨marketId, -, h2⟩ := bind_ok h1
  obtain ⟨matcher, hmatcher, h3⟩ := bind_ok h2
  cases h3
  refine ⟨?_, fun mc hmc => ?_, fun hnone => by cases hnone⟩
  · rw [hs.expiredMakers]
    cases he : expiredOrder db id <;> simp [hid, he, Except.toOption]
  · cases hmc
    cases hm : s.matcher with
    | none =>
      rw [hm] at hmatcher
      obtain ⟨hdb, -, hfs, -⟩ := newMatcher_ok hmatcher
      exact ⟨hdb, hfs⟩
    | some started =>
      rw [hm] at hmatcher
      cases hmatcher
      exact hs.matcher _ hm

theorem scan_scanned (h : pieces.foldlM (scanOrderId db) {} = .ok s) : Scanned db pieces s :=
  foldlM_inv (Scanned db) (fun _ _ _ _ hs hstep => scanOrderId_scanned hs hstep) h
    ⟨rfl, fun _ hmc => absurd hmc (by simp), fun _ => rfl⟩

/-- An accepted call releases what each occurrence of an id owes. -/
theorem released_of_ok {orderIds : List Byte} {res : TradeDb × Option (FundSettles × MarketInfo)}
    (h : cleanExpireOrders db orderIds = .ok res) (address : Address) (isTradeToken : Bool) :
    released (settlesOf (.ok res)) address isTradeToken
      = ((pieceIds orderIds).map (expiredOwedTo db address isTradeToken)).sum := by
  have howed : ∀ o : Order, o.finished → (releaseWeight address isTradeToken).ofRefund o = owedTo address isTradeToken o := by
    intro o hfin
    rw [SettleWeight.ofRefund, if_pos hfin, owedTo, releaseWeight, ite_mul, one_mul, zero_mul]
  have hsum : ∀ ids : List OrderId, (ids.map (expiredOwedTo db address isTradeToken)).sum
      = ((ids.filterMap (expiredOrder db)).map (releaseWeight address isTradeToken).ofRefund).sum := by
    intro ids
    induction ids with
    | nil => rfl
    | cons id ids ih =>
      rw [map_cons, sum_cons, ih, expiredOwedTo]
      cases he : expiredOrder db id with
      | none => simp [he]
      | some o =>
        have hfin : o.finished := by
          obtain ⟨body, -, hbody⟩ := bind_eq_some_iff.1 he
          rw [filterTimeout_some hbody]
          exact Or.inr rfl
        simp [he, howed o hfin]
  obtain ⟨-, h1⟩ := guard_ok h
  obtain ⟨s, hscan, h2⟩ := bind_ok h1
  have hs := scan_scanned hscan
  rw [hsum, pieceIds, ← hs.expiredMakers]
  split at h2
  · rename_i mc o makers hmc hmakers
    cases h2
    rw [settlesOf, released, Matcher.total_handleModifiedMakers, (hs.matcher mc hmc).2]
    simp [SettleWeight.total]
  · rename_i hnone
    cases h2
    have hmakers : s.expiredMakers = [] := by
      cases hm : s.matcher with
      | none =>
        rw [hs.expiredMakers, hs.started hm]
        rfl
      | some mc =>
        cases hex : s.expiredMakers with
        | nil => rfl
        | cons o makers => exact absurd hex (hnone mc o makers hm)
    rw [hmakers]
    rfl

end Scan

section Occurrences
variable {db : TradeDb}

/-- The stored order behind an expired one holds the same. -/
theorem expiredOwedTo_eq (address : Address) (isTradeToken : Bool) (id : OrderId) :
    expiredOwedTo db address isTradeToken id ≤ ((db.orders.get? id).map fun body =>
      owedTo address isTradeToken (body.render id)).getD 0 := by
  unfold expiredOwedTo expiredOrder
  cases db.orders.get? id with
  | none => simp
  | some body =>
    simp only [bind_some]
    cases hf : filterTimeout db (body.render id) with
    | none => simp
    | some o =>
      rw [filterTimeout_some hf]
      rfl

theorem expiredOwedTo_pos_iff {id : OrderId} :
    (∃ address isTradeToken, 0 < expiredOwedTo db address isTradeToken id) ↔ Owing db id := by
  unfold expiredOwedTo Owing
  refine ⟨fun ⟨address, isTradeToken, hpos⟩ => ?_, fun ⟨o, ho, hpos⟩ => ⟨o.address, o.side, ?_⟩⟩
  · cases he : expiredOrder db id with
    | none => simp [he] at hpos
    | some o =>
      rw [he] at hpos
      unfold owedTo at hpos
      refine ⟨o, rfl, ?_⟩
      simp only [map_some] at hpos
      split_ifs at hpos
      · exact hpos
      · exact absurd hpos (Nat.lt_irrefl 0)
  · simp [ho, owedTo, hpos]

/-- Counting every occurrence agrees with counting every id once only if no id that matters repeats. -/
theorem sum_occurrences_eq_iff {α : Type} [DecidableEq α] (l : List α) (f : α → ℕ) :
    (l.map f).sum = ∑ x ∈ l.toFinset, f x ↔ ∀ x ∈ l, 0 < f x → l.count x = 1 := by
  have hle : ∀ x ∈ l.toFinset, f x ≤ l.count x • f x := fun x hx => by
    have hcount : 0 < l.count x := count_pos_iff.2 (mem_toFinset.1 hx)
    exact Nat.le_mul_of_pos_left _ hcount
  rw [Finset.sum_list_map_count, eq_comm, Finset.sum_eq_sum_iff_of_le hle]
  refine ⟨fun h x hx hpos => ?_, fun h x hx => ?_⟩
  · have heq : f x = l.count x * f x := h x (mem_toFinset.2 hx)
    exact Nat.eq_of_mul_eq_mul_right hpos (by omega)
  · rcases Nat.eq_zero_or_pos (f x) with h0 | hpos
    · rw [h0, nsmul_zero]
    · rw [h x (mem_toFinset.1 hx) hpos, one_nsmul]

end Occurrences

/-- A call refunds every distinct expired order once exactly when no id that owes something stands in
the list twice and, while there is something to refund, the call may be accepted. -/
theorem cleanExpireOrders_refunds_once (db : TradeDb) (orderIds : List Byte) :
    RefundsOnce db orderIds ↔ ∀ id ∈ pieceIds orderIds, Owing db id →
      (pieceIds orderIds).count id = 1 ∧ Acceptable db (pieceIds orderIds) := by
  rw [← cleanExpireOrders_total_iff]
  cases hres : cleanExpireOrders db orderIds with
  | error e =>
    have hzero : ∀ address isTradeToken, released (settlesOf (cleanExpireOrders db orderIds)) address isTradeToken = 0 := by
      intro address isTradeToken
      rw [hres]
      rfl
    refine ⟨fun h id hid howing => ?_, fun h => ⟨fun address isTradeToken => ?_, fun address isTradeToken => ?_⟩⟩
    · obtain ⟨address, isTradeToken, hpos⟩ := expiredOwedTo_pos_iff.2 howing
      have hsum := h.once address isTradeToken
      rw [hzero] at hsum
      exact absurd (Finset.sum_eq_zero_iff.1 hsum.symm id (mem_toFinset.2 hid)) (Nat.pos_iff_ne_zero.1 hpos)
    · rw [hzero, eq_comm, Finset.sum_eq_zero_iff]
      intro id hid
      by_contra hne
      have howing := expiredOwedTo_pos_iff.1 ⟨address, isTradeToken, Nat.pos_of_ne_zero hne⟩
      exact absurd (h id (mem_toFinset.1 hid) howing).2 (by simp)
    · rw [hzero]
      exact Nat.zero_le _
  | ok res =>
    have hreleased : ∀ address isTradeToken, released (settlesOf (cleanExpireOrders db orderIds)) address isTradeToken
        = ((pieceIds orderIds).map (expiredOwedTo db address isTradeToken)).sum := by
      intro address isTradeToken
      rw [hres]
      exact released_of_ok hres address isTradeToken
    refine ⟨fun h id hid howing => ⟨?_, res, rfl⟩, fun h => ?_⟩
    · obtain ⟨address, isTradeToken, hpos⟩ := expiredOwedTo_pos_iff.2 howing
      exact (sum_occurrences_eq_iff _ _).1 ((hreleased address isTradeToken).symm.trans (h.once address isTradeToken)) id hid hpos
    · have honce : ∀ address isTradeToken, released (settlesOf (cleanExpireOrders db orderIds)) address isTradeToken
          = ∑ id ∈ (pieceIds orderIds).toFinset, expiredOwedTo db address isTradeToken id := by
        intro address isTradeToken
        rw [hreleased, sum_occurrences_eq_iff]
        exact fun id hid hpos => (h id hid (expiredOwedTo_pos_iff.1 ⟨address, isTradeToken, hpos⟩)).1
      refine ⟨honce, fun address isTradeToken => ?_⟩
      rw [honce]
      exact (Finset.sum_le_sum fun id _ => expiredOwedTo_eq address isTradeToken id).trans (db.orders.sum_keys_le _ _)

section Sample

/-- The sample sell order, long after it has expired and before expiry was abolished. -/
def sampleExpired : TradeDb := { sampleTrade with tradeTimestamp := 1700000000, heightPoint := ⟨10⟩ }

/-- Its id named twice. -/
theorem cleanExpireOrders_repeated_id :
    ¬RefundsOnce sampleExpired ((sampleOrder true 0).id.toList ++ (sampleOrder true 0).id.toList) := by
  intro h
  have hreleased : released (settlesOf (cleanExpireOrders sampleExpired
      ((sampleOrder true 0).id.toList ++ (sampleOrder true 0).id.toList))) 2 true = 4 * 10 ^ 20 := by decide +kernel
  have hlocked : (sampleExpired.orders.sum fun id body => owedTo 2 true (body.render id)) = 2 * 10 ^ 20 := by
    decide +kernel
  have hle := h.within 2 true
  omega

end Sample

end GoVite.Dex

import GoVite.Spec.Dex.Matcher

/-! Order ids read back, and their byte order inside one side of one market: best price first, then
timestamp, then serial number. -/

namespace GoVite.Dex
open ByteString KeyStore List Bytes

section Compose
variable (marketId : ℕ) (side : Bool) (price : Price) (timestamp serialNo : ℕ)

@[simp] theorem marketIdOf_compose :
    marketIdOf (composeOrderId marketId side price timestamp serialNo) = marketId % 2 ^ 24 := by
  simp [marketIdOf, composeOrderId]

@[simp] theorem sideOf_compose : sideOf (composeOrderId marketId side price timestamp serialNo) = side := by
  cases side <;> simp [sideOf, composeOrderId]

@[simp] theorem priceOf_compose : priceOf (composeOrderId marketId side price timestamp serialNo) = price := by
  unfold priceOf
  rw [sideOf_compose]
  cases side <;> simp [composeOrderId]

@[simp] theorem timestampOf_compose :
    timestampOf (composeOrderId marketId side price timestamp serialNo) = timestamp % 2 ^ 40 := by
  simp [timestampOf, composeOrderId]

@[simp] theorem serialNoOf_compose :
    serialNoOf (composeOrderId marketId side price timestamp serialNo) = serialNo % 2 ^ 24 := by
  simp [serialNoOf, composeOrderId]

end Compose

/-- The side byte of an id is the one of its book. -/
def inBook (id : OrderId) (marketId : ℕ) (side : Bool) : Prop :=
  id.left = Bytes.ofNat 3 marketId ∧ id.right.left = Bytes.ofNat 1 (if side then 1 else 0)

theorem isPrefixOf_iff_inBook (id : OrderId) (marketId : ℕ) (side : Bool) :
    (getBookPrefix marketId side).toList.isPrefixOf id.toList = true ↔ inBook id marketId side := by
  rw [ isPrefixOf_iff_prefix, prefix_iff_eq_take]
  have hlen : (getBookPrefix marketId side).toList.length = 3 + 1 := (getBookPrefix marketId side).length_eq
  have hid : id = id.left.append (id.right.left.append id.right.right) := by
    rw [append_left_right, append_left_right]
  have htake : id.toList.take (3 + 1) = (id.left.append id.right.left).toList := by
    conv_lhs => rw [hid]
    change (id.left.toList ++ (id.right.left.toList ++ id.right.right.toList)).take (3 + 1) = _
    rw [← append_assoc]
    exact take_left' (id.left.append id.right.left).length_eq
  rw [hlen, htake]
  constructor
  · intro h
    obtain ⟨h1, h2⟩ := append_inj.1 (toList_injective h)
    exact ⟨h1.symm, h2.symm⟩
  · rintro ⟨h1, h2⟩
    rw [h1, h2]
    rfl

variable {marketId : ℕ} {side : Bool}

theorem inBook_side {id : OrderId} (h : inBook id marketId side) : sideOf id = side := by
  unfold sideOf
  rw [h.2]
  cases side <;> simp

theorem inBook_marketId {id : OrderId} (h : inBook id marketId side) : marketIdOf id = marketId % 2 ^ 24 := by
  unfold marketIdOf
  rw [h.1]
  simp

theorem inBook_compose (marketId : ℕ) (side : Bool) (price : Price) (timestamp serialNo : ℕ) :
    inBook (composeOrderId marketId side price timestamp serialNo) marketId side := by
  simp [inBook, composeOrderId]

theorem Order.eq_of_body {o o' : Order} (hbody : o.toOrderBody = o'.toOrderBody) (hid : o.id = o'.id) : o = o' := by
  cases o
  cases o'
  cases hbody
  cases hid
  rfl

/-- The trade storage holds exactly this order under its id. -/
def Stored (db : TradeDb) (o : Order) : Prop := db.orders.get? o.id = some o.toOrderBody

/-- An order of the book is stored under its own id. -/
theorem mem_getMakerBook {db : TradeDb} {o : Order} :
    o ∈ getMakerBook db marketId side ↔ Stored db o ∧ inBook o.id marketId side := by
  unfold getMakerBook
  simp only [mem_map, mem_filter, isPrefixOf_iff_inBook, Prod.exists]
  constructor
  · rintro ⟨id, body, ⟨hmem, hbook⟩, rfl⟩
    exact ⟨Store.get?_eq_some_iff.2 hmem, hbook⟩
  · rintro ⟨hget, hbook⟩
    exact ⟨o.id, o.toOrderBody, ⟨Store.get?_eq_some_iff.1 hget, hbook⟩, rfl⟩

/-- The book is listed by id, each order once. -/
theorem getMakerBook_sorted (db : TradeDb) (marketId : ℕ) (side : Bool) :
    (getMakerBook db marketId side).Pairwise fun a b => a.id < b.id := by
  unfold getMakerBook
  rw [pairwise_map]
  have hsorted := db.orders.sorted
  rw [pairwise_map] at hsorted
  exact hsorted.filter _

theorem getMakerBook_nodup (db : TradeDb) (marketId : ℕ) (side : Bool) :
    ((getMakerBook db marketId side).map Order.id).Nodup :=
  (pairwise_map.2 ((getMakerBook_sorted db marketId side).imp fun h => h)).imp fun h => ne_of_lt h

/-- `p` is a better maker price than `q` on the given side of the book: lower to buy from, higher to
sell to. -/
def BetterPrice (side : Bool) (p q : Price) : Prop := if side then p < q else q < p

instance (side : Bool) (p q : Price) : Decidable (BetterPrice side p q) :=
  inferInstanceAs (Decidable (if side then p < q else q < p))

/-- Time priority between two ids. -/
def EarlierId (a b : OrderId) : Prop :=
  timestampOf a < timestampOf b ∨ timestampOf a = timestampOf b ∧ serialNoOf a < serialNoOf b

/-- Inside one book the byte order of the ids is price-time priority. -/
theorem id_lt_iff {a b : OrderId} (ha : inBook a marketId side) (hb : inBook b marketId side) :
    a < b ↔ BetterPrice side (priceOf a) (priceOf b) ∨ priceOf a = priceOf b ∧ EarlierId a b := by
  have hsplit : ∀ id : OrderId, id = id.left.append (id.right.left.append
      (id.right.right.left.append (id.right.right.right.left.append id.right.right.right.right))) := fun id => by
    simp
  have htime : ∀ x y : Bytes (5 + 3), x < y ↔ x.left.val < y.left.val
      ∨ x.left.val = y.left.val ∧ x.right.val < y.right.val := fun x y => by
    conv_lhs => rw [← x.append_left_right, ← y.append_left_right]
    rw [append_lt_append, lt_iff_val_lt, lt_iff_val_lt, val_injective.eq_iff]
  have hprice : ∀ x y : Price, (if side then x else x.not) = (if side then y else y.not) ↔ x = y := fun x y => by
    cases side with
    | true => rfl
    | false => exact ⟨fun h => by simpa using congrArg Bytes.not h, fun h => h ▸ rfl⟩
  have hraw : ∀ {id : OrderId}, inBook id marketId side →
      id.right.right.left = if side then priceOf id else (priceOf id).not := by
    intro id h
    unfold priceOf
    rw [inBook_side h]
    cases side <;> simp
  have horder : (if side then priceOf a else (priceOf a).not) < (if side then priceOf b else (priceOf b).not)
      ↔ BetterPrice side (priceOf a) (priceOf b) := by
    cases side with
    | true => rfl
    | false => exact not_lt_not _ _
  conv_lhs => rw [hsplit a, hsplit b]
  -- market id and side agree, so the first difference is in the price or the time
  rw [append_lt_append, append_lt_append, append_lt_append, ha.1, hb.1, ha.2, hb.2, hraw ha, hraw hb,
    horder, hprice, htime, left_append, left_append, right_append, right_append]
  simp only [lt_irrefl, true_and, false_or]
  rfl

end GoVite.Dex

import GoVite.Sanity.Dex.MatchOrder
import GoVite.Sanity.Dex.PlaceOrder
import GoVite.Spec.Dex.Agents

/-! The lists of agents as sets; since the robot upgrade no order names an agent. -/

namespace GoVite.Dex
open ByteString KeyStore ExceptRules SwapRemove List Store FundDb

section Grants
variable {db : FundDb} {agents : List Address} {agent a : Address}

theorem withoutAgent_perm (h : agent ∈ agents) : agents.Perm (agent :: withoutAgent agents agent) := by
  unfold withoutAgent
  cases htake : takeFirst (fun a => a == agent) agents with
  | none => simpa using takeFirst_eq_none.1 htake agent h
  | some r =>
    have hr : r.1 = agent := by simpa using takeFirst_sat htake
    simpa [hr] using takeFirst_perm htake

theorem mem_withoutAgent (hnodup : agents.Nodup) (h : agent ∈ agents) :
    a ∈ withoutAgent agents agent ↔ a ∈ agents ∧ a ≠ agent := by
  have hperm := withoutAgent_perm h
  have hnotin : agent ∉ withoutAgent agents agent := (nodup_cons.1 (hperm.nodup_iff.1 hnodup)).1
  rw [hperm.mem_iff, mem_cons]
  constructor
  · intro ha
    exact ⟨.inr ha, fun he => hnotin (he ▸ ha)⟩
  · rintro ⟨ha | ha, hne⟩
    · exact absurd ha hne
    · exact ha

def configAgents (agents : List Address) (agent : Address) : AgentActionType → List Address
  | .grantAgent => if agent ∈ agents then agents else agents ++ [agent]
  | .revokeAgent => if agent ∈ agents then withoutAgent agents agent else agents

variable {actionType : AgentActionType}

theorem mem_configAgents (hnodup : agents.Nodup) :
    a ∈ configAgents agents agent actionType ↔ if a = agent then actionType = .grantAgent else a ∈ agents := by
  cases actionType with
  | grantAgent =>
    rw [configAgents]
    by_cases ha : a = agent
    · subst ha
      by_cases hmem : a ∈ agents <;> simp [hmem]
    · by_cases hmem : agent ∈ agents <;> simp [hmem, ha]
  | revokeAgent =>
    rw [configAgents]
    by_cases hmem : agent ∈ agents
    · rw [if_pos hmem, mem_withoutAgent hnodup hmem]
      by_cases ha : a = agent <;> simp [ha]
    · rw [if_neg hmem]
      by_cases ha : a = agent
      · subst ha
        simpa using hmem
      · simp [ha]

theorem nodup_configAgents (hnodup : agents.Nodup) : (configAgents agents agent actionType).Nodup := by
  cases actionType with
  | grantAgent =>
    rw [configAgents]
    by_cases hmem : agent ∈ agents
    · rwa [if_pos hmem]
    · rw [if_neg hmem, ← concat_eq_append]
      exact hnodup.concat hmem
  | revokeAgent =>
    rw [configAgents]
    by_cases hmem : agent ∈ agents
    · rw [if_pos hmem]
      exact (nodup_cons.1 ((withoutAgent_perm hmem).nodup_iff.1 hnodup)).2
    · rwa [if_neg hmem]

def agentsOf (db : FundDb) (principal : Address) (marketId : ℕ) : List Address :=
  db.grantedMarkets.getD (FundDb.grantedMarketToAgentKey principal marketId) []

theorem isMarketGrantedToAgent_iff {principal : Address} {marketId : ℕ} :
    db.isMarketGrantedToAgent principal agent marketId = true ↔ agent ∈ agentsOf db principal marketId := by
  simp [isMarketGrantedToAgent, agentsOf]

variable {principal p : Address} {marketId n : ℕ}

theorem configMarket_frame : configMarket db principal actionType agent marketId =
    { db with grantedMarkets := (configMarket db principal actionType agent marketId).grantedMarkets } := by
  unfold configMarket grantMarketToAgent revokeMarketFromAgent
  dsimp only
  split <;> split_ifs <;> rfl

/-- Only the last three bytes of a market's id count. -/
theorem agentsOf_mod : agentsOf db p (n % 2 ^ 24) = agentsOf db p n := by
  rw [agentsOf, agentsOf, grantedMarketToAgentKey, grantedMarketToAgentKey, Nat.mod_mod]

/-- An action changes the agents of its own principal and market only. -/
theorem agentsOf_configMarket (hn : n < 2 ^ 24) (hmarket : marketId < 2 ^ 24) :
    agentsOf (configMarket db principal actionType agent marketId) p n =
      if p = principal ∧ n = marketId then configAgents (agentsOf db principal marketId) agent actionType
      else agentsOf db p n := by
  have hset : ∀ agents : List Address,
      agentsOf { db with
        grantedMarkets := db.grantedMarkets.set (grantedMarketToAgentKey principal marketId) agents } p n =
        if p = principal ∧ n = marketId then agents else agentsOf db p n := by
    intro agents
    rw [agentsOf, getD_set]
    refine if_congr ?_ rfl rfl
    rw [grantedMarketToAgentKey, grantedMarketToAgentKey, Nat.mod_eq_of_lt hn, Nat.mod_eq_of_lt hmarket]
    exact ⟨fun h => Prod.mk.inj (toLex.injective h), fun h => by rw [h.1, h.2]⟩
  have hself : ∀ agents, agents = agentsOf db principal marketId →
      agentsOf db p n = if p = principal ∧ n = marketId then agents else agentsOf db p n := by
    intro agents hagents
    split_ifs with h
    · rw [hagents, h.1, h.2]
    · rfl
  by_cases hmem : agent ∈ agentsOf db principal marketId
  · have hgranted := isMarketGrantedToAgent_iff.2 hmem
    cases actionType with
    | grantAgent =>
      rw [configMarket, configAgents, if_pos hmem]
      simp only [hgranted]
      exact hself _ rfl
    | revokeAgent =>
      rw [configMarket, configAgents, if_pos hmem]
      simp only [hgranted]
      have hrevoke : revokeMarketFromAgent db principal agent marketId = _ := if_neg (ne_nil_of_mem hmem)
      rw [hrevoke]
      exact hset _
  · have hgranted : db.isMarketGrantedToAgent principal agent marketId = false :=
      Bool.eq_false_of_not_eq_true (mt isMarketGrantedToAgent_iff.1 hmem)
    cases actionType with
    | grantAgent =>
      rw [configMarket, configAgents, if_neg hmem]
      simp only [hgranted]
      have hgrant : grantMarketToAgent db principal agent marketId = _ := if_neg hmem
      rw [hgrant]
      exact hset _
    | revokeAgent =>
      rw [configMarket, configAgents, if_neg hmem]
      simp only [hgranted]
      exact hself _ rfl

end Grants

section Agentless

def Agentless (db : TradeDb) : Prop := ∀ id body, db.orders.get? id = some body → body.agent = none

variable {A : Arith} {db : TradeDb} {mc : Matcher} {o : Order}

theorem Agentless.set (h : Agentless db) {orders : Store OrderId OrderBody} (horders : orders = db.orders.set o.id o.toOrderBody)
    (ho : o.agent = none) {db' : TradeDb} (hdb' : db'.orders = orders) : Agentless db' := by
  rw [Agentless, hdb', horders]
  exact forall_set ho h

theorem Agentless.erase (h : Agentless db) {id : OrderId} {db' : TradeDb} (hdb' : db'.orders = db.orders.erase id) :
    Agentless db' := by
  intro id' body hget
  rw [hdb'] at hget
  exact h id' body (get?_erase_cases hget).2

theorem Agentless.congr (h : Agentless db) {db' : TradeDb} (hdb' : db'.orders = db.orders) : Agentless db' := by
  intro id body hget
  rw [hdb'] at hget
  exact h id body hget

theorem Agentless.handleModifiedMakers (h : Agentless mc.db) {makers : List Order} (hmakers : ∀ o ∈ makers, o.agent = none) :
    Agentless (mc.handleModifiedMakers makers).db := by
  induction makers generalizing mc with
  | nil => exact h
  | cons o makers ih =>
    have hmaker : Agentless (mc.handleModifiedMaker o).db := by
      have horders := mc.handleModifiedMaker_orders o
      split_ifs at horders
      · exact h.erase horders
      · exact h.set rfl (hmakers o mem_cons_self) horders
    exact ih hmaker fun o' ho' => hmakers o' (mem_cons_of_mem o ho')

theorem calculateOrderAndTx_agent (taker maker : Order) (mi : MarketInfo) (hp : HeightPoint) :
    (calculateOrderAndTx A taker maker mi hp).taker.agent = taker.agent
      ∧ (calculateOrderAndTx A taker maker mi hp).maker.agent = maker.agent := by
  unfold calculateOrderAndTx
  split_ifs with hv
  · exact ⟨rfl, rfl⟩
  · unfold calculateOrderAndTxBeforeUpgrade12 executeOrders updateOrder
    simp only [hv]
    exact ⟨rfl, rfl⟩

theorem closedTaker_agent : (closedTaker o).agent = o.agent := by
  obtain ⟨h, -⟩ | ⟨h, -⟩ := closedTaker_eq o
  · rw [h]
  · rw [h]
    rfl

/-- A pass over makers without agents changes orders without agents only. -/
theorem pass_agentless (h : Agentless mc.db) (ho : o.agent = none) :
    (mc.pass A o (mc.makersFor o)).taker.agent = none
      ∧ ∀ maker ∈ (mc.pass A o (mc.makersFor o)).modifiedMakers, maker.agent = none := by
  have hmaker : ∀ maker ∈ mc.makersFor o, maker.agent = none := fun maker hmem =>
    h maker.id maker.toOrderBody (mem_getMakerBook.1 hmem).1
  refine recursiveTakeOrder_inv (P := fun t => t.taker.agent = none ∧ ∀ maker ∈ t.modifiedMakers, maker.agent = none)
    A mc (mc.makersFor o) ?_ ?_ ?_ ⟨ho, by simp⟩
  · intro t maker expired hmem hexpired ht
    refine ⟨ht.1, forall_mem_concat.2 ⟨ht.2, ?_⟩⟩
    rw [filterTimeout_some hexpired]
    exact hmaker maker hmem
  · exact fun t ht => ht
  · intro t maker hmem ht
    have hagent := calculateOrderAndTx_agent (A := A) t.taker maker mc.marketInfo mc.db.heightPoint
    refine ⟨?_, forall_mem_concat.2 ⟨ht.2, hagent.2.trans (hmaker maker hmem)⟩⟩
    change (capTaker _ _).agent = none
    rw [capTaker_eq]
    exact hagent.1.trans ht.1

theorem Agentless.handleTaking (h : Agentless mc.db) {t : Taking} (ht : t.taker.agent = none)
    (hmakers : ∀ maker ∈ t.modifiedMakers, maker.agent = none) : Agentless (mc.handleTaking t).1.db := by
  have htaker : Agentless (mc.handleTakerRes t.taker).1.db := by
    have horders : (mc.handleTakerRes t.taker).1.db.orders = _ := mc.closeOrSaveTaker_orders t.taker
    split_ifs at horders
    · exact h.set rfl (closedTaker_agent.trans ht) horders
    · exact h.congr horders
  rw [Matcher.handleTaking_eq]
  split_ifs
  · exact htaker
  · exact (htaker.handleModifiedMakers hmakers).congr (by rw [Matcher.handleTxs_db])

theorem Agentless.placeOrderReceive (h : Agentless db) (ho : o.agent = none) {preHash : Byte} {r : TradeResult}
    (hr : placeOrderReceive A db o preHash = .ok r) : Agentless r.db := by
  obtain ⟨mc, hmc, hr⟩ := bind_ok hr
  cases hr
  have hmcdb : Agentless mc.db := h.congr (by rw [(newMatcher_ok hmc).1])
  obtain ⟨htaker, hmakers⟩ := pass_agentless hmcdb ho
  refine (hmcdb.handleTaking htaker hmakers).congr ?_
  rw [Matcher.matchOrder_eq]
  exact (Matcher.tryUpdateTimestamp_kept ..).2.2.1

/-- A cancellation by hash erases the order of the hash, which belongs to the operator. -/
theorem cancelOrderByHashReceive_ok {sendHash : Hash} {operator : Address} {r : TradeResult} (h : Agentless db)
    (hr : cancelOrderByHashReceive db sendHash operator = .ok r) :
    ∃ o, Desk.orderOfHash db sendHash = some o ∧ o.address = operator ∧ r.db.orders = db.orders.erase o.id := by
  unfold cancelOrderByHashReceive at hr
  split at hr
  · cases hr
  · rename_i id hid
    have hdecompose : deComposeOrderId id.toList = .ok id := dif_pos id.length_eq
    rw [handleCancelOrderById, hdecompose] at hr
    obtain ⟨mc, hmc, hr⟩ := bind_ok hr
    obtain ⟨o, ho, hr⟩ := bind_ok hr
    obtain ⟨hoperator, hr⟩ := guard_ok hr
    obtain ⟨-, hr⟩ := guard_ok hr
    cases hr
    unfold getOrderById at ho
    split at ho
    · rename_i body hbody
      cases ho
      have hagent : (body.render id).agent = none := h id body hbody
      refine ⟨body.render id, by simp [Desk.orderOfHash, hid, hbody], ?_, ?_⟩
      · by_contra hne
        exact hoperator ⟨fun he => hne he.symm, by simp [hagent]⟩
      · rw [Matcher.cancelOrderById_orders, (newMatcher_ok hmc).1]
    · cases ho

end Agentless

section Place
variable {A : Arith} {db : FundDb} {param : ParamPlaceOrder} {address : Address} {agent : Option Address} {sendHash : Hash}
  {r : FundDb × Order}

/-- Since the robot upgrade an order is placed without its agent, and only if the agent is granted. -/
theorem doPlaceOrder_agent (hrobot : db.heightPoint.isDexRobotUpgrade = true)
    (h : doPlaceOrder A db param address agent sendHash = .ok r) : r.2.agent = none ∧ r.2.address = address ∧
      ∃ mi, db.getMarketInfo param.tradeToken param.quoteToken = some mi ∧ mi.valid = true
        ∧ r.2.marketId = mi.marketId % 2 ^ 24
        ∧ ∀ a, agent = some a → db.isMarketGrantedToAgent address a mi.marketId = true := by
  obtain ⟨mi, account, hplaced⟩ := doPlaceOrder_placed h
  obtain ⟨mi₁, account₁, enrich, o₀, -, -, -, ho₀, -, -, -, ho⟩ := doPlaceOrder_ok h
  have hagent : r.2.agent = none := by
    have hstem : db.heightPoint.isStemUpgrade = true := by
      simp only [HeightPoint.isDexRobotUpgrade, HeightPoint.isStemUpgrade, decide_eq_true_eq] at hrobot ⊢
      omega
    rw [ho, finishOrder_renderLock, ho₀, renderedOrder, renderBody]
    simp only [hstem, hrobot, if_true]
  obtain ⟨-, h⟩ := guard_ok h
  obtain ⟨rendered, hrender, -⟩ := bind_ok h
  obtain ⟨mi', hmarket, -⟩ := bind_ok hrender
  obtain ⟨hget, hvalid⟩ := checkMarket_ok hmarket
  obtain rfl : mi = mi' := Option.mem_unique hplaced.marketInfo hget
  refine ⟨hagent, hplaced.address_eq, mi, hget, hvalid, ?_, ?_⟩
  · rw [Order.marketId, hplaced.id_eq, marketIdOf_compose]
  · rintro a rfl
    obtain ⟨-, hmarket⟩ := guard_ok hmarket
    split at hmarket
    · cases hmarket
    · obtain ⟨-, hmarket⟩ := guard_ok hmarket
      obtain ⟨-, hmarket⟩ := guard_ok hmarket
      obtain ⟨hgranted, hmarket⟩ := guard_ok hmarket
      cases hmarket
      simpa using hgranted

end Place

end GoVite.Dex

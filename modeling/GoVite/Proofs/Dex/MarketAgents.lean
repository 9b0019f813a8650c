import GoVite.Proofs.Dex.LockedFunds
import GoVite.Sanity.Dex.Agents
import GoVite.Sanity.Dex.Market

/-! Agents act only where they are granted. A grant is checked against the market that a call names: a cancellation has
to name the market of its order, and a market that still waits has the id zero. -/

namespace GoVite.Dex
open ByteString KeyStore ExceptRules List Desk

/-- The last action of the principal on the agent in the market. -/
def lastConfig (configs : List AgentConfig) (principal agent : Address) (market : TokenId × TokenId) : Option AgentActionType :=
  (configs.find? fun c => c.principal = principal ∧ c.agent = agent ∧ c.market = market).map AgentConfig.actionType

def RegisteredAs (db : FundDb) (market : TokenId × TokenId) (mi : MarketInfo) : Prop :=
  db.getMarketInfo market.1 market.2 = some mi ∧ mi.valid = true

def BelongsTo (db : FundDb) (o : Order) (market : TokenId × TokenId) : Prop :=
  ∃ mi, RegisteredAs db market mi ∧ mi.marketId = o.marketId

/-- The order is the sender's own, or its user's last action on the sender in the order's market was a grant. -/
def Deed.Granted (db : FundDb) (d : Deed) : Prop :=
  d.order.address = d.sender ∨ (∃ market, BelongsTo db d.order market) ∧
    ∀ market, BelongsTo db d.order market →
      lastConfig d.configs d.order.address d.sender market = some .grantAgent

namespace Desk

/-- In every market the agents are those that were granted and not revoked since. -/
def GrantsExact (s : Desk) : Prop := ∀ principal agent market mi, s.fund.getMarketInfo market.1 market.2 = some mi →
  (s.fund.isMarketGrantedToAgent principal agent mi.marketId = true ↔
    lastConfig s.configs principal agent market = some .grantAgent)

/-- Agents are granted and revoked in registered markets, and the cancellation of another user's order
names the market of the order. -/
def Proper (s : Desk) : DeskAction → Prop
  | .configMarketAgents _ param => ∀ market ∈ param.markets, existsValidMarket s.fund market.1 market.2 = true
  | .deliverCancel i => ∀ call o, s.cancelling[i]? = some call → call.owner ≠ call.sender →
      orderOfHash s.trade call.param.sendHash = some o → BelongsTo s.fund o (call.param.tradeToken, call.param.quoteToken)
  | _ => True

def ProperRun (A : Arith) (reader : ConsensusReader) : Desk → List DeskAction → Prop
  | _, [] => True
  | s, a :: actions => s.Proper a ∧ ProperRun A reader (s.step A reader a) actions

/-- No market, agent, order or message yet, after the robot upgrade. -/
structure Fresh (s : Desk) : Prop where
  robot : s.fund.heightPoint.isDexRobotUpgrade = true
  marketInfos : s.fund.marketInfos = .empty
  grantedMarkets : s.fund.grantedMarkets = .empty
  orders : s.trade.orders = .empty
  placing : s.placing = []
  cancelling : s.cancelling = []
  configs : s.configs = []
  deeds : s.deeds = []

end Desk

section Registered
variable {db db' : FundDb} {configs : List AgentConfig} {market market' : TokenId × TokenId} {mi mi' : MarketInfo}

theorem lastConfig_cons (c : AgentConfig) (principal agent : Address) :
    lastConfig (c :: configs) principal agent market =
      if c.principal = principal ∧ c.agent = agent ∧ c.market = market then some c.actionType
      else lastConfig configs principal agent market := by
  unfold lastConfig
  by_cases h : c.principal = principal ∧ c.agent = agent ∧ c.market = market
  · simp [h]
  · simp [h]

theorem existsValidMarket_iff_registeredAs :
    existsValidMarket db market.1 market.2 = true ↔ ∃ mi, RegisteredAs db market mi := by
  simp [existsValidMarket, RegisteredAs, Option.any_eq_true]

theorem Registers.lastMarketId_le (h : Registers db db') : db.lastMarketId ≤ db'.lastMarketId := by
  induction h with
  | elsewhere _ hid => exact hid.ge
  | delete | pend => exact le_rfl
  | register => exact Nat.le_succ _
  | trans _ _ ih₁ ih₂ => exact ih₁.trans ih₂

variable {t q : TokenId}

/-- The market of a change is not a registered one. -/
theorem RegisteredAs.ne (h : RegisteredAs db market mi) (hnew : existsValidMarket db t q = false) :
    ¬(market.1 = t ∧ market.2 = q) := by
  rintro ⟨rfl, rfl⟩
  rw [existsValidMarket_iff_registeredAs.2 ⟨mi, h⟩] at hnew
  cases hnew

theorem Registers.keeps (hr : Registers db db') (h : RegisteredAs db market mi) : RegisteredAs db' market mi := by
  induction hr with
  | elsewhere hmarkets => exact ⟨by rw [FundDb.getMarketInfo, hmarkets]; exact h.1, h.2⟩
  | delete hnew => exact ⟨by rw [getMarketInfo_delete, if_neg (h.ne hnew), h.1], h.2⟩
  | pend hnew => exact ⟨by rw [getMarketInfo_save, if_neg (h.ne hnew), h.1], h.2⟩
  | register hnew =>
    have hget : (newAndSaveMarketId _).1.getMarketInfo market.1 market.2 = some mi := h.1
    exact ⟨by rw [getMarketInfo_save, if_neg (h.ne hnew), hget], h.2⟩
  | trans _ _ ih₁ ih₂ => exact ih₂ (ih₁ h)

/-! What each change does to the registered markets -/

theorem registeredAs_delete (hnew : existsValidMarket db t q = false) :
    RegisteredAs (deleteMarketInfo db t q) market mi ↔ RegisteredAs db market mi := by
  refine ⟨fun hmi => ?_, (Registers.delete hnew).keeps⟩
  have hget := hmi.1
  rw [getMarketInfo_delete] at hget
  split_ifs at hget
  exact ⟨hget, hmi.2⟩

theorem registeredAs_pend (hnew : existsValidMarket db t q = false) (hvalid : mi'.valid = false) (hid : mi'.marketId = 0) :
    RegisteredAs (saveMarketInfo db mi' t q) market mi ↔ RegisteredAs db market mi := by
  refine ⟨fun hmi => ?_, (Registers.pend hnew hvalid hid).keeps⟩
  have hget := hmi.1
  rw [getMarketInfo_save] at hget
  split_ifs at hget
  · cases hget
    rw [hmi.2] at hvalid
    cases hvalid
  · exact ⟨hget, hmi.2⟩

theorem RegisteredAs.of_register (h : RegisteredAs (saveMarketInfo (newAndSaveMarketId db).1 mi' t q) market mi) :
    market = (t, q) ∧ mi = mi' ∨ RegisteredAs db market mi := by
  have hget := h.1
  rw [getMarketInfo_save] at hget
  split_ifs at hget with hm
  · exact .inl ⟨Prod.ext hm.1 hm.2, (Option.some.inj hget).symm⟩
  · exact .inr ⟨hget, h.2⟩

/-- The ids of the record of markets. -/
structure MarketIds (db : FundDb) : Prop where
  validId : ∀ market mi, RegisteredAs db market mi → 0 < mi.marketId ∧ mi.marketId ≤ db.lastMarketId
  pendingId : ∀ t q mi, db.getMarketInfo t q = some mi → mi.valid = false → mi.marketId = 0
  unique : ∀ market market' mi mi', RegisteredAs db market mi → RegisteredAs db market' mi' →
    mi.marketId = mi'.marketId → market = market'

namespace MarketIds

theorem congr (h : MarketIds db) (hmarkets : db'.marketInfos = db.marketInfos) (hid : db'.lastMarketId = db.lastMarketId) :
    MarketIds db' := by
  have hget : db'.getMarketInfo = db.getMarketInfo := by
    unfold FundDb.getMarketInfo
    rw [hmarkets]
  refine ⟨?_, ?_, ?_⟩
  · simp only [RegisteredAs, hget, hid]
    exact h.validId
  · simp only [hget]
    exact h.pendingId
  · simp only [RegisteredAs, hget]
    exact h.unique

theorem register (h : MarketIds db) (hvalid : mi.valid = true) (hid : mi.marketId = db.lastMarketId + 1) :
    MarketIds (saveMarketInfo (newAndSaveMarketId db).1 mi t q) := by
  refine ⟨?_, ?_, ?_⟩
  · intro m mi' hmi'
    change 0 < mi'.marketId ∧ mi'.marketId ≤ db.lastMarketId + 1
    obtain ⟨-, rfl⟩ | hold := hmi'.of_register
    · omega
    · have := h.validId m mi' hold
      omega
  · intro t' q' mi' hget hpending
    rw [getMarketInfo_save] at hget
    split_ifs at hget
    · cases hget
      rw [hvalid] at hpending
      cases hpending
    · exact h.pendingId t' q' mi' hget hpending
  · -- the new id is above every id given before
    intro m m' mi₁ mi₂ h₁ h₂ heq
    obtain ⟨rfl, rfl⟩ | hold₁ := h₁.of_register <;> obtain ⟨rfl, rfl⟩ | hold₂ := h₂.of_register
    · rfl
    · have := (h.validId m' mi₂ hold₂).2
      omega
    · have := (h.validId m mi₁ hold₁).2
      omega
    · exact h.unique m m' mi₁ mi₂ hold₁ hold₂ heq

theorem registers (h : MarketIds db) (hr : Registers db db') : MarketIds db' := by
  induction hr with
  | elsewhere hmarkets hid => exact h.congr hmarkets hid
  | @delete db t q hnew =>
    refine ⟨?_, fun t' q' mi hget hvalid => ?_, ?_⟩
    · simp only [registeredAs_delete hnew]
      exact h.validId
    · rw [getMarketInfo_delete] at hget
      split_ifs at hget
      exact h.pendingId t' q' mi hget hvalid
    · simp only [registeredAs_delete hnew]
      exact h.unique
  | @pend db t q mi₀ hnew hvalid₀ hid₀ =>
    refine ⟨?_, fun t' q' mi hget hvalid => ?_, ?_⟩
    · simp only [registeredAs_pend hnew hvalid₀ hid₀]
      exact h.validId
    · rw [getMarketInfo_save] at hget
      split_ifs at hget
      · cases hget
        exact hid₀
      · exact h.pendingId t' q' mi hget hvalid
    · simp only [registeredAs_pend hnew hvalid₀ hid₀]
      exact h.unique
  | register hnew hvalid hid => exact h.register hvalid hid
  | trans hab hbc ih₁ ih₂ => exact ih₂ (ih₁ h)

end MarketIds

/-- The record of markets, the agents in them and the actions on agents so far. -/
structure GrantInv (db : FundDb) (configs : List AgentConfig) : Prop extends MarketIds db where
  robot : db.heightPoint.isDexRobotUpgrade = true
  nodup : ∀ principal marketId, (agentsOf db principal marketId).Nodup
  agents : ∀ principal marketId, marketId < 2 ^ 24 → agentsOf db principal marketId ≠ [] →
    0 < marketId ∧ marketId ≤ db.lastMarketId
  granted : ∀ principal agent market mi, RegisteredAs db market mi →
    (agent ∈ agentsOf db principal mi.marketId ↔ lastConfig configs principal agent market = some .grantAgent)
  configured : ∀ c ∈ configs, ∃ mi, RegisteredAs db c.market mi

namespace GrantInv

section
variable (h : GrantInv db configs)
include h

theorem id_lt (hids : db.lastMarketId < 2 ^ 24) (hmi : RegisteredAs db market mi) :
    mi.marketId < 2 ^ 24 := (h.validId market mi hmi).2.trans_lt hids

/-- A market that is not registered was never configured. -/
theorem lastConfig_none (hnew : ¬∃ mi, RegisteredAs db market mi)
    (principal agent : Address) : lastConfig configs principal agent market = none := by
  rw [lastConfig, Option.map_eq_none_iff, find?_eq_none]
  intro c hc hmatch
  obtain ⟨-, -, rfl⟩ := of_decide_eq_true hmatch
  exact hnew (h.configured c hc)

theorem congr (hmarkets : MarketIds db') (hreg : ∀ market mi, RegisteredAs db' market mi ↔ RegisteredAs db market mi)
    (hid : db'.lastMarketId = db.lastMarketId) (hgranted : db'.grantedMarkets = db.grantedMarkets)
    (hheight : db'.heightPoint = db.heightPoint) : GrantInv db' configs := by
  have hagents : ∀ p n, agentsOf db' p n = agentsOf db p n := fun p n => by rw [agentsOf, agentsOf, hgranted]
  refine ⟨hmarkets, ?_, ?_, ?_, ?_, ?_⟩
  · rw [hheight]; exact h.robot
  · simp only [hagents]; exact h.nodup
  · simp only [hagents, hid]; exact h.agents
  · simp only [hreg, hagents]; exact h.granted
  · simp only [hreg]; exact h.configured

/-- A newly registered market has no agents and was never configured. -/
theorem register (hnew : existsValidMarket db t q = false)
    (hvalid : mi.valid = true) (hid : mi.marketId = db.lastMarketId + 1) (hids : db.lastMarketId + 1 < 2 ^ 24) :
    GrantInv (saveMarketInfo (newAndSaveMarketId db).1 mi t q) configs := by
  have hnone : ¬∃ mi, RegisteredAs db (t, q) mi := fun hex => by
    rw [← existsValidMarket_iff_registeredAs, hnew] at hex
    cases hex
  refine ⟨h.toMarketIds.register hvalid hid, h.robot, h.nodup, ?_, ?_, ?_⟩
  · intro p n hn hne
    have := h.agents p n hn hne
    change 0 < n ∧ n ≤ db.lastMarketId + 1
    omega
  · intro p a m mi' hmi'
    obtain ⟨rfl, rfl⟩ | hold := hmi'.of_register
    · have hempty : agentsOf db p mi'.marketId = [] := by
        by_contra hne
        have := (h.agents p mi'.marketId (by omega) hne).2
        omega
      change a ∈ agentsOf db p mi'.marketId ↔ _
      rw [hempty, h.lastConfig_none hnone]
      simp
    · exact h.granted p a m mi' hold
  · intro c hc
    obtain ⟨mi', hmi'⟩ := h.configured c hc
    exact ⟨mi', (Registers.register hnew hvalid hid).keeps hmi'⟩

/-- Registering markets keeps the agents of every market. -/
theorem registers (hr : Registers db db') (hids : db'.lastMarketId < 2 ^ 24) : GrantInv db' configs := by
  induction hr with
  | @elsewhere db db' hmarkets hid hgranted hheight =>
    refine h.congr (h.toMarketIds.congr hmarkets hid) (fun market mi => ?_) hid hgranted hheight
    rw [RegisteredAs, RegisteredAs, FundDb.getMarketInfo, FundDb.getMarketInfo, hmarkets]
  | delete hnew =>
    exact h.congr (h.toMarketIds.registers (.delete hnew)) (fun _ _ => registeredAs_delete hnew) rfl rfl rfl
  | pend hnew hvalid hid =>
    exact h.congr (h.toMarketIds.registers (.pend hnew hvalid hid)) (fun _ _ => registeredAs_pend hnew hvalid hid) rfl rfl rfl
  | register hnew hvalid hid => exact h.register hnew hvalid hid hids
  | trans hab hbc ih₁ ih₂ => exact ih₂ (ih₁ h (hbc.lastMarketId_le.trans_lt hids)) hids

/-- An action in a registered market grants or revokes its agent there, and changes nothing else. -/
theorem config (hids : db.lastMarketId < 2 ^ 24) (hmi : RegisteredAs db market mi)
    (principal agent : Address) (actionType : AgentActionType) :
    GrantInv (configMarket db principal actionType agent mi.marketId) (⟨principal, agent, market, actionType⟩ :: configs) := by
  have hid := h.id_lt hids hmi
  have hreg : ∀ m mi', RegisteredAs (configMarket db principal actionType agent mi.marketId) m mi' ↔ RegisteredAs db m mi' := by
    intro m mi'
    rw [configMarket_frame]
    rfl
  have hlast : (configMarket db principal actionType agent mi.marketId).lastMarketId = db.lastMarketId := by
    rw [configMarket_frame]
  refine ⟨?_, ?_, ?_, ?_, ?_, ?_⟩
  · rw [configMarket_frame]
    exact h.toMarketIds.congr rfl rfl
  · rw [configMarket_frame]; exact h.robot
  · intro p n
    rw [← agentsOf_mod, agentsOf_configMarket (Nat.mod_lt n (by decide)) hid]
    split_ifs
    · exact nodup_configAgents (h.nodup _ _)
    · exact h.nodup _ _
  · intro p n hn hne
    rw [agentsOf_configMarket hn hid] at hne
    rw [hlast]
    split_ifs at hne with hpn
    · rw [hpn.2]; exact h.validId market mi hmi
    · exact h.agents p n hn hne
  · intro p a m mi' hmi'
    rw [hreg] at hmi'
    rw [agentsOf_configMarket (h.id_lt hids hmi') hid, lastConfig_cons]
    by_cases hpm : p = principal ∧ mi'.marketId = mi.marketId
    · obtain ⟨rfl, hids'⟩ := hpm
      obtain rfl := h.unique m market mi' mi hmi' hmi hids'
      obtain rfl : mi' = mi := Option.mem_unique hmi'.1 hmi.1
      rw [if_pos ⟨rfl, rfl⟩, mem_configAgents (h.nodup p mi'.marketId)]
      by_cases ha : a = agent
      · subst ha
        simp
      · have ha' : agent ≠ a := fun he => ha he.symm
        simp only [ha, ha']
        exact h.granted p a m mi' hmi'
    · rw [if_neg hpm, if_neg]
      · exact h.granted p a m mi' hmi'
      · rintro ⟨hp, -, hm⟩
        obtain rfl : market = m := hm
        exact hpm ⟨hp.symm, by rw [Option.mem_unique hmi'.1 hmi.1]⟩
  · intro c hc
    simp only [hreg]
    rcases mem_cons.1 hc with rfl | hc
    · exact ⟨mi, hmi⟩
    · exact h.configured c hc

end

end GrantInv
end Registered

section Deeds
variable {db db' : FundDb} {configs : List AgentConfig} {d : Deed}

/-- An order in a market where its user granted the sender. -/
theorem Deed.granted_of (market : TokenId × TokenId) (hinv : GrantInv db configs) (hbelongs : BelongsTo db d.order market)
    (hgrant : lastConfig d.configs d.order.address d.sender market = some .grantAgent) : d.Granted db := by
  refine .inr ⟨⟨market, hbelongs⟩, ?_⟩
  rintro m ⟨mi, hmi, hid⟩
  obtain ⟨mi₀, hm₀, hid₀⟩ := hbelongs
  rw [hinv.unique m market mi mi₀ hmi hm₀ (hid.trans hid₀.symm)]
  exact hgrant

/-- What an order's user granted stays so while markets are registered. -/
theorem Deed.Granted.keeps (h : d.Granted db) (hinv : GrantInv db' configs)
    (hkeeps : ∀ market mi, RegisteredAs db market mi → RegisteredAs db' market mi) : d.Granted db' := by
  obtain hown | ⟨⟨m₀, mi₀, hm₀, hid₀⟩, hgrant⟩ := h
  · exact .inl hown
  · exact granted_of m₀ hinv ⟨mi₀, hkeeps m₀ mi₀ hm₀, hid₀⟩ (hgrant m₀ ⟨mi₀, hm₀, hid₀⟩)

end Deeds

namespace Desk
variable {A : Arith} {reader : ConsensusReader} {s : Desk}

structure Inv (s : Desk) : Prop where
  grants : GrantInv s.fund s.configs
  orders : Agentless s.trade
  placing : ∀ o ∈ s.placing, o.agent = none
  cancelling : ∀ call ∈ s.cancelling, call.owner ≠ call.sender →
    lastConfig call.configs call.owner call.sender (call.param.tradeToken, call.param.quoteToken) = some .grantAgent
  deeds : ∀ d ∈ s.deeds, d.Granted s.fund

variable {fund : FundDb}

theorem Inv.registers (h : Inv s) (hr : Registers s.fund fund) (hids : fund.lastMarketId < 2 ^ 24)
    (syncing : List MarketInfo) : Inv { s with fund := fund, syncing := syncing } :=
  have hgrants := h.grants.registers hr hids
  ⟨hgrants, h.orders, h.placing, h.cancelling, fun d hd => (h.deeds d hd).keeps hgrants fun _ _ => hr.keeps⟩

variable {res : Except DexError (FundDb × List MarketCall)}

theorem marketResult_registers (hr : ∀ r, res = .ok r → Registers s.fund r.1) :
    Registers s.fund (s.marketResult res).fund := by
  cases res with
  | error e => exact .refl _
  | ok r => exact hr r rfl

theorem Inv.marketResult (h : Inv s)
    (hr : ∀ r, res = .ok r → Registers s.fund r.1) (hids : (s.marketResult res).fund.lastMarketId < 2 ^ 24) :
    Inv (s.marketResult res) := by
  cases res with
  | error e => exact h
  | ok r => exact h.registers (hr r rfl) hids _

variable {db : FundDb} {param : ParamPlaceOrder} {address : Address} {agent : Option Address} {sendHash : Hash}

/-- Placing an order moves money and nothing else. -/
theorem doPlaceOrder_registers {r : FundDb × Order} (h : doPlaceOrder A db param address agent sendHash = .ok r) :
    Registers db r.1 ∧ r.1.lastMarketId = db.lastMarketId := by
  obtain ⟨mi, account, enrich, o₀, -, -, -, -, -, -, hdb, -⟩ := doPlaceOrder_ok h
  rw [hdb]
  exact ⟨.elsewhere rfl rfl rfl rfl, rfl⟩

/-- The market named by a call, with the grants of the call's principal in it. -/
theorem Inv.granted_iff (h : Inv s) {market : TokenId × TokenId} {mi : MarketInfo}
    (hget : s.fund.getMarketInfo market.1 market.2 = some mi) (principal agent : Address) :
    s.fund.isMarketGrantedToAgent principal agent mi.marketId = true ↔
      lastConfig s.configs principal agent market = some .grantAgent := by
  rw [isMarketGrantedToAgent_iff]
  by_cases hvalid : mi.valid = true
  · exact h.grants.granted principal agent market mi ⟨hget, hvalid⟩
  · -- a market that still waits has the id zero, where nobody is granted
    have hid := h.grants.pendingId market.1 market.2 mi hget (by simpa using hvalid)
    have hempty : agentsOf s.fund principal mi.marketId = [] := by
      by_contra hne
      have := (h.grants.agents principal mi.marketId (by omega) hne).1
      omega
    have hnone : ¬∃ mi', RegisteredAs s.fund market mi' := by
      rintro ⟨mi', hmi'⟩
      rw [Option.mem_unique hmi'.1 hget] at hmi'
      exact hvalid hmi'.2
    rw [hempty, h.grants.lastConfig_none hnone]
    simp

variable {sender : Address}

theorem Inv.placeResult (h : Inv s)
    (hids : s.fund.lastMarketId < 2 ^ 24) (hagent : address = sender ∨ agent = some sender) :
    Inv (s.placeResult sender (doPlaceOrder A s.fund param address agent sendHash)) := by
  cases hres : doPlaceOrder A s.fund param address agent sendHash with
  | error e => exact h
  | ok r =>
    obtain ⟨hnone, haddress, mi, hget, hvalid, hid, hgranted⟩ := doPlaceOrder_agent h.grants.robot hres
    obtain ⟨hr, hlast⟩ := doPlaceOrder_registers hres
    have hs := h.registers hr (hlast.trans_lt hids) s.syncing
    refine ⟨hs.grants, h.orders, ?_, h.cancelling, ?_⟩
    · exact forall_mem_concat.2 ⟨h.placing, hnone⟩
    · intro d hd
      rcases mem_cons.1 hd with rfl | hd
      · have hmi : RegisteredAs s.fund (param.tradeToken, param.quoteToken) mi := ⟨hget, hvalid⟩
        obtain rfl | rfl := hagent
        · exact .inl haddress
        · refine Deed.granted_of (param.tradeToken, param.quoteToken) hs.grants ⟨mi, hr.keeps hmi, ?_⟩ ?_
          · rw [hid, Nat.mod_eq_of_lt (h.grants.id_lt hids hmi)]
          · rw [haddress, ← h.granted_iff hget]
            exact hgranted sender rfl
      · exact hs.deeds d hd

theorem Inv.configMarketAgents (h : Inv s) {param : ParamConfigMarketAgents} (hids : s.fund.lastMarketId < 2 ^ 24)
    (hvalid : ∀ market ∈ param.markets, existsValidMarket s.fund market.1 market.2 = true)
    (hfund : methodConfigMarketAgents s.fund sender param = .ok fund) :
    Inv { s with fund := fund, configs := configsOf sender param ++ s.configs } := by
  obtain ⟨-, hfold⟩ := guard_ok hfund
  -- after some of the markets their actions are recorded, and the markets are still those of the start
  have hall := foldlM_inv_mem
    (fun done db => GrantInv db ((done.map fun market => ⟨sender, param.agent, market, param.actionType⟩).reverse ++ s.configs)
      ∧ db = { s.fund with grantedMarkets := db.grantedMarkets }) ?_ hfold ⟨h.grants, rfl⟩
  · obtain ⟨hgrants, hdb⟩ := hall
    refine ⟨hgrants, h.orders, h.placing, h.cancelling, fun d hd => (h.deeds d hd).keeps hgrants fun market mi hmi => ?_⟩
    rw [hdb]
    exact hmi
  · rintro done db market hmarket db' ⟨hgrants, hdb⟩ hstep
    obtain ⟨mi, hmi⟩ := existsValidMarket_iff_registeredAs.1 (hvalid market hmarket)
    have hmi' : RegisteredAs db market mi := by
      rw [hdb]
      exact hmi
    rw [configMarketAgent, hmi'.1] at hstep
    obtain rfl := Except.ok.inj hstep
    refine ⟨?_, ?_⟩
    · rw [map_append, reverse_append]
      exact hgrants.config (by rw [hdb]; exact hids) hmi' sender param.agent param.actionType
    · rw [configMarket_frame, hdb]

theorem Inv.cancelResult (h : Inv s) {call : CancelCall}
    (hcall : call.owner ≠ call.sender →
      lastConfig call.configs call.owner call.sender (call.param.tradeToken, call.param.quoteToken) = some .grantAgent)
    (hproper : ∀ o, call.owner ≠ call.sender → orderOfHash s.trade call.param.sendHash = some o →
      BelongsTo s.fund o (call.param.tradeToken, call.param.quoteToken)) : Inv (s.cancelResult call) := by
  unfold Desk.cancelResult
  cases hres : cancelOrderByHashReceive s.trade call.param.sendHash call.owner with
  | error e => exact h
  | ok r =>
    obtain ⟨o, ho, haddress, horders⟩ := cancelOrderByHashReceive_ok h.orders hres
    refine ⟨h.grants, h.orders.erase horders, h.placing, h.cancelling, ?_⟩
    intro d hd
    rw [ho] at hd
    rcases mem_append.1 hd with hd | hd
    · obtain rfl : d = ⟨call.sender, o, call.configs⟩ := by simpa using hd
      by_cases hown : call.owner = call.sender
      · exact .inl (haddress.trans hown)
      · refine Deed.granted_of _ h.grants (hproper o hown ho) ?_
        rw [haddress]
        exact hcall hown
    · exact h.deeds d hd

theorem Inv.step (h : Inv s) {a : DeskAction} (hproper : s.Proper a) (hids : s.fund.lastMarketId < 2 ^ 24)
    (hids' : (s.step A reader a).fund.lastMarketId < 2 ^ 24) : Inv (s.step A reader a) := by
  cases a with
  | openNewMarket sender param => exact h.marketResult (fun r => methodOpenNewMarket_registers) hids'
  | getTokenInfoCallback param => exact h.marketResult (fun r => methodGetTokenInfoCallback_registers) hids'
  | configMarketAgents sender param =>
    simp only [Desk.step]
    cases hfund : methodConfigMarketAgents s.fund sender param with
    | error e => exact h
    | ok fund => exact h.configMarketAgents hids hproper hfund
  | placeOrder sender param sendHash => exact h.placeResult hids (.inl rfl)
  | placeAgentOrder sender param principal sendHash => exact h.placeResult hids (.inr rfl)
  | cancelOrderBySendHash sender param =>
    simp only [Desk.step]
    cases howner : methodCancelOrderBySendHash s.fund sender param with
    | error e => exact h
    | ok owner =>
      refine ⟨h.grants, h.orders, h.placing, fun call hcall hne => ?_, h.deeds⟩
      rcases mem_append.1 hcall with hcall | hcall
      · exact h.cancelling call hcall hne
      · obtain rfl := mem_singleton.1 hcall
        obtain ⟨-, howner⟩ := guard_ok howner
        unfold checkCancelAgentOrder at howner
        split_ifs at howner
        · split at howner
          · cases howner
          · rename_i mi hget
            obtain ⟨hgranted, howner⟩ := guard_ok howner
            cases howner
            exact (h.granted_iff hget _ sender).1 (by simpa using hgranted)
        · cases howner
          exact absurd rfl hne
  | deliverPlace i preHash =>
    simp only [Desk.step]
    cases ho : s.placing[i]? with
    | none => exact h
    | some o =>
      have hagent : o.agent = none := h.placing o (mem_of_getElem? ho)
      have hplacing : ∀ o ∈ s.placing.eraseIdx i, o.agent = none := fun o' ho' =>
        h.placing o' (mem_of_mem_eraseIdx ho')
      dsimp only
      cases hres : placeOrderReceive A s.trade o preHash with
      | error e => exact ⟨h.grants, h.orders, hplacing, h.cancelling, h.deeds⟩
      | ok r => exact ⟨h.grants, h.orders.placeOrderReceive hagent hres, hplacing, h.cancelling, h.deeds⟩
  | deliverCancel i =>
    simp only [Desk.step]
    cases hcall : s.cancelling[i]? with
    | none => exact h
    | some call =>
      have hs : Inv { s with cancelling := s.cancelling.eraseIdx i } :=
        ⟨h.grants, h.orders, h.placing, fun c hc => h.cancelling c (mem_of_mem_eraseIdx hc), h.deeds⟩
      exact hs.cancelResult (h.cancelling call (mem_of_getElem? hcall)) fun o => hproper call o hcall
  | deliverSync i =>
    simp only [Desk.step]
    cases s.syncing[i]? with
    | none => exact h
    | some mi => exact ⟨h.grants, h.orders.congr rfl, h.placing, h.cancelling, h.deeds⟩
  | elsewhere db =>
    have hr : Registers s.fund (s.elsewhere db).fund := .elsewhere rfl rfl rfl rfl
    exact h.registers hr hids s.syncing

/-- What a step does to the record of markets. -/
theorem step_registers (A : Arith) (reader : ConsensusReader) (s : Desk) (a : DeskAction) : ∃ db, Registers s.fund db ∧
    (s.step A reader a).fund.marketInfos = db.marketInfos ∧ (s.step A reader a).fund.lastMarketId = db.lastMarketId := by
  have hplace : ∀ (sender : Address) (param : ParamPlaceOrder) (address : Address) (agent : Option Address) (sendHash : Hash),
      Registers s.fund (s.placeResult sender (doPlaceOrder A s.fund param address agent sendHash)).fund := by
    intro sender param address agent sendHash
    cases hres : doPlaceOrder A s.fund param address agent sendHash with
    | error e => exact .refl _
    | ok r => exact (doPlaceOrder_registers hres).1
  cases a with
  | openNewMarket sender param => exact ⟨_, marketResult_registers fun r => methodOpenNewMarket_registers, rfl, rfl⟩
  | getTokenInfoCallback param => exact ⟨_, marketResult_registers fun r => methodGetTokenInfoCallback_registers, rfl, rfl⟩
  | configMarketAgents sender param =>
    refine ⟨s.fund, .refl _, ?_⟩
    simp only [step]
    cases hfund : methodConfigMarketAgents s.fund sender param with
    | error e => exact ⟨rfl, rfl⟩
    | ok fund =>
      obtain ⟨-, hfold⟩ := guard_ok hfund
      refine foldlM_inv (fun _ db => db.marketInfos = s.fund.marketInfos ∧ db.lastMarketId = s.fund.lastMarketId)
        (fun done db market db' hkeeps hstep => ?_) hfold ⟨rfl, rfl⟩
      unfold configMarketAgent at hstep
      split at hstep
      · cases hstep
      · cases hstep
        rw [configMarket_frame]
        exact hkeeps
  | placeOrder sender param sendHash | placeAgentOrder sender param principal sendHash => exact ⟨_, hplace _ _ _ _ _, rfl, rfl⟩
  | cancelOrderBySendHash sender param | deliverSync i | deliverPlace i preHash | deliverCancel i =>
    refine ⟨s.fund, .refl _, ?_⟩
    simp only [step, cancelResult]
    repeat' split
    all_goals exact ⟨rfl, rfl⟩
  | elsewhere db => exact ⟨s.fund, .refl _, rfl, rfl⟩

theorem step_lastMarketId_le (a : DeskAction) : s.fund.lastMarketId ≤ (s.step A reader a).fund.lastMarketId := by
  obtain ⟨db, hr, -, hid⟩ := step_registers A reader s a
  exact hr.lastMarketId_le.trans hid.ge

theorem MarketIds.run (h : MarketIds s.fund) (actions : List DeskAction) : MarketIds (s.run A reader actions).fund := by
  induction actions generalizing s with
  | nil => exact h
  | cons a actions ih =>
    obtain ⟨db, hr, hmarkets, hid⟩ := step_registers A reader s a
    exact ih ((h.registers hr).congr hmarkets hid)

theorem run_lastMarketId_le (actions : List DeskAction) : s.fund.lastMarketId ≤ (s.run A reader actions).fund.lastMarketId := by
  induction actions generalizing s with
  | nil => exact le_rfl
  | cons a actions ih => exact (step_lastMarketId_le a).trans ih

theorem Inv.run (h : Inv s) {actions : List DeskAction} (hproper : ProperRun A reader s actions)
    (hids : (s.run A reader actions).fund.lastMarketId < 2 ^ 24) : Inv (s.run A reader actions) := by
  induction actions generalizing s with
  | nil => exact h
  | cons a actions ih =>
    have hstep : (s.step A reader a).fund.lastMarketId < 2 ^ 24 := (run_lastMarketId_le actions).trans_lt hids
    exact ih (h.step hproper.1 ((step_lastMarketId_le a).trans_lt hstep) hstep) hproper.2 hids

theorem Fresh.inv (h : s.Fresh) : Inv s := by
  have hget : ∀ t q, s.fund.getMarketInfo t q = none := fun t q => by
    rw [FundDb.getMarketInfo, h.marketInfos]
    rfl
  have hreg : ∀ market mi, ¬RegisteredAs s.fund market mi := fun market mi hmi => by
    rw [RegisteredAs, hget] at hmi
    cases hmi.1
  have hagents : ∀ p n, agentsOf s.fund p n = [] := fun p n => by
    rw [agentsOf, h.grantedMarkets]
    rfl
  refine ⟨⟨⟨fun m mi hmi => absurd hmi (hreg m mi), ?_, fun m m' mi mi' hmi => absurd hmi (hreg m mi)⟩, h.robot, ?_, ?_,
    fun p a m mi hmi => absurd hmi (hreg m mi), ?_⟩, ?_, ?_, ?_, ?_⟩
  · intro t q mi hmi
    rw [hget] at hmi
    cases hmi
  · intro p n
    rw [hagents]
    exact nodup_nil
  · intro p n _ hne
    exact absurd (hagents p n) hne
  · simp [h.configs]
  · intro id body hbody
    rw [h.orders] at hbody
    cases hbody
  · simp [h.placing]
  · simp [h.cancelling]
  · simp [h.deeds]

end Desk

/-- Whatever a call places or cancels for another user lies in a market where that user had granted its
sender, and in every market the agents are exactly those granted and not revoked since. -/
theorem agents_act_where_granted {A : Arith} {reader : ConsensusReader} {s : Desk} {actions : List DeskAction} (hfresh : s.Fresh)
    (hproper : s.ProperRun A reader actions) (hids : (s.run A reader actions).fund.lastMarketId < 2 ^ 24) :
    (∀ d ∈ (s.run A reader actions).deeds, d.Granted (s.run A reader actions).fund)
      ∧ (s.run A reader actions).GrantsExact := by
  have hinv := hfresh.inv.run hproper hids
  exact ⟨hinv.deeds, fun principal agent market mi hget => hinv.granted_iff hget principal agent⟩

/-- In every run a registered market has an id of its own, also by the three bytes that an order id keeps of it and no
later than the last one given out, and a market that waits for its tokens has none. -/
theorem market_ids_unique {A : Arith} {reader : ConsensusReader} {s : Desk} {actions : List DeskAction} (hfresh : s.Fresh)
    (hids : (s.run A reader actions).fund.lastMarketId < 2 ^ 24) :
    let db := (s.run A reader actions).fund
    (∀ market mi, RegisteredAs db market mi → 0 < mi.marketId ∧ mi.marketId ≤ db.lastMarketId) ∧
    (∀ market market' mi mi', RegisteredAs db market mi → RegisteredAs db market' mi' →
      mi.marketId % 2 ^ 24 = mi'.marketId % 2 ^ 24 → market = market') ∧
    ∀ t q mi, db.getMarketInfo t q = some mi → mi.valid = false → mi.marketId = 0 := by
  have h : MarketIds (s.run A reader actions).fund := MarketIds.run hfresh.inv.grants.toMarketIds actions
  refine ⟨h.validId, fun market market' mi mi' hmi hmi' heq => ?_, h.pendingId⟩
  have hle := (h.validId market mi hmi).2
  have hle' := (h.validId market' mi' hmi').2
  exact h.unique market market' mi mi' hmi hmi' (by omega)

section Sample

/-- User 1 owns the tokens 8 and 9 and can pay for their markets; token 7 is a quote token. -/
def sampleDesk : Desk where
  fund :=
    { heightPoint := ⟨12⟩
      dexTimestamp := 1600000000
      accounts := (Store.empty.set (accountKey 1 viteTokenId) { available := 2 * newMarketFeeAmount }).set (accountKey 1 9)
        { available := 10 ^ 21 }
      tokenInfos := ((Store.empty.set 7 { decimals := 18, owner := 3, quoteTokenType := some .vite }).set 8
        { decimals := 18, owner := 1 }).set 9 { decimals := 18, owner := 1 } }
  trade := { heightPoint := ⟨12⟩ }

theorem sampleDesk_fresh : sampleDesk.Fresh := ⟨rfl, rfl, rfl, rfl, rfl, rfl, rfl, rfl⟩

def sampleSale : ParamPlaceOrder :=
  { tradeToken := 9, quoteToken := 7, side := true, orderType := .limited, price := Bytes.ofNat 10 (2 ^ 40),
    quantity := 2 * 10 ^ 20 }

/-- User 1 opens two markets, grants user 2 in the market of the granted token and sells token 9; user 2
cancels the sale in the granted market's name. -/
def sampleOpening (granted : TokenId) : List DeskAction :=
  [.openNewMarket 1 ⟨8, 7⟩, .openNewMarket 1 ⟨9, 7⟩, .deliverSync 0, .deliverSync 0,
    .configMarketAgents 1 ⟨.grantAgent, 2, [granted], [7]⟩, .placeOrder 1 sampleSale 5, .deliverPlace 0 sampleHash,
    .cancelOrderBySendHash 2 ⟨5, 1, granted, 7⟩]

/-- The desk after the cancellation of user 2. -/
def sampleCancelled (granted : TokenId) : Desk :=
  sampleDesk.run goArith (.daily 0) (sampleOpening granted ++ [.deliverCancel 0])

/-- The markets of the cancellations under way are those of their orders. -/
def Desk.namesMarkets (s : Desk) : Bool :=
  s.cancelling.all fun call => (orderOfHash s.trade call.param.sendHash).all fun o =>
    (s.fund.getMarketInfo call.param.tradeToken call.param.quoteToken).any fun mi => mi.valid && mi.marketId == o.marketId

theorem belongsTo_of_any {db : FundDb} {o : Order} {t q : TokenId}
    (h : (db.getMarketInfo t q).any (fun mi => mi.valid && mi.marketId == o.marketId) = true) : BelongsTo db o (t, q) := by
  simpa [BelongsTo, RegisteredAs, Option.any_eq_true, and_assoc] using h

theorem Desk.proper_of_namesMarkets {s : Desk} (h : s.namesMarkets = true) (i : ℕ) : s.Proper (.deliverCancel i) := by
  intro call o hcall _ ho
  have hall := all_eq_true.1 h call (mem_of_getElem? hcall)
  rw [ho] at hall
  exact belongsTo_of_any hall

theorem market_ids_unique_two : let db := (sampleDesk.run goArith (.daily 0) ((sampleOpening 8).take 2)).fund
    db.lastMarketId = 2 ∧ ∀ mi, RegisteredAs db (9, 7) mi → 0 < mi.marketId ∧ mi.marketId ≤ 2 :=
  ⟨by decide +kernel, (market_ids_unique sampleDesk_fresh (by decide +kernel)).1 (9, 7)⟩

theorem agents_act_where_granted_cancel : ∃ d ∈ (sampleCancelled 9).deeds, d.order.address ≠ d.sender
    ∧ d.Granted (sampleCancelled 9).fund := by
  have hproper : sampleDesk.ProperRun goArith (.daily 0) (sampleOpening 9 ++ [.deliverCancel 0]) := by
    refine ⟨trivial, trivial, trivial, trivial, ?_, trivial, trivial, trivial, ?_, trivial⟩
    · unfold Desk.Proper
      decide +kernel
    · exact proper_of_namesMarkets (by decide +kernel) 0
  have hall := (agents_act_where_granted sampleDesk_fresh hproper (by decide +kernel)).1
  obtain ⟨d, hd, hne⟩ : ∃ d ∈ (sampleCancelled 9).deeds, d.order.address ≠ d.sender := by decide +kernel
  exact ⟨d, hd, hne, hall d hd⟩

/-- User 2, granted in the market of token 8 only, cancels an order in the market of token 9. -/
theorem agents_act_where_not_granted : sampleDesk.Fresh ∧ (sampleCancelled 8).fund.lastMarketId < 2 ^ 24
    ∧ ∃ d ∈ (sampleCancelled 8).deeds, ¬d.Granted (sampleCancelled 8).fund := by
  refine ⟨sampleDesk_fresh, by decide +kernel, ?_⟩
  obtain ⟨d, hd, hne, hnone, hmarket⟩ : ∃ d ∈ (sampleCancelled 8).deeds, d.order.address ≠ d.sender
      ∧ lastConfig d.configs d.order.address d.sender (9, 7) = none
      ∧ ((sampleCancelled 8).fund.getMarketInfo 9 7).any (fun mi => mi.valid && mi.marketId == d.order.marketId) = true := by
    decide +kernel
  refine ⟨d, hd, ?_⟩
  rintro (hown | ⟨-, hgrant⟩)
  · exact hne hown
  · have := hgrant (9, 7) (belongsTo_of_any hmarket)
    rw [hnone] at this
    cases this

end Sample

end GoVite.Dex

import GoVite.Proofs.Asset.TokenSupplies

/-! The asset contract among the accounts that hold its tokens. What they hold and what is under way is at most the
supply of a token, so that no call carries more. -/

namespace GoVite.Asset
open ByteString KeyStore AccountBlocks List Option Store AssetDb World

/-- The contract, what the other accounts hold of each token, and the calls of the contract and the sends to accounts that
have not been received. -/
structure Ledger where
  world : World
  holdings : Store (Address ×ₗ TokenTypeId) ℕ
  calls : List (Bool × SendBlock)
  sends : List SendReward

inductive Event
  | call (isEarth : Bool) (sendBlock : SendBlock)
  | send (source : Address) (send : SendReward)
  /-- what is paid for a block is gone -/
  | fee (source : Address) (tokenId : TokenTypeId) (amount : ℕ)
  | accept (send : SendReward)
  | receive (r : Receive)

namespace Ledger

/-- An account cannot send more than it holds. -/
def pay (l : Ledger) (source : Address) (tokenId : TokenTypeId) (amount : ℕ) : Option Ledger :=
  let held := l.holdings.getD (toLex (source, tokenId)) 0
  if amount ≤ held then some { l with holdings := l.holdings.set (toLex (source, tokenId)) (held - amount) } else none

section
variable (newTokenID : Address → ℕ → Hash → TokenTypeId) (dataHash : String → Hash)

/-- What the contract sends when it receives a call; what came with one that fails goes back. -/
def answer (w : World) (r : Receive) : List SendReward :=
  match doReceive newTokenID dataHash (w.db.addBalance r.sendBlock.tokenId r.sendBlock.amount) r.height r.isEarth
    r.sendBlock with
  | .error _ => [⟨r.sendBlock.accountAddress, r.sendBlock.amount, r.sendBlock.tokenId⟩]
  | .ok (_, rewards) => rewards

def receive (l : Ledger) (r : Receive) : Ledger :=
  { l with
    world := l.world.step newTokenID dataHash r
    calls := l.calls.erase (r.sentAfterEarth, r.sendBlock)
    sends := l.sends ++ answer newTokenID dataHash l.world r }

/-- The ledger after an event; none if it cannot happen. -/
def step (l : Ledger) : Event → Option Ledger
  | .call isEarth sendBlock =>
    if doSend sendBlock isEarth = .ok () then
      (l.pay sendBlock.accountAddress sendBlock.tokenId sendBlock.amount).map fun l =>
        { l with calls := l.calls ++ [(isEarth, sendBlock)] }
    else none
  | .send source send => (l.pay source send.tokenId send.amount).map fun l => { l with sends := l.sends ++ [send] }
  | .fee source tokenId amount => l.pay source tokenId amount
  | .accept send =>
    if send ∈ l.sends then
      let key := toLex (send.toAddress, send.tokenId)
      some { l with holdings := l.holdings.set key (l.holdings.getD key 0 + send.amount), sends := l.sends.erase send }
    else none
  | .receive r => if (r.sentAfterEarth, r.sendBlock) ∈ l.calls then some (l.receive newTokenID dataHash r) else none

end

/-- All there is of a token outside the records. -/
def held (l : Ledger) (t : TokenTypeId) : ℕ :=
  heldOf l.holdings t + amountOf (fun c : Bool × SendBlock => c.2.tokenId) (·.2.amount) l.calls t +
    amountOf SendReward.tokenId SendReward.amount l.sends t + l.world.db.balances.getD t 0

end Ledger

variable {newTokenID : Address → ℕ → Hash → TokenTypeId} {dataHash : String → Hash} {g : Genesis dataHash} {l l' : Ledger}
  {w : World} {r : Receive} {t : TokenTypeId}

def Genesis.ledger (g : Genesis dataHash) : Ledger := ⟨g.world, g.holdings, [], []⟩

variable (newTokenID dataHash l) in
inductive Reaches : Ledger → Prop
  | refl : Reaches l
  | step {l' l'' : Ledger} {e : Event} : Reaches l' → l'.step newTokenID dataHash e = some l'' →
      Reaches l''

structure Circulates (g : Genesis dataHash) (l : Ledger) : Prop where
  sound : Sound g l.world
  checked : ∀ c ∈ l.calls, doSend c.2 c.1 = .ok ()
  held_le : ∀ t, l.held t ≤ l.world.db.supplyOf t

theorem heldOf_set (holdings : Store (Address ×ₗ TokenTypeId) ℕ) (a : Address) (t' : TokenTypeId) (amount : ℕ) :
    heldOf (holdings.set (toLex (a, t')) amount) t + (if t' = t then holdings.getD (toLex (a, t')) 0 else 0) =
      heldOf holdings t + if t' = t then amount else 0 :=
  holdings.sum_set_getD (toLex (a, t')) amount 0 (fun k amount => if (ofLex k).2 = t then amount else 0) (ite_self 0)

theorem Ledger.pay_ok {a : Address} {t' : TokenTypeId} {amount : ℕ} (h : l.pay a t' amount = some l') : ∃ holdings,
    l' = { l with holdings } ∧ ∀ t, heldOf holdings t + (if t' = t then amount else 0) = heldOf l.holdings t := by
  obtain ⟨hle, rfl⟩ := ite_some_none_eq_some.1 h
  refine ⟨_, rfl, fun t => ?_⟩
  have hset := heldOf_set (t := t) l.holdings a t' (l.holdings.getD (toLex (a, t')) 0 - amount)
  split_ifs at hset ⊢ <;> omega

theorem amountOf_erase {α : Type} [BEq α] [LawfulBEq α] (tokenId : α → TokenTypeId) (amount : α → ℕ) {x : α}
    {xs : List α} (h : x ∈ xs) (t : TokenTypeId) : amountOf tokenId amount xs t =
      (if tokenId x = t then amount x else 0) + amountOf tokenId amount (xs.erase x) t := by
  rw [amountOf, ((perm_cons_erase h).map _).sum_eq, map_cons, sum_cons]
  rfl

@[simp] theorem amountOf_singleton {α : Type} (tokenId : α → TokenTypeId) (amount : α → ℕ) (x : α) (t : TokenTypeId) :
    amountOf tokenId amount [x] t = if tokenId x = t then amount x else 0 := by simp [amountOf]

/-- The supply is what there was and was sent out, and not burned. -/
theorem Supplies.supplyOf_eq (hs : Supplies g w) (t : TokenTypeId) :
    w.db.supplyOf t + w.burned t = g.supply t + w.sentOut t := by
  unfold supplyOf
  cases hget : w.db.tokenInfos.get? t with
  | none =>
    obtain ⟨hsent, hburned⟩ := hs.unknown t hget
    rw [hsent, hburned]
    rfl
  | some info => exact hs.balanced t info hget

/-- The contract keeps what comes with a call, unless it is burned. -/
theorem Effect.balances {db db' : AssetDb} {sendBlock : SendBlock} {rewards : List SendReward}
    (he : Effect dataHash (db.addBalance sendBlock.tokenId sendBlock.amount) sendBlock db' rewards) (t : TokenTypeId) :
    db'.balances.getD t 0 + amountOf SendBlock.tokenId SendBlock.amount (burnsOf sendBlock) t =
      db.balances.getD t 0 + if sendBlock.tokenId = t then sendBlock.amount else 0 := by
  have hcredit : (db.addBalance sendBlock.tokenId sendBlock.amount).balances.getD t 0 =
      db.balances.getD t 0 + if sendBlock.tokenId = t then sendBlock.amount else 0 := by
    rw [addBalance, getD_set]
    by_cases ht : sendBlock.tokenId = t
    · rw [if_pos ht.symm, if_pos ht, ht]
    · rw [if_neg (Ne.symm ht), if_neg ht, Nat.add_zero]
  have hnone : burnsOf sendBlock = [] → amountOf SendBlock.tokenId SendBlock.amount (burnsOf sendBlock) t = 0 := fun h => by
    rw [h]
    rfl
  cases he with
  | issue hreq _ _ _ _ hbalances | transferOwnership hreq _ _ _ _ _ hbalances =>
    rw [hnone (by simp [burnsOf, hreq]), hbalances, hcredit, Nat.add_zero]
  | reIssue hreq | disableReIssue hreq =>
    rw [hnone (by simp [burnsOf, hreq]), ← hcredit]
    rfl
  | burn hreq _ hsub =>
    obtain ⟨hle, hdb⟩ := ite_some_none_eq_some.1 hsub
    have hburns : burnsOf sendBlock = [sendBlock] := by simp [burnsOf, hreq]
    rw [hburns, amountOf_singleton, ← hcredit, ← hdb]
    simp only [setToken, getD_set]
    by_cases ht : sendBlock.tokenId = t
    · rw [if_pos ht.symm, if_pos ht, ← ht]
      exact Nat.sub_add_cancel hle
    · rw [if_neg (Ne.symm ht), if_neg ht, Nat.add_zero]

/-- An event of other accounts makes nothing more of a token; the contract changes when it receives a call that was sent. -/
theorem Ledger.step_cases {e : Event} (h : l.step newTokenID dataHash e = some l') :
    (l'.world = l.world ∧ (∀ c ∈ l'.calls, c ∈ l.calls ∨ doSend c.2 c.1 = .ok ()) ∧ ∀ t, l'.held t ≤ l.held t) ∨
      ∃ r, (r.sentAfterEarth, r.sendBlock) ∈ l.calls ∧ l' = l.receive newTokenID dataHash r := by
  cases e with
  | call isEarth sendBlock =>
    obtain ⟨hcheck, h⟩ := ite_none_right_eq_some.1 h
    obtain ⟨_, hpay, rfl⟩ := map_eq_some_iff.1 h
    obtain ⟨holdings, rfl, hheld⟩ := pay_ok hpay
    refine .inl ⟨rfl, fun c hc => (mem_append.1 hc).imp_right fun hc => ?_, fun t => ?_⟩
    · rw [mem_singleton.1 hc]
      exact hcheck
    · simp only [held, amountOf_append, amountOf_singleton, ← hheld t]
      omega
  | send source send =>
    obtain ⟨_, hpay, rfl⟩ := map_eq_some_iff.1 h
    obtain ⟨holdings, rfl, hheld⟩ := pay_ok hpay
    refine .inl ⟨rfl, fun _ => .inl, fun t => ?_⟩
    simp only [held, amountOf_append, amountOf_singleton, ← hheld t]
    omega
  | fee source tokenId amount =>
    obtain ⟨holdings, rfl, hheld⟩ := pay_ok h
    refine .inl ⟨rfl, fun _ => .inl, fun t => ?_⟩
    simp only [held, ← hheld t]
    omega
  | accept send =>
    obtain ⟨hmem, h⟩ := ite_none_right_eq_some.1 h
    cases h
    refine .inl ⟨rfl, fun _ => .inl, fun t => ?_⟩
    have hsends := amountOf_erase SendReward.tokenId SendReward.amount hmem t
    have hset := heldOf_set (t := t) l.holdings send.toAddress send.tokenId
      (l.holdings.getD (toLex (send.toAddress, send.tokenId)) 0 + send.amount)
    simp only [held]
    split_ifs at hsends hset <;> omega
  | receive r =>
    obtain ⟨hmem, h⟩ := ite_none_right_eq_some.1 h
    exact .inr ⟨r, hmem, (Option.some.inj h).symm⟩

namespace Circulates

theorem carried (h : Circulates g l) (hmem : (r.sentAfterEarth, r.sendBlock) ∈ l.calls) : Carried g l.world r := by
  refine ⟨h.checked _ hmem, ?_⟩
  have hcalls := amountOf_erase (fun c : Bool × SendBlock => c.2.tokenId) (·.2.amount) hmem r.sendBlock.tokenId
  have hle := h.held_le r.sendBlock.tokenId
  have hsupply := h.sound.supplies.supplyOf_eq r.sendBlock.tokenId
  unfold Ledger.held at hle
  simp only [if_true] at hcalls
  omega

theorem receive (h : Circulates g l) (hmem : (r.sentAfterEarth, r.sendBlock) ∈ l.calls) :
    Circulates g (l.receive newTokenID dataHash r) := by
  have hsound : Sound g (l.world.step newTokenID dataHash r) := h.sound.step (h.carried hmem)
  refine ⟨hsound, fun c hc => h.checked c (mem_of_mem_erase hc), fun t => ?_⟩
  have hle := h.held_le t
  have hcalls := amountOf_erase (fun c : Bool × SendBlock => c.2.tokenId) (·.2.amount) hmem t
  unfold Ledger.held at hle ⊢
  dsimp only [Ledger.receive] at hcalls ⊢
  rw [amountOf_append]
  cases hreceive : doReceive newTokenID dataHash (l.world.db.addBalance r.sendBlock.tokenId r.sendBlock.amount) r.height
      r.isEarth r.sendBlock with
  | error e =>
    rw [World.step, Ledger.answer, hreceive]
    simp only [amountOf_singleton]
    omega
  | ok receipt =>
    obtain ⟨db', rewards⟩ := receipt
    have hbalances := (effect_of_doReceive hreceive).balances t
    have hbefore := h.sound.supplies.supplyOf_eq t
    have hafter := hsound.supplies.supplyOf_eq t
    rw [World.step, hreceive] at hafter
    rw [World.step, Ledger.answer, hreceive]
    simp only [World.burned, World.sentOut, amountOf_append] at hbefore hafter ⊢
    omega

theorem step {e : Event} (h : Circulates g l) (hstep : l.step newTokenID dataHash e = some l') : Circulates g l' := by
  rcases Ledger.step_cases hstep with ⟨hworld, hcalls, hheld⟩ | ⟨r, hmem, rfl⟩
  · refine ⟨?_, fun c hc => (hcalls c hc).elim (h.checked c) id, fun t => ?_⟩ <;> rw [hworld]
    · exact h.sound
    · exact (hheld t).trans (h.held_le t)
  · exact h.receive hmem

theorem genesis (g : Genesis dataHash) : Circulates g g.ledger := by
  refine ⟨sound_genesis g, fun _ hc => (by cases hc), fun t => ?_⟩
  simpa [Ledger.held, Genesis.ledger, Genesis.world, amountOf] using g.held_le t

theorem reaches (h : Circulates g l) (hrun : Reaches newTokenID dataHash l l') : Circulates g l' := by
  induction hrun with
  | refl => exact h
  | step _ hstep ih => exact ih.step hstep

end Circulates

/-- Every state of a run is consistent, and from there on a token that cannot be reissued never grows. -/
theorem token_records_consistent {l : Ledger} (h : Reaches newTokenID dataHash g.ledger l) :
    Consistent g l.world ∧ ∀ t info l', l.world.db.tokenInfos.get? t = some info → info.isReIssuable = false →
      Reaches newTokenID dataHash l l' → ∃ info', l'.world.db.tokenInfos.get? t = some info' ∧
        info'.isReIssuable = false ∧ info'.totalSupply ≤ info.totalSupply := by
  have hs := (Circulates.genesis g).reaches h
  refine ⟨hs.sound.consistent, fun t info l' hget hre hrun => ?_⟩
  induction hrun with
  | refl => exact ⟨info, hget, hre, le_rfl⟩
  | @step l₁ l₂ e hrun hstep ih =>
    obtain ⟨info', hget', hre', hle⟩ := ih
    obtain ⟨hworld, -⟩ | ⟨r, hmem, rfl⟩ := Ledger.step_cases hstep
    · rw [hworld]
      exact ⟨info', hget', hre', hle⟩
    · have hs₁ := hs.reaches hrun
      obtain ⟨last, hlast, hfixed, hle'⟩ := fixed_step newTokenID hs₁.sound.supplies (hs₁.carried hmem) hget' hre'
      exact ⟨last, hlast, hfixed, hle'.trans hle⟩

/-! A token issued, given to another account, burned in part and handed over -/

def noTokens (dataHash : String → Hash) : Genesis dataHash where
  db := ⟨.empty, .empty, .empty, .empty⟩
  holdings := .empty
  held_le _ := le_rfl
  supply_lt t info h := by cases h
  supply_le t info h := by cases h
  index_lt t info h := by cases h
  index_unique t t' info info' h := by cases h
  no_lists a := rfl

def coin : TokenTypeId := Bytes.ofNat 10 7
def minter : Address := Bytes.ofNat 21 1
def heir : Address := Bytes.ofNat 21 2

def coinId (_ : Address) (_ : ℕ) (_ : Hash) : TokenTypeId := coin
def coinHash (_ : String) : Hash := zeroHash

def issueCoin : SendBlock := ⟨minter, zeroHash, zeroTokenId, 0, .issue ⟨"Coin", "COIN", 10, 0, 20, false, true⟩⟩
def burnCoins : SendBlock := ⟨heir, zeroHash, coin, 4, .burn⟩
def handOver : SendBlock := ⟨minter, zeroHash, zeroTokenId, 0, .transferOwnership coin heir⟩

def coinEvents : List Event :=
  [.call true issueCoin, .receive ⟨1, true, true, issueCoin⟩, .accept ⟨minter, 10, coin⟩, .send minter ⟨heir, 6, coin⟩,
    .accept ⟨heir, 6, coin⟩, .call true burnCoins, .call true handOver, .receive ⟨2, true, true, burnCoins⟩,
    .receive ⟨3, true, true, handOver⟩]

theorem Reaches.foldlM {events : List Event} (h : Reaches newTokenID dataHash l l')
    {l'' : Ledger} (hrun : events.foldlM (Ledger.step newTokenID dataHash) l' = some l'') :
    Reaches newTokenID dataHash l l'' := by
  induction events generalizing l' with
  | nil =>
    cases hrun
    exact h
  | cons e events ih =>
    obtain ⟨next, hstep, hrun⟩ := Option.bind_eq_some_iff.1 hrun
    exact ih (h.step hstep) hrun

theorem token_records_consistent_coin : ∃ l,
    coinEvents.foldlM (Ledger.step coinId coinHash) (noTokens coinHash).ledger = some l ∧
      (l.world.db.tokenInfos.get? coin).map (fun info => (info.owner, info.totalSupply)) = some (heir, 6) ∧
      Consistent (noTokens coinHash) l.world := by
  have hcoin : ((coinEvents.foldlM (Ledger.step coinId coinHash) (noTokens coinHash).ledger).bind fun l =>
      (l.world.db.tokenInfos.get? coin).map fun info => (info.owner, info.totalSupply)) = some (heir, 6) := by
    decide +kernel
  obtain ⟨l, hrun, hcoin⟩ := Option.bind_eq_some_iff.1 hcoin
  exact ⟨l, hrun, hcoin, (token_records_consistent (Reaches.refl.foldlM hrun)).1⟩

end GoVite.Asset

import GoVite.Spec.Asset.Tokens
import GoVite.Lib.Except

/-! The records of the asset contract in every run: supplies, indexes and the id lists of the owners. -/

namespace GoVite.Asset
open ByteString KeyStore AccountBlocks Packed List Option Store AssetDb ParamIssue

/-- A receive of the contract: the height of its block, the upgrades in force when the call was sent and when it is
received, and the call. -/
structure Receive where
  height : ℕ
  sentAfterEarth : Bool
  isEarth : Bool
  sendBlock : SendBlock

/-- The contract with what it has sent out and the calls that burned so far. -/
structure World where
  db : AssetDb
  rewards : List SendReward
  burns : List SendBlock

open World

/-- All that a list of blocks carries of a token. -/
def amountOf {α : Type} (tokenId : α → TokenTypeId) (amount : α → ℕ) (l : List α) (t : TokenTypeId) : ℕ :=
  (l.map fun b => if tokenId b = t then amount b else 0).sum

namespace World

def sentOut (w : World) : TokenTypeId → ℕ := amountOf SendReward.tokenId SendReward.amount w.rewards

def burned (w : World) : TokenTypeId → ℕ := amountOf SendBlock.tokenId SendBlock.amount w.burns

end World

def burnsOf (sendBlock : SendBlock) : List SendBlock :=
  match sendBlock.request with
  | .burn => [sendBlock]
  | _ => []

section
variable (newTokenID : Address → ℕ → Hash → TokenTypeId) (dataHash : String → Hash)

/-- What the call carries is credited before it is handled; a call that fails is refunded and leaves nothing. -/
def World.step (w : World) (r : Receive) : World :=
  match doReceive newTokenID dataHash (w.db.addBalance r.sendBlock.tokenId r.sendBlock.amount) r.height r.isEarth
    r.sendBlock with
  | .error _ => w
  | .ok (db, rewards) => ⟨db, w.rewards ++ rewards, w.burns ++ burnsOf r.sendBlock⟩

/-- What a record says there is of a token. -/
def AssetDb.supplyOf (db : AssetDb) (t : TokenTypeId) : ℕ := ((db.tokenInfos.get? t).map (·.totalSupply)).getD 0

/-- What some accounts hold of a token. -/
def heldOf (holdings : Store (Address ×ₗ TokenTypeId) ℕ) (t : TokenTypeId) : ℕ :=
  holdings.sum fun k amount => if (ofLex k).2 = t then amount else 0

/-- The storage a contract starts with: the records of the genesis block, which writes no id lists, or none at all. The
genesis block gives no more of a token to the accounts than its supply. -/
structure Genesis where
  db : AssetDb
  holdings : Store (Address ×ₗ TokenTypeId) ℕ
  held_le : ∀ t, heldOf holdings t + db.balances.getD t 0 ≤ db.supplyOf t
  supply_lt : ∀ t info, db.tokenInfos.get? t = some info → info.totalSupply < 2 ^ 256 ∧ info.maxSupply < 2 ^ 256
  supply_le : ∀ t info, db.tokenInfos.get? t = some info → info.isReIssuable → info.totalSupply ≤ info.maxSupply
  index_lt : ∀ t info, db.tokenInfos.get? t = some info → info.index < db.nextIndexes.getD (dataHash info.tokenSymbol) 0
  index_unique : ∀ t t' info info', db.tokenInfos.get? t = some info → db.tokenInfos.get? t' = some info' →
    info.tokenSymbol = info'.tokenSymbol → info.index = info'.index → t = t'
  no_lists : ∀ a, db.idList a = []

end

variable {newTokenID : Address → ℕ → Hash → TokenTypeId} {dataHash : String → Hash} {g : Genesis dataHash}

namespace Genesis

def world (g : Genesis dataHash) : World := ⟨g.db, [], []⟩

def supply (g : Genesis dataHash) : TokenTypeId → ℕ := g.db.supplyOf

end Genesis

/-- The sender's checks passed, and what the call carries is in circulation. -/
structure Carried (g : Genesis dataHash) (w : World) (r : Receive) : Prop where
  checked : doSend r.sendBlock r.sentAfterEarth = .ok ()
  circulates : w.burned r.sendBlock.tokenId + r.sendBlock.amount ≤
    g.supply r.sendBlock.tokenId + w.sentOut r.sendBlock.tokenId

/-! What a receive does -/

theorem packUint256_of_lt {n : ℕ} (h : n < 2 ^ 256) : packUint256 n = n := by
  unfold packUint256
  rw [Int.emod_eq_of_lt (by omega) (by exact_mod_cast h), Int.toNat_natCast]

/-- The storage after a receive that succeeds. -/
inductive Effect (dataHash : String → Hash) (db : AssetDb) (sendBlock : SendBlock) : AssetDb → List SendReward → Prop
  | issue {param : ParamIssue} {tokenID : TokenTypeId} {db' : AssetDb} (hreq : sendBlock.request = .issue param)
      (hfresh : db.tokenInfos.get? tokenID = none)
      (htokens : db'.tokenInfos = db.tokenInfos.set tokenID
        (param.toTokenInfo sendBlock.accountAddress (db.nextIndexes.getD (dataHash param.tokenSymbol) 0)))
      (hnext : db'.nextIndexes = db.nextIndexes.set (dataHash param.tokenSymbol)
        (db.nextIndexes.getD (dataHash param.tokenSymbol) 0 + 1))
      (hlists : db'.tokenIDLists = (db.setIDList sendBlock.accountAddress
        (appendTokenID (db.idList sendBlock.accountAddress) tokenID)).tokenIDLists)
      (hbalances : db'.balances = db.balances) :
      Effect dataHash db sendBlock db' [⟨sendBlock.accountAddress, param.totalSupply, tokenID⟩]
  | reIssue {t : TokenTypeId} {amount : ℕ} {dest : Address} {old : TokenInfo} (hreq : sendBlock.request = .reIssue t amount dest)
      (hget : db.tokenInfos.get? t = some old) (hre : old.isReIssuable = true)
      (hroom : old.totalSupply + amount ≤ old.maxSupply) :
      Effect dataHash db sendBlock (db.setToken t { old with totalSupply := packUint256 (old.totalSupply + amount) })
        [⟨dest, amount, t⟩]
  | burn {old : TokenInfo} {db₁ : AssetDb} (hreq : sendBlock.request = .burn)
      (hget : db.tokenInfos.get? sendBlock.tokenId = some old)
      (hsub : db.subBalance sendBlock.tokenId sendBlock.amount = some db₁) :
      Effect dataHash db sendBlock ({ db with balances := db₁.balances }.setToken sendBlock.tokenId
        { old with totalSupply := packUint256 (old.totalSupply - sendBlock.amount) }) []
  | transferOwnership {t : TokenTypeId} {newOwner : Address} {old : TokenInfo} {db' : AssetDb}
      (hreq : sendBlock.request = .transferOwnership t newOwner) (hget : db.tokenInfos.get? t = some old)
      (howner : old.owner = sendBlock.accountAddress)
      (htokens : db'.tokenInfos = db.tokenInfos.set t { old with owner := newOwner })
      (hnext : db'.nextIndexes = db.nextIndexes)
      (hlists : db'.tokenIDLists =
        ((db.setIDList sendBlock.accountAddress (deleteTokenID (db.idList sendBlock.accountAddress) t)).setIDList newOwner
          (appendTokenID ((db.setIDList sendBlock.accountAddress
            (deleteTokenID (db.idList sendBlock.accountAddress) t)).idList newOwner) t)).tokenIDLists)
      (hbalances : db'.balances = db.balances) : Effect dataHash db sendBlock db' []
  | disableReIssue {t : TokenTypeId} {old : TokenInfo} (hreq : sendBlock.request = .disableReIssue t)
      (hget : db.tokenInfos.get? t = some old) :
      Effect dataHash db sendBlock
        (db.setToken t { old with isReIssuable := false, maxSupply := 0, ownerBurnOnly := false }) []

variable {db' db : AssetDb} {rewards : List SendReward} {isEarth : Bool} {sendBlock : SendBlock}

theorem effect_of_doReceive {height : ℕ}
    (h : doReceive newTokenID dataHash db height isEarth sendBlock = .ok (db', rewards)) :
    Effect dataHash db sendBlock db' rewards := by
  unfold doReceive at h
  split at h
  · next param hreq =>
    dsimp only [receiveIssue] at h
    split_ifs at h with hfresh hmax
    cases h
    exact .issue hreq (by simpa using hfresh) rfl rfl rfl rfl
  · next t amount dest hreq =>
    unfold receiveReIssue at h
    split at h
    · cases h
    · next old hget =>
      split_ifs at h with hbad
      cases h
      simp only [not_or, Bool.not_eq_true', Bool.not_eq_false] at hbad
      exact .reIssue hreq hget hbad.1 (by have := hbad.2.2; omega)
  · next hreq =>
    unfold receiveBurn at h
    split at h
    · cases h
    · next old hget =>
      split_ifs at h
      cases hsub : db.subBalance sendBlock.tokenId sendBlock.amount with
      | none =>
        rw [hsub] at h
        cases h
      | some db₁ =>
        rw [hsub] at h
        have hdb₁ : db₁ = { db with balances := db₁.balances } := by
          unfold subBalance at hsub
          split_ifs at hsub
          cases hsub
          rfl
        cases h
        rw [hdb₁]
        exact .burn hreq hget hsub
  · next t newOwner hreq =>
    unfold receiveTransferOwnership at h
    split at h
    · cases h
    · next old hget =>
      split_ifs at h with hbad
      cases h
      simp only [not_or, not_not] at hbad
      exact .transferOwnership hreq hget hbad.2 rfl rfl rfl rfl
  · next t hreq =>
    unfold receiveDisableReIssue at h
    split at h
    · cases h
    · next old hget =>
      split_ifs at h with hbad
      cases h
      exact .disableReIssue hreq hget

theorem step_cases (newTokenID : Address → ℕ → Hash → TokenTypeId) (dataHash : String → Hash) (w : World) (r : Receive) :
    w.step newTokenID dataHash r = w ∨ ∃ db' rewards,
      Effect dataHash (w.db.addBalance r.sendBlock.tokenId r.sendBlock.amount) r.sendBlock db' rewards ∧
      w.step newTokenID dataHash r = ⟨db', w.rewards ++ rewards, w.burns ++ burnsOf r.sendBlock⟩ := by
  unfold step
  split
  · exact .inl rfl
  · next db' rewards h => exact .inr ⟨db', rewards, effect_of_doReceive h, rfl⟩

/-! Supplies -/

theorem amountOf_append {α : Type} (tokenId : α → TokenTypeId) (amount : α → ℕ) (l l' : List α) (t : TokenTypeId) :
    amountOf tokenId amount (l ++ l') t = amountOf tokenId amount l t + amountOf tokenId amount l' t := by
  simp [amountOf]

theorem checkToken_ok {param : ParamIssue} (h : checkToken param isEarth = .ok ()) :
    param.totalSupply < 2 ^ 256 ∧ param.maxSupply < 2 ^ 256 ∧ (param.isReIssuable → param.totalSupply ≤ param.maxSupply) := by
  unfold checkToken tt256m1 at h
  split_ifs at h with h1 h2 h3 h4 h5 h6 hre hmax hmax
  · exact ⟨by omega, by omega, fun _ => by omega⟩
  · exact ⟨by omega, by omega, fun hre' => absurd hre' hre⟩

structure Supplies (g : Genesis dataHash) (w : World) : Prop where
  bounded : ∀ t info, w.db.tokenInfos.get? t = some info → info.totalSupply < 2 ^ 256 ∧ info.maxSupply < 2 ^ 256
  balanced : ∀ t info, w.db.tokenInfos.get? t = some info → info.totalSupply + w.burned t = g.supply t + w.sentOut t
  capped : ∀ t info, w.db.tokenInfos.get? t = some info → info.isReIssuable → info.totalSupply ≤ info.maxSupply
  unknown : ∀ t, w.db.tokenInfos.get? t = none → g.supply t + w.sentOut t = 0 ∧ w.burned t = 0

theorem supplies_genesis (g : Genesis dataHash) : Supplies g g.world where
  bounded := g.supply_lt
  balanced t info h := by
    change g.db.tokenInfos.get? t = some info at h
    simp [Genesis.supply, supplyOf, h, burned, sentOut, Genesis.world, amountOf]
  capped := g.supply_le
  unknown t h := by
    change g.db.tokenInfos.get? t = none at h
    simp [Genesis.supply, supplyOf, h, burned, sentOut, Genesis.world, amountOf]

variable {w : World} {t : TokenTypeId} {info : TokenInfo}

/-- One record is written, and only its token is sent out or burned. -/
theorem Supplies.write (hs : Supplies g w)
    {burns : List SendBlock} (htokens : db'.tokenInfos = w.db.tokenInfos.set t info)
    (hrewards : ∀ b ∈ rewards, b.tokenId = t) (hburns : ∀ b ∈ burns, b.tokenId = t)
    (hbounded : info.totalSupply < 2 ^ 256 ∧ info.maxSupply < 2 ^ 256)
    (hcapped : info.isReIssuable → info.totalSupply ≤ info.maxSupply)
    (hbalanced : info.totalSupply + (w.burned t + (burns.map (·.amount)).sum) =
      g.supply t + (w.sentOut t + (rewards.map (·.amount)).sum)) :
    Supplies g ⟨db', w.rewards ++ rewards, w.burns ++ burns⟩ := by
  have hown {α : Type} {tokenId : α → TokenTypeId} (amount : α → ℕ) {l : List α} (hl : ∀ b ∈ l, tokenId b = t) :
      amountOf tokenId amount l t = (l.map amount).sum := by
    refine congrArg List.sum (map_congr_left fun b hb => ?_)
    rw [if_pos (hl b hb)]
  have hother {α : Type} {tokenId : α → TokenTypeId} (amount : α → ℕ) {l : List α} (hl : ∀ b ∈ l, tokenId b = t)
      {t' : TokenTypeId} (ht : t' ≠ t) : amountOf tokenId amount l t' = 0 := by
    refine sum_eq_zero fun x hx => ?_
    obtain ⟨b, hb, rfl⟩ := mem_map.1 hx
    rw [if_neg (by rw [hl b hb]; exact ht.symm)]
  have hsent (t' : TokenTypeId) : sentOut ⟨db', w.rewards ++ rewards, w.burns ++ burns⟩ t' =
      w.sentOut t' + amountOf SendReward.tokenId SendReward.amount rewards t' := amountOf_append ..
  have hburned (t' : TokenTypeId) : burned ⟨db', w.rewards ++ rewards, w.burns ++ burns⟩ t' =
      w.burned t' + amountOf SendBlock.tokenId SendBlock.amount burns t' := amountOf_append ..
  constructor
  · rw [htokens]
    exact forall_set hbounded hs.bounded
  · intro t' info' hget
    rw [htokens] at hget
    rw [hsent, hburned]
    obtain ⟨rfl, rfl⟩ | ⟨ht, hget⟩ := get?_set_cases hget
    · rw [hown _ hrewards, hown _ hburns]
      exact hbalanced
    · rw [hother _ hrewards ht, hother _ hburns ht]
      exact hs.balanced t' info' hget
  · rw [htokens]
    exact forall_set hcapped hs.capped
  · intro t' hget
    rw [htokens, get?_set] at hget
    split_ifs at hget with ht
    rw [hsent, hburned, hother _ hrewards ht, hother _ hburns ht]
    exact hs.unknown t' hget

variable {r : Receive}

theorem Supplies.effect (hs : Supplies g w) (ha : Carried g w r)
    (he : Effect dataHash (w.db.addBalance r.sendBlock.tokenId r.sendBlock.amount) r.sendBlock db' rewards) :
    Supplies g ⟨db', w.rewards ++ rewards, w.burns ++ burnsOf r.sendBlock⟩ := by
  have hnone (h : r.sendBlock.request ≠ .burn) : burnsOf r.sendBlock = [] := by
    unfold burnsOf
    split
    · exact absurd ‹_› h
    · rfl
  cases he with
  | @issue param tokenID _ hreq hfresh htokens =>
    have hcheck := ha.checked
    rw [doSend, hreq] at hcheck
    dsimp only at hcheck
    split_ifs at hcheck with hamount
    obtain ⟨htotal, hmax, hle⟩ := checkToken_ok hcheck
    obtain ⟨hsent, hburned⟩ := hs.unknown tokenID hfresh
    rw [hnone (by simp [hreq])]
    refine hs.write htokens (by simp) (by simp) ?_ ?_ ?_
    · simp only [toTokenInfo, packUint256_of_lt htotal, packUint256_of_lt hmax]
      exact ⟨htotal, hmax⟩
    · simpa only [toTokenInfo, packUint256_of_lt htotal, packUint256_of_lt hmax] using hle
    · simp only [toTokenInfo, packUint256_of_lt htotal, map_nil, map_cons, sum_cons]
      omega
  | @reIssue t amount dest old hreq hget hre hroom =>
    have hold := hs.balanced t old hget
    obtain ⟨htotal, hmax⟩ := hs.bounded t old hget
    have hpack : packUint256 (old.totalSupply + amount) = old.totalSupply + amount := by
      exact_mod_cast packUint256_of_lt (by omega)
    rw [hnone (by simp [hreq])]
    refine hs.write rfl (by simp) (by simp) ?_ ?_ ?_
    · simp only [hpack]
      omega
    · simp only [hpack]
      exact fun _ => hroom
    · simp only [map_nil, map_cons, sum_cons]
      omega
  | @burn old _ hreq hget =>
    have hold := hs.balanced _ old hget
    have hcirculates := ha.circulates
    obtain ⟨htotal, hmax⟩ := hs.bounded _ old hget
    -- what is burned is part of the supply, so the difference does not wrap
    have hpack : packUint256 (old.totalSupply - r.sendBlock.amount) = old.totalSupply - r.sendBlock.amount := by
      rw [← Nat.cast_sub (by omega)]
      exact packUint256_of_lt (by omega)
    have hburns : burnsOf r.sendBlock = [r.sendBlock] := by simp [burnsOf, hreq]
    rw [hburns]
    refine hs.write rfl (by simp) (by simp) ?_ ?_ ?_
    · simp only [hpack]
      omega
    · intro hre
      have hle := hs.capped _ old hget hre
      simp only [hpack]
      omega
    · simp only [map_nil, map_cons, sum_cons]
      omega
  | @transferOwnership t newOwner old _ hreq hget howner htokens =>
    rw [hnone (by simp [hreq])]
    exact hs.write htokens (by simp) (by simp) (hs.bounded t old hget) (hs.capped t old hget)
      (by simpa using hs.balanced t old hget)
  | @disableReIssue t old hreq hget =>
    rw [hnone (by simp [hreq])]
    refine hs.write rfl (by simp) (by simp) ⟨(hs.bounded t old hget).1, by simp⟩ (by simp) ?_
    simpa using hs.balanced t old hget

/-! Indexes -/

/-- The pairs of symbol and index are below the next index of their symbol, and no two tokens share one. -/
structure Indexes (dataHash : String → Hash) (db : AssetDb) : Prop where
  lt : ∀ t info, db.tokenInfos.get? t = some info → info.index < db.nextIndexes.getD (dataHash info.tokenSymbol) 0
  unique : ∀ t t' info info', db.tokenInfos.get? t = some info → db.tokenInfos.get? t' = some info' →
    info.tokenSymbol = info'.tokenSymbol → info.index = info'.index → t = t'

theorem Indexes.write (hi : Indexes dataHash db) {old : TokenInfo}
    (hget : db.tokenInfos.get? t = some old) (htokens : db'.tokenInfos = db.tokenInfos.set t info)
    (hnext : db'.nextIndexes = db.nextIndexes) (hsymbol : info.tokenSymbol = old.tokenSymbol)
    (hindex : info.index = old.index) : Indexes dataHash db' := by
  -- every record of the new storage has its pair in the old one
  have hold {t' : TokenTypeId} {info' : TokenInfo} (h : db'.tokenInfos.get? t' = some info') :
      ∃ old', db.tokenInfos.get? t' = some old' ∧ info'.tokenSymbol = old'.tokenSymbol ∧ info'.index = old'.index := by
    rw [htokens] at h
    obtain ⟨rfl, rfl⟩ | ⟨-, h⟩ := get?_set_cases h
    · exact ⟨old, hget, hsymbol, hindex⟩
    · exact ⟨info', h, rfl, rfl⟩
  constructor
  · intro t' info' h
    obtain ⟨old', hget', hs, hx⟩ := hold h
    rw [hnext, hs, hx]
    exact hi.lt t' old' hget'
  · intro t₁ t₂ info₁ info₂ h₁ h₂ hs hx
    obtain ⟨old₁, hget₁, hs₁, hx₁⟩ := hold h₁
    obtain ⟨old₂, hget₂, hs₂, hx₂⟩ := hold h₂
    exact hi.unique t₁ t₂ old₁ old₂ hget₁ hget₂ (by rw [← hs₁, hs, hs₂]) (by rw [← hx₁, hx, hx₂])

theorem Indexes.effect (hi : Indexes dataHash db)
    (he : Effect dataHash db sendBlock db' rewards) : Indexes dataHash db' := by
  cases he with
  | @issue param tokenID _ hreq hfresh htokens hnext =>
    have hbelow (t : TokenTypeId) (info : TokenInfo) (h : db.tokenInfos.get? t = some info)
        (hs : info.tokenSymbol = param.tokenSymbol) : info.index ≠ db.nextIndexes.getD (dataHash param.tokenSymbol) 0 := by
      have hlt := hi.lt t info h
      rw [hs] at hlt
      exact hlt.ne
    constructor
    · intro t info h
      rw [htokens] at h
      rw [hnext, getD_set]
      obtain ⟨-, rfl⟩ | ⟨-, h⟩ := get?_set_cases h
      · simp [toTokenInfo]
      · have hlt := hi.lt t info h
        split_ifs with hhash
        · rw [hhash] at hlt
          omega
        · exact hlt
    · intro t t' info info' h h' hs hx
      rw [htokens] at h h'
      obtain ⟨rfl, rfl⟩ | ⟨-, h⟩ := get?_set_cases h <;> obtain ⟨rfl, rfl⟩ | ⟨-, h'⟩ := get?_set_cases h'
      · rfl
      · exact absurd hx.symm (hbelow t' info' h' hs.symm)
      · exact absurd hx (hbelow t info ‹_› hs)
      · exact hi.unique t t' info info' h h' hs hx
  | reIssue hreq hget | burn hreq hget | disableReIssue hreq hget => exact hi.write hget rfl rfl rfl rfl
  | transferOwnership hreq hget howner htokens hnext => exact hi.write hget htokens hnext rfl rfl

/-! Id lists -/

def AssetDb.owner? (db : AssetDb) (t : TokenTypeId) : Option Address := (db.tokenInfos.get? t).map (·.owner)

/-- The list of an address holds ids of tokens it owns, none twice, and every one that is not from the genesis block. -/
def Listed (g : Genesis dataHash) (db : AssetDb) (a : Address) : Prop :=
  ∃ ids : List TokenTypeId, db.idList a = pack ids ∧ ids.Nodup ∧ (∀ t ∈ ids, db.owner? t = some a) ∧
    ∀ t, db.owner? t = some a → g.db.tokenInfos.get? t = none → t ∈ ids

theorem idList_setIDList (db : AssetDb) (a b : Address) (l : Data) :
    (db.setIDList a l).idList b = if b = a then l else db.idList b := by
  unfold setIDList idList
  by_cases hl : l = []
  · simp only [hl, if_true, getD_erase]
    split_ifs <;> rfl
  · simp only [hl, if_false, getD_set]
    split_ifs <;> rfl

theorem owner?_write (htokens : db'.tokenInfos = db.tokenInfos.set t info) (t' : TokenTypeId) :
    db'.owner? t' = if t' = t then some info.owner else db.owner? t' := by
  rw [owner?, htokens, get?_set]
  split_ifs <;> rfl

variable {a : Address}

theorem Listed.congr (hl : Listed g db a) (hlist : db'.idList a = db.idList a)
    (howner : ∀ t, db'.owner? t = some a ↔ db.owner? t = some a) : Listed g db' a := by
  obtain ⟨ids, hids, hnodup, hsound, hcomplete⟩ := hl
  exact ⟨ids, hlist.trans hids, hnodup, fun t ht => (howner t).2 (hsound t ht), fun t ht => hcomplete t ((howner t).1 ht)⟩

/-- The token is new to the address and put at the end of its list. -/
theorem Listed.append (hl : Listed g db a) (hnew : db.owner? t ≠ some a)
    (hlist : db'.idList a = appendTokenID (db.idList a) t) (ht : db'.owner? t = some a)
    (howner : ∀ t', t' ≠ t → db'.owner? t' = db.owner? t') : Listed g db' a := by
  obtain ⟨ids, hids, hnodup, hsound, hcomplete⟩ := hl
  have hfresh : t ∉ ids := fun h => hnew (hsound t h)
  refine ⟨ids ++ [t], ?_, ?_, ?_, ?_⟩
  · rw [hlist, hids, appendTokenID, pack_append, pack_cons, pack_nil, append_nil]
  · rw [← concat_eq_append]
    exact hnodup.concat hfresh
  · refine forall_mem_concat.2 ⟨fun t' h => ?_, ht⟩
    rw [howner t' fun heq => hfresh (heq ▸ h)]
    exact hsound t' h
  · intro t' ht' hg
    by_cases heq : t' = t
    · simp [heq]
    · rw [howner t' heq] at ht'
      exact mem_append_left _ (hcomplete t' ht' hg)

theorem Listed.remove (hl : Listed g db a)
    (hlist : db'.idList a = deleteTokenID (db.idList a) t) (ht : db'.owner? t ≠ some a)
    (howner : ∀ t', t' ≠ t → db'.owner? t' = db.owner? t') : Listed g db' a := by
  obtain ⟨ids, hids, hnodup, hsound, hcomplete⟩ := hl
  refine ⟨ids.erase t, ?_, hnodup.erase t, ?_, ?_⟩
  · rw [hlist, hids, deleteTokenID, remove_pack (by decide)]
  · intro t' ht'
    obtain ⟨hne, hmem⟩ := (hnodup.mem_erase_iff).1 ht'
    rw [howner t' hne]
    exact hsound t' hmem
  · intro t' ht' hg
    have hne : t' ≠ t := fun heq => ht (heq ▸ ht')
    rw [howner t' hne] at ht'
    exact (hnodup.mem_erase_iff).2 ⟨hne, hcomplete t' ht' hg⟩

theorem Listed.effect (hl : ∀ a, Listed g db a) (hcheck : doSend sendBlock isEarth = .ok ())
    (he : Effect dataHash db sendBlock db' rewards) (a : Address) : Listed g db' a := by
  have hsame {t : TokenTypeId} {old info : TokenInfo} {db₂ : AssetDb} (hget : db.tokenInfos.get? t = some old)
      (htokens : db₂.tokenInfos = db.tokenInfos.set t info) (hlists : db₂.tokenIDLists = db.tokenIDLists)
      (howner : info.owner = old.owner) : Listed g db₂ a := by
    refine (hl a).congr (by rw [idList, hlists, idList]) fun t' => ?_
    rw [owner?_write htokens]
    split_ifs with ht
    · rw [ht, owner?, hget, howner, map_some]
    · rfl
  cases he with
  | @issue param tokenID _ hreq hfresh htokens hnext hlists =>
    have hlist : db'.idList a = if a = sendBlock.accountAddress then
        appendTokenID (db.idList sendBlock.accountAddress) tokenID else db.idList a := by
      rw [idList, hlists]
      exact idList_setIDList ..
    have hnone : db.owner? tokenID = none := by rw [owner?, hfresh, map_none]
    by_cases ha : a = sendBlock.accountAddress
    · subst ha
      have hnew : db.owner? tokenID ≠ some sendBlock.accountAddress := by simp [hnone]
      refine (hl _).append hnew (by rw [hlist, if_pos rfl]) ?_ fun t' ht => ?_
      · rw [owner?_write htokens, if_pos rfl]
        rfl
      · rw [owner?_write htokens, if_neg ht]
    · refine (hl a).congr (by rw [hlist, if_neg ha]) fun t' => ?_
      rw [owner?_write htokens]
      split_ifs with ht
      · rw [ht, hnone]
        simpa [toTokenInfo] using fun h => ha h.symm
      · rfl
  | reIssue hreq hget | burn hreq hget | disableReIssue hreq hget => exact hsame hget rfl rfl rfl
  | @transferOwnership t newOwner old _ hreq hget howner htokens hnext hlists =>
    have hne : newOwner ≠ sendBlock.accountAddress := by
      rw [doSend, hreq] at hcheck
      dsimp only at hcheck
      split_ifs at hcheck with hamount hsame
      exact hsame
    have hlist : db'.idList a = if a = newOwner then appendTokenID (db.idList newOwner) t else
        if a = sendBlock.accountAddress then deleteTokenID (db.idList sendBlock.accountAddress) t else db.idList a := by
      rw [idList, hlists, ← idList, idList_setIDList, idList_setIDList, idList_setIDList, if_neg hne]
    have hold : db.owner? t = some sendBlock.accountAddress := by rw [owner?, hget, map_some, howner]
    have hnew : db'.owner? t = some newOwner := by rw [owner?_write htokens, if_pos rfl]
    have hothers (t' : TokenTypeId) (ht : t' ≠ t) : db'.owner? t' = db.owner? t' := by
      rw [owner?_write htokens, if_neg ht]
    by_cases ha : a = newOwner
    · subst ha
      exact (hl a).append (by simpa [hold] using hne.symm) (by rw [hlist, if_pos rfl]) hnew hothers
    by_cases ha' : a = sendBlock.accountAddress
    · subst ha'
      exact (hl _).remove (by rw [hlist, if_neg ha, if_pos rfl]) (by simpa [hnew] using hne) hothers
    · refine (hl a).congr (by rw [hlist, if_neg ha, if_neg ha']) fun t' => ?_
      by_cases ht : t' = t
      · rw [ht, hnew, hold]
        simp [Ne.symm ha, Ne.symm ha']
      · rw [hothers t' ht]

/-! Runs -/

structure Sound (g : Genesis dataHash) (w : World) : Prop where
  supplies : Supplies g w
  indexes : Indexes dataHash w.db
  lists : ∀ a, Listed g w.db a

theorem sound_genesis (g : Genesis dataHash) : Sound g g.world where
  supplies := supplies_genesis g
  indexes := ⟨g.index_lt, g.index_unique⟩
  lists a := by
    refine ⟨[], g.no_lists a, nodup_nil, by simp, fun t ht hg => ?_⟩
    rw [owner?, show g.world.db.tokenInfos.get? t = none from hg] at ht
    cases ht

theorem Sound.step (hs : Sound g w) (ha : Carried g w r) : Sound g (w.step newTokenID dataHash r) := by
  obtain heq | ⟨db', rewards, he, heq⟩ := step_cases newTokenID dataHash w r
  · rw [heq]
    exact hs
  · rw [heq]
    -- the credit of the call touches balances only
    have hindexes : Indexes dataHash (w.db.addBalance r.sendBlock.tokenId r.sendBlock.amount) := ⟨hs.indexes.1, hs.indexes.2⟩
    have hlists (a : Address) : Listed g (w.db.addBalance r.sendBlock.tokenId r.sendBlock.amount) a := hs.lists a
    exact ⟨hs.supplies.effect ha he, hindexes.effect he, Listed.effect hlists ha.checked he⟩

/-- A token that cannot be reissued stays so, and its supply only falls. -/
theorem fixed_step (newTokenID : Address → ℕ → Hash → TokenTypeId)
    (hs : Supplies g w) (ha : Carried g w r) (hget : w.db.tokenInfos.get? t = some info)
    (hre : info.isReIssuable = false) : ∃ info', (w.step newTokenID dataHash r).db.tokenInfos.get? t = some info' ∧ info'.isReIssuable = false ∧
      info'.totalSupply ≤ info.totalSupply := by
  obtain heq | ⟨db', rewards, he, heq⟩ := step_cases newTokenID dataHash w r
  · rw [heq]
    exact ⟨info, hget, hre, le_rfl⟩
  rw [heq]
  have hwrite {t' : TokenTypeId} {new : TokenInfo} (htokens : db'.tokenInfos = w.db.tokenInfos.set t' new)
      (hnew : t = t' → new.isReIssuable = false ∧ new.totalSupply ≤ info.totalSupply) :
      ∃ info', db'.tokenInfos.get? t = some info' ∧ info'.isReIssuable = false ∧ info'.totalSupply ≤ info.totalSupply := by
    by_cases ht : t = t'
    · exact ⟨new, by rw [htokens, ht, get?_set_self], hnew ht⟩
    · exact ⟨info, by rw [htokens, get?_set_ne _ _ ht, hget], hre, le_rfl⟩
  have hsame {t' : TokenTypeId} {old : TokenInfo} (hold : w.db.tokenInfos.get? t' = some old) (ht : t = t') : old = info := by
    rw [← ht, hget] at hold
    exact (Option.some.inj hold).symm
  cases he with
  | @issue _ tokenID _ _ hfresh htokens =>
    refine hwrite htokens fun ht => ?_
    rw [ht, show w.db.tokenInfos.get? tokenID = none from hfresh] at hget
    cases hget
  | reIssue _ hold hre' =>
    refine hwrite rfl fun ht => ?_
    rw [hsame hold ht, hre] at hre'
    cases hre'
  | @burn old _ _ hold =>
    refine hwrite rfl fun ht => ?_
    obtain rfl := hsame hold ht
    have hbalanced := hs.balanced _ old hold
    have hcirculates := ha.circulates
    obtain ⟨hlt, -⟩ := hs.bounded _ old hold
    refine ⟨hre, ?_⟩
    show packUint256 _ ≤ old.totalSupply
    rw [← Nat.cast_sub (by omega), packUint256_of_lt (by omega)]
    omega
  | transferOwnership _ hold _ htokens =>
    refine hwrite htokens fun ht => ?_
    obtain rfl := hsame hold ht
    exact ⟨hre, le_rfl⟩
  | disableReIssue _ hold =>
    refine hwrite rfl fun ht => ?_
    obtain rfl := hsame hold ht
    exact ⟨rfl, le_rfl⟩

/-- Supplies, pairs of symbol and index, and id lists of one state. A token of the genesis block counts from its supply there
and enters the lists when it is first transferred. -/
structure Consistent (g : Genesis dataHash) (w : World) : Prop where
  supply : ∀ t info, w.db.tokenInfos.get? t = some info → info.totalSupply + w.burned t = g.supply t + w.sentOut t
  capped : ∀ t info, w.db.tokenInfos.get? t = some info → info.isReIssuable → info.totalSupply ≤ info.maxSupply
  pair_unique : ∀ t t' info info', w.db.tokenInfos.get? t = some info → w.db.tokenInfos.get? t' = some info' →
    info.tokenSymbol = info'.tokenSymbol → info.index = info'.index → t = t'
  listed : ∀ t info, w.db.tokenInfos.get? t = some info → g.db.tokenInfos.get? t = none →
    (w.db.tokenIDsOf info.owner).count t.toList = 1
  listed_le : ∀ a (t : TokenTypeId), (w.db.tokenIDsOf a).count t.toList ≤ 1
  unlisted : ∀ a (t : TokenTypeId), (∀ info, w.db.tokenInfos.get? t = some info → info.owner ≠ a) → (w.db.tokenIDsOf a).count t.toList = 0

theorem Sound.consistent (hs : Sound g w) : Consistent g w := by
  have hcount {a : Address} {ids : List TokenTypeId} (hids : w.db.idList a = pack ids) (t : TokenTypeId) :
      (w.db.tokenIDsOf a).count t.toList = ids.count t := by
    rw [tokenIDsOf, hids, records_pack (by decide)]
    exact count_map_of_injective _ _ Bytes.toList_injective _
  refine ⟨hs.supplies.balanced, hs.supplies.capped, hs.indexes.unique, fun t info hget hg => ?_, fun a t => ?_,
    fun a t hother => ?_⟩
  · obtain ⟨ids, hids, hnodup, -, hcomplete⟩ := hs.lists info.owner
    rw [hcount hids]
    exact count_eq_one_of_mem hnodup (hcomplete t (by rw [owner?, hget, map_some]) hg)
  · obtain ⟨ids, hids, hnodup, -⟩ := hs.lists a
    rw [hcount hids]
    exact nodup_iff_count_le_one.1 hnodup t
  · obtain ⟨ids, hids, -, hsound, -⟩ := hs.lists a
    rw [hcount hids]
    refine count_eq_zero.2 fun hmem => ?_
    obtain ⟨info, hget, howner⟩ := map_eq_some_iff.1 (hsound t hmem)
    exact hother info hget howner

end GoVite.Asset

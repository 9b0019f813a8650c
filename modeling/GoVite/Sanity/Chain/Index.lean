import GoVite.Spec.Chain.IndexDb

/-! What inserting and deleting blocks does to the records of block hashes (table 1) and of the heights confirmed (table
4), and to their caches. -/

namespace GoVite.ChainIndex
open KeyStore ChainDb Chain Option Store List

namespace Pending

def record (p : Pending) (k : DbKey) : Option (Option DbValue) := Batch.last? p.batch k

/-- The cache holds nothing about the hash of a block that the store, with the batch written, does not say. -/
def Agrees (V : Store DbKey DbValue) (p : Pending) : Prop :=
  ∀ h v, p.db.cache.get? (createAccountBlockHashKey h) = some v →
    (p.record (createAccountBlockHashKey h)).getD (V.get? (createAccountBlockHashKey h)) = some v

-- keys are told apart by their tables and fields
attribute [simp] createAccountBlockHashKey createAccountBlockHeightKey createReceiveKey createConfirmHeightKey
  createOnRoadKey createSnapshotBlockHashKey createSnapshotBlockHeightKey createAccountAddressKey createAccountIdKey

/-- What the cache of contract creations holds about a hash. -/
def creation (p : Pending) (h : Hash) : Option ℕ := p.db.sendCreateBlockHashCache.get? h

section
variable (p : Pending) (k k' : DbKey) (v : DbValue)

@[simp] theorem record_put : (p.put k v).record k' = if k = k' then some (some v) else p.record k' := by
  rw [record, put, Batch.last?_concat]
  by_cases h : k = k' <;> simp [record]

@[simp] theorem record_delete : (p.delete k).record k' = if k = k' then some none else p.record k' := by
  rw [record, delete, Batch.last?_concat]
  by_cases h : k = k' <;> simp [record]

@[simp] theorem record_putCached : (p.putCached k v).record k' = if k = k' then some (some v) else p.record k' :=
  record_put p k k' v

@[simp] theorem record_deleteCached : (p.deleteCached k).record k' = if k = k' then some none else p.record k' :=
  record_delete p k k'

theorem cache_putCached : (p.putCached k v).db.cache.get? k' = if k = k' then some v else p.db.cache.get? k' := by
  refine (get?_set p.db.cache k k' v).trans ?_
  congr 1
  exact propext eq_comm

theorem cache_deleteCached : (p.deleteCached k).db.cache.get? k' = if k = k' then none else p.db.cache.get? k' := by
  refine (get?_erase p.db.cache k k').trans ?_
  congr 1
  exact propext eq_comm

end

variable {V : Store DbKey DbValue} {p : Pending} {k : DbKey} {v : DbValue}

section
variable (h : p.Agrees V) (hk : ∀ x, k ≠ createAccountBlockHashKey x)
include h hk

theorem Agrees.put : (p.put k v).Agrees V :=
  fun x w hw => by rw [record_put, if_neg (hk x)]; exact h x w hw

theorem Agrees.delete : (p.delete k).Agrees V :=
  fun x w hw => by rw [record_delete, if_neg (hk x)]; exact h x w hw

omit hk in
theorem Agrees.putCached : (p.putCached k v).Agrees V := fun x w hw => by
  rw [cache_putCached] at hw
  rw [record_putCached]
  split_ifs at hw ⊢
  · rw [getD_some, hw]
  · exact h x w hw

omit hk in
theorem Agrees.deleteCached : (p.deleteCached k).Agrees V := fun x w hw => by
  rw [cache_deleteCached] at hw
  rw [record_deleteCached]
  split_ifs at hw ⊢
  exact h x w hw

end

/-! Insertion -/

theorem insertAccount_cases (p : Pending) (addr : Address) (Q : Pending → Prop) (h : Q p)
    (hcache : ∀ accounts, Q { p with db := { p.db with accountCache := accounts } })
    (hnew : ∀ id, Q (({ p with db := { p.db with latestAccountId := id } }.put (createAccountAddressKey addr) [id]).put
      (createAccountIdKey id) [addr])) : Q (p.insertAccount addr) := by
  unfold insertAccount
  split_ifs
  · exact h
  · exact hcache _
  · exact hnew _

@[simp] def table (k : DbKey) : ℕ := k.headD 0

theorem record_insertAccount {k : DbKey} (hk : table k < 9) (p : Pending) (addr : Address) :
    (p.insertAccount addr).record k = p.record k := by
  refine insertAccount_cases p _ (fun q => q.record k = p.record k) rfl (fun _ => rfl) fun id => ?_
  have hid : createAccountIdKey id ≠ k := fun heq => by simp [← heq] at hk
  have haddr : createAccountAddressKey addr ≠ k := fun heq => by simp [← heq] at hk
  rw [record_put, if_neg hid, record_put, if_neg haddr]
  rfl

section
variable (p : Pending) (x h : Hash) (height : ℕ) (k : DbKey) (v : DbValue)

@[simp] theorem record_insertConfirmCache : (p.insertConfirmCache h height).record = p.record := rfl

@[simp] theorem record_deleteConfirmCache : (p.deleteConfirmCache h).record = p.record := rfl

@[simp] theorem creation_put : (p.put k v).creation = p.creation := rfl

@[simp] theorem creation_putCached : (p.putCached k v).creation = p.creation := rfl

@[simp] theorem creation_delete : (p.delete k).creation = p.creation := rfl

@[simp] theorem creation_deleteCached : (p.deleteCached k).creation = p.creation := rfl

@[simp] theorem creation_insertConfirmCache :
    (p.insertConfirmCache x height).creation h = if x = h then some height else p.creation h :=
  (get?_set _ x h height).trans (if_congr eq_comm rfl rfl)

@[simp] theorem creation_deleteConfirmCache :
    (p.deleteConfirmCache x).creation h = if x = h then none else p.creation h :=
  (get?_erase _ x h).trans (if_congr eq_comm rfl rfl)

end

theorem record_hash_insertAccountBlock (p : Pending) (b : AccountBlock) (h : Hash) :
    (p.insertAccountBlock b).record (createAccountBlockHashKey h) =
      if h ∈ b.hashes then some (some [b.accountAddress, b.height]) else p.record (createAccountBlockHashKey h) := by
  have haccount := record_insertAccount (k := createAccountBlockHashKey h) (by simp) p b.accountAddress
  refine (foldl_observe (fun q : Pending => q.record (createAccountBlockHashKey h)) (fun s => s.hash = h)
    (some (some [b.accountAddress, b.height])) (fun q s => ?_) _ _).trans ?_
  · unfold insertSendBlock
    by_cases hc : s.blockType = .sendCreate <;> simp [hc]
  have hmem : h ∈ b.hashes ↔ h = b.hash ∨ ∃ s ∈ b.sendBlockList, s.hash = h := by
    simp [AccountBlock.hashes]
  by_cases hinner : ∃ s ∈ b.sendBlockList, s.hash = h
  · rw [if_pos hinner, if_pos (hmem.2 (.inr hinner))]
  · have hmem' : h ∈ b.hashes ↔ b.hash = h := by rw [hmem, or_iff_left hinner, eq_comm]
    split_ifs <;> simp_all [insertSend]

/-- The block is a contract creation with the hash, or it makes one. -/
def CreatesHash (b : AccountBlock) (h : Hash) : Prop :=
  (b.blockType = .sendCreate ∧ b.hash = h) ∨ ∃ s ∈ b.sendBlockList, s.blockType = .sendCreate ∧ s.hash = h

/-- The keys that an insertion puts without the cache. -/
inductive InsertsPlain (b : AccountBlock) : DbKey → Prop
  | height : InsertsPlain b (createAccountBlockHeightKey b.accountAddress b.height)
  | onRoad (addr : Address) (h : Hash) : InsertsPlain b (createOnRoadKey addr h)
  | address (addr : Address) : InsertsPlain b (createAccountAddressKey addr)
  | account (id : ℕ) : InsertsPlain b (createAccountIdKey id)

/-- The keys of the hashes of blocks and of receive blocks. -/
inductive CachedKey : DbKey → Prop
  | hash (h : Hash) : CachedKey (createAccountBlockHashKey h)
  | receive (h : Hash) : CachedKey (createReceiveKey h)

variable {Q : Pending → Prop} (acc : Pending × Store Hash Address) (b : AccountBlock)

section
variable
  (haccount : ∀ q id accounts, Q q → Q { q with db := { q.db with latestAccountId := id, accountCache := accounts } })
include haccount

/-- What holds before an insertion and is kept by all it writes holds after it. -/
theorem insertAccountBlock_writes (hput : ∀ q k v, InsertsPlain b k → Q q → Q (q.put k v))
    (hdelete : ∀ q addr h, Q q → Q (q.delete (createOnRoadKey addr h)))
    (hcached : ∀ q k v, CachedKey k → Q q → Q (q.putCached k v))
    (hcreate : ∀ q h, CreatesHash b h → Q q → Q (q.insertConfirmCache h 0)) (h : Q p) :
    Q (p.insertAccountBlock b) := by
  have h₀ : Q (p.insertAccount b.accountAddress) := insertAccount_cases p _ Q h (fun accounts => haccount p _ accounts h)
    fun id => hput _ _ _ (.account id) (hput _ _ _ (.address _) (haccount p id _ h))
  have h₁ := hput _ _ [b.hash] .height (hcached _ _ [b.accountAddress, b.height] (.hash b.hash) h₀)
  have hsend : ∀ q s, s ∈ b.sendBlockList → Q q → Q (insertSendBlock [b.accountAddress, b.height] q s) := by
    intro q s hs hq
    have hq' := hput _ _ [] (.onRoad s.toAddress s.hash) (hcached _ _ [b.accountAddress, b.height] (.hash s.hash)
      (hcached _ _ unreceivedFlag (.receive s.hash) hq))
    unfold insertSendBlock
    by_cases hc : s.blockType = .sendCreate
    · simpa only [hc, if_true] using hcreate _ s.hash (.inr ⟨s, hs, hc, rfl⟩) hq'
    · simpa only [hc, if_false] using hq'
  refine foldlRecOn _ _ ?_ fun q hq s hs => hsend q s hs hq
  split_ifs with hr hg hc
  · exact h₁
  · exact hdelete _ _ _ (hcached _ _ _ (.receive _) h₁)
  · exact hcreate _ _ (.inl ⟨hc, rfl⟩) (hput _ _ _ (.onRoad _ _) (hcached _ _ _ (.receive _) h₁))
  · exact hput _ _ _ (.onRoad _ _) (hcached _ _ _ (.receive _) h₁)

/-- What is kept by all writes to tables other than those of hashes and of confirmed heights. -/
theorem insertAccountBlock_induction (hput : ∀ q k v, table k ≠ 1 → table k ≠ 4 → Q q → Q (q.put k v))
    (hdelete : ∀ q k, table k ≠ 1 → table k ≠ 4 → Q q → Q (q.delete k))
    (hcached : ∀ q k v, table k ≠ 4 → Q q → Q (q.putCached k v))
    (hcreate : ∀ q h, CreatesHash b h → Q q → Q (q.insertConfirmCache h 0)) (h : Q p) :
    Q (p.insertAccountBlock b) := by
  refine insertAccountBlock_writes b haccount (fun q k v hk hq => ?_) (fun q addr h hq => ?_) (fun q k v hk hq => ?_)
    hcreate h
  · cases hk <;> exact hput _ _ _ (by simp) (by simp) hq
  · exact hdelete _ _ (by simp) (by simp) hq
  · cases hk <;> exact hcached _ _ _ (by simp) hq

end

theorem ne_of_table {k' : DbKey} (h : table k ≠ table k') : k ≠ k' := mt (congrArg table) h

theorem Agrees.insertAccountBlock (h : p.Agrees V) (b : AccountBlock) : (p.insertAccountBlock b).Agrees V :=
  insertAccountBlock_induction b (fun _ _ _ hq => hq) (fun _ _ _ hk _ hq => hq.put fun _ => ne_of_table hk)
    (fun _ _ hk _ hq => hq.delete fun _ => ne_of_table hk) (fun _ _ _ _ hq => hq.putCached) (fun _ _ _ hq => hq) h

theorem store_insertAccountBlock (p : Pending) (b : AccountBlock) : (p.insertAccountBlock b).db.store = p.db.store :=
  insertAccountBlock_induction (Q := fun q => q.db.store = p.db.store) b (fun _ _ _ hq => hq) (fun _ _ _ _ _ hq => hq)
    (fun _ _ _ _ hq => hq) (fun _ _ _ _ hq => hq) (fun _ _ _ hq => hq) rfl

theorem record_insertAccountBlock (p : Pending) (b : AccountBlock) (ht : table k = 4) :
    (p.insertAccountBlock b).record k = p.record k :=
  insertAccountBlock_induction (Q := fun q => q.record k = p.record k) b
    (fun _ _ _ hq => hq)
    (fun q _ v _ hk hq => by rw [record_put, if_neg (ne_of_table (ht ▸ hk)), hq])
    (fun q _ _ hk hq => by rw [record_delete, if_neg (ne_of_table (ht ▸ hk)), hq])
    (fun q _ v hk hq => by rw [record_putCached, if_neg (ne_of_table (ht ▸ hk)), hq])
    (fun _ _ _ hq => hq) rfl

/-- An insertion changes the cache of contract creations only at those of the block, which it makes unconfirmed. -/
theorem creations_insertAccountBlock (p : Pending) (b : AccountBlock) (h : Hash) :
    (p.insertAccountBlock b).creation h = p.creation h ∨ CreatesHash b h ∧ (p.insertAccountBlock b).creation h = some 0 := by
  refine insertAccountBlock_induction (Q := fun q => q.creation h = p.creation h ∨ CreatesHash b h ∧ q.creation h = some 0)
    b (fun _ _ _ hq => hq) (fun _ _ _ _ _ hq => hq) (fun _ _ _ _ hq => hq) (fun _ _ _ _ hq => hq)
    (fun q x hx hq => ?_) (.inl rfl)
  rw [creation_insertConfirmCache]
  split_ifs with heq
  · exact .inr ⟨heq ▸ hx, rfl⟩
  · exact hq

/-! Deletion -/

/-- The hashes whose records are deleted with a block. -/
def DeletesHash (b : AccountBlock) (h : Hash) : Prop :=
  b.hash = h ∨ (b.isReceiveBlock ∧ ∃ s ∈ b.sendBlockList, s.hash = h)

instance (b : AccountBlock) (h : Hash) : Decidable (DeletesHash b h) :=
  inferInstanceAs (Decidable (b.hash = h ∨ (b.isReceiveBlock ∧ ∃ s ∈ b.sendBlockList, s.hash = h)))

/-- The contract creations that leave the cache with a block. -/
def ForgetsHash (b : AccountBlock) (h : Hash) : Prop :=
  if b.isReceiveBlock then ∃ s ∈ b.sendBlockList, s.blockType = .sendCreate ∧ s.hash = h
  else b.blockType = .sendCreate ∧ b.hash = h

instance (b : AccountBlock) (h : Hash) : Decidable (ForgetsHash b h) :=
  inferInstanceAs (Decidable (if b.isReceiveBlock then ∃ s ∈ b.sendBlockList, s.blockType = .sendCreate ∧ s.hash = h
    else b.blockType = .sendCreate ∧ b.hash = h))

def deleteSendBlock (acc : Pending × Store Hash Address) (s : SendBlock) : Pending × Store Hash Address :=
  let p := acc.1.deleteCached (createAccountBlockHashKey s.hash)
  (if s.blockType = .sendCreate then p.deleteConfirmCache s.hash else p, acc.2.set s.hash s.toAddress)

/-- What happens to the receive information of a deleted receive block. -/
def reopen (acc : Pending × Store Hash Address) (b : AccountBlock) : Pending × Store Hash Address :=
  if (acc.2.get? b.fromBlockHash).isSome then
    (acc.1.deleteCached (createReceiveKey b.fromBlockHash), acc.2.erase b.fromBlockHash)
  else
    ((acc.1.put (createOnRoadKey b.accountAddress b.fromBlockHash) []).putCached (createReceiveKey b.fromBlockHash)
      unreceivedFlag, acc.2)

def deleteOwn (p : Pending) (b : AccountBlock) : Pending :=
  (p.deleteCached (createAccountBlockHashKey b.hash)).deleteCached
    (createAccountBlockHeightKey b.accountAddress b.height)

theorem deleteAccountBlock_eq : deleteAccountBlock acc b =
      if b.isReceiveBlock then b.sendBlockList.foldl deleteSendBlock (reopen (acc.1.deleteOwn b, acc.2) b)
      else (if b.blockType = .sendCreate then (acc.1.deleteOwn b).deleteConfirmCache b.hash else acc.1.deleteOwn b,
        acc.2.set b.hash b.toAddress) := rfl

def rollbackChunk (acc : Pending × Store Hash Address) (seg : SnapshotChunk) : Pending × Store Hash Address :=
  let acc := seg.accountBlocks.foldl deleteAccountBlock acc
  (seg.snapshotBlock.elim acc.1 acc.1.deleteSnapshotBlock, acc.2)

def closeSend (p : Pending) (e : Hash × Address) : Pending :=
  (p.delete (createOnRoadKey e.2 e.1)).deleteCached (createReceiveKey e.1)

theorem rollback_eq (p : Pending) (segs : List SnapshotChunk) :
    p.rollback segs = (segs.foldl rollbackChunk (p, .empty)).2.entries.foldl closeSend
      (segs.foldl rollbackChunk (p, .empty)).1 := rfl

section
variable (hput : ∀ q addr h, Q q → Q (q.put (createOnRoadKey addr h) []))
  (hcached : ∀ q h, Q q → Q (q.putCached (createReceiveKey h) unreceivedFlag))
  (hdelete : ∀ q k, table k ≠ 4 → Q q → Q (q.deleteCached k)) (hforget : ∀ q h, Q q → Q (q.deleteConfirmCache h))
include hput hcached hdelete hforget

/-- What holds before a deletion and is kept by all it may write holds after it. -/
theorem deleteAccountBlock_induction {acc : Pending × Store Hash Address} (h : Q acc.1) : Q (deleteAccountBlock acc b).1 := by
  have hown : Q (acc.1.deleteOwn b) := hdelete _ _ (by simp) (hdelete _ _ (by simp) h)
  have hreopen : Q (reopen (acc.1.deleteOwn b, acc.2) b).1 := by
    unfold reopen
    split_ifs
    · exact hdelete _ _ (by simp) hown
    · exact hcached _ _ (hput _ _ _ hown)
  have hsend : ∀ (acc : Pending × Store Hash Address) s, Q acc.1 → Q (deleteSendBlock acc s).1 := by
    intro acc s hq
    have hq' := hdelete _ (createAccountBlockHashKey s.hash) (by simp) hq
    unfold deleteSendBlock
    by_cases hc : s.blockType = .sendCreate
    · simpa only [hc, if_true] using hforget _ s.hash hq'
    · simpa only [hc, if_false] using hq'
  rw [deleteAccountBlock_eq]
  split_ifs
  · exact foldlRecOn (motive := fun acc => Q acc.1) _ _ hreopen
      fun acc hq s _ => hsend acc s hq
  · exact hforget _ _ hown
  · exact hown

/-- What a rollback keeps, step by step. -/
theorem rollback_induction (hroad : ∀ q addr h, Q q → Q (q.delete (createOnRoadKey addr h)))
    (hheight : ∀ q addr y, Q q → Q (q.delete (createConfirmHeightKey addr y))) (segs : List SnapshotChunk) (h : Q p) :
    Q (p.rollback segs) := by
  have hchunk : ∀ (acc : Pending × Store Hash Address) seg, Q acc.1 → Q (rollbackChunk acc seg).1 := by
    intro acc seg hq
    have hblocks : Q (seg.accountBlocks.foldl deleteAccountBlock acc).1 :=
      foldlRecOn (motive := fun acc : Pending × Store Hash Address => Q acc.1) _ _ hq
        fun _ hq b _ => deleteAccountBlock_induction b hput hcached hdelete hforget hq
    unfold rollbackChunk
    cases seg.snapshotBlock with
    | none => exact hblocks
    | some sb =>
      have hnumber : table (createSnapshotBlockHeightKey sb.height) ≠ 4 := by simp
      have hhash : table (createSnapshotBlockHashKey sb.hash) ≠ 4 := by simp
      exact foldlRecOn _ _ (hdelete _ _ hnumber (hdelete _ _ hhash hblocks)) fun q hq e _ => hheight _ _ _ hq
  refine foldlRecOn _ _ ?_ fun q hq e _ => hdelete _ _ (by simp) (hroad _ _ _ hq)
  exact foldlRecOn (motive := fun acc : Pending × Store Hash Address => Q acc.1) _ _ h
    fun acc hq seg _ => hchunk acc seg hq

end

theorem record_hash_deleteAccountBlock (h : Hash) : (deleteAccountBlock acc b).1.record (createAccountBlockHashKey h) =
      if DeletesHash b h then some none else acc.1.record (createAccountBlockHashKey h) := by
  have hown : (acc.1.deleteOwn b).record (createAccountBlockHashKey h) =
      if b.hash = h then some none else acc.1.record (createAccountBlockHashKey h) := by
    simp [deleteOwn]
  have hreopen : (reopen (acc.1.deleteOwn b, acc.2) b).1.record (createAccountBlockHashKey h) =
      (acc.1.deleteOwn b).record (createAccountBlockHashKey h) := by
    unfold reopen
    split_ifs <;> simp
  have hsend : ∀ (acc : Pending × Store Hash Address) s,
      (deleteSendBlock acc s).1.record (createAccountBlockHashKey h) =
        if s.hash = h then some none else acc.1.record (createAccountBlockHashKey h) := by
    intro acc s
    by_cases hc : s.blockType = .sendCreate <;> simp [deleteSendBlock, hc]
  rw [deleteAccountBlock_eq]
  by_cases hr : b.isReceiveBlock
  · rw [if_pos hr, foldl_observe (fun acc : Pending × Store Hash Address => acc.1.record (createAccountBlockHashKey h))
      (fun s => s.hash = h) (some none) hsend, hreopen, hown]
    by_cases h₁ : b.hash = h <;> by_cases h₂ : ∃ s ∈ b.sendBlockList, s.hash = h <;> simp [DeletesHash, hr, h₂]
  · rw [if_neg hr]
    have hiff : DeletesHash b h ↔ b.hash = h := by simp [DeletesHash, hr]
    by_cases hc : b.blockType = .sendCreate <;> simp only [hc, if_true, if_false, record_deleteConfirmCache, hown, hiff]

theorem record_deleteAccountBlock (ht : table k = 4) : (deleteAccountBlock acc b).1.record k = acc.1.record k :=
  deleteAccountBlock_induction (Q := fun q => q.record k = acc.1.record k) b
    (fun q _ _ hq => by rw [record_put, if_neg (ne_of_table (by rw [ht]; simp)), hq])
    (fun q _ hq => by rw [record_putCached, if_neg (ne_of_table (by rw [ht]; simp)), hq])
    (fun q _ hk hq => by rw [record_deleteCached, if_neg (ne_of_table (ht ▸ hk)), hq])
    (fun _ _ hq => hq) rfl

theorem creations_deleteAccountBlock (h : Hash) : (deleteAccountBlock acc b).1.creation h =
      if ForgetsHash b h then none else acc.1.creation h := by
  have hreopen : (reopen (acc.1.deleteOwn b, acc.2) b).1.creation h = acc.1.creation h := by
    unfold reopen
    split_ifs <;> simp [deleteOwn]
  have hsend : ∀ (acc : Pending × Store Hash Address) s, (deleteSendBlock acc s).1.creation h =
      if s.blockType = .sendCreate ∧ s.hash = h then none else acc.1.creation h := by
    intro acc s
    by_cases hc : s.blockType = .sendCreate <;> simp [deleteSendBlock, hc]
  rw [deleteAccountBlock_eq]
  by_cases hr : b.isReceiveBlock
  · rw [if_pos hr, foldl_observe (fun acc : Pending × Store Hash Address => acc.1.creation h)
      (fun s => s.blockType = .sendCreate ∧ s.hash = h) none hsend, hreopen]
    simp [ForgetsHash, hr]
  · by_cases hc : b.blockType = .sendCreate <;> simp [ForgetsHash, hr, hc, deleteOwn]

/-- The height of the account that the snapshot block of a chunk confirms. -/
def confirms (seg : SnapshotChunk) (addr : Address) : Option ℕ :=
  seg.snapshotBlock.bind fun sb => sb.snapshotContent.get? addr

theorem Agrees.rollback (h : p.Agrees V) (segs : List SnapshotChunk) : (p.rollback segs).Agrees V := by
  refine rollback_induction (fun q addr x hq => hq.put ?_) (fun _ _ hq => hq.putCached) (fun _ _ _ hq => hq.deleteCached)
    (fun _ _ hq => hq) (fun q addr x hq => hq.delete ?_) (fun q addr y hq => hq.delete ?_) segs h
  · exact fun _ => ne_of_table (by simp)
  · exact fun _ => ne_of_table (by simp)
  · exact fun _ => ne_of_table (by simp)

theorem store_rollback (p : Pending) (segs : List SnapshotChunk) : (p.rollback segs).db.store = p.db.store :=
  rollback_induction (Q := fun q => q.db.store = p.db.store) (fun _ _ _ hq => hq) (fun _ _ hq => hq)
    (fun _ _ _ hq => hq) (fun _ _ hq => hq) (fun _ _ _ hq => hq) (fun _ _ _ hq => hq) segs rfl

/-- An observation of a rollback, from what it is after one block, one snapshot block and one open send block. -/
theorem rollback_observe {γ : Type} (obs : Pending → γ) (Q : AccountBlock → Prop) [DecidablePred Q]
    (R : SnapshotChunk → Prop) [DecidablePred R] (v : γ)
    (hblock : ∀ acc b, obs (deleteAccountBlock acc b).1 = if Q b then v else obs acc.1)
    (hsnapshot : ∀ q seg, obs (seg.snapshotBlock.elim q q.deleteSnapshotBlock) = if R seg then v else obs q)
    (hclose : ∀ q e, obs (closeSend q e) = obs q) (segs : List SnapshotChunk) :
    obs (p.rollback segs) = if ∃ seg ∈ segs, (∃ b ∈ seg.accountBlocks, Q b) ∨ R seg then v else obs p := by
  have hchunk : ∀ (acc : Pending × Store Hash Address) seg, obs (rollbackChunk acc seg).1 =
      if (∃ b ∈ seg.accountBlocks, Q b) ∨ R seg then v else obs acc.1 := by
    intro acc seg
    rw [rollbackChunk, hsnapshot, foldl_observe (fun acc : Pending × Store Hash Address => obs acc.1) Q v hblock]
    by_cases h₁ : R seg <;> by_cases h₂ : ∃ b ∈ seg.accountBlocks, Q b <;> simp [h₂]
  have hopen : ∀ (es : List (Hash × Address)) q, obs (es.foldl closeSend q) = obs q := fun es q =>
    foldlRecOn (motive := fun q' => obs q' = obs q) es _ rfl fun q' hq e _ => (hclose q' e).trans hq
  rw [rollback_eq, hopen]
  exact foldl_observe (fun acc => obs acc.1) _ v hchunk segs (p, .empty)

theorem record_deleteHeights (hk : table k ≠ 4) (es : List (Address × ℕ)) (q : Pending) :
    (es.foldl (fun p e => p.delete (createConfirmHeightKey e.1 e.2)) q).record k = q.record k :=
  foldlRecOn (motive := fun q' : Pending => q'.record k = q.record k) es _ rfl fun q' hq e _ => by
    have hne : createConfirmHeightKey e.1 e.2 ≠ k := ne_of_table hk.symm
    rw [record_delete, if_neg hne, hq]

theorem record_hash_rollback (p : Pending) (segs : List SnapshotChunk) (h : Hash) :
    (p.rollback segs).record (createAccountBlockHashKey h) =
      if ∃ seg ∈ segs, ∃ b ∈ seg.accountBlocks, DeletesHash b h then some none
      else p.record (createAccountBlockHashKey h) := by
  have := rollback_observe (p := p) (fun q => q.record (createAccountBlockHashKey h)) (fun b => DeletesHash b h)
    (fun _ => False) (some none) (fun acc b => record_hash_deleteAccountBlock acc b h) (fun q seg => ?_) (fun q e => ?_)
    segs
  · simpa using this
  · cases seg.snapshotBlock with
    | none => simp
    | some sb =>
      rw [elim_some, deleteSnapshotBlock, record_deleteHeights (by simp)]
      simp
  · simp [closeSend]

theorem record_confirm_rollback (p : Pending) (segs : List SnapshotChunk) (addr : Address) (y : ℕ) :
    (p.rollback segs).record (createConfirmHeightKey addr y) =
      if ∃ seg ∈ segs, confirms seg addr = some y then some none else p.record (createConfirmHeightKey addr y) := by
  have := rollback_observe (p := p) (fun q => q.record (createConfirmHeightKey addr y)) (fun _ => False)
    (fun seg => confirms seg addr = some y) (some none) (fun acc b => by simpa using record_deleteAccountBlock acc b rfl) (fun q seg => ?_)
    (fun q e => ?_) segs
  · simpa using this
  · unfold confirms
    cases seg.snapshotBlock with
    | none => simp
    | some sb =>
      have hfold := foldl_observe (f := fun (p : Pending) (e : Address × ℕ) => p.delete (createConfirmHeightKey e.1 e.2))
        (fun q => q.record (createConfirmHeightKey addr y)) (fun e => e = (addr, y)) (some none)
        (fun q e => by
          rw [record_delete]
          exact if_congr (by simp [Prod.ext_iff]) rfl rfl) sb.snapshotContent.entries
      simp only [elim_some, deleteSnapshotBlock, hfold, bind_some, get?_eq_some_iff]
      simp
  · simp [closeSend]

theorem db_deleteHeights (es : List (Address × ℕ)) (q : Pending) :
    (es.foldl (fun p e => p.delete (createConfirmHeightKey e.1 e.2)) q).db = q.db :=
  foldlRecOn (motive := fun q' : Pending => q'.db = q.db) es _ rfl fun _ hq _ _ => hq

theorem creations_rollback (p : Pending) (segs : List SnapshotChunk) (h : Hash) : (p.rollback segs).creation h =
      if ∃ seg ∈ segs, ∃ b ∈ seg.accountBlocks, ForgetsHash b h then none else p.creation h := by
  have := rollback_observe (p := p) (fun q => q.creation h) (fun b => ForgetsHash b h)
    (fun _ => False) none (fun acc b => creations_deleteAccountBlock acc b h) (fun q seg => ?_) (fun q e => rfl) segs
  · simpa using this
  · cases seg.snapshotBlock with
    | none => simp
    | some sb =>
      simp only [elim_some, deleteSnapshotBlock, creation, db_deleteHeights]
      rfl

/-! Records of confirmed heights are put by snapshot blocks only -/

/-- The batch puts no record of the table of confirmed heights. -/
def PutsNoHeight (p : Pending) : Prop := ∀ k v, table k = 4 → p.record k ≠ some (some v)

section
variable (h : p.PutsNoHeight)
include h

theorem PutsNoHeight.put (hk : table k ≠ 4) : (p.put k v).PutsNoHeight := fun k' w ht => by
  rw [record_put, if_neg (ne_of_table (ht ▸ hk))]
  exact h k' w ht

theorem PutsNoHeight.delete : (p.delete k).PutsNoHeight := fun k' w ht => by
  rw [record_delete]
  split_ifs
  · simp
  · exact h k' w ht

theorem PutsNoHeight.insertAccountBlock (b : AccountBlock) : (p.insertAccountBlock b).PutsNoHeight :=
  insertAccountBlock_induction b (fun _ _ _ hq => hq) (fun _ _ _ _ hk hq => hq.put hk) (fun _ _ _ _ hq => hq.delete)
    (fun _ _ _ hk hq => hq.put hk) (fun _ _ _ hq => hq) h

theorem PutsNoHeight.rollback (segs : List SnapshotChunk) : (p.rollback segs).PutsNoHeight :=
  rollback_induction (fun _ _ _ hq => hq.put (by simp))
    (fun _ _ hq => hq.put (by simp)) (fun _ _ _ hq => hq.delete) (fun _ _ hq => hq)
    (fun _ _ _ hq => hq.delete) (fun _ _ _ hq => hq.delete) segs h

end

/-! Snapshot blocks -/

def confirmBlock (height : ℕ) (location : Hash → ℕ) (p : Pending) (b : AccountBlock) : Pending :=
  let p := p.putCached (createAccountBlockHeightKey b.accountAddress b.height) [b.hash, location b.hash]
  if b.blockType = .sendCreate then p.insertConfirmCache b.hash height else p

def putHeights (height : ℕ) (p : Pending) (content : Store Address ℕ) : Pending :=
  content.entries.foldl (fun p e => p.put (createConfirmHeightKey e.1 e.2) [height]) p

def insertSnapshot (p : Pending) (sb : SnapshotBlock) (confirmed : List AccountBlock) (location : Hash → ℕ) : Pending :=
  confirmed.foldl (confirmBlock sb.height location) (putHeights sb.height
    ((p.putCached (createSnapshotBlockHashKey sb.hash) [sb.height]).putCached
      (createSnapshotBlockHeightKey sb.height) [sb.hash, location sb.hash]) sb.snapshotContent)

/-- The keys that a snapshot block puts in the cache too. -/
inductive SnapshotKey (confirmed : List AccountBlock) : DbKey → Prop
  | hash (h : Hash) : SnapshotKey confirmed (createSnapshotBlockHashKey h)
  | height (y : ℕ) : SnapshotKey confirmed (createSnapshotBlockHeightKey y)
  | block (b : AccountBlock) (hb : b ∈ confirmed) :
    SnapshotKey confirmed (createAccountBlockHeightKey b.accountAddress b.height)

theorem SnapshotKey.table_ne {confirmed : List AccountBlock} (h : SnapshotKey confirmed k) :
    table k ≠ 1 ∧ table k ≠ 3 ∧ table k ≠ 4 ∧ table k ≠ 5 := by
  cases h <;> simp

theorem insertSnapshot_induction (sb : SnapshotBlock) (confirmed : List AccountBlock)
    (location : Hash → ℕ) (hcached : ∀ q k v, SnapshotKey confirmed k → Q q → Q (q.putCached k v))
    (hheight : ∀ q addr y, Q q → Q (q.put (createConfirmHeightKey addr y) [sb.height]))
    (hconfirm : ∀ q h, Q q → Q (q.insertConfirmCache h sb.height)) (h : Q p) :
    Q (p.insertSnapshot sb confirmed location) := by
  refine foldlRecOn _ _ ?_ fun q hq b hb => ?_
  · refine foldlRecOn _ _ ?_ fun q hq e _ => hheight q e.1 e.2 hq
    exact hcached _ _ _ (.height _) (hcached _ _ _ (.hash _) h)
  · have hput := hcached q _ [b.hash, location b.hash] (.block b hb) hq
    unfold confirmBlock
    by_cases hc : b.blockType = .sendCreate
    · simpa only [hc, if_true] using hconfirm _ b.hash hput
    · simpa only [hc, if_false] using hput

section
variable (sb : SnapshotBlock) (confirmed : List AccountBlock) (location : Hash → ℕ)

theorem Agrees.insertSnapshot (h : p.Agrees V) : (p.insertSnapshot sb confirmed location).Agrees V :=
  insertSnapshot_induction sb confirmed location (fun _ _ _ _ hq => hq.putCached)
    (fun _ _ _ hq => hq.put fun _ => ne_of_table (by simp)) (fun _ _ hq => hq) h

theorem store_insertSnapshot (p : Pending) : (p.insertSnapshot sb confirmed location).db.store = p.db.store :=
  insertSnapshot_induction (Q := fun q => q.db.store = p.db.store) sb confirmed location (fun _ _ _ _ hq => hq)
    (fun _ _ _ hq => hq) (fun _ _ hq => hq) rfl

theorem record_hash_insertSnapshot (p : Pending) (h : Hash) :
    (p.insertSnapshot sb confirmed location).record (createAccountBlockHashKey h) =
      p.record (createAccountBlockHashKey h) :=
  insertSnapshot_induction
    (Q := fun q => q.record (createAccountBlockHashKey h) = p.record (createAccountBlockHashKey h)) sb confirmed location
    (fun _ _ _ hk hq => by rw [record_putCached, if_neg (ne_of_table hk.table_ne.1), hq])
    (fun _ _ _ hq => by rw [record_put, if_neg (ne_of_table (by simp)), hq])
    (fun _ _ hq => hq) rfl

theorem keys_insertSnapshot (h : p.PutsNoHeight) {k : DbKey} {v : DbValue}
    (hk : (p.insertSnapshot sb confirmed location).record k = some (some v)) (ht : table k = 4) :
    ∃ addr y, k = createConfirmHeightKey addr y := by
  refine insertSnapshot_induction
    (Q := fun q => ∀ k v, q.record k = some (some v) → table k = 4 → ∃ addr y, k = createConfirmHeightKey addr y)
    sb confirmed location (fun q k' v' hk' hq k v hrec ht => ?_) (fun q addr y hq k v hrec ht => ?_)
    (fun _ _ hq => hq) (fun k v hrec ht => absurd hrec (h k v ht)) k v hk ht
  · rw [record_putCached, if_neg (ne_of_table (ht ▸ hk'.table_ne.2.2.1))] at hrec
    exact hq k v hrec ht
  · by_cases heq : createConfirmHeightKey addr y = k
    · exact ⟨addr, y, heq.symm⟩
    · rw [record_put, if_neg heq] at hrec
      exact hq k v hrec ht

theorem record_confirm_insertSnapshot (p : Pending) (addr : Address) (y : ℕ) :
    (p.insertSnapshot sb confirmed location).record (createConfirmHeightKey addr y) =
      if sb.snapshotContent.get? addr = some y then some (some [sb.height])
      else p.record (createConfirmHeightKey addr y) := by
  have hblocks : ∀ q : Pending, (confirmed.foldl (confirmBlock sb.height location) q).record
      (createConfirmHeightKey addr y) = q.record (createConfirmHeightKey addr y) := fun q =>
    foldlRecOn (motive := fun q' : Pending =>
      q'.record (createConfirmHeightKey addr y) = q.record (createConfirmHeightKey addr y)) confirmed _ rfl
      fun q' hq b _ => by
        rw [← hq]
        by_cases hc : b.blockType = .sendCreate <;> simp [confirmBlock, hc]
  have hfold := foldl_observe (f := fun (p : Pending) (e : Address × ℕ) => p.put (createConfirmHeightKey e.1 e.2) [sb.height])
    (fun q => q.record (createConfirmHeightKey addr y)) (fun e => e = (addr, y)) (some (some [sb.height]))
    (fun q e => by
      rw [record_put]
      exact if_congr (by simp [Prod.ext_iff]) rfl rfl) sb.snapshotContent.entries
  rw [insertSnapshot, hblocks, putHeights, hfold]
  simp only [get?_eq_some_iff]
  simp

/-- A snapshot block sets the entries of the contract creations it confirms. -/
theorem creations_insertSnapshot (p : Pending) (h : Hash) : (p.insertSnapshot sb confirmed location).creation h =
      if ∃ b ∈ confirmed, b.blockType = .sendCreate ∧ b.hash = h then some sb.height else p.creation h := by
  have hheights : ∀ q : Pending, (putHeights sb.height q sb.snapshotContent).creation h = q.creation h := fun q =>
    foldlRecOn (motive := fun q' : Pending => q'.creation h = q.creation h) _ _ rfl fun q' hq e _ => hq
  have hstep : ∀ (q : Pending) b, (confirmBlock sb.height location q b).creation h =
      if b.blockType = .sendCreate ∧ b.hash = h then some sb.height else q.creation h := by
    intro q b
    by_cases hc : b.blockType = .sendCreate <;> simp [confirmBlock, hc]
  rw [insertSnapshot, foldl_observe (fun q : Pending => q.creation h) _ _ hstep, hheights]
  rfl

end

end Pending

end GoVite.ChainIndex

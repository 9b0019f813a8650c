import GoVite.Sanity.Chain.Index

/-! What the cache in front of the index database holds: records of the hashes of blocks, receive blocks and snapshot
blocks, and the places of confirmed blocks, whose keys those of unconfirmed blocks share. -/

namespace GoVite.ChainIndex.Pending
open KeyStore ChainDb Chain

def Holds (confirmed : List AccountBlock) (k : DbKey) : Prop := CachedKey k ∨ SnapshotKey confirmed k

/-- The cache holds nothing that the store, with the batch written, does not say. -/
structure CacheOk (V : Store DbKey DbValue) (confirmed : List AccountBlock) (p : Pending) : Prop where
  agrees : ∀ k v, p.db.cache.get? k = some v → (p.record k).getD (V.get? k) = some v
  held : ∀ k v, p.db.cache.get? k = some v → Holds confirmed k

variable {V : Store DbKey DbValue} {confirmed : List AccountBlock} {p : Pending} {k : DbKey} {v : DbValue}

theorem not_holds_of_table (hk : table k = 4 ∨ table k = 5 ∨ 8 < table k) : ¬Holds confirmed k := by
  rintro (hc | hc)
  · cases hc <;> simp at hk
  · cases hc <;> simp at hk

theorem holds_height {addr : Address} {y : ℕ} (h : Holds confirmed (createAccountBlockHeightKey addr y)) :
    ∃ b ∈ confirmed, b.accountAddress = addr ∧ b.height = y := by
  rcases h with h | h
  · cases h <;> simp at hk
  · generalize hk : createAccountBlockHeightKey addr y = k at h
    cases h with
    | hash h => simp at hk
    | height y => simp at hk
    | block b hb =>
      simp only [createAccountBlockHeightKey, List.cons.injEq, and_true, true_and] at hk
      exact ⟨b, hb, hk.1.symm, hk.2.symm⟩

theorem holds_mono {confirmed' : List AccountBlock} (hsub : confirmed ⊆ confirmed') (h : Holds confirmed k) :
    Holds confirmed' k := by
  refine h.imp_right fun hkey => ?_
  cases hkey with
  | hash x => exact .hash x
  | height y => exact .height y
  | block b hb => exact .block b (hsub hb)

section
variable (h : p.CacheOk V confirmed)
include h

theorem CacheOk.put (hk : ¬Holds confirmed k) : (p.put k v).CacheOk V confirmed where
  agrees x w hw := by
    have hne : k ≠ x := fun heq => hk (heq ▸ h.held x w hw)
    rw [record_put, if_neg hne]
    exact h.agrees x w hw
  held := h.held

theorem CacheOk.delete (hk : ¬Holds confirmed k) : (p.delete k).CacheOk V confirmed where
  agrees x w hw := by
    have hne : k ≠ x := fun heq => hk (heq ▸ h.held x w hw)
    rw [record_delete, if_neg hne]
    exact h.agrees x w hw
  held := h.held

theorem CacheOk.putCached (hk : Holds confirmed k) : (p.putCached k v).CacheOk V confirmed := by
  refine ⟨fun x w hw => ?_, fun x w hw => ?_⟩
  · rw [cache_putCached] at hw
    rw [record_putCached]
    split_ifs at hw ⊢
    · rw [Option.getD_some, hw]
    · exact h.agrees x w hw
  · rw [cache_putCached] at hw
    split_ifs at hw with hx
    · exact hx ▸ hk
    · exact h.held x w hw

theorem CacheOk.deleteCached : (p.deleteCached k).CacheOk V confirmed := by
  refine ⟨fun x w hw => ?_, fun x w hw => ?_⟩
  · rw [cache_deleteCached] at hw
    rw [record_deleteCached]
    split_ifs at hw ⊢
    exact h.agrees x w hw
  · rw [cache_deleteCached] at hw
    split_ifs at hw
    exact h.held x w hw

/-- A new block is not at the height of a confirmed one. -/
theorem CacheOk.insertAccountBlock {b : AccountBlock}
    (hb : ∀ c ∈ confirmed, c.accountAddress = b.accountAddress → c.height ≠ b.height) :
    (p.insertAccountBlock b).CacheOk V confirmed := by
  refine insertAccountBlock_writes b (fun q _ _ hq => ⟨hq.agrees, hq.held⟩) (fun q k v hk hq => hq.put ?_)
    (fun q addr x hq => hq.delete (not_holds_of_table (.inr (.inl rfl)))) (fun q k v hk hq => hq.putCached (.inl hk))
    (fun q x _ hq => ⟨hq.agrees, hq.held⟩) h
  cases hk with
  | height =>
    intro hold
    obtain ⟨c, hc, haddr, hheight⟩ := holds_height hold
    exact hb c hc haddr hheight
  | onRoad addr x => exact not_holds_of_table (.inr (.inl rfl))
  | address addr | account id => exact not_holds_of_table (.inr (.inr (by simp)))

theorem CacheOk.mono {confirmed' : List AccountBlock} (hsub : confirmed ⊆ confirmed') : p.CacheOk V confirmed' :=
  ⟨h.agrees, fun k v hget => holds_mono hsub (h.held k v hget)⟩

theorem CacheOk.insertSnapshot (sb : SnapshotBlock) {new : List AccountBlock} (location : Hash → ℕ)
    (hsub : new ⊆ confirmed) : (p.insertSnapshot sb new location).CacheOk V confirmed := by
  refine insertSnapshot_induction sb new location (fun q k v hk hq => hq.putCached ?_)
    (fun q addr y hq => hq.put (not_holds_of_table (.inl rfl))) (fun q x hq => ⟨hq.agrees, hq.held⟩) h
  exact holds_mono hsub (.inr hk)

theorem CacheOk.rollback (segs : List SnapshotChunk) : (p.rollback segs).CacheOk V confirmed :=
  rollback_induction (fun _ _ _ hq => hq.put (not_holds_of_table (.inr (.inl rfl))))
    (fun _ x hq => hq.putCached (.inl (.receive x))) (fun _ _ _ hq => hq.deleteCached)
    (fun _ _ hq => ⟨hq.agrees, hq.held⟩) (fun _ _ _ hq => hq.delete (not_holds_of_table (.inr (.inl rfl))))
    (fun _ _ _ hq => hq.delete (not_holds_of_table (.inl rfl))) segs h

end

/-- The places of the blocks deleted leave the cache. -/
theorem cache_height_rollback (p : Pending) (segs : List SnapshotChunk) (addr : Address) (y : ℕ) :
    (p.rollback segs).db.cache.get? (createAccountBlockHeightKey addr y) =
      if ∃ seg ∈ segs, ∃ b ∈ seg.accountBlocks, b.accountAddress = addr ∧ b.height = y then none
      else p.db.cache.get? (createAccountBlockHeightKey addr y) := by
  set key := createAccountBlockHeightKey addr y with hkey
  have hput : ∀ (q : Pending) k v, (q.put k v).db.cache = q.db.cache := fun _ _ _ => rfl
  have hforget : ∀ (q : Pending) x, (q.deleteConfirmCache x).db.cache = q.db.cache := fun _ _ => rfl
  have hown : ∀ (q : Pending) b, (q.deleteOwn b).db.cache.get? key =
      if b.accountAddress = addr ∧ b.height = y then none else q.db.cache.get? key := fun q b => by
    simp [deleteOwn, cache_deleteCached, hkey]
  have hreopen : ∀ (acc : Pending × Store Hash Address) b, (reopen acc b).1.db.cache.get? key =
      acc.1.db.cache.get? key := fun acc b => by
    unfold reopen
    split_ifs <;> simp [cache_deleteCached, cache_putCached, hput, hkey]
  have hsend : ∀ (acc : Pending × Store Hash Address) s, (deleteSendBlock acc s).1.db.cache.get? key =
      acc.1.db.cache.get? key := fun acc s => by
    by_cases hc : s.blockType = .sendCreate <;> simp [deleteSendBlock, hc, hforget, cache_deleteCached, hkey]
  have hsends : ∀ (l : List SendBlock) (acc : Pending × Store Hash Address),
      (l.foldl deleteSendBlock acc).1.db.cache.get? key = acc.1.db.cache.get? key := fun l acc =>
    List.foldlRecOn (motive := fun acc' =>
      acc'.1.db.cache.get? key = acc.1.db.cache.get? key) l _ rfl fun acc' hq s _ => (hsend acc' s).trans hq
  have := rollback_observe (p := p) (fun q => q.db.cache.get? key) (fun b => b.accountAddress = addr ∧ b.height = y)
    (fun _ => False) none (fun acc b => ?_) (fun q seg => ?_) (fun q e => ?_) segs
  · simpa using this
  · rw [deleteAccountBlock_eq]
    by_cases hr : b.isReceiveBlock = true
    · rw [if_pos hr]
      exact (hsends _ _).trans ((hreopen _ b).trans (hown acc.1 b))
    · rw [if_neg hr]
      by_cases hc : b.blockType = .sendCreate
      · rw [if_pos hc]
        exact hown acc.1 b
      · rw [if_neg hc]
        exact hown acc.1 b
  · cases seg.snapshotBlock with
    | none => simp
    | some sb =>
      simp only [Option.elim_some, deleteSnapshotBlock, db_deleteHeights]
      simp [cache_deleteCached, hkey]
  · simp [closeSend, cache_deleteCached]
    rfl

end GoVite.ChainIndex.Pending

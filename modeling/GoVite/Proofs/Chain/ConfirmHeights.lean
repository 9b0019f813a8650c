import GoVite.Sanity.Chain.Confirmed
import GoVite.Sanity.Chain.Rollback

/-! The height of the snapshot block that confirms a block, as the index database answers it with any content of the
caches and after a restart. -/

namespace GoVite.ChainIndex
open KeyStore ChainDb Chain Ledger IndexWorld UnconfirmedBatchs Pending List Option Store Ledger Batch Except DbStore

/-- Only receive blocks have send blocks. -/
def Plain (b : AccountBlock) : Prop := b.sendBlockList ≠ [] → b.isReceiveBlock

/-- No send block creates a contract, and the height is below the end of the range that is scanned. -/
structure Scanned (b : AccountBlock) : Prop where
  noCreation : ∀ s ∈ b.sendBlockList, s.blockType ≠ .sendCreate
  height : b.height < maxUint64

/-- The database is that of the chain: what it shows now, and what is on disk after the next flush. In runs whose blocks
are all scanned (`C`) the cache of the creations is right too. -/
structure IndexInv (C : Prop) (db : IndexDb) (l : Ledger AccountBlock) : Prop where
  wellFormed : l.WellFormed id
  plain : ∀ b ∈ l.blocks, Plain b ∧ (C → Scanned b)
  view : Indexed db.store.view l.blocks l.chunks
  flushed : Indexed db.store.flushed l.chunks.flatten l.chunks
  flushing : db.store.flushingBatch = none
  batches : ∃ f, db.store.unconfirmedBatchs = ofBlocks id f l.unconfirmed ∧ ∀ b ∈ l.unconfirmed, Records b (f b)
  cache : ∀ h v, db.cache.get? (createAccountBlockHashKey h) = some v →
    db.store.view.get? (createAccountBlockHashKey h) = some v
  creations : C → ∀ h n, db.sendCreateBlockHashCache.get? h = some n →
    ∃ b ∈ l.blocks, b.hash = h ∧ (b.blockType = .sendCreate ∨ b ∈ genesisBlocks l) ∧ confirmHeight l b = n

variable {C : Prop} {db : IndexDb} {l : Ledger AccountBlock} {b : AccountBlock} {h : Hash}

theorem IndexInv.getValue (hi : IndexInv C db l) (h : Hash) : db.getValue (createAccountBlockHashKey h) =
    (db.store.view.get? (createAccountBlockHashKey h)).getD [] := by
  rw [IndexDb.getValue]
  cases hc : db.cache.get? (createAccountBlockHashKey h) with
  | none => rfl
  | some v => rw [hi.cache h v hc, some_or]

/-- The answer is the height of the snapshot block that confirms the block. -/
theorem IndexInv.getConfirmHeightByHash (hi : IndexInv C db l) (hC : C) (hb : b ∈ l.blocks)
    (hh : h ∈ b.hashes) : db.getConfirmHeightByHash h = confirmHeight l b := by
  rw [IndexDb.getConfirmHeightByHash]
  cases hcached : db.sendCreateBlockHashCache.get? h with
  | some n =>
    obtain ⟨b', hb', rfl, -, hn⟩ := hi.creations hC h n hcached
    rw [eq_of_mem_hashes hi.wellFormed.hashes hb hb' hh (mem_hashes_self b')]
    exact hn.symm
  | none =>
    have hget : db.store.view.get? (createAccountBlockHashKey h) = some [b.accountAddress, b.height] :=
      (hi.view.hash _ _).2 ⟨b, hb, hh, rfl⟩
    have haddr : db.getAddrHeightByHash h = some (b.accountAddress, b.height) := by
      rw [IndexDb.getAddrHeightByHash, hi.getValue, hget, getD_some]
    simp only [haddr]
    exact scan_eq_confirmHeight hi.wellFormed hi.view (fun b hb => ((hi.plain b hb).2 hC).height) hb

/-! Insertion -/

theorem putsNoHeight_pending (db : IndexDb) : db.pending.PutsNoHeight := fun _ _ _ => by simp [record, IndexDb.pending]

theorem records_insertAccountBlock (db : IndexDb) (b : AccountBlock) :
    Records b (db.pending.insertAccountBlock b).batch where
  hash h := record_hash_insertAccountBlock db.pending b h
  confirm _ _ := record_insertAccountBlock db.pending b rfl
  keys k v hk ht := (putsNoHeight_pending db).insertAccountBlock b k v ht hk

/-- The cache and the store agree before the first record is written, and agreement is what is wanted of the store the
batch is replayed into. -/
theorem IndexInv.agrees (hi : IndexInv C db l) : db.pending.Agrees db.store.view := hi.cache

variable {V : Store DbKey DbValue}

theorem cache_of_agrees {p : Pending} (h : p.Agrees V) (x : Hash) (v : DbValue)
    (hget : p.db.cache.get? (createAccountBlockHashKey x) = some v) :
    (replay p.batch V).get? (createAccountBlockHashKey x) = some v := by
  rw [get?_replay]
  exact h x v hget

theorem createsHash_of_scanned (hb : Scanned b) (hc : CreatesHash b h) : b.blockType = .sendCreate ∧ b.hash = h :=
  hc.resolve_right fun ⟨s, hs, hcreate, _⟩ => hb.noCreation s hs hcreate

theorem IndexInv.insert (hi : IndexInv C db l) (hw : (l.apply id (.insert b)).WellFormed id)
    (hb : Plain b ∧ (C → Scanned b)) : IndexInv C (db.insertAccountBlock b) (l.apply id (.insert b)) := by
  have hrecords := records_insertAccountBlock db b
  have hnodup := hw.hashes
  rw [blocks_insert] at hnodup
  have hnew : ∀ c ∈ l.blocks, ∀ h ∈ c.hashes, h ∉ b.hashes := fun c hc h hh hbh => by
    rw [flatMap_append] at hnodup
    exact (nodup_append.1 hnodup).2.2 h (mem_flatMap.2 ⟨c, hc, hh⟩) h (mem_flatMap.2 ⟨b, mem_singleton_self _, hbh⟩) rfl
  have hview := view_insertAccountBlock db b
  refine ⟨hw, ?_, ?_, ?_, ?_, ?_, ?_, ?_⟩
  · rw [blocks_insert]
    exact forall_mem_concat.2 ⟨hi.plain, hb⟩
  · rw [hview, blocks_insert]
    exact hi.view.insert hrecords hnew
  · rw [store_insert]
    exact hi.flushed
  · rw [store_insert]
    exact hi.flushing
  · obtain ⟨f, hf, hrec⟩ := hi.batches
    have hfresh : ∀ c ∈ l.unconfirmed, c.hash ≠ b.hash := fun c hc heq =>
      hnew c (mem_append_right _ hc) c.hash (mem_hashes_self c) (heq ▸ mem_hashes_self b)
    refine ⟨Function.update f b (db.pending.insertAccountBlock b).batch, ?_, forall_mem_concat.2 ⟨fun c hc => ?_, ?_⟩⟩
    · rw [store_insert, writeAccountBlockByHash, hf]
      dsimp only
      refine put_ofBlocks (fun hmem => ?_) _
      obtain ⟨c, hc, heq⟩ := mem_map.1 hmem
      exact hfresh c hc heq
    · rw [Function.update_of_ne (fun heq => hfresh c hc (by rw [heq]))]
      exact hrec c hc
    · rw [Function.update_self]
      exact hrecords
  · intro h v hget
    rw [hview]
    exact cache_of_agrees (hi.agrees.insertAccountBlock b) h v hget
  · intro hC h n hget
    have hold : db.sendCreateBlockHashCache.get? h = some n → ∃ c ∈ (l.apply id (.insert b)).blocks, c.hash = h ∧
        (c.blockType = .sendCreate ∨ c ∈ genesisBlocks l) ∧ confirmHeight l c = n := fun hget => by
      obtain ⟨c, hc, hcn⟩ := hi.creations hC h n hget
      exact ⟨c, by rw [blocks_insert]; exact mem_append_left _ hc, hcn⟩
    rcases creations_insertAccountBlock db.pending b h with hsame | ⟨hc, hzero⟩
    · exact hold (hsame.symm.trans hget)
    · obtain rfl := mem_unique hzero hget
      obtain ⟨hcreate, hhash⟩ := createsHash_of_scanned (hb.2 hC) hc
      have hout : b ∉ l.chunks.flatten := fun hmem =>
        hnew b (mem_append_left _ hmem) b.hash (mem_hashes_self b) (mem_hashes_self b)
      refine ⟨b, by rw [blocks_insert]; exact mem_append_right _ (mem_singleton_self _), hhash, .inl hcreate, ?_⟩
      exact if_neg hout

/-! Snapshot blocks -/

variable {i j : ℕ} {c c' : List AccountBlock}

/-- The accounts of two chunks have different contents. -/
theorem contentOf_ne (hw : l.WellFormed id) (hij : i < j)
    (hc : l.chunks[i]? = some c) (hc' : l.chunks[j]? = some c') (addr : Address) (y : ℕ)
    (hy : (contentOf c).get? addr = some y) : (contentOf c').get? addr ≠ some y := fun hy' => by
  obtain ⟨b, hb, haddr, rfl⟩ := exists_of_contentOf hy
  obtain ⟨b', hb', haddr', hheight⟩ := exists_of_contentOf hy'
  exact (hw.height_lt_of_chunks hij hc hc' hb hb' (haddr.trans haddr'.symm)).ne hheight.symm

variable {confirmed : List AccountBlock}

theorem confirmHeight_snapshot_of_mem (hw : l.WellFormed id)
    (hsub : confirmed.Sublist l.unconfirmed) (hb : b ∈ confirmed) :
    confirmHeight (l.apply id (.snapshot confirmed)) b = l.latestHeight + 1 := by
  have hout := not_mem_chunks hw (hsub.subset hb)
  have hidx : (l.chunks ++ [confirmed]).findIdx (fun c => b ∈ c) = l.chunks.length := by
    rw [findIdx_append]
    have hlen : l.chunks.findIdx (fun c => b ∈ c) = l.chunks.length := findIdx_eq_length.2 fun c hc => by
      simpa using fun hbc => hout (mem_flatten_of_mem hc hbc)
    rw [hlen]
    simp [findIdx_cons, hb]
  have hmem : b ∈ (l.chunks ++ [confirmed]).flatten := by simp [hb]
  rw [confirmHeight]
  simp only [apply, if_pos hmem, hidx, latestHeight]

/-- Chunks without the block do not matter for its height. -/
theorem confirmHeight_of_append {l' : Ledger AccountBlock} (later : List (List AccountBlock))
    (hchunks : l.chunks = l'.chunks ++ later) (hb : b ∉ later.flatten) :
    confirmHeight l b = confirmHeight l' b := by
  have hiff : b ∈ l.chunks.flatten ↔ b ∈ l'.chunks.flatten := by
    rw [hchunks, flatten_append, mem_append, or_iff_left hb]
  rw [confirmHeight, confirmHeight]
  by_cases hmem : b ∈ l'.chunks.flatten
  · obtain ⟨c, hc, hbc⟩ := mem_flatten.1 hmem
    have hlt : l'.chunks.findIdx (fun c => b ∈ c) < l'.chunks.length :=
      findIdx_lt_length_of_exists ⟨c, hc, by simpa using hbc⟩
    rw [if_pos hmem, if_pos (hiff.2 hmem), hchunks, findIdx_append, if_pos hlt]
  · rw [if_neg hmem, if_neg fun h => hmem (hiff.1 h)]

variable {db' : IndexDb}

theorem IndexInv.snapshot (hi : IndexInv C db l) {hash : Hash} {location : Hash → ℕ}
    (ha : l.Allows id (.snapshot confirmed))
    (h : db.insertSnapshotBlock ⟨hash, l.latestHeight + 1, contentOf confirmed⟩ confirmed location = .ok db') :
    IndexInv C db' (l.apply id (.snapshot confirmed)) := by
  obtain ⟨f, hf, hrec⟩ := hi.batches
  have hw := hi.wellFormed
  have hw' := hw.apply ha
  have hsub : confirmed.Sublist l.unconfirmed := ha.1
  set sb : SnapshotBlock := ⟨hash, l.latestHeight + 1, contentOf confirmed⟩ with hsb
  have hperm := mem_blocks_snapshot hw ha
  obtain ⟨store, hwrite, rfl⟩ := store_snapshot h
  obtain ⟨hseen, hflushed, hflushing, hpending⟩ :=
    writeSnapshotByHash_spec hf (nodup_hash hw.nodup_unconfirmed) hsub hwrite
  have hlast : ∀ addr y, last? (db.pending.insertSnapshot sb confirmed location).batch
      (createConfirmHeightKey addr y) =
        if (contentOf confirmed).get? addr = some y then some (some [l.chunks.length + 1]) else none :=
    fun addr y => record_confirm_insertSnapshot sb confirmed location db.pending addr y
  have hhash : ∀ x, last? (db.pending.insertSnapshot sb confirmed location).batch
      (createAccountBlockHashKey x) = none := fun x => record_hash_insertSnapshot sb confirmed location db.pending x
  have hkeys : ∀ k v, last? (db.pending.insertSnapshot sb confirmed location).batch k = some (some v) →
      table k = 4 → ∃ addr y, k = createConfirmHeightKey addr y := fun k v hk ht =>
    keys_insertSnapshot sb confirmed location (putsNoHeight_pending db) hk ht
  have hnew : ∀ c' ∈ l.chunks, ∀ addr y, (contentOf c').get? addr = some y →
      (contentOf confirmed).get? addr ≠ some y := fun c' hc' addr y hy => by
    obtain ⟨i, hi', hc'⟩ := mem_iff_getElem.1 hc'
    refine contentOf_ne hw' hi' ?_ ?_ addr y hy
    · exact getElem?_concat_eq_some.2 (.inl (by rw [getElem?_eq_getElem hi', hc']))
    · exact getElem?_concat_eq_some.2 (.inr ⟨rfl, rfl⟩)
  have hview : Indexed (replay (db.pending.insertSnapshot sb confirmed location).batch db.store.view)
      (l.apply id (.snapshot confirmed)).blocks (l.chunks ++ [confirmed]) :=
    (hi.view.snapshot hhash hlast hkeys hnew).congr hperm
  refine ⟨hw', fun b hb => hi.plain b ((hperm b).1 hb), ?_, ?_, hflushing.trans hi.flushing,
    ⟨f, hpending, fun b hb => ?_⟩, ?_, ?_⟩
  · rw [hseen]
    exact hview
  · -- the batches of the confirmed blocks come before the batch of the snapshot block
    have hconfirmed : Indexed (replay (confirmed.flatMap f) db.store.flushed) (l.chunks.flatten ++ confirmed)
        l.chunks := by
      refine hi.flushed.insertAll (fun b hb => hrec b (hsub.subset hb)) ?_
      refine hw.hashes.sublist (List.Sublist.flatMap ?_ _)
      exact (List.Sublist.refl _).append hsub
    have hall := hconfirmed.snapshot hhash hlast hkeys hnew
    have hflat : (l.apply id (.snapshot confirmed)).chunks.flatten = l.chunks.flatten ++ confirmed := by
      simp [apply]
    rw [hflat, hflushed]
    exact hall
  · exact hrec b (mem_without.1 hb).1
  · intro x v hget
    rw [hseen]
    exact cache_of_agrees (hi.agrees.insertSnapshot sb confirmed location) x v hget
  · intro hC x n hget
    have hcache := creations_insertSnapshot sb confirmed location db.pending x
    rw [show Pending.creation _ x = _ from hget] at hcache
    by_cases hc : ∃ b ∈ confirmed, b.blockType = .sendCreate ∧ b.hash = x
    · rw [if_pos hc] at hcache
      obtain ⟨b, hb, hcreate, hx⟩ := hc
      refine ⟨b, (hperm b).2 (mem_append_right _ (hsub.subset hb)), hx, .inl hcreate, ?_⟩
      rw [confirmHeight_snapshot_of_mem hw hsub hb]
      exact (Option.some.inj hcache).symm
    · rw [if_neg hc] at hcache
      obtain ⟨b, hb, hx, hkind, hn⟩ := hi.creations hC x n hcache.symm
      have hgenesis : b ∈ genesisBlocks l → b ∈ l.chunks.flatten ∧
          b ∈ genesisBlocks (l.apply id (.snapshot confirmed)) := fun hg => by
        cases hch : l.chunks with
        | nil => simp [genesisBlocks, hch] at hg
        | cons c cs => simp_all [genesisBlocks, apply]
      have hout : b ∉ confirmed := fun hmem => by
        rcases hkind with hcreate | hg
        · exact hc ⟨b, hmem, hcreate, hx⟩
        · exact not_mem_chunks hw (hsub.subset hmem) (hgenesis hg).1
      exact ⟨b, (hperm b).2 hb, hx, hkind.imp_right fun hg => (hgenesis hg).2,
        (confirmHeight_of_append [confirmed] rfl (by simpa using hout)).trans hn⟩

/-! Deletion -/

theorem deletesHash_iff (hb : Plain b) (h : Hash) : DeletesHash b h ↔ h ∈ b.hashes := by
  have hmem : h ∈ b.hashes ↔ b.hash = h ∨ ∃ s ∈ b.sendBlockList, s.hash = h := by
    simp [AccountBlock.hashes, eq_comm]
  rw [hmem]
  refine or_congr_right ⟨fun h => h.2, ?_⟩
  rintro ⟨s, hs, hh⟩
  exact ⟨hb (ne_nil_of_mem hs), s, hs, hh⟩

theorem forgetsHash_of_creation (hb : b.blockType = .sendCreate) : ForgetsHash b b.hash := by
  simp [ForgetsHash, AccountBlock.isReceiveBlock, hb]

variable {n : ℕ}

section
variable {l' : Ledger AccountBlock} {segs : List SnapshotChunk} {gone : List AccountBlock} {m : ℕ}

theorem Leaves.confirmHeight (hl : Leaves l l' gone m) (hb : b ∉ gone) : confirmHeight l b = confirmHeight l' b :=
  confirmHeight_of_append (l.chunks.drop m) (by rw [hl.chunks, take_append_drop])
    fun hmem => hb (hl.later b hmem)

/-- The batch of a rollback takes the tables of the chain to those of the chain that is left. -/
theorem Indexed.rollback {bs : List AccountBlock} (hV : Indexed V bs l.chunks)
    (hi : IndexInv C db l) (hdel : Deletes l segs gone m) (hl : Leaves l l' gone m)
    (hbs : ∀ b, b ∈ bs ↔ b ∈ l.blocks) :
    Indexed (replay (db.pending.rollback segs).batch V) l'.blocks l'.chunks := by
  rw [hl.chunks]
  refine hV.delete gone (fun h => ?_) (fun addr y => ?_) (fun k v hk ht => ?_)
    (fun b => (hbs b).trans (hl.blocks b)) (fun b hb g hg h hh hh' => ?_) fun c hc c' hc' addr y hy => ?_
  · refine (record_hash_rollback db.pending segs h).trans (if_congr ?_ rfl rfl)
    constructor
    · rintro ⟨seg, hseg, b, hb, hd⟩
      have hgone := (hdel.blocks b).1 ⟨seg, hseg, hb⟩
      exact ⟨b, hgone, (deletesHash_iff (hi.plain b (hl.gone_mem hgone)).1 h).1 hd⟩
    · rintro ⟨b, hb, hh⟩
      obtain ⟨seg, hseg, hmem⟩ := (hdel.blocks b).2 hb
      exact ⟨seg, hseg, b, hmem, (deletesHash_iff (hi.plain b (hl.gone_mem hb)).1 h).2 hh⟩
  · exact (record_confirm_rollback db.pending segs addr y).trans (if_congr (hdel.heights addr y) rfl rfl)
  · exact (putsNoHeight_pending db).rollback segs k v ht hk
  · obtain rfl := eq_of_mem_hashes hi.wellFormed.hashes (hl.kept_mem hb) (hl.gone_mem hg) hh hh'
    exact hl.disjoint b hb hg
  · obtain ⟨i, hi', rfl⟩ := mem_take_iff_getElem.1 hc
    obtain ⟨j, hj, rfl⟩ := mem_drop_iff_getElem.1 hc'
    exact contentOf_ne hi.wellFormed (by omega) (getElem?_eq_getElem _) (getElem?_eq_getElem _) addr y hy

/-- The creations that are still cached are those of blocks that stay. -/
theorem IndexInv.creations_rollback (hi : IndexInv C db l) (hC : C) (hdel : Deletes l segs gone m) (hl : Leaves l l' gone m)
    (hget : (db.pending.rollback segs).creation h = some n) :
    ∃ b ∈ l'.blocks, b.hash = h ∧ (b.blockType = .sendCreate ∨ b ∈ genesisBlocks l') ∧ confirmHeight l' b = n := by
  rw [Pending.creations_rollback] at hget
  split_ifs at hget with hforget
  obtain ⟨b, hb, rfl, hkind, hn⟩ := hi.creations hC h n hget
  have hout : b ∉ gone := fun hgone => by
    rcases hkind with hcreate | hg
    · obtain ⟨seg, hseg, hmem⟩ := (hdel.blocks b).2 hgone
      exact hforget ⟨seg, hseg, b, hmem, forgetsHash_of_creation hcreate⟩
    · exact hl.genesis.2 b hg hgone
  exact ⟨b, ((hl.blocks b).1 hb).resolve_right hout, rfl, hkind.imp_right fun hg => hl.genesis.1 ▸ hg,
    (hl.confirmHeight hout).symm.trans hn⟩

end

section
variable (hi : IndexInv C db l)
include hi

/-- A rollback leaves the database of the chain that is left, if the disk and the batches do. -/
theorem IndexInv.deleted {l' : Ledger AccountBlock} {segs : List SnapshotChunk} {gone : List AccountBlock} {m : ℕ}
    (hdel : Deletes l segs gone m) (hl : Leaves l l' gone m) (hcache : db'.cache = (db.pending.rollback segs).db.cache)
    (hcreations : db'.sendCreateBlockHashCache = (db.pending.rollback segs).db.sendCreateBlockHashCache)
    (hview : db'.store.view = replay (db.pending.rollback segs).batch db.store.view)
    (hflushed : Indexed db'.store.flushed l'.chunks.flatten l'.chunks) (hflushing : db'.store.flushingBatch = none)
    (hbatches : ∃ f, db'.store.unconfirmedBatchs = ofBlocks id f l'.unconfirmed ∧
      ∀ b ∈ l'.unconfirmed, Records b (f b)) : IndexInv C db' l' := by
  refine ⟨hl.wellFormed, fun b hb => hi.plain b (hl.kept_mem hb), ?_, hflushed, hflushing, hbatches, fun h v hget => ?_,
    fun hC h n hget => ?_⟩
  · rw [hview]
    exact hi.view.rollback hi hdel hl fun _ => Iff.rfl
  · rw [hcache] at hget
    rw [hview]
    exact cache_of_agrees (hi.agrees.rollback segs) h v hget
  · rw [hcreations] at hget
    exact hi.creations_rollback hC hdel hl hget

theorem IndexInv.takeBack {gone : List AccountBlock} (ha : l.Allows id (.takeBack gone)) :
    IndexInv C (db.rollbackAccountBlocks gone) (l.apply id (.takeBack gone)) := by
  obtain ⟨f, hf, hrec⟩ := hi.batches
  have hdel : Deletes l [⟨none, gone⟩] gone l.chunks.length :=
    ⟨fun b => by simp, fun addr y => by simp [confirms]⟩
  refine hi.deleted hdel (leaves_takeBack hi.wellFormed ha) rfl rfl ?_ ?_ ?_
    ⟨f, ?_, fun b hb => hrec b (mem_without.1 hb).1⟩
  all_goals rw [store_takeBack]
  · exact view_rollbackAccountBlocks ..
  · exact hi.flushed
  · exact hi.flushing
  · rw [rollbackAccountBlocks, hf]
    exact foldl_remove_ofBlocks gone

theorem IndexInv.rollbackAll (hn : n < l.latestHeight) {segs : List SnapshotChunk}
    (hdel : Deletes l segs ((l.deleted n).flatten ++ l.unconfirmed) (l.latestHeight - n)) :
    IndexInv C (db.rollbackSnapshotBlocks segs []) (l.apply id (.rollback n false)) := by
  have hl := leaves_rollback hi.wellFormed hn
  obtain ⟨f, hf, hrec⟩ := hi.batches
  refine hi.deleted hdel hl rfl rfl ?_ ?_ ?_ ⟨f, rfl, fun b hb => by cases hb⟩
  all_goals rw [store_rollbackAll]
  · exact view_rollbackSnapshot ..
  · -- the unconfirmed batches are flushed too, and deleted by the batch of the rollback
    have hall : Indexed (replay (l.unconfirmed.flatMap f) db.store.flushed) l.blocks l.chunks :=
      hi.flushed.insertAll hrec hi.wellFormed.hashes
    have hleft : (l.apply id (.rollback n false)).chunks.flatten = (l.apply id (.rollback n false)).blocks :=
      (append_nil _).symm
    rw [flushed_rollbackSnapshot, hf, all_ofBlocks, hleft]
    exact hall.rollback hi hdel hl fun _ => Iff.rfl
  · exact hi.flushing

/-- Blocks that are inserted again one after the other. -/
theorem IndexInv.insertAll {cs : List AccountBlock}
    (hw : (Ledger.mk l.chunks (l.unconfirmed ++ cs)).WellFormed id) (hplain : ∀ b ∈ cs, Plain b ∧ (C → Scanned b)) :
    IndexInv C (cs.foldl IndexDb.insertAccountBlock db) ⟨l.chunks, l.unconfirmed ++ cs⟩ := by
  induction cs generalizing db l with
  | nil => simpa using hi
  | cons b cs ih =>
    have hb := wellFormed_insert hw
    have hassoc : l.unconfirmed ++ b :: cs = (l.apply id (.insert b)).unconfirmed ++ cs := by simp [Ledger.apply]
    rw [hassoc] at hw ⊢
    exact ih (hi.insert hb (hplain b mem_cons_self)) hw fun c hc => hplain c (mem_cons_of_mem _ hc)

theorem IndexInv.rollback {recover : Bool} (ha : l.Allows id (.rollback n recover)) {segs : List SnapshotChunk}
    (hdel : Deletes l segs ((l.deleted n).flatten ++ l.unconfirmed) (l.latestHeight - n)) :
    IndexInv C (db.rollbackSnapshotBlocks segs (l.apply id (.rollback n recover)).unconfirmed)
      (l.apply id (.rollback n recover)) :=
  (hi.rollbackAll ha.2 hdel).insertAll (hi.wellFormed.apply ha) fun b hb =>
    hi.plain b ((blocks_rollback_isPrefix n recover).subset (mem_append_right _ hb))

end

/-! Caches and restarts -/

theorem IndexInv.evict (hi : IndexInv C db l) (keys : List DbKey) (hashes : List Hash) (accounts : List Address) :
    IndexInv C (db.evict keys hashes accounts) l :=
  ⟨hi.wellFormed, hi.plain, hi.view, hi.flushed, hi.flushing, hi.batches,
    fun h v hget => hi.cache h v (get?_foldl_erase hget),
    fun hC h n hget => hi.creations hC h n (get?_foldl_erase hget)⟩

theorem IndexInv.cacheCreation (hi : IndexInv C db l) (hb : b ∈ l.blocks)
    (hkind : C → b.blockType = .sendCreate ∨ b ∈ genesisBlocks l) :
    IndexInv C { db with sendCreateBlockHashCache :=
      db.sendCreateBlockHashCache.set b.hash (db.getConfirmHeightByHash b.hash) } l := by
  refine ⟨hi.wellFormed, hi.plain, hi.view, hi.flushed, hi.flushing, hi.batches, hi.cache, fun hC h n hget => ?_⟩
  have hset : (db.sendCreateBlockHashCache.set b.hash (db.getConfirmHeightByHash b.hash)).get? h = some n := hget
  rw [get?_set] at hset
  by_cases hh : h = b.hash
  · rw [if_pos hh, hi.getConfirmHeightByHash hC hb (mem_hashes_self b)] at hset
    exact ⟨b, hb, hh.symm, hkind hC, Option.some.inj hset⟩
  · rw [if_neg hh] at hset
    exact hi.creations hC h n hset

variable {hashes : List Hash}

theorem IndexInv.initCache (hi : IndexInv C db l)
    (hhashes : ∀ h ∈ hashes, ∃ b ∈ l.blocks, b.hash = h ∧ (C → b.blockType = .sendCreate ∨ b ∈ genesisBlocks l)) :
    IndexInv C (db.initCache hashes) l := by
  refine List.foldlRecOn (motive := fun db => IndexInv C db l) hashes _ hi fun db' hi' h hh => ?_
  obtain ⟨b, hb, rfl, hkind⟩ := hhashes h hh
  exact hi'.cacheCreation hb hkind

/-- A node that stops leaves on disk what the flush has written. -/
theorem restart_eq (hflushing : db.store.flushingBatch = none) (hashes : List Hash) :
    db.restart hashes = .ok (IndexDb.initCache ⟨.new db.store.flushed,
      IndexDb.queryLatestAccountId (.new db.store.flushed), .empty, .empty, []⟩ hashes) := by
  have hflushed : db.store.flushed = replay db.store.snapshotBatch db.store.disk := by
    rw [flushed, hflushing]
    rfl
  rw [hflushed, IndexDb.restart, prepare, hflushing]
  rfl

theorem IndexInv.restart (hi : IndexInv C db l) (ha : l.Allows id (.takeBack l.unconfirmed))
    (hhashes : ∀ h ∈ hashes, ∃ b ∈ l.chunks.flatten, b.hash = h ∧ (creates b ∨ b ∈ genesisBlocks l))
    (h : db.restart hashes = .ok db') : IndexInv C db' (l.apply id (.takeBack l.unconfirmed)) := by
  rw [restart_eq hi.flushing] at h
  obtain rfl := ok.inj h
  have hnone : without id l.unconfirmed l.unconfirmed = [] := without_of_subset fun _ hb => hb
  have hblocks : (l.apply id (.takeBack l.unconfirmed)).blocks = l.chunks.flatten := by
    rw [apply, blocks, hnone, append_nil]
  have hdisk : IndexInv C ⟨.new db.store.flushed, IndexDb.queryLatestAccountId (.new db.store.flushed), .empty, .empty, []⟩
      (l.apply id (.takeBack l.unconfirmed)) := by
    refine ⟨hi.wellFormed.apply ha, ?_, ?_, hi.flushed, rfl, ⟨fun _ => [], ?_, ?_⟩, ?_, ?_⟩
    · rw [hblocks]
      exact fun b hb => hi.plain b (mem_append_left _ hb)
    · rw [hblocks]
      exact hi.flushed
    · rw [apply, hnone]
      rfl
    · rw [apply, hnone]
      simp
    · intro x v hget
      cases hget
    · intro _ x n hget
      cases hget
  refine hdisk.initCache fun x hx => ?_
  obtain ⟨b, hb, rfl, hkind⟩ := hhashes x hx
  rw [hblocks]
  refine ⟨b, hb, rfl, fun hC => hkind.imp_left fun hc => hc.resolve_right ?_⟩
  rintro ⟨s, hs, hcreate⟩
  exact ((hi.plain b (mem_append_left _ hb)).2 hC).noCreation s hs hcreate

/-! Runs -/

namespace IndexWorld

/-- A block that is inserted makes no contract creation among its send blocks, and its height is not the last one. -/
def NoInnerCreation (_ : IndexWorld) : IndexAction → Prop
  | .insertAccountBlock b => (∀ s ∈ b.sendBlockList, s.blockType ≠ .sendCreate) ∧ b.height < maxUint64
  | _ => True

/-- The database is that of the chain, and every snapshot block has its hash. -/
structure WorldInv (C : Prop) (w : IndexWorld) : Prop where
  index : IndexInv C w.db w.ledger
  hashes : w.snapshotHashes.length = w.ledger.chunks.length

theorem worldInv_new : WorldInv C new := by
  have hempty : Indexed (Store.empty : Store DbKey DbValue) [] [] :=
    ⟨fun h v => by simp, fun addr y v => by simp, fun k v hget => by simp at hget⟩
  refine ⟨⟨wellFormed_empty, ?_, hempty, hempty, rfl, ⟨fun _ => [], rfl, ?_⟩, ?_, ?_⟩, rfl⟩
  · intro b hb
    cases hb
  · intro b hb
    cases hb
  · intro h v hget
    cases hget
  · intro _ h n hget
    cases hget

variable {w w' : IndexWorld}

theorem WorldInv.step {a : IndexAction} (hi : WorldInv C w) (ha : w.Allows a) (hP : C → w.NoInnerCreation a)
    (h : w.step a = .ok w') : WorldInv C w' := by
  obtain ⟨db', hdb, rfl⟩ := ExceptRules.map_ok h
  refine ⟨?_, length_nextSnapshotHashes hi.hashes a⟩
  cases a with
  | insertAccountBlock b =>
    obtain rfl := ok.inj hdb
    exact hi.index.insert (hi.index.wellFormed.apply (ha.1 _ rfl)) ⟨ha.2, fun hC => ⟨(hP hC).1, (hP hC).2⟩⟩
  | insertSnapshotBlock hash confirmed location => exact hi.index.snapshot (ha.1 _ rfl) hdb
  | rollbackAccountBlocks gone =>
    obtain rfl := ok.inj hdb
    exact hi.index.takeBack (ha.1 _ rfl)
  | rollbackSnapshotBlocks n recover =>
    obtain rfl := ok.inj hdb
    exact hi.index.rollback (ha.1 _ rfl) (deletes_deletedSegments hi.hashes n)
  | evict keys hashes accounts =>
    obtain rfl := ok.inj hdb
    exact hi.index.evict keys hashes accounts
  | restart createBlockHashes => exact hi.index.restart (ha.1 _ rfl) ha.2 hdb

theorem WorldInv.reachable {P : IndexWorld → IndexAction → Prop} (hP : ∀ w a, P w a → C → w.NoInnerCreation a)
    (hw : Reachable P w) : WorldInv C w := by
  induction hw with
  | new => exact worldInv_new
  | step _ ha hPa h ih => exact ih.step ha (hP _ _ hPa) h

/-- In every run in which no inserted block makes a contract creation among its send blocks, the database knows for
every block of the chain, and for every send block inside one, the height of the snapshot block that confirms it. -/
theorem confirmHeights_exact {w : IndexWorld} (hw : Reachable NoInnerCreation w) {b : AccountBlock}
    (hb : b ∈ w.ledger.blocks) {h : Hash} (hh : h ∈ b.hashes) :
    w.db.getConfirmHeightByHash h = confirmHeight w.ledger b :=
  (WorldInv.reachable (fun _ _ h _ => h) hw).index.getConfirmHeightByHash trivial hb hh

/-- In every run the index of hashes has, in memory and on disk, exactly the blocks: the table that is read those of the
chain, and the table a flush leaves on disk those that snapshot blocks confirm. -/
theorem hashIndex_exact {P : IndexWorld → IndexAction → Prop} {w : IndexWorld} (hw : Reachable P w) (h : Hash)
    (addr : Address) (y : ℕ) :
    (w.db.getAddrHeightByHash h = some (addr, y) ↔
      ∃ b ∈ w.ledger.blocks, h ∈ b.hashes ∧ b.accountAddress = addr ∧ b.height = y) ∧
    (w.db.store.flushed.get? (createAccountBlockHashKey h) = some [addr, y] ↔
      ∃ b ∈ w.ledger.chunks.flatten, h ∈ b.hashes ∧ b.accountAddress = addr ∧ b.height = y) := by
  have hi := (WorldInv.reachable (fun _ _ _ => False.elim) hw).index
  have hread : w.db.getAddrHeightByHash h = some (addr, y) ↔
      w.db.store.view.get? (createAccountBlockHashKey h) = some [addr, y] := by
    rw [IndexDb.getAddrHeightByHash, hi.getValue]
    cases hget : w.db.store.view.get? (createAccountBlockHashKey h) with
    | none => simp
    | some v =>
      obtain ⟨b, -, -, rfl⟩ := (hi.view.hash h v).1 hget
      simp
  rw [hread, hi.view.hash, hi.flushed.hash]
  simp [eq_comm]

/-- A contract creation, a receive block with a call, and a snapshot block that confirms both. -/
def creation : AccountBlock := ⟨.sendCreate, 17, 1, 3, 9, 0, none, []⟩
def receiving : AccountBlock := ⟨.receive, 7, 2, 3, 0, 5, none, [⟨.sendCall, 8, 9⟩]⟩

theorem confirmHeights_exact_call : ∃ w, Reachable NoInnerCreation w ∧ receiving ∈ w.ledger.blocks ∧
    w.db.getConfirmHeightByHash 8 = confirmHeight w.ledger receiving ∧ confirmHeight w.ledger receiving = 1 := by
  have hw := Reachable.step (P := NoInnerCreation) (a := .insertSnapshotBlock 100 [creation, receiving] fun _ => 0)
    (.step (a := .insertAccountBlock receiving) (.step (a := .insertAccountBlock creation) .new ?_ ?_ rfl) ?_ ?_ rfl)
    ?_ trivial rfl
  · refine ⟨_, hw, ?_, confirmHeights_exact hw ?_ ?_, ?_⟩ <;> decide +kernel
  · exact ⟨fun la h => by cases h; exact ⟨by decide, by decide⟩, fun h => absurd rfl h⟩
  · exact ⟨by decide, by decide⟩
  · exact ⟨fun la h => by cases h; exact ⟨by decide, by decide⟩, fun _ => by decide⟩
  · exact ⟨by decide, by decide⟩
  · exact allows_insertSnapshotBlock _ _

def creating : AccountBlock := ⟨.receive, 7, 1, 3, 0, 5, none, [⟨.sendCreate, 8, 9⟩]⟩

def following : AccountBlock := ⟨.sendCall, 18, 2, 3, 9, 0, none, []⟩

-- a confirmed block is out of the caches, and the next one is not confirmed
theorem hashIndex_exact_creation : ∃ w, Reachable (fun _ _ => True) w ∧ w.ledger = ⟨[[creating]], [following]⟩ ∧
    w.db.getAddrHeightByHash 8 = some (3, 1) ∧ w.db.store.flushed.get? (createAccountBlockHashKey 8) = some [3, 1] ∧
    w.db.getAddrHeightByHash 18 = some (3, 2) ∧ w.db.store.flushed.get? (createAccountBlockHashKey 18) ≠ some [3, 2] := by
  have hw := Reachable.step (P := fun _ _ => True) (a := .insertAccountBlock following)
    (.step (a := .evict [createAccountBlockHashKey 8] [8] [3])
      (.step (a := .insertSnapshotBlock 100 [creating] fun _ => 0)
        (.step (a := .insertAccountBlock creating) .new ?_ trivial rfl) ?_ trivial rfl) ?_ trivial rfl) ?_ trivial rfl
  · have hinner := hashIndex_exact hw 8 3 1
    have hnext := hashIndex_exact hw 18 3 2
    refine ⟨_, hw, rfl, hinner.1.2 ⟨creating, ?_⟩, hinner.2.2 ⟨creating, ?_⟩, hnext.1.2 ⟨following, ?_⟩,
      mt hnext.2.1 ?_⟩ <;> decide +kernel
  · exact ⟨fun la h => by cases h; exact ⟨by decide, by decide⟩, fun _ => by decide⟩
  · exact allows_insertSnapshotBlock _ _
  · exact ⟨nofun, trivial⟩
  · exact ⟨fun la h => by cases h; exact ⟨by decide, by decide⟩, fun h => absurd rfl h⟩

/-- The contract creation inside a confirmed receive block is said to be unconfirmed, until the node is restarted. -/
theorem innerCreation_stays_unconfirmed : ∃ w w', Reachable (fun _ _ => True) w ∧ creating ∈ w.ledger.blocks ∧
    8 ∈ creating.hashes ∧ confirmHeight w.ledger creating = 1 ∧ w.db.getConfirmHeightByHash 8 = 0 ∧
    w.Allows (.restart [7]) ∧ w.step (.restart [7]) = .ok w' ∧ w'.ledger.chunks = w.ledger.chunks ∧
    w'.db.getConfirmHeightByHash 8 = 1 := by
  have hw := Reachable.step (P := fun _ _ => True) (a := .insertSnapshotBlock 100 [creating] fun _ => 0)
    (.step (a := .insertAccountBlock creating) .new ?_ trivial rfl) ?_ trivial rfl
  · refine ⟨_, _, hw, ?_, ?_, ?_, ?_, ⟨fun la h => ?_, fun x hx => ?_⟩, rfl, rfl, ?_⟩
    · decide +kernel
    · decide
    · decide +kernel
    · decide +kernel
    · cases h
      exact ⟨List.Sublist.refl _, fun addr => suffix_refl _⟩
    · obtain rfl := mem_singleton.1 hx
      exact ⟨creating, by decide +kernel, rfl, .inl (.inr ⟨_, mem_singleton_self _, rfl⟩)⟩
    · decide +kernel
  · exact ⟨fun la h => by cases h; exact ⟨by decide, by decide⟩, fun _ => by decide⟩
  · exact allows_insertSnapshotBlock _ _

end IndexWorld

end GoVite.ChainIndex

import GoVite.Sanity.Chain.Db
import GoVite.Sanity.Chain.Ledger
import GoVite.Sanity.Chain.Index

/-! The chain that is left when blocks are deleted, and the chunks that the index database is given to delete them. -/

namespace GoVite.ChainIndex
open KeyStore ChainDb Chain Ledger IndexWorld Pending List

variable {l : Ledger AccountBlock}

theorem mem_hashes_self (b : AccountBlock) : b.hash ∈ b.hashes := mem_cons_self

theorem blocks_insert (l : Ledger AccountBlock) (b : AccountBlock) : (l.apply id (.insert b)).blocks = l.blocks ++ [b] :=
  (append_assoc ..).symm

variable {b : AccountBlock}

theorem wellFormed_insert {cs : List AccountBlock} (hw : (Ledger.mk l.chunks (l.unconfirmed ++ b :: cs)).WellFormed id) :
    (l.apply id (.insert b)).WellFormed id :=
  hw.of_isPrefix ((prefix_append_right_inj _).2 ((prefix_append_right_inj _).2 ⟨cs, rfl⟩))

/-! The stores after the four operations -/

theorem store_insert (db : IndexDb) (b : AccountBlock) : (db.insertAccountBlock b).store =
    db.store.writeAccountBlockByHash (db.pending.insertAccountBlock b).batch b.hash := by
  rw [← show (db.pending.insertAccountBlock b).db.store = db.store from store_insertAccountBlock ..]
  rfl

theorem view_insertAccountBlock (db : IndexDb) (b : AccountBlock) :
    (db.insertAccountBlock b).store.view = Batch.replay (db.pending.insertAccountBlock b).batch db.store.view := by
  rw [store_insert]
  exact DbStore.view_putMemDb ..

theorem store_snapshot {db db' : IndexDb} {sb : SnapshotBlock} {confirmed : List AccountBlock} {location : Hash → ℕ}
    (h : db.insertSnapshotBlock sb confirmed location = .ok db') : ∃ store,
    db.store.writeSnapshotByHash (db.pending.insertSnapshot sb confirmed location).batch (confirmed.map (·.hash)) =
      .ok store ∧ db' = { (db.pending.insertSnapshot sb confirmed location).db with store := store } := by
  obtain ⟨store, hwrite, rfl⟩ := ExceptRules.map_ok h
  refine ⟨store, ?_, rfl⟩
  rw [← show (db.pending.insertSnapshot sb confirmed location).db.store = db.store from store_insertSnapshot ..]
  exact hwrite

theorem store_takeBack (db : IndexDb) (gone : List AccountBlock) : (db.rollbackAccountBlocks gone).store =
    db.store.rollbackAccountBlocks (db.pending.rollback [⟨none, gone⟩]).batch (gone.map (·.hash)) := by
  rw [← show (db.pending.rollback [⟨none, gone⟩]).db.store = db.store from store_rollback ..]
  rfl

theorem store_rollbackAll (db : IndexDb) (segs : List SnapshotChunk) : (db.rollbackSnapshotBlocks segs []).store =
    db.store.rollbackSnapshot (db.pending.rollback segs).batch := by
  rw [← show (db.pending.rollback segs).db.store = db.store from store_rollback ..]
  rfl

theorem mem_blocks_snapshot {confirmed : List AccountBlock} (hw : l.WellFormed id) (ha : l.Allows id (.snapshot confirmed))
    (b : AccountBlock) : b ∈ (l.apply id (.snapshot confirmed)).blocks ↔ b ∈ l.blocks := (hw.perm_blocks ha).mem_iff

/-- A block that a snapshot block confirms was not confirmed before. -/
theorem not_mem_chunks (hw : l.WellFormed id) (hb : b ∈ l.unconfirmed) : b ∉ l.chunks.flatten :=
  fun hmem => by
    have hnodup := hw.hashes
    rw [blocks, flatMap_append] at hnodup
    exact (nodup_append.1 hnodup).2.2 b.hash (mem_flatMap.2 ⟨b, hmem, mem_hashes_self b⟩) b.hash
      (mem_flatMap.2 ⟨b, hb, mem_hashes_self b⟩) rfl

theorem mem_flatten_of_genesis (hb : b ∈ genesisBlocks l) : b ∈ l.chunks.flatten := by
  cases hch : l.chunks with
  | nil => simp [genesisBlocks, hch] at hb
  | cons c cs =>
    rw [genesisBlocks, hch] at hb
    exact mem_flatten_of_mem mem_cons_self hb

theorem blocks_eq_deleted (l : Ledger AccountBlock) (n : ℕ) :
    l.blocks = (l.chunks.take (l.latestHeight - n)).flatten ++ ((l.deleted n).flatten ++ l.unconfirmed) := by
  rw [blocks, ← append_assoc, deleted, ← flatten_append, take_append_drop]

/-- The chunks given to a rollback hold the blocks that go and the snapshot blocks above a height. -/
structure Deletes (l : Ledger AccountBlock) (segs : List SnapshotChunk) (gone : List AccountBlock) (m : ℕ) : Prop where
  blocks : ∀ b, (∃ seg ∈ segs, b ∈ seg.accountBlocks) ↔ b ∈ gone
  heights : ∀ addr y, (∃ seg ∈ segs, confirms seg addr = some y) ↔
    ∃ c ∈ l.chunks.drop m, (contentOf c).get? addr = some y

/-- A chain that is left when blocks go: the first chunks of it, and the blocks that stay. -/
structure Leaves (l l' : Ledger AccountBlock) (gone : List AccountBlock) (m : ℕ) : Prop where
  wellFormed : l'.WellFormed id
  chunks : l'.chunks = l.chunks.take m
  blocks : ∀ b, b ∈ l.blocks ↔ b ∈ l'.blocks ∨ b ∈ gone
  disjoint : ∀ b ∈ l'.blocks, b ∉ gone
  later : ∀ b ∈ (l.chunks.drop m).flatten, b ∈ gone
  genesis : genesisBlocks l' = genesisBlocks l ∧ ∀ b ∈ genesisBlocks l, b ∉ gone

section
variable {l' : Ledger AccountBlock} {gone : List AccountBlock} {m : ℕ}

theorem Leaves.gone_mem (hl : Leaves l l' gone m) (hb : b ∈ gone) : b ∈ l.blocks :=
  (hl.blocks b).2 (.inr hb)

theorem Leaves.kept_mem (hl : Leaves l l' gone m) (hb : b ∈ l'.blocks) : b ∈ l.blocks :=
  (hl.blocks b).2 (.inl hb)

end

/-- The blocks taken back are unconfirmed, and the chunks stay. -/
theorem leaves_takeBack (hw : l.WellFormed id) {gone : List AccountBlock} (ha : l.Allows id (.takeBack gone)) :
    Leaves l (l.apply id (.takeBack gone)) gone l.chunks.length where
  wellFormed := hw.apply ha
  chunks := take_length.symm
  blocks b := by
    have hinj : ∀ g ∈ gone, b ∈ l.unconfirmed → g.hash = b.hash → b ∈ gone := fun g hg hb heq =>
      eq_of_hash_eq hw.nodup_unconfirmed (ha.1.subset hg) hb heq ▸ hg
    simp only [Ledger.apply, Ledger.blocks, mem_append, mem_without, mem_map]
    constructor
    · rintro (hb | hb)
      · exact .inl (.inl hb)
      · by_cases hmem : ∃ g ∈ gone, g.hash = b.hash
        · obtain ⟨g, hg, heq⟩ := hmem
          exact .inr (hinj g hg hb heq)
        · exact .inl (.inr ⟨hb, hmem⟩)
    · rintro ((hb | hb) | hb)
      · exact .inl hb
      · exact .inr hb.1
      · exact .inr (ha.1.subset hb)
  disjoint b hb hgone := by
    rcases mem_append.1 hb with hb | hb
    · exact not_mem_chunks hw (ha.1.subset hgone) hb
    · exact (mem_without.1 hb).2 (mem_map_of_mem (f := fun g => (id g).hash) hgone)
  later b hb := by simp at hb
  genesis := ⟨rfl, fun b hb hgone => not_mem_chunks hw (ha.1.subset hgone) (mem_flatten_of_genesis hb)⟩

theorem leaves_rollback (hw : l.WellFormed id) {n : ℕ} (hn : n < l.latestHeight) :
    Leaves l (l.apply id (.rollback n false)) ((l.deleted n).flatten ++ l.unconfirmed) (l.latestHeight - n) := by
  have hcut := blocks_eq_deleted l n
  have hleft : (l.apply id (.rollback n false)).blocks = (l.chunks.take (l.latestHeight - n)).flatten :=
    append_nil _
  have hdisjoint : ∀ b ∈ (l.chunks.take (l.latestHeight - n)).flatten, b ∉ (l.deleted n).flatten ++ l.unconfirmed :=
    fun b hb hb' => (hw.height_lt hcut hb hb' rfl).ne rfl
  have hgenesis : genesisBlocks (l.apply id (.rollback n false)) = genesisBlocks l := by
    cases hch : l.chunks with
    | nil => simp [latestHeight, hch] at hn
    | cons c cs =>
      have hpos : l.latestHeight - n = (l.latestHeight - n - 1) + 1 := by omega
      rw [genesisBlocks, genesisBlocks, Ledger.apply]
      simp only [hch]
      rw [hpos, take_succ_cons, headD_cons, headD_cons]
  refine ⟨hw.of_isPrefix (blocks_rollback_isPrefix n false), rfl, fun b => ?_, ?_, fun b hb => ?_, hgenesis,
    fun b hb => hdisjoint b ?_⟩
  · rw [hcut, hleft, mem_append]
  · rw [hleft]
    exact hdisjoint
  · exact mem_append_left _ hb
  · rw [← hgenesis] at hb
    exact mem_flatten_of_genesis hb

variable {w : IndexWorld} (hlen : w.snapshotHashes.length = w.ledger.chunks.length) (n : ℕ)
include hlen

theorem length_nextSnapshotHashes (a : IndexAction) :
    (w.nextSnapshotHashes a).length = (w.nextLedger a).chunks.length := by
  cases a with
  | insertSnapshotBlock hash confirmed location =>
    show (w.snapshotHashes ++ [hash]).length = (w.ledger.chunks ++ [confirmed]).length
    rw [length_append, length_append, hlen, length_singleton, length_singleton]
  | rollbackSnapshotBlocks n recover =>
    show (w.snapshotHashes.take _).length = (w.ledger.chunks.take _).length
    rw [length_take, length_take, hlen]
  | insertAccountBlock | rollbackAccountBlocks | evict | restart => exact hlen

theorem map_fst_deleted : ((w.ledger.deleted n).zip (w.snapshotHashes.drop (w.ledger.latestHeight - n))).map Prod.fst =
    w.ledger.deleted n :=
  map_fst_zip (by simp [deleted, hlen])

/-- The chunks hold the blocks deleted, in the order of the chain. -/
theorem accountBlocks_deletedSegments :
    (w.deletedSegments n).flatMap (·.accountBlocks) = (w.ledger.deleted n).flatten ++ w.ledger.unconfirmed := by
  set first := w.ledger.latestHeight - n
  have hchunks : (((w.ledger.deleted n).zip (w.snapshotHashes.drop first)).mapIdx (fun i c =>
      (⟨some ⟨c.2, first + 1 + i, contentOf c.1⟩, c.1⟩ : SnapshotChunk))).map (·.accountBlocks) = w.ledger.deleted n := by
    refine Eq.trans ?_ (map_fst_deleted hlen n)
    exact ext_getElem (by simp [first]) fun i _ _ => by simp
  have htail : (if w.ledger.unconfirmed = [] then [] else [⟨none, w.ledger.unconfirmed⟩] :
      List SnapshotChunk).flatMap (·.accountBlocks) = w.ledger.unconfirmed := by
    split_ifs with h
    · exact h.symm
    · simp
  rw [deletedSegments, flatMap_append, htail, flatMap_def, hchunks]

/-- The chunks of the snapshot blocks deleted are given with their snapshot blocks. -/
theorem deletes_deletedSegments :
    Deletes w.ledger (w.deletedSegments n) ((w.ledger.deleted n).flatten ++ w.ledger.unconfirmed)
      (w.ledger.latestHeight - n) := by
  refine ⟨fun b => by rw [← accountBlocks_deletedSegments hlen n, mem_flatMap], fun addr y => ?_⟩
  have hfst := map_fst_deleted hlen n
  simp only [deletedSegments, mem_append, or_and_right, exists_or]
  refine (or_iff_left ?_).trans ⟨?_, ?_⟩
  · rintro ⟨seg, hseg, hy⟩
    split_ifs at hseg
    · cases hseg
    · rw [mem_singleton.1 hseg] at hy
      cases hy
  · rintro ⟨seg, hseg, hy⟩
    obtain ⟨i, hi, rfl⟩ := mem_mapIdx.1 hseg
    have hmem := mem_map_of_mem (f := Prod.fst) (getElem_mem hi)
    rw [hfst] at hmem
    exact ⟨_, hmem, hy⟩
  · rintro ⟨c, hc, hy⟩
    rw [show w.ledger.chunks.drop _ = w.ledger.deleted n from rfl, ← hfst] at hc
    obtain ⟨e, he, rfl⟩ := mem_map.1 hc
    obtain ⟨i, hi, rfl⟩ := mem_iff_getElem.1 he
    exact ⟨_, mem_mapIdx.2 ⟨i, hi, rfl⟩, hy⟩

omit hlen in
/-- All unconfirmed blocks may be confirmed at once. -/
theorem allows_insertSnapshotBlock (hash : Hash) (location : Hash → ℕ) :
    w.Allows (.insertSnapshotBlock hash w.ledger.unconfirmed location) := by
  refine ⟨fun la h => ?_, trivial⟩
  cases h
  exact ⟨List.Sublist.refl _, fun addr => prefix_refl _⟩

end GoVite.ChainIndex

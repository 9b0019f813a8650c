import GoVite.Sanity.Chain.Ledger
import GoVite.Sanity.Chain.Index

/-! Over the tables of a chain, the scan of the confirmed heights of an account finds the snapshot block that confirms a
block. -/

namespace GoVite.ChainIndex
open KeyStore ChainDb Chain Ledger IndexWorld List Option Store Batch Pending

theorem get?_contentOf (c : List AccountBlock) (addr : Address) :
    (contentOf c).get? addr = (owned id addr c).getLast?.map (·.height) := by
  induction c using List.reverseRecOn with
  | nil => rfl
  | append_singleton c b ih =>
    have hset : contentOf (c ++ [b]) = (contentOf c).set b.accountAddress b.height := by simp [contentOf]
    rw [hset, get?_set, owned_append, ih]
    by_cases h : addr = b.accountAddress
    · simp [h]
    · simp [h, Ne.symm h]

variable {c : List AccountBlock} {y : ℕ} {addr : Address}

/-- The block whose height is the content of an account. -/
theorem exists_of_contentOf (h : (contentOf c).get? addr = some y) :
    ∃ b ∈ c, b.accountAddress = addr ∧ b.height = y := by
  rw [get?_contentOf, map_eq_some_iff] at h
  obtain ⟨b, hb, rfl⟩ := h
  have := mem_owned.1 (mem_of_getLast? hb)
  exact ⟨b, this.1, this.2, rfl⟩

/-- The tables of the hashes of blocks and of the heights confirmed are those of the blocks and chunks. -/
structure Indexed (V : Store DbKey DbValue) (bs : List AccountBlock) (chunks : List (List AccountBlock)) : Prop where
  hash : ∀ h v, V.get? (createAccountBlockHashKey h) = some v ↔
    ∃ b ∈ bs, h ∈ b.hashes ∧ v = [b.accountAddress, b.height]
  confirm : ∀ addr y v, V.get? (createConfirmHeightKey addr y) = some v ↔
    ∃ i c, chunks[i]? = some c ∧ (contentOf c).get? addr = some y ∧ v = [i + 1]
  keys : ∀ k v, V.get? k = some v → table k = 4 → ∃ addr y, k = createConfirmHeightKey addr y

/-- The first record of the account at the height or above it. -/
def scan (V : Store DbKey DbValue) (addr : Address) (height : ℕ) : ℕ :=
  let entries := V.entries.filter fun e =>
    createConfirmHeightKey addr height ≤ e.1 && e.1 < createConfirmHeightKey addr maxUint64
  (entries.head?.map fun e => e.2.headD 0).getD 0

variable {addr' y' : ℕ}

theorem confirmKey_lt {addr : ℕ} :
    createConfirmHeightKey addr y < createConfirmHeightKey addr' y' ↔ addr < addr' ∨ addr = addr' ∧ y < y' := by
  simp only [createConfirmHeightKey, cons_lt_cons_iff, lt_irrefl, false_or, true_and, and_false, or_false]

theorem confirmKey_le {addr : ℕ} :
    createConfirmHeightKey addr y ≤ createConfirmHeightKey addr' y' ↔ addr < addr' ∨ addr = addr' ∧ y ≤ y' := by
  rw [← not_lt, confirmKey_lt]
  omega

/-- Only keys of the table lie in the range that is scanned. -/
theorem table_of_range {k : DbKey} {x : ℕ} (h : createConfirmHeightKey addr x ≤ k)
    (h' : k < createConfirmHeightKey addr y) : table k = 4 := by
  cases k with
  | nil => exact absurd h (by simp)
  | cons t k =>
    have hle : ¬ t < 4 := fun hlt => absurd h (not_le.2 (cons_lt_cons_iff.2 (.inl hlt)))
    have hge : ¬ 4 < t := fun hlt => absurd h' (lt_asymm (cons_lt_cons_iff.2 (.inl hlt)))
    show t = 4
    omega

variable {l : Ledger AccountBlock} {V : Store DbKey DbValue}

theorem Indexed.of_range {bs : List AccountBlock} (hV : Indexed V bs l.chunks) {x : ℕ}
    {e : DbKey × DbValue} (he : e ∈ V.entries) (hlow : createConfirmHeightKey addr x ≤ e.1)
    (hhigh : e.1 < createConfirmHeightKey addr maxUint64) :
    ∃ i c y, l.chunks[i]? = some c ∧ (contentOf c).get? addr = some y ∧ x ≤ y ∧
      e = (createConfirmHeightKey addr y, [i + 1]) := by
  have hget : V.get? e.1 = some e.2 := get?_eq_some_iff.2 he
  obtain ⟨addr', y, hkey⟩ := hV.keys e.1 e.2 hget (table_of_range hlow hhigh)
  rw [hkey, confirmKey_le] at hlow
  rw [hkey, confirmKey_lt] at hhigh
  obtain rfl : addr = addr' :=
    le_antisymm (hlow.elim le_of_lt fun h => h.1.le) (hhigh.elim le_of_lt fun h => h.1.le)
  rw [hkey] at hget
  obtain ⟨i, c, hc, hcontent, hv⟩ := (hV.confirm addr y e.2).1 hget
  exact ⟨i, c, y, hc, hcontent, (hlow.resolve_left (lt_irrefl _)).2, Prod.ext hkey hv⟩

variable {b : AccountBlock}

theorem mem_blocks_of_chunk {j : ℕ} (hc : l.chunks[j]? = some c)
    (hb : b ∈ c) : b ∈ l.blocks := mem_append_left _ (mem_flatten_of_mem (mem_of_getElem? hc) hb)

section
variable (hw : l.WellFormed id)
include hw

/-- The content of a chunk is the greatest height of the account in it. -/
theorem exists_contentOf {i : ℕ} (hc : l.chunks[i]? = some c)
    (hb : b ∈ c) : ∃ y, (contentOf c).get? b.accountAddress = some y ∧ b.height ≤ y := by
  have hmem : b ∈ owned id b.accountAddress c := mem_owned.2 ⟨hb, rfl⟩
  have hincreasing : (owned id b.accountAddress c).Pairwise fun b b' => b.height < b'.height := by
    have hsub : c.Sublist l.blocks :=
      (sublist_flatten_of_mem (mem_of_getElem? hc)).trans (sublist_append_left _ _)
    exact (hw.increasing b.accountAddress).sublist (hsub.filter _)
  obtain ⟨init, last, hlast⟩ : ∃ init last, owned id b.accountAddress c = init ++ [last] :=
    ⟨_, _, (dropLast_append_getLast (ne_nil_of_mem hmem)).symm⟩
  refine ⟨last.height, by rw [get?_contentOf, hlast, getLast?_concat, map_some], ?_⟩
  rw [hlast] at hmem hincreasing
  exact forall_mem_concat.2 ⟨fun b hb => ((pairwise_concat.1 hincreasing).2 b hb).le, le_rfl⟩ b hmem

theorem scan_of_confirmed {bs : List AccountBlock} (hV : Indexed V bs l.chunks)
    (hbound : ∀ b ∈ l.blocks, b.height < maxUint64) {i : ℕ} (hc : l.chunks[i]? = some c)
    (hb : b ∈ c) : scan V b.accountAddress b.height = i + 1 := by
  obtain ⟨y, hy, hle⟩ := exists_contentOf hw hc hb
  obtain ⟨last, hlast, haddr, rfl⟩ := exists_of_contentOf hy
  have hget : V.get? (createConfirmHeightKey b.accountAddress last.height) = some [i + 1] :=
    (hV.confirm _ _ _).2 ⟨i, c, hc, hy, rfl⟩
  have hfirst := head?_filter_eq
    (p := fun e => createConfirmHeightKey b.accountAddress b.height ≤ e.1 &&
      e.1 < createConfirmHeightKey b.accountAddress maxUint64)
    (get?_eq_some_iff.1 hget) ?_ ?_
  · rw [scan]
    simp only [hfirst, map_some, getD_some, headD_cons]
  · simp only [Bool.and_eq_true, decide_eq_true_eq]
    exact ⟨confirmKey_le.2 (.inr ⟨rfl, hle⟩), confirmKey_lt.2 (.inr ⟨rfl, hbound last (mem_blocks_of_chunk hc hlast)⟩)⟩
  · intro e he hrange
    simp only [Bool.and_eq_true, decide_eq_true_eq] at hrange
    obtain ⟨j, c', y, hc', hy', hxy, rfl⟩ := hV.of_range he hrange.1 hrange.2
    obtain ⟨b', hb', haddr', rfl⟩ := exists_of_contentOf hy'
    refine confirmKey_le.2 (.inr ⟨rfl, ?_⟩)
    rcases lt_trichotomy j i with hji | rfl | hij
    · -- an earlier chunk ends below the block
      exact absurd (hw.height_lt_of_chunks hji hc' hc hb' hb haddr') (not_lt.2 hxy)
    · obtain rfl : c' = c := Option.some.inj (hc'.symm.trans hc)
      exact (mem_unique hy hy').le
    · exact (hw.height_lt_of_chunks hij hc hc' hlast hb' (haddr.trans haddr'.symm)).le

theorem scan_of_unconfirmed {bs : List AccountBlock} (hV : Indexed V bs l.chunks)
    (hb : b ∈ l.unconfirmed) : scan V b.accountAddress b.height = 0 := by
  have hnone : V.entries.filter (fun e => createConfirmHeightKey b.accountAddress b.height ≤ e.1 &&
      e.1 < createConfirmHeightKey b.accountAddress maxUint64) = [] := by
    refine filter_eq_nil_iff.2 fun e he hrange => ?_
    simp only [Bool.and_eq_true, decide_eq_true_eq] at hrange
    obtain ⟨j, c, y, hc, hy, hxy, rfl⟩ := hV.of_range he hrange.1 hrange.2
    obtain ⟨b', hb', haddr', rfl⟩ := exists_of_contentOf hy
    have hconfirmed : b' ∈ l.chunks.flatten := mem_flatten_of_mem (mem_of_getElem? hc) hb'
    exact absurd (hw.height_lt rfl hconfirmed hb haddr') (not_lt.2 hxy)
  rw [scan]
  simp only [hnone, head?_nil, map_none, getD_none]

/-- The scan for a block of the chain gives the height of its snapshot block. -/
theorem scan_eq_confirmHeight {bs : List AccountBlock} (hV : Indexed V bs l.chunks)
    (hbound : ∀ b ∈ l.blocks, b.height < maxUint64) (hb : b ∈ l.blocks) :
    scan V b.accountAddress b.height = confirmHeight l b := by
  by_cases hmem : b ∈ l.chunks.flatten
  · have hidx : l.chunks.findIdx (fun c => b ∈ c) < l.chunks.length := by
      obtain ⟨c, hc, hbc⟩ := mem_flatten.1 hmem
      exact findIdx_lt_length_of_exists ⟨c, hc, by simpa using hbc⟩
    have hfound : b ∈ l.chunks[l.chunks.findIdx (fun c => b ∈ c)] := by
      simpa using findIdx_getElem (w := hidx)
    rw [confirmHeight, if_pos hmem]
    exact scan_of_confirmed hw hV hbound (getElem?_eq_getElem hidx) hfound
  · rw [confirmHeight, if_neg hmem]
    exact scan_of_unconfirmed hw hV ((mem_append.1 hb).resolve_left hmem)

end

/-! Batches -/

structure Records (b : AccountBlock) (batch : Batch DbKey DbValue) : Prop where
  hash : ∀ h, Batch.last? batch (createAccountBlockHashKey h) =
    if h ∈ b.hashes then some (some [b.accountAddress, b.height]) else none
  confirm : ∀ addr y, Batch.last? batch (createConfirmHeightKey addr y) = none
  keys : ∀ k v, Batch.last? batch k = some (some v) → table k ≠ 4

variable {bs : List AccountBlock} {chunks : List (List AccountBlock)} {batch : Batch DbKey DbValue}

section
variable (hV : Indexed V bs chunks)
include hV

theorem Indexed.congr {bs' : List AccountBlock} (h : ∀ b, b ∈ bs' ↔ b ∈ bs) :
    Indexed V bs' chunks := ⟨fun x v => by simp only [hV.hash x v, h], hV.confirm, hV.keys⟩

/-- The keys of a replayed batch are among those of the store and those it puts. -/
theorem Indexed.keys_replay (hkeys : ∀ k v, last? batch k = some (some v) → table k = 4 →
      ∃ addr y, k = createConfirmHeightKey addr y) (k : DbKey) (v : DbValue) (hget : (replay batch V).get? k = some v)
    (ht : table k = 4) : ∃ addr y, k = createConfirmHeightKey addr y := by
  rw [get?_replay] at hget
  cases hlast : last? batch k with
  | none => rw [hlast] at hget; exact hV.keys k v hget ht
  | some r =>
    rw [hlast, getD_some] at hget
    exact hkeys k v (by rw [hlast, hget]) ht

theorem Indexed.insert (hr : Records b batch)
    (hnew : ∀ c ∈ bs, ∀ h ∈ c.hashes, h ∉ b.hashes) : Indexed (replay batch V) (bs ++ [b]) chunks where
  hash h v := by
    rw [get?_replay, hr.hash]
    by_cases hb : h ∈ b.hashes
    · rw [if_pos hb, getD_some, some_inj]
      constructor
      · rintro rfl
        exact ⟨b, mem_concat_self, hb, rfl⟩
      · rintro ⟨c, hc, hh, rfl⟩
        rcases mem_append.1 hc with hc | hc
        · exact absurd hb (hnew c hc h hh)
        · rw [mem_singleton.1 hc]
    · rw [if_neg hb, getD_none, hV.hash]
      constructor
      · rintro ⟨c, hc, hcv⟩
        exact ⟨c, mem_append_left _ hc, hcv⟩
      · rintro ⟨c, hc, hh, hv⟩
        rcases mem_append.1 hc with hc | hc
        · exact ⟨c, hc, hh, hv⟩
        · exact absurd (mem_singleton.1 hc ▸ hh) hb
  confirm addr y v := by rw [get?_replay, hr.confirm, getD_none, hV.confirm]
  keys := hV.keys_replay fun k v hk ht => absurd ht (hr.keys k v hk)

theorem Indexed.insertAll {f : AccountBlock → Batch DbKey DbValue} {cs : List AccountBlock}
    (hf : ∀ b ∈ cs, Records b (f b)) (hnodup : ((bs ++ cs).flatMap (·.hashes)).Nodup) :
    Indexed (replay (cs.flatMap f) V) (bs ++ cs) chunks := by
  induction cs generalizing V bs with
  | nil => simpa using hV
  | cons b cs ih =>
    have hnew : ∀ c ∈ bs, ∀ h ∈ c.hashes, h ∉ b.hashes := fun c hc h hh hb => by
      rw [flatMap_append] at hnodup
      exact (nodup_append.1 hnodup).2.2 h (mem_flatMap.2 ⟨c, hc, hh⟩) h (mem_flatMap.2 ⟨b, mem_cons_self, hb⟩) rfl
    have hstep := ih (hV.insert (hf b mem_cons_self) hnew) (fun c hc => hf c (mem_cons_of_mem _ hc))
      (by rwa [append_assoc])
    rwa [append_assoc, ← replay_append] at hstep

theorem Indexed.snapshot (hhash : ∀ h, last? batch (createAccountBlockHashKey h) = none)
    (hconfirm : ∀ addr y, last? batch (createConfirmHeightKey addr y) =
      if (contentOf c).get? addr = some y then some (some [chunks.length + 1]) else none)
    (hkeys : ∀ k v, last? batch k = some (some v) → table k = 4 →
      ∃ addr y, k = createConfirmHeightKey addr y)
    (hnew : ∀ c' ∈ chunks, ∀ addr y, (contentOf c').get? addr = some y → (contentOf c).get? addr ≠ some y) :
    Indexed (replay batch V) bs (chunks ++ [c]) where
  hash h v := by rw [get?_replay, hhash, getD_none, hV.hash]
  confirm addr y v := by
    simp only [get?_replay, hconfirm, getElem?_concat_eq_some]
    by_cases hc : (contentOf c).get? addr = some y
    · rw [if_pos hc, getD_some, some_inj]
      constructor
      · rintro rfl
        exact ⟨chunks.length, c, .inr ⟨rfl, rfl⟩, hc, rfl⟩
      · rintro ⟨i, c', hc' | ⟨rfl, rfl⟩, hy, rfl⟩
        · exact absurd hc (hnew c' (mem_of_getElem? hc') addr y hy)
        · rfl
    · rw [if_neg hc, getD_none, hV.confirm]
      constructor
      · rintro ⟨i, c', hc', hyv⟩
        exact ⟨i, c', .inl hc', hyv⟩
      · rintro ⟨i, c', hc' | ⟨rfl, rfl⟩, hy, hv⟩
        · exact ⟨i, c', hc', hy, hv⟩
        · exact absurd hy hc
  keys := hV.keys_replay hkeys

theorem Indexed.delete (gone : List AccountBlock) {kept : List AccountBlock} {m : ℕ}
    (hhash : ∀ h, last? batch (createAccountBlockHashKey h) =
      if ∃ b ∈ gone, h ∈ b.hashes then some none else none)
    (hconfirm : ∀ addr y, last? batch (createConfirmHeightKey addr y) =
      if ∃ c ∈ chunks.drop m, (contentOf c).get? addr = some y then some none else none)
    (hkeys : ∀ k v, last? batch k = some (some v) → table k ≠ 4)
    (hbs : ∀ b, b ∈ bs ↔ b ∈ kept ∨ b ∈ gone) (hdisjoint : ∀ b ∈ kept, ∀ g ∈ gone, ∀ h ∈ b.hashes, h ∉ g.hashes)
    (hold : ∀ c ∈ chunks.take m, ∀ c' ∈ chunks.drop m, ∀ addr y, (contentOf c).get? addr = some y →
      (contentOf c').get? addr ≠ some y) : Indexed (replay batch V) kept (chunks.take m) where
  hash h v := by
    rw [get?_replay, hhash]
    by_cases hg : ∃ b ∈ gone, h ∈ b.hashes
    · obtain ⟨g, hgone, hh⟩ := hg
      rw [if_pos ⟨g, hgone, hh⟩]
      exact iff_of_false (by simp) fun ⟨b, hb, hbh, _⟩ => hdisjoint b hb g hgone h hbh hh
    · rw [if_neg hg, getD_none, hV.hash]
      refine exists_congr fun b => ⟨fun ⟨hb, hh, hv⟩ => ⟨?_, hh, hv⟩, fun ⟨hb, hh, hv⟩ => ⟨(hbs b).2 (.inl hb), hh, hv⟩⟩
      exact ((hbs b).1 hb).resolve_right fun hb' => hg ⟨b, hb', hh⟩
  confirm addr y v := by
    have htake : ∀ i c, (chunks.take m)[i]? = some c → c ∈ chunks.take m := fun i c h => mem_of_getElem? h
    rw [get?_replay, hconfirm]
    by_cases hg : ∃ c ∈ chunks.drop m, (contentOf c).get? addr = some y
    · obtain ⟨c', hc', hy'⟩ := hg
      rw [if_pos ⟨c', hc', hy'⟩]
      exact iff_of_false (by simp) fun ⟨i, c, hc, hy, _⟩ => hold c (htake i c hc) c' hc' addr y hy hy'
    · rw [if_neg hg, getD_none, hV.confirm]
      refine exists_congr fun i => exists_congr fun c => ⟨fun ⟨hc, hy, hv⟩ => ⟨?_, hy, hv⟩, fun ⟨hc, hy, hv⟩ => ⟨?_, hy, hv⟩⟩
      · by_cases hi : i < m
        · rw [getElem?_take_of_lt hi, hc]
        · refine absurd ⟨c, mem_of_getElem? (i := i - m) ?_, hy⟩ hg
          rw [getElem?_drop, Nat.add_sub_cancel' (not_lt.1 hi), hc]
      · have hi : i < m := (List.length_take ▸ (List.getElem?_eq_some_iff.1 hc).1).trans_le (min_le_left _ _)
        rwa [getElem?_take_of_lt hi] at hc
  keys := hV.keys_replay fun k v hk ht => absurd ht (hkeys k v hk)

end

end GoVite.ChainIndex

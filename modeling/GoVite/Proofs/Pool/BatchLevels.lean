import GoVite.Sanity.Pool.Batch

/-! The levels of a batch respect the references of its items: every block is inserted after those it refers to. -/

namespace GoVite.Pool
open Batch List Batch AccountPoolBlock

variable {chain : ChainReader} {p p' : Batch} {b : Item} {i : ℕ} {items : List Item}

/-- A placed item is at the end of its bucket, and no other bucket changed. -/
theorem Batch.Placed.bucketItems (h : Placed chain p b i p') (j : ℕ) (o : Option Address) :
    p'.bucketItems j o = if j = i ∧ o = b.owner then p.bucketItems j o ++ [b] else p.bucketItems j o := by
  obtain ⟨base, l', -, -, hbase, hadds, hls⟩ := h.level
  unfold Batch.bucketItems
  rw [hls]
  by_cases hj : j = i
  · subst hj
    have hitems : ((p.ls j).map (·.bucket o)).getD [] = base.bucket o := by
      obtain hb | ⟨hb, hempty⟩ := hbase
      · rw [hb]
        rfl
      · rw [hb, hempty]
        rfl
    rw [hitems]
    simp only [true_and]
    exact hadds.bucket o
  · have hother : ¬(j = i ∧ o = b.owner) := fun hc => hj hc.1
    rw [if_neg hj]
    split
    · cases p.ls j <;> rfl
    · rfl

theorem Batch.Placed.prev (h : Placed chain p b i p') {last : Item}
    (hlast : (p.bucketItems i b.owner).getLast? = some last) : last.hash = b.prevHash := by
  obtain ⟨base, l', -, -, hbase, hadds, -⟩ := h.level
  refine hadds.prev last ?_
  rw [← hlast]
  unfold Batch.bucketItems
  obtain hb | ⟨hb, hempty⟩ := hbase
  · rw [hb]
    rfl
  · rw [hb, hempty]
    rfl

/-- No two blocks, nor a block and one inside another, have one hash. -/
def DistinctHashes (items : List Item) : Prop := (items.flatMap (·.keys)).Nodup

def OffChain (chain : ChainReader) (items : List Item) : Prop :=
  ∀ x ∈ items, ∀ k ∈ x.keys, chain.accountExists k = false

instance (items : List Item) : Decidable (DistinctHashes items) := List.nodupDecidable _

instance (chain : ChainReader) (items : List Item) : Decidable (OffChain chain items) :=
  inferInstanceAs (Decidable (∀ x ∈ items, ∀ k ∈ x.keys, chain.accountExists k = false))

/-- An item at place `k` of a bucket refers only to blocks of lower levels or earlier in its bucket. -/
def ReferencesBefore (p : Batch) : Prop :=
  ∀ (i : ℕ) (o : Option Address) (k : ℕ) (x : Item), (p.bucketItems i o)[k]? = some x → ∀ r ∈ x.accounts,
    ∀ (j : ℕ) (o' : Option Address) (m : ℕ) (y : Item), (p.bucketItems j o')[m]? = some y → r ∈ y.keys → j < i ∨ j = i ∧ o' = o ∧ m < k

/-- The buckets hold the accepted items, and the index of the batch says where. -/
structure Contents (p : Batch) (items : List Item) : Prop where
  owner : ∀ i o, ∀ x ∈ p.bucketItems i o, x.owner = o
  mem : ∀ x, x ∈ items ↔ ∃ i o, x ∈ p.bucketItems i o
  keys : ∀ i o, ∀ x ∈ p.bucketItems i o, ∀ k ∈ x.keys, p.all.get? k = some ⟨o, i⟩
  known : ∀ k ol, p.all.get? k = some ol → ∃ x ∈ items, k ∈ x.keys
  linked : ∀ i o, (p.bucketItems i o).IsChain fun a b => a.hash = b.prevHash

theorem contents_new (max : ℕ) : Contents (newBatch max) [] := by
  have hempty : ∀ i o, (newBatch max).bucketItems i o = [] := fun _ _ => rfl
  refine ⟨?_, ?_, ?_, ?_, ?_⟩
  · intro i o x hx
    cases hx
  · intro x
    simp [hempty]
  · intro i o x hx
    cases hx
  · intro k ol hk
    cases hk
  · intro i o
    exact .nil

variable {j : ℕ} {x : Item} {o : Option Address}

/-- Where the items of a batch are after one more was placed. -/
theorem Batch.Placed.mem (h : Placed chain p b i p') :
    x ∈ p'.bucketItems j o ↔ x ∈ p.bucketItems j o ∨ x = b ∧ j = i ∧ o = b.owner := by
  rw [h.bucketItems]
  split
  · rename_i hj
    simp [hj]
  · rename_i hj
    simp only [hj, and_false, or_false]

theorem Contents.new_keys (h : Contents p items) (hdistinct : DistinctHashes (items ++ [b])) {k : Hash} (hk : k ∈ b.keys) :
    p.all.get? k = none := by
  cases hall : p.all.get? k with
  | none => rfl
  | some ol =>
    obtain ⟨x, hx, hkx⟩ := h.known k ol hall
    unfold DistinctHashes at hdistinct
    rw [flatMap_append, nodup_append] at hdistinct
    exact absurd rfl (hdistinct.2.2 k (mem_flatMap.mpr ⟨x, hx, hkx⟩) k (by simpa using hk))

theorem Contents.placed (h : Contents p items) (hb : Placed chain p b i p') (hdistinct : DistinctHashes (items ++ [b])) :
    Contents p' (items ++ [b]) := by
  refine ⟨?_, ?_, ?_, ?_, ?_⟩
  · intro j o x hx
    obtain hx | ⟨rfl, -, rfl⟩ := hb.mem.mp hx
    · exact h.owner j o x hx
    · rfl
  · intro x
    rw [mem_append, h.mem, mem_singleton]
    simp only [hb.mem]
    refine ⟨?_, ?_⟩
    · rintro (⟨j, o, hx⟩ | rfl)
      · exact ⟨j, o, .inl hx⟩
      · exact ⟨i, x.owner, .inr ⟨rfl, rfl, rfl⟩⟩
    · rintro ⟨j, o, hx | ⟨rfl, -, -⟩⟩
      · exact .inl ⟨j, o, hx⟩
      · exact .inr rfl
  · intro j o x hx k hk
    rw [hb.all]
    obtain hx | ⟨rfl, rfl, rfl⟩ := hb.mem.mp hx
    · have hall := h.keys j o x hx k hk
      rw [if_neg, hall]
      intro hkb
      rw [h.new_keys hdistinct hkb] at hall
      cases hall
    · rw [if_pos hk]
  · intro k ol hk
    rw [hb.all] at hk
    split at hk
    · exact ⟨b, by simp, ‹_›⟩
    · obtain ⟨x, hx, hkx⟩ := h.known k ol hk
      exact ⟨x, mem_append_left _ hx, hkx⟩
  · intro j o
    rw [hb.bucketItems]
    split
    · rename_i hj
      obtain ⟨rfl, rfl⟩ := hj
      rw [isChain_append]
      refine ⟨h.linked _ _, isChain_singleton b, ?_⟩
      intro last hlast first hfirst
      obtain rfl : b = first := by simpa using hfirst
      exact hb.prev hlast
    · exact h.linked j o

/-- Every reference of an item is in the batch or on the chain. -/
def ReferencesKnown (chain : ChainReader) (p : Batch) : Prop :=
  ∀ i o, ∀ x ∈ p.bucketItems i o, ∀ r ∈ x.accounts, p.all.get? r ≠ none ∨ chain.accountExists r = true

theorem referencesKnown_placed (h : ReferencesKnown chain p) (hb : Placed chain p b i p') : ReferencesKnown chain p' := by
  intro j o x hx r hr
  have hkeep : p.all.get? r ≠ none → p'.all.get? r ≠ none := by
    intro hne
    rw [hb.all]
    split
    · nofun
    · exact hne
  obtain hx | ⟨rfl, -, -⟩ := hb.mem.mp hx
  · exact (h j o x hx r hr).imp_left hkeep
  · obtain ⟨-, hchain⟩ | ⟨ol, hol, -⟩ := hb.refs r hr
    · exact .inr hchain
    · exact .inl (hkeep (by rw [hol]; nofun))

/-- A new item that is not on the chain is referred to by no item of the batch, itself included. -/
theorem not_referred (hknown : ReferencesKnown chain p) (hb : Placed chain p b i p') (hnew : ∀ k ∈ b.keys, p.all.get? k = none)
    (hoff : OffChain chain [b]) (hx : x ∈ p'.bucketItems j o) {r : Hash}
    (hr : r ∈ x.accounts) : r ∉ b.keys := by
  intro hrb
  have hnone := hnew r hrb
  have hnot : chain.accountExists r = false := hoff b (mem_singleton_self b) r hrb
  obtain hx | ⟨rfl, -, -⟩ := hb.mem.mp hx
  · obtain hall | hchain := hknown j o x hx r hr
    · exact hall hnone
    · rw [hnot] at hchain
      cases hchain
  · obtain ⟨-, hchain⟩ | ⟨ol, hol, -⟩ := hb.refs r hr
    · rw [hnot] at hchain
      cases hchain
    · rw [hnone] at hol
      cases hol

theorem Batch.Placed.get (h : Placed chain p b i p') {k : ℕ} (hx : (p'.bucketItems j o)[k]? = some x) :
    (p.bucketItems j o)[k]? = some x ∨ x = b ∧ j = i ∧ o = b.owner ∧ k = (p.bucketItems j o).length := by
  rw [h.bucketItems] at hx
  split at hx
  · rename_i hj
    obtain hlt | hge := Nat.lt_or_ge k (p.bucketItems j o).length
    · rw [getElem?_append_left hlt] at hx
      exact .inl hx
    · rw [getElem?_append_right hge, getElem?_singleton] at hx
      split at hx
      · exact .inr ⟨(Option.some.inj hx).symm, hj.1, hj.2, by omega⟩
      · cases hx
  · exact .inl hx

theorem referencesBefore_placed (h : ReferencesBefore p) (hcontents : Contents p items) (hknown : ReferencesKnown chain p)
    (hb : Placed chain p b i p') (hdistinct : DistinctHashes (items ++ [b])) (hoff : OffChain chain [b]) :
    ReferencesBefore p' := by
  intro j o k x hx r hr j' o' m y hy hry
  have hxmem := mem_of_getElem? hx
  obtain hy | ⟨rfl, -, -, -⟩ := hb.get hy
  · obtain hx | ⟨rfl, rfl, rfl, rfl⟩ := hb.get hx
    · exact h j o k x hx r hr j' o' m y hy hry
    · -- the new item refers to an older one: the index says where that is
      have hall := hcontents.keys j' o' y (mem_of_getElem? hy) r hry
      obtain ⟨hnone, -⟩ | ⟨ol, hol, hbefore⟩ := hb.refs r hr
      · rw [hall] at hnone
        cases hnone
      · rw [hall] at hol
        obtain rfl := Option.some.inj hol
        obtain hlt | ⟨rfl, rfl⟩ := hbefore
        · exact .inl hlt
        · exact .inr ⟨rfl, rfl, (List.getElem?_eq_some_iff.mp hy).1⟩
  · exact absurd hry (not_referred hknown hb (fun _ => hcontents.new_keys hdistinct) hoff hxmem hr)

structure Reached (chain : ChainReader) (p : Batch) (items : List Item) : Prop where
  shape : Shape p
  known : ReferencesKnown chain p
  contents : DistinctHashes items → Contents p items
  before : DistinctHashes items → OffChain chain items → ReferencesBefore p

theorem reached_new (chain : ChainReader) (max : ℕ) : Reached chain (newBatch max) [] := by
  refine ⟨shape_new max, ?_, fun _ => contents_new max, ?_⟩
  · intro i o x hx
    cases hx
  · intro _ _ i o k x hx
    cases hx

theorem Reached.placed (h : Reached chain p items) (hb : Placed chain p b i p') : Reached chain p' (items ++ [b]) := by
  have hleft : ∀ {items' : List Item}, DistinctHashes (items ++ items') → DistinctHashes items := by
    intro items' hd
    unfold DistinctHashes at hd ⊢
    rw [flatMap_append] at hd
    exact hd.of_append_left
  refine ⟨h.shape.placed hb, referencesKnown_placed h.known hb, ?_, ?_⟩
  · intro hd
    exact (h.contents (hleft hd)).placed hb hd
  · intro hd hoff
    have hoffOld : OffChain chain items := fun x hx => hoff x (mem_append_left _ hx)
    have hoffNew : OffChain chain [b] := fun x hx => hoff x (mem_append_right _ hx)
    exact referencesBefore_placed (h.before (hleft hd) hoffOld) (h.contents (hleft hd)) h.known hb hd hoffNew

-- by induction on the calls, with the items accepted so far
theorem run_reached (calls : List BatchCall) (h : Reached chain p items) :
    Reached chain (p.run chain calls) (items ++ p.accepted chain calls) := by
  induction calls generalizing p items with
  | nil => simpa [accepted, run] using h
  | cons c rest ih =>
    have hrun : p.run chain (c :: rest) = (p.step chain c).1.run chain rest := rfl
    rw [hrun, accepted]
    obtain ⟨e, he⟩ | ⟨i, p', hp', hplaced⟩ := step_cases chain h.shape c
    · rw [he]
      exact ih h
    · rw [hp', ← append_assoc]
      exact ih (h.placed hplaced)

/-- A snapshot item goes on top: to the snapshot level that is the highest one, or to a new one over all. -/
theorem Batch.Placed.snapshot_on_top (hp : Shape p) (h : Placed chain p b i p') (howner : b.owner = none) :
    (i : ℤ) = p'.current ∧ b ∈ p'.bucketItems i none ∧ (∃ l, p'.ls i = some l ∧ l.isSnapshot = true) ∧
      ∀ (j : ℕ) l, p.ls j = some l → j < i ∨ j = i ∧ l.isSnapshot = true := by
  obtain ⟨base, l', -, hkind, hbase, hadds, hls⟩ := h.level
  have htop := h.top howner
  refine ⟨?_, h.mem.mpr (.inr ⟨rfl, rfl, howner.symm⟩), ⟨l', by rw [hls, if_pos rfl], ?_⟩, ?_⟩
  · rw [h.current]
    split <;> omega
  · rw [hadds.isSnapshot, hkind.mpr howner]
  · intro j l hl
    have hle := hp.level_le hl
    by_cases hj : j = i
    · subst hj
      obtain hb | ⟨hb, -⟩ := hbase
      · rw [hl] at hb
        obtain rfl := Option.some.inj hb
        exact .inr ⟨rfl, hkind.mpr howner⟩
      · rw [hl] at hb
        cases hb
    · exact .inl (by omega)

theorem Batch.Placed.closed_kept (hp : Shape p) (h : Placed chain p b i p') {l : Level} (hl : p.ls j = some l)
    (hclosed : l.closed = true) : p'.ls j = some l := by
  obtain ⟨base, l', hopen, -, hbase, -, hls⟩ := h.level
  have hji : j ≠ i := by
    rintro rfl
    obtain hb | ⟨hb, -⟩ := hbase
    · rw [hl] at hb
      obtain rfl := Option.some.inj hb
      rw [hopen] at hclosed
      cases hclosed
    · rw [hl] at hb
      cases hb
  rw [hls, if_neg hji, if_neg, hl]
  rintro ⟨-, hover, -⟩
  rw [(hp.above j l hl hover).1] at hclosed
  cases hclosed

/-- A snapshot item lies in a snapshot level. -/
theorem snapshot_level (hx : x ∈ p.bucketItems i none) : ∃ l, p.ls i = some l ∧ l.isSnapshot = true := by
  obtain ⟨l, hl, hmem⟩ : ∃ l, p.ls i = some l ∧ x ∈ l.bucket none := by
    unfold bucketItems at hx
    cases hl : p.ls i with
    | none =>
      rw [hl] at hx
      cases hx
    | some l =>
      rw [hl] at hx
      exact ⟨l, rfl, hx⟩
  refine ⟨l, hl, ?_⟩
  unfold Level.bucket at hmem
  unfold Level.isSnapshot
  cases hb : l.buckets with
  | account sHash bs =>
    rw [hb] at hmem
    cases hmem
  | snapshot bu => rfl

theorem snapshot_over_accounts (hbefore : ReferencesBefore p) (hx : x ∈ p.bucketItems i none) :
    ∀ r ∈ x.accounts, ∀ (j : ℕ) (a : Address), ∀ y ∈ p.bucketItems j (some a), r ∈ y.keys → j < i := by
  intro r hr j a y hy hry
  obtain ⟨k, hk⟩ := getElem?_of_mem hx
  obtain ⟨m, hm⟩ := getElem?_of_mem hy
  obtain hlt | ⟨-, howner, -⟩ := hbefore i none k x hk r hr j (some a) m y hm hry
  · exact hlt
  · cases howner

/-- What a batch keeps, whatever calls were made on it, if their accepted items are distinct; the references are before
an item if no accepted item is on the chain. -/
structure KeepsDependencies (chain : ChainReader) (p : Batch) (items : List Item) : Prop where
  items_mem : ∀ x, x ∈ items ↔ ∃ (i : ℕ) (o : Option Address), x ∈ p.bucketItems i o
  references : OffChain chain items → ReferencesBefore p
  snapshots : ∀ (i : ℕ), ∀ x ∈ p.bucketItems i none, (∃ l, p.ls i = some l ∧ l.isSnapshot = true) ∧
    (OffChain chain items → ∀ r ∈ x.accounts, ∀ (j : ℕ) (a : Address), ∀ y ∈ p.bucketItems j (some a), r ∈ y.keys → j < i)
  snapshot_on_top : ∀ (c : BatchCall) (p' : Batch), c.item.owner = none → p.step chain c = (p', none) →
    ∃ i : ℕ, (i : ℤ) = p'.current ∧ c.item ∈ p'.bucketItems i none ∧ (∃ l, p'.ls i = some l ∧ l.isSnapshot = true) ∧
      ∀ (j : ℕ) (l : Level), p.ls j = some l → j < i ∨ j = i ∧ l.isSnapshot = true
  buckets : ∀ (i : ℕ) (o : Option Address), (∀ x ∈ p.bucketItems i o, x.owner = o) ∧
    (p.bucketItems i o).IsChain fun a b => a.hash = b.prevHash
  levels : ∀ i : ℕ, (p.ls i).isSome ↔ (i : ℤ) ≤ p.current
  closed : ∀ (c : BatchCall) (j : ℕ) (l : Level), p.ls j = some l → l.closed = true → (p.step chain c).1.ls j = some l
  failed : ∀ (c : BatchCall) (e : BatchError), (p.step chain c).2 = some e → (p.step chain c).1 = p

theorem batch_keeps_dependencies (chain : ChainReader) (maxLevel : ℕ) (calls : List BatchCall)
    (hdistinct : DistinctHashes ((newBatch maxLevel).accepted chain calls)) :
    KeepsDependencies chain ((newBatch maxLevel).run chain calls) ((newBatch maxLevel).accepted chain calls) := by
  have h := run_reached calls (reached_new chain maxLevel)
  have hcontents := h.contents hdistinct
  have hbefore := h.before hdistinct
  refine ⟨hcontents.mem, hbefore, ?_, ?_, ?_, h.shape.levels, ?_, ?_⟩
  · intro i x hx
    exact ⟨snapshot_level hx, fun hoff => snapshot_over_accounts (hbefore hoff) hx⟩
  · intro c p' howner hstep
    obtain ⟨e, he⟩ | ⟨i, p'', hp'', hplaced⟩ := step_cases chain h.shape c
    · rw [he] at hstep
      cases hstep
    · rw [hp''] at hstep
      cases hstep
      exact ⟨i, hplaced.snapshot_on_top h.shape howner⟩
  · intro i o
    exact ⟨hcontents.owner i o, hcontents.linked i o⟩
  · intro c j l hl hclosed
    obtain ⟨e, he⟩ | ⟨i, p', hp', hplaced⟩ := step_cases chain h.shape c
    · rw [he]
      exact hl
    · rw [hp']
      exact hplaced.closed_kept h.shape hl hclosed
  · intro c e herr
    obtain ⟨e', he⟩ | ⟨i, p', hp', -⟩ := step_cases chain h.shape c
    · rw [he]
    · rw [hp'] at herr
      cases herr

def sampleReader : ChainReader := ⟨fun _ => true, fun h => h = 9 ∨ h = 10 ∨ h = 20⟩

def sampleReceive : Item := item ⟨1, 21, 20, 2, true, 10, []⟩

def sampleOnChain : Item := item ⟨2, 10, 9, 2, false, 0, []⟩

-- a block that is on the chain already is taken again, next to a block that refers to it
theorem reference_in_same_level :
    let p := (newBatch 2).run sampleReader [.addAItem sampleReceive none, .addAItem sampleOnChain none]
    (newBatch 2).accepted sampleReader [.addAItem sampleReceive none, .addAItem sampleOnChain none] =
        [sampleReceive, sampleOnChain] ∧ DistinctHashes [sampleReceive, sampleOnChain] ∧
      p.bucketItems 0 (some 1) = [sampleReceive] ∧ p.bucketItems 0 (some 2) = [sampleOnChain] ∧
      10 ∈ sampleReceive.accounts ∧ 10 ∈ sampleOnChain.keys := by
  decide +kernel

/-- Account 2 sends, account 1 receives, and a snapshot block confirms both; then account 1 goes on. -/
def sampleCalls : List BatchCall :=
  [.addAItem (item ⟨2, 11, 10, 3, false, 0, []⟩) none,
    .addAItem (item ⟨1, 21, 20, 2, true, 11, []⟩) none,
    .addSItem (SnapshotPoolBlock.item ⟨31, 30, 5, (KeyStore.Store.empty.set 1 21).set 2 11⟩),
    .addAItem (item ⟨1, 22, 21, 3, false, 0, []⟩) none]

theorem batch_keeps_dependencies_sample :
    KeepsDependencies sampleReader ((newBatch 4).run sampleReader sampleCalls)
        ((newBatch 4).accepted sampleReader sampleCalls) ∧
      OffChain sampleReader ((newBatch 4).accepted sampleReader sampleCalls) ∧
      ((newBatch 4).accepted sampleReader sampleCalls).length = 4 :=
  ⟨batch_keeps_dependencies sampleReader 4 sampleCalls (by decide +kernel), by decide +kernel, by decide +kernel⟩

end GoVite.Pool

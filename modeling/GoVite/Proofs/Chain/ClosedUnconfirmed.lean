import GoVite.Lib.OnePass
import GoVite.Lib.Except
import GoVite.Spec.Chain.Unconfirmed
import GoVite.Sanity.Chain.Ledger

/-! The unconfirmed blocks stay closed under dependencies when a block is deleted or a snapshot block is inserted. -/

namespace GoVite.Chain
open KeyStore OnePass ExceptRules List Filter

/-- `b` comes after `a` in its account, or receives a block that `a` sent. -/
def DependsOn (a b : AccountBlock) : Prop :=
  a.accountAddress = b.accountAddress ∧ a.height < b.height ∨ b.isReceiveBlock = true ∧ b.fromBlockHash ∈ a.sentHashes

/-- Unconfirmed blocks: the blocks of an account in the order of their heights, a receive after the block it receives,
which is a send block. -/
structure UnconfirmedList where
  blocks : List AccountBlock
  hash_nodup : (blocks.map (·.hash)).Nodup
  heights : blocks.Pairwise fun a b => a.accountAddress = b.accountAddress → a.height < b.height
  receives : blocks.Pairwise fun r a => r.isReceiveBlock = true → r.fromBlockHash ∉ a.sentHashes
  from_send : ∀ r ∈ blocks, r.isReceiveBlock = true → ∀ a ∈ blocks, r.fromBlockHash = a.hash → a.isSendBlock = true

variable {b a : AccountBlock} {gone : List AccountBlock}

namespace UnconfirmedList
variable (l : UnconfirmedList)

/-- No block depends on a later one. -/
theorem ordered : l.blocks.Pairwise fun b a => ¬DependsOn a b := by
  refine (l.heights.and l.receives).imp ?_
  rintro b a ⟨hheight, hreceive⟩ (⟨haddr, hlt⟩ | ⟨hb, hmem⟩)
  · exact absurd (hheight haddr.symm) (by omega)
  · exact hreceive hb hmem

def delete (gone : List AccountBlock) : UnconfirmedList where
  blocks := deleteBlocks l.blocks gone
  hash_nodup := l.hash_nodup.sublist (List.filter_sublist.map _)
  heights := l.heights.sublist List.filter_sublist
  receives := l.receives.sublist List.filter_sublist
  from_send r hr hrec a ha := l.from_send r (List.mem_filter.1 hr).1 hrec a (List.mem_filter.1 ha).1

variable {l}

/-- A block that is gone is one of those deleted. -/
theorem mem_of_not_mem_deleteBlocks (hsub : gone ⊆ l.blocks)
    (ha : a ∈ l.blocks) (hnot : a ∉ deleteBlocks l.blocks gone) : a ∈ gone := by
  rw [deleteBlocks, Ledger.mem_without] at hnot
  obtain ⟨g, hg, heq⟩ := mem_map.1 (not_not.1 (not_and.1 hnot ha))
  rwa [inj_on_of_nodup_map l.hash_nodup (hsub hg) ha heq] at hg

theorem not_mem_of_mem_deleteBlocks (hb : b ∈ deleteBlocks l.blocks gone) : b ∈ l.blocks ∧ b ∉ gone := by
  rw [deleteBlocks, Ledger.mem_without] at hb
  exact ⟨hb.1, fun hmem => hb.2 (mem_map_of_mem hmem)⟩

end UnconfirmedList

/-- No block that is left depends on one that is gone. -/
def ClosedAfter (blocks rest : List AccountBlock) : Prop :=
  ∀ b ∈ rest, ∀ a ∈ blocks, a ∉ rest → ¬DependsOn a b

theorem UnconfirmedList.closedAfter_deleteBlocks {l : UnconfirmedList}
    (hsub : gone ⊆ l.blocks) (h : ∀ b ∈ l.blocks, b ∉ gone → ∀ a ∈ gone, ¬DependsOn a b) :
    ClosedAfter l.blocks (deleteBlocks l.blocks gone) := by
  intro b hb a ha hnot
  obtain ⟨hmem, hkept⟩ := not_mem_of_mem_deleteBlocks hb
  exact h b hmem hkept a (mem_of_not_mem_deleteBlocks hsub ha hnot)

/-! The pass of `computeDependencies` -/

/-- The marks are those of the blocks taken. -/
structure Dependencies.Marks (d : Dependencies) : Prop where
  addr : ∀ a ∈ d.newAccountBlocks, a.accountAddress ∈ d.addrSet
  hash : ∀ a ∈ d.newAccountBlocks, ∀ h ∈ a.sentHashes, h ∈ d.hashSet

section
variable {taken : List AccountBlock} {addrs : List Address} {hashes : List Hash}

theorem addrs_concat (h : ∀ a ∈ taken, a.accountAddress ∈ addrs) :
    ∀ a ∈ taken ++ [b], a.accountAddress ∈ addrs ++ [b.accountAddress] :=
  forall_mem_concat.2 ⟨fun a ha => mem_append_left _ (h a ha), mem_concat_self⟩

theorem hashes_concat (h : ∀ a ∈ taken, ∀ x ∈ a.sentHashes, x ∈ hashes) :
    ∀ a ∈ taken ++ [b], ∀ x ∈ a.sentHashes, x ∈ hashes ++ b.sentHashes :=
  forall_mem_concat.2 ⟨fun a ha x hx => mem_append_left _ (h a ha x hx), fun _ => mem_append_right _⟩

end

theorem sentHashes_of_isReceiveBlock (h : b.isReceiveBlock = true) : b.sentHashes = b.sendBlockList.map (·.hash) := by
  unfold AccountBlock.isReceiveBlock at h
  unfold AccountBlock.sentHashes AccountBlock.isSendBlock
  cases hb : b.blockType <;> simp_all

theorem pass_dependencies : Pass Dependencies.next Dependencies.newAccountBlocks Dependencies.Marks where
  inv_step d b h := by
    unfold Dependencies.next
    split_ifs with haddr hreceive
    · exact ⟨forall_mem_concat.2 ⟨h.addr, haddr⟩, hashes_concat h.hash⟩
    · rw [Bool.and_eq_true] at hreceive
      refine ⟨addrs_concat h.addr, ?_⟩
      rw [← sentHashes_of_isReceiveBlock hreceive.1]
      exact hashes_concat h.hash
    · exact h
  taken_step d b := by
    unfold Dependencies.next
    split_ifs
    · exact .inr rfl
    · exact .inr rfl
    · exact .inl rfl

theorem Dependencies.next_left {d : Dependencies} (h : d.Marks)
    (hleft : (d.next b).newAccountBlocks = d.newAccountBlocks) : ∀ a ∈ d.newAccountBlocks, ¬DependsOn a b := by
  unfold Dependencies.next at hleft
  split_ifs at hleft with haddr hreceive
  · simp at hleft
  · simp at hleft
  · simp only [Bool.and_eq_true, decide_eq_true_eq, not_and] at hreceive
    rintro a ha (⟨hsame, -⟩ | ⟨hb, hmem⟩)
    · exact haddr (hsame ▸ h.addr a ha)
    · exact hreceive hb (h.hash a ha _ hmem)

theorem sentHashes_subset_hashes (b : AccountBlock) : b.sentHashes ⊆ b.hashes := by
  intro x hx
  rcases mem_append.1 hx with hx | hx
  · split_ifs at hx
    · rw [mem_singleton.1 hx]
      exact mem_cons_self
    · cases hx
  · exact mem_cons_of_mem _ hx

theorem marks_first (first : AccountBlock) :
    (⟨[first], [first.accountAddress], first.hashes⟩ : Dependencies).Marks := by
  refine ⟨fun a ha => ?_, fun a ha x hx => ?_⟩
  · rw [mem_singleton.1 ha]
    exact mem_cons_self
  · rw [mem_singleton.1 ha] at hx
    exact sentHashes_subset_hashes first hx

theorem computeDependencies_subset (first : AccountBlock) (rest : List AccountBlock) :
    computeDependencies first rest ⊆ first :: rest := by
  obtain ⟨t, ht, heq⟩ := pass_dependencies.taken_foldl ⟨[first], [first.accountAddress], first.hashes⟩ rest
  intro b hb
  unfold computeDependencies at hb
  rw [heq] at hb
  rcases mem_append.1 hb with hb | hb
  · rw [mem_singleton.1 hb]
    exact mem_cons_self
  · exact mem_cons_of_mem first (ht.subset hb)

theorem first_mem_computeDependencies (first : AccountBlock) (rest : List AccountBlock) :
    first ∈ computeDependencies first rest := by
  obtain ⟨t, -, heq⟩ := pass_dependencies.taken_foldl ⟨[first], [first.accountAddress], first.hashes⟩ rest
  unfold computeDependencies
  rw [heq]
  exact mem_append_left t mem_cons_self

variable {rest before : List AccountBlock} {first : AccountBlock}

/-- Of a list that ends in these blocks, none that is left depends on one that goes. -/
theorem computeDependencies_closed (hord : (before ++ first :: rest).Pairwise fun b a => ¬DependsOn a b)
    (hb : b ∈ before ++ first :: rest) (hnot : b ∉ computeDependencies first rest)
    (ha : a ∈ computeDependencies first rest) : ¬DependsOn a b := by
  rw [pairwise_append] at hord
  obtain ⟨-, htail, hbefore⟩ := hord
  rcases mem_append.1 hb with hb | hb
  · exact hbefore b hb a (computeDependencies_subset first rest ha)
  · rcases mem_cons.1 hb with rfl | hb
    · exact absurd (first_mem_computeDependencies b rest) hnot
    · exact pass_dependencies.closed (marks_first first) (pairwise_cons.1 htail).2
        (fun d b hd hleft => Dependencies.next_left hd hleft) hb hnot ha

/-! What goes is reachable -/

/-- `a` is the block before `b` among those of the account. -/
def Precedes (blocks : List AccountBlock) (a b : AccountBlock) : Prop :=
  ∃ l₁ l₂ l₃, blocks = l₁ ++ a :: (l₂ ++ b :: l₃) ∧ a.accountAddress = b.accountAddress ∧
    ∀ c ∈ l₂, c.accountAddress ≠ a.accountAddress

/-- `a` is the predecessor of `b` in its account, or `b` receives a block that `a` sent. -/
def Follows (blocks : List AccountBlock) (a b : AccountBlock) : Prop :=
  Precedes blocks a b ∨ b.isReceiveBlock = true ∧ b.fromBlockHash ∈ a.sentHashes

variable {blocks l₃ : List AccountBlock}

/-- From a block to a later one of its account, one predecessor after the other. -/
theorem reflTransGen_follows (l₂ : List AccountBlock) : ∀ (l₁ gap : List AccountBlock) {a : AccountBlock},
      blocks = l₁ ++ a :: (gap ++ (l₂ ++ b :: l₃)) → a.accountAddress = b.accountAddress →
      (∀ c ∈ gap, c.accountAddress ≠ a.accountAddress) → Relation.ReflTransGen (Follows blocks) a b := by
  induction l₂ with
  | nil => exact fun l₁ gap a heq haddr hgap => .single (.inl ⟨l₁, gap, l₃, heq, haddr, hgap⟩)
  | cons c l₂ ih =>
    intro l₁ gap a heq haddr hgap
    by_cases hc : c.accountAddress = a.accountAddress
    · have hstep : Follows blocks a c := .inl ⟨l₁, gap, l₂ ++ b :: l₃, heq, hc.symm, hgap⟩
      refine .head hstep (ih (l₁ ++ a :: gap) [] ?_ (hc.trans haddr) fun _ h => by cases h)
      rw [heq]
      simp
    · refine ih l₁ (gap ++ [c]) ?_ haddr (forall_mem_concat.2 ⟨hgap, hc⟩)
      rw [heq]
      simp

/-- Each mark comes from a block taken; the hash of the first is one even if it is not a send block. -/
structure Dependencies.Sources (first : AccountBlock) (d : Dependencies) : Prop where
  first_mem : first ∈ d.newAccountBlocks
  addr : ∀ x ∈ d.addrSet, ∃ a ∈ d.newAccountBlocks, a.accountAddress = x
  hash : ∀ h ∈ d.hashSet, h = first.hash ∨ ∃ a ∈ d.newAccountBlocks, h ∈ a.sentHashes

theorem pass_sources (first : AccountBlock) :
    Pass Dependencies.next Dependencies.newAccountBlocks (Dependencies.Sources first) where
  taken_step := pass_dependencies.taken_step
  inv_step d b h := by
    have hold : ∀ {p : AccountBlock → Prop}, (∃ a ∈ d.newAccountBlocks, p a) → ∃ a ∈ d.newAccountBlocks ++ [b], p a := by
      rintro p ⟨a, ha, hp⟩
      exact ⟨a, mem_append_left _ ha, hp⟩
    have hnew : b ∈ d.newAccountBlocks ++ [b] := mem_append_right _ mem_cons_self
    unfold Dependencies.next
    split_ifs with haddr hreceive
    · refine ⟨mem_append_left _ h.first_mem, fun x hx => hold (h.addr x hx), fun x hx => ?_⟩
      rcases mem_append.1 hx with hx | hx
      · exact (h.hash x hx).imp_right hold
      · exact .inr ⟨b, hnew, hx⟩
    · rw [Bool.and_eq_true] at hreceive
      refine ⟨mem_append_left _ h.first_mem, fun x hx => ?_, fun x hx => ?_⟩
      · rcases mem_append.1 hx with hx | hx
        · exact hold (h.addr x hx)
        · exact ⟨b, hnew, (mem_singleton.1 hx).symm⟩
      · rcases mem_append.1 hx with hx | hx
        · exact (h.hash x hx).imp_right hold
        · refine .inr ⟨b, hnew, ?_⟩
          rwa [sentHashes_of_isReceiveBlock hreceive.1]
    · exact h

theorem sources_first (first : AccountBlock) :
    Dependencies.Sources first ⟨[first], [first.accountAddress], first.hashes⟩ := by
  refine ⟨mem_cons_self, fun x hx => ⟨first, mem_cons_self, (mem_singleton.1 hx).symm⟩, fun x hx => ?_⟩
  rcases mem_cons.1 hx with hx | hx
  · exact .inl hx
  · exact .inr ⟨first, mem_cons_self, mem_append_right _ hx⟩

theorem computeDependencies_reachable {l : UnconfirmedList}
    (hl : l.blocks = before ++ first :: rest) (hb : b ∈ computeDependencies first rest) :
    Relation.ReflTransGen (Follows l.blocks) first b := by
  set d₀ : Dependencies := ⟨[first], [first.accountAddress], first.hashes⟩ with hd₀
  have hreach := (pass_sources first).reachable (R := Follows l.blocks) ?_ hb
  · obtain ⟨x, hx, hxb⟩ := hreach
    rwa [mem_singleton.1 hx] at hxb
  · intro l₁ c l₂ hrest htook
    set d := l₁.foldl Dependencies.next d₀
    have hd : d.Sources first := (pass_sources first).inv_foldl (sources_first first) l₁
    have hc : c ∈ l.blocks := by
      rw [hl, hrest]
      simp
    -- what has been taken so far comes before
    have hearlier : ∀ x ∈ d.newAccountBlocks, ∃ m₁ m₂, l.blocks = m₁ ++ x :: (m₂ ++ c :: l₂) := fun x hx => by
      obtain ⟨t, ht, heq⟩ := (pass_sources first).taken_foldl d₀ l₁
      rw [heq] at hx
      rcases mem_append.1 hx with hx | hx
      · rw [mem_singleton.1 hx]
        exact ⟨before, l₁, by rw [hl, hrest]⟩
      · obtain ⟨m₁, m₂, hm⟩ := append_of_mem (ht.subset hx)
        refine ⟨before ++ first :: m₁, m₂, ?_⟩
        rw [hl, hrest, hm]
        simp
    unfold Dependencies.next at htook
    split_ifs at htook with haddr hreceive
    · obtain ⟨x, hx, hsame⟩ := hd.addr _ haddr
      obtain ⟨m₁, m₂, hm⟩ := hearlier x hx
      exact ⟨x, hx, reflTransGen_follows m₂ m₁ [] hm hsame fun _ h => by cases h⟩
    · simp only [Bool.and_eq_true, decide_eq_true_eq] at hreceive
      rcases hd.hash _ hreceive.2 with hfirst | ⟨x, hx, hmem⟩
      · refine ⟨first, hd.first_mem, .single (.inr ⟨hreceive.1, ?_⟩)⟩
        have hsend : first.isSendBlock = true := l.from_send c hc hreceive.1 first (by rw [hl]; simp) hfirst
        rw [hfirst, AccountBlock.sentHashes, if_pos hsend]
        exact mem_append_left _ mem_cons_self
      · exact ⟨x, hx, .single (.inr ⟨hreceive.1, hmem⟩)⟩
    · exact absurd rfl htook

/-! The pass of `filterUnconfirmedBlocks` -/

structure Filter.Marks (f : Filter) : Prop where
  addr : ∀ a ∈ f.invalidBlocks, a.accountAddress ∈ f.invalidAddrSet
  hash : ∀ a ∈ f.invalidBlocks, ∀ h ∈ a.sentHashes, h ∈ f.invalidHashSet

variable (V : Verdicts) (invalidConsensus : List Hash) (sbHeight : ℕ)

/-- A block is kept, which is only if it depends on no invalid one, or is invalid. -/
theorem Filter.next_cases (f : Filter) (b : AccountBlock) :
    (f.dependenceOk b = true ∧ ∃ caches, f.next V invalidConsensus sbHeight b = { f with caches }) ∨
      ∃ caches, f.next V invalidConsensus sbHeight b = ⟨f.invalidBlocks ++ [b],
        f.invalidAddrSet ++ [b.accountAddress], f.invalidHashSet ++ b.sentHashes, caches⟩ := by
  unfold next
  dsimp only
  by_cases hvalid : (f.dependenceOk b && decide (b.hash ∉ invalidConsensus)) = true
  · rw [if_pos hvalid]
    by_cases hquota : (V.quotaOk f.caches b sbHeight).1 = true
    · rw [if_pos hquota]
      exact .inl ⟨(Bool.and_eq_true_iff.1 hvalid).1, _, rfl⟩
    · rw [if_neg hquota]
      exact .inr ⟨_, rfl⟩
  · rw [if_neg hvalid]
    exact .inr ⟨_, rfl⟩

theorem pass_filter : Pass (next V invalidConsensus sbHeight) invalidBlocks Filter.Marks where
  inv_step f b h := by
    rcases f.next_cases V invalidConsensus sbHeight b with ⟨-, caches, heq⟩ | ⟨caches, heq⟩
    · rw [heq]
      exact ⟨h.addr, h.hash⟩
    · rw [heq]
      exact ⟨addrs_concat h.addr, hashes_concat h.hash⟩
  taken_step f b := by
    rcases f.next_cases V invalidConsensus sbHeight b with ⟨-, caches, heq⟩ | ⟨caches, heq⟩
    · exact .inl (by rw [heq])
    · exact .inr (by rw [heq])

theorem Filter.next_left {V : Verdicts} {invalidConsensus : List Hash} {sbHeight : ℕ} {f : Filter}
    (h : f.Marks) (hleft : (f.next V invalidConsensus sbHeight b).invalidBlocks = f.invalidBlocks) :
    ∀ a ∈ f.invalidBlocks, ¬DependsOn a b := by
  rcases f.next_cases V invalidConsensus sbHeight b with ⟨hok, -⟩ | ⟨caches, heq⟩
  · simp only [dependenceOk, Bool.and_eq_true, decide_eq_true_eq, Bool.not_eq_true', Bool.and_eq_false_iff,
      Bool.or_eq_false_iff, decide_eq_false_iff_not] at hok
    rintro a ha (⟨hsame, -⟩ | ⟨hb, hmem⟩)
    · exact hok.1 (hsame ▸ h.addr a ha)
    · rcases hok.2 with hnot | ⟨-, hnot⟩
      · rw [hb] at hnot
        cases hnot
      · exact hnot (h.hash a ha _ hmem)
  · rw [heq] at hleft
    simp at hleft

/-- Whatever the verdicts, no block that is left depends on an invalid one. -/
theorem filterUnconfirmedBlocks_closed (l : UnconfirmedList) (sbHeight : ℕ) (checkConsensus : Bool) :
    ClosedAfter l.blocks (deleteBlocks l.blocks (filterUnconfirmedBlocks V l.blocks sbHeight checkConsensus)) := by
  have hall : ClosedAfter l.blocks (deleteBlocks l.blocks l.blocks) :=
    l.closedAfter_deleteBlocks (List.Subset.refl _) fun b hb hnot => absurd hb hnot
  have hfilter : ∀ invalidConsensus, ClosedAfter l.blocks (deleteBlocks l.blocks
      (l.blocks.foldl (next V invalidConsensus sbHeight) ⟨[], [], [], ⟨.empty, .empty⟩⟩).invalidBlocks) := by
    intro invalidConsensus
    have hmarks : (⟨[], [], [], ⟨.empty, .empty⟩⟩ : Filter).Marks :=
      ⟨fun a ha => (by cases ha), fun a ha => (by cases ha)⟩
    obtain ⟨t, ht, heq⟩ := (pass_filter V invalidConsensus sbHeight).taken_foldl ⟨[], [], [], ⟨.empty, .empty⟩⟩ l.blocks
    refine l.closedAfter_deleteBlocks (by rw [heq]; exact ht.subset) fun b hb hnot a ha => ?_
    exact (pass_filter V invalidConsensus sbHeight).closed hmarks l.ordered
      (fun f b hf hleft => next_left hf hleft) hb hnot ha
  unfold filterUnconfirmedBlocks
  split_ifs
  · exact hall
  · cases hfailed : V.filterConsensusFailed l.blocks with
    | none => exact hall
    | some invalidBlocks => exact hfilter _
  · exact hfilter _

/-! The two operations -/

def Requested (addr : Address) (toHeight : ℕ) (toHash : Option Hash) (b : AccountBlock) : Prop :=
  match toHash with
  | some hash => b.hash = hash
  | none => b.accountAddress = addr ∧ b.height = toHeight

theorem planDeleteBlocks_eq {addr : Address} {toHeight : ℕ} {toHash : Option Hash}
    (h : planDeleteBlocks blocks addr toHeight toHash = first :: rest) :
    Requested addr toHeight toHash first ∧ ∃ before, blocks = before ++ first :: rest := by
  have hdrop : ∀ p : AccountBlock → Bool, blocks.dropWhile p = first :: rest →
      p first = false ∧ ∃ before, blocks = before ++ first :: rest := fun p hp => by
    refine ⟨?_, blocks.takeWhile p, by rw [← hp, takeWhile_append_dropWhile]⟩
    have hhead := head?_dropWhile_not p blocks
    rw [hp] at hhead
    simpa using hhead
  unfold planDeleteBlocks at h
  cases toHash with
  | some hash =>
    obtain ⟨hp, hbefore⟩ := hdrop _ h
    exact ⟨by simpa [Requested] using hp, hbefore⟩
  | none =>
    split_ifs at h
    obtain ⟨hp, hbefore⟩ := hdrop _ h
    exact ⟨by simpa [Requested] using hp, hbefore⟩

/-- After a deletion, and after the insertion of a snapshot block with any verdicts, no unconfirmed block depends on one
that was deleted; and a deletion takes only what is reachable from the block it was asked for. -/
theorem unconfirmed_stay_closed (l : UnconfirmedList) :
    (∀ (addr : Address) (toHeight : ℕ) (toHash : Option Hash) (deleted rest : List AccountBlock),
      deleteAccountBlockByHeightOrHash l.blocks addr toHeight toHash = .ok (deleted, rest) →
      ClosedAfter l.blocks rest ∧ ∃ first ∈ deleted, Requested addr toHeight toHash first ∧
        ∀ b ∈ deleted, b ∈ l.blocks ∧ Relation.ReflTransGen (Follows l.blocks) first b) ∧
    ∀ (V : Verdicts) (sbHeight : ℕ) (content : Store Address ℕ) (r : Inserted),
      insertSnapshotBlock V l.blocks sbHeight content = .ok r → ClosedAfter r.unconfirmed r.rest := by
  refine ⟨fun addr toHeight toHash deleted rest h => ?_, fun V sbHeight content r h => ?_⟩
  · obtain ⟨-, h⟩ := guard_ok h
    cases hplan : planDeleteBlocks l.blocks addr toHeight toHash with
    | nil =>
      rw [hplan] at h
      cases h
    | cons first tail =>
      rw [hplan] at h
      cases h
      obtain ⟨hreq, before, hl⟩ := planDeleteBlocks_eq hplan
      have hsub : computeDependencies first tail ⊆ l.blocks := fun b hb => by
        rw [hl]
        exact mem_append_right _ (computeDependencies_subset first tail hb)
      refine ⟨l.closedAfter_deleteBlocks hsub fun b hb hnot a ha => ?_, first,
        first_mem_computeDependencies first tail, hreq, fun b hb => ⟨hsub hb, ?_⟩⟩
      · have hord := l.ordered
        rw [hl] at hord hb
        exact computeDependencies_closed hord hb hnot ha
      · exact computeDependencies_reachable hl hb
  · obtain ⟨confirmed, -, h⟩ := bind_ok h
    cases h
    exact filterUnconfirmedBlocks_closed V (l.delete confirmed) sbHeight true

/-- A send block, a contract that receives it and sends on, the block that receives this, and a block of another
account. -/
def relay : List AccountBlock :=
  [⟨.sendCall, 11, 1, 1, 2, 0, none, []⟩, ⟨.receive, 21, 1, 2, 0, 11, none, [⟨.sendCall, 22, 3⟩]⟩,
    ⟨.sendCall, 41, 1, 4, 1, 0, none, []⟩, ⟨.receive, 31, 1, 3, 0, 22, none, []⟩]

theorem relay_hash_nodup : (relay.map (·.hash)).Nodup := by
  decide

theorem relay_heights : relay.Pairwise fun a b => a.accountAddress = b.accountAddress → a.height < b.height := by
  decide

theorem relay_receives : relay.Pairwise fun r a => r.isReceiveBlock = true → r.fromBlockHash ∉ a.sentHashes := by
  decide

theorem relay_from_send : ∀ r ∈ relay, r.isReceiveBlock = true → ∀ a ∈ relay, r.fromBlockHash = a.hash →
    a.isSendBlock = true := by
  decide

def relayList : UnconfirmedList := ⟨relay, relay_hash_nodup, relay_heights, relay_receives, relay_from_send⟩

/-- The producer of the first block is wrong. -/
def firstInvalid : Verdicts where
  isUpgradePoint _ := false
  filterConsensusFailed blocks := some (blocks.take 1)
  calcBlockQuotaUsed _ _ := some 21000
  getStakeBeneficialAmount _ := some 0
  getSnapshotCurrentQuota _ _ _ := some 21000

/-- Both ways the block of the other account is the only one left. -/
theorem relay_stays_closed :
    (∃ deleted rest, deleteAccountBlockByHeightOrHash relay 1 1 none = .ok (deleted, rest) ∧
      deleted.map (·.hash) = [11, 21, 31] ∧ rest.map (·.hash) = [41] ∧ ClosedAfter relay rest) ∧
    ∃ r, insertSnapshotBlock firstInvalid relay 7 .empty = .ok r ∧ r.invalid.map (·.hash) = [11, 21, 31] ∧
      r.rest.map (·.hash) = [41] ∧ ClosedAfter relay r.rest :=
  ⟨⟨_, _, rfl, rfl, rfl, ((unconfirmed_stay_closed relayList).1 1 1 none _ _ rfl).1⟩,
    _, rfl, rfl, rfl, (unconfirmed_stay_closed relayList).2 firstInvalid 7 .empty _ rfl⟩

end GoVite.Chain

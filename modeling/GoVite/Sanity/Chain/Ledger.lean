import Mathlib.Data.List.Flatten
import Mathlib.Data.List.Nodup
import Mathlib.Data.List.Range
import GoVite.Spec.Chain.Ledger

/-! The changes of a chain keep it well formed; a snapshot and a rollback of account blocks cut the unconfirmed blocks
of every account in two. -/

namespace GoVite.Chain.Ledger
open List

variable {β : Type} {acct : β → AccountBlock}

@[simp] theorem owned_append (addr : Address) (bs bs' : List β) :
    owned acct addr (bs ++ bs') = owned acct addr bs ++ owned acct addr bs' := filter_append ..

variable {bs : List β} {b : β} {addr : Address}

theorem mem_owned : b ∈ owned acct addr bs ↔ b ∈ bs ∧ (acct b).accountAddress = addr := by simp [owned]

@[simp] theorem owned_singleton (addr : Address) (b : β) :
    owned acct addr [b] = if (acct b).accountAddress = addr then [b] else [] := by
  by_cases h : (acct b).accountAddress = addr <;> simp [owned, h]

variable {gone : List β}

theorem mem_without : b ∈ without acct bs gone ↔ b ∈ bs ∧ (acct b).hash ∉ gone.map fun g => (acct g).hash := by
  simp only [without, mem_filter, decide_eq_true_eq]

/-- The hashes of the blocks, the send blocks they make apart, are distinct. -/
theorem nodup_hash (h : (bs.flatMap fun b => (acct b).hashes).Nodup) : (bs.map fun b => (acct b).hash).Nodup := by
  refine h.sublist ?_
  induction bs with
  | nil => simp
  | cons b bs ih =>
    exact ((ih (nodup_append.1 h).2.1).trans (sublist_append_right _ _)).cons_cons _

variable {b' : β}

section
variable (h : (bs.flatMap fun b => (acct b).hashes).Nodup) (hb : b ∈ bs) (hb' : b' ∈ bs)
include h hb hb'

theorem eq_of_hash_eq (heq : (acct b).hash = (acct b').hash) : b = b' :=
  inj_on_of_nodup_map (nodup_hash h) hb hb' heq

/-- A hash, also that of a send block it makes, belongs to one block. -/
theorem eq_of_mem_hashes {x : Hash} (hx : x ∈ (acct b).hashes) (hx' : x ∈ (acct b').hashes) : b = b' := by
  by_contra hne
  have hdisjoint := (nodup_flatMap.1 h).2
  have hsymm : Std.Symm (Function.onFun List.Disjoint fun b => (acct b).hashes) :=
    ⟨fun _ _ hd _ hx hx' => hd hx' hx⟩
  exact hdisjoint.forall hb hb' hne hx hx'

end

theorem owned_without (addr : Address) (bs gone : List β) :
    owned acct addr (without acct bs gone) = without acct (owned acct addr bs) gone := by
  simp only [owned, without, filter_filter, Bool.and_comm]

/-- Blocks taken out of a list without repetition are those of the part that holds them. -/
theorem without_of_subset (h : ∀ b ∈ bs, b ∈ gone) : without acct bs gone = [] :=
  filter_eq_nil_iff.2 fun b hb => by
    have := mem_map_of_mem (f := fun g => (acct g).hash) (h b hb)
    simpa using this

theorem without_of_disjoint (h : ∀ b ∈ bs, (acct b).hash ∉ gone.map fun g => (acct g).hash) :
    without acct bs gone = bs :=
  filter_eq_self.2 fun b hb => by simpa using h b hb

theorem without_without_singleton (bs gone : List β) (b : β) :
    without acct (without acct bs [b]) gone = without acct bs (b :: gone) := by
  simp only [without, filter_filter, map_cons, map_nil, mem_cons, not_mem_nil, or_false,
    not_or, Bool.decide_and, Bool.and_comm]

variable {c c' : List β} {i : ℕ}

/-- The chunks after a snapshot are the old ones and the new one. -/
theorem getElem?_concat_eq_some {chunks : List (List β)} :
    (chunks ++ [c])[i]? = some c' ↔ chunks[i]? = some c' ∨ i = chunks.length ∧ c' = c := by
  rcases Nat.lt_trichotomy i chunks.length with hi | rfl | hi
  · simp [getElem?_append_left hi, hi.ne]
  · simp [eq_comm]
  · have hout : chunks.length + 1 ≤ i := hi
    simp [getElem?_eq_none, hout, hi.le, hi.ne']

section
variable {l : Ledger β}

theorem blocks_rollback_isPrefix (n : ℕ) (recover : Bool) :
    (l.apply acct (.rollback n recover)).blocks <+: l.blocks := by
  have hsplit : l.blocks = (l.chunks.take (l.latestHeight - n)).flatten ++ ((l.deleted n).flatten ++ l.unconfirmed) := by
    rw [blocks, ← append_assoc, deleted, ← flatten_append, take_append_drop]
  rw [hsplit, apply]
  refine (prefix_append_right_inj _).2 ?_
  cases recover with
  | false => exact nil_prefix
  | true =>
    cases hd : l.deleted n with
    | nil => exact nil_prefix
    | cons c cs =>
      rw [flatten_cons, append_assoc]
      exact prefix_append _ _

variable (hw : l.WellFormed acct)
include hw

theorem WellFormed.nodup_unconfirmed : (l.unconfirmed.flatMap fun b => (acct b).hashes).Nodup := by
  have h := hw.hashes
  rw [blocks, flatMap_append] at h
  exact (nodup_append.1 h).2.1

theorem WellFormed.nodup_owned (addr : Address) : (owned acct addr l.unconfirmed).Nodup :=
  ((nodup_hash hw.nodup_unconfirmed).of_map _).filter _

/-- A block of the account that is not among those gone has a hash that is not among theirs. -/
theorem WellFormed.hash_not_mem (hsub : gone.Sublist l.unconfirmed)
    (hb : b ∈ owned acct addr l.unconfirmed) (hgone : b ∉ owned acct addr gone) :
    (acct b).hash ∉ gone.map fun g => (acct g).hash := by
  intro hmem
  obtain ⟨g, hg, heq⟩ := mem_map.1 hmem
  have hbu := mem_owned.1 hb
  have := eq_of_hash_eq hw.nodup_unconfirmed (hsub.subset hg) hbu.1 heq
  subst this
  exact hgone (mem_owned.2 ⟨hg, hbu.2⟩)

variable {confirmed : List β}

theorem WellFormed.owned_snapshot (ha : l.Allows acct (.snapshot confirmed)) (addr : Address) :
    owned acct addr l.unconfirmed =
      owned acct addr confirmed ++ owned acct addr (without acct l.unconfirmed confirmed) := by
  obtain ⟨hsub, hcut⟩ := ha
  obtain ⟨rest, hrest⟩ := hcut addr
  have hnodup := hw.nodup_owned addr
  rw [← hrest] at hnodup
  have hrest' : without acct rest confirmed = rest := without_of_disjoint fun b hb =>
    hw.hash_not_mem hsub (by rw [← hrest]; exact mem_append_right _ hb)
      fun hmem => (nodup_append.1 hnodup).2.2 b hmem b hb rfl
  have hgone : without acct (owned acct addr confirmed) confirmed = [] :=
    without_of_subset fun b hb => (mem_owned.1 hb).1
  rw [owned_without, ← hrest]
  have happ : without acct (owned acct addr confirmed ++ rest) confirmed =
      without acct (owned acct addr confirmed) confirmed ++ without acct rest confirmed := filter_append ..
  rw [happ, hgone, hrest', nil_append]

theorem WellFormed.owned_takeBack (ha : l.Allows acct (.takeBack gone)) (addr : Address) :
    owned acct addr l.unconfirmed = owned acct addr (without acct l.unconfirmed gone) ++ owned acct addr gone := by
  obtain ⟨hsub, hcut⟩ := ha
  obtain ⟨kept, hkept⟩ := hcut addr
  have hnodup := hw.nodup_owned addr
  rw [← hkept] at hnodup
  have hkept' : without acct kept gone = kept := without_of_disjoint fun b hb =>
    hw.hash_not_mem hsub (by rw [← hkept]; exact mem_append_left _ hb)
      fun hmem => (nodup_append.1 hnodup).2.2 b hb b hmem rfl
  have hgone : without acct (owned acct addr gone) gone = [] := without_of_subset fun b hb => (mem_owned.1 hb).1
  rw [owned_without, ← hkept]
  have happ : without acct (kept ++ owned acct addr gone) gone =
      without acct kept gone ++ without acct (owned acct addr gone) gone := filter_append ..
  rw [happ, hgone, hkept', append_nil]

theorem WellFormed.perm_snapshot (ha : l.Allows acct (.snapshot confirmed)) :
    (confirmed ++ without acct l.unconfirmed confirmed).Perm l.unconfirmed := by
  have hinj : ∀ b b', b ∈ l.unconfirmed → b' ∈ l.unconfirmed → (acct b).hash = (acct b').hash → b = b' :=
    fun _ _ hb hb' => eq_of_hash_eq hw.nodup_unconfirmed hb hb'
  have hnodup : l.unconfirmed.Nodup := (nodup_hash hw.nodup_unconfirmed).of_map _
  refine (perm_ext_iff_of_nodup ?_ hnodup).2 fun b => ?_
  · refine nodup_append.2 ⟨hnodup.sublist ha.1, hnodup.filter _, fun b hb b' hb' heq => ?_⟩
    subst heq
    exact (mem_without.1 hb').2 (mem_map_of_mem hb)
  · rw [mem_append]
    refine ⟨fun h => h.elim (fun h => ha.1.subset h) fun h => (mem_without.1 h).1, fun h => ?_⟩
    by_cases hmem : (acct b).hash ∈ confirmed.map fun g => (acct g).hash
    · obtain ⟨c, hc, heq⟩ := mem_map.1 hmem
      exact .inl (hinj c b (ha.1.subset hc) h heq ▸ hc)
    · exact .inr (mem_without.2 ⟨h, hmem⟩)

theorem WellFormed.perm_blocks (ha : l.Allows acct (.snapshot confirmed)) :
    (l.apply acct (.snapshot confirmed)).blocks.Perm l.blocks := by
  have := (hw.perm_snapshot ha).append_left l.chunks.flatten
  simpa [Ledger.apply, blocks] using this

variable {l' : Ledger β}

theorem numbered_of_isPrefix (h : ∀ addr, owned acct addr l'.blocks <+: owned acct addr l.blocks)
    (addr : Address) : (owned acct addr l'.blocks).map (fun b => (acct b).height) =
      List.range' 1 (owned acct addr l'.blocks).length := by
  obtain ⟨rest, hrest⟩ := h addr
  have hnum := hw.numbered addr
  rw [← hrest, map_append, length_append, ← range'_append_1] at hnum
  exact (append_inj hnum (by simp)).1

theorem WellFormed.of_isPrefix (h : l'.blocks <+: l.blocks) : l'.WellFormed acct :=
  ⟨numbered_of_isPrefix hw fun _ => h.filter _, hw.hashes.sublist (h.sublist.flatMap _)⟩

theorem WellFormed.increasing (addr : Address) :
    (owned acct addr l.blocks).Pairwise fun b b' => (acct b).height < (acct b').height := by
  have h := pairwise_lt_range' (s := 1) (n := (owned acct addr l.blocks).length)
  rw [← hw.numbered addr] at h
  exact pairwise_map.1 h

variable {xs ys : List β}

theorem WellFormed.height_lt (hcut : l.blocks = xs ++ ys) (hb : b ∈ xs) (hb' : b' ∈ ys)
    (haddr : (acct b).accountAddress = (acct b').accountAddress) : (acct b).height < (acct b').height := by
  have h := hw.increasing (acct b').accountAddress
  rw [hcut, owned_append] at h
  exact (pairwise_append.1 h).2.2 b (mem_owned.2 ⟨hb, haddr⟩) b' (mem_owned.2 ⟨hb', rfl⟩)

/-- A later chunk has later blocks of an account. -/
theorem WellFormed.height_lt_of_chunks {j : ℕ} (hij : i < j) (hc : l.chunks[i]? = some c)
    (hc' : l.chunks[j]? = some c') (hb : b ∈ c) (hb' : b' ∈ c')
    (haddr : (acct b).accountAddress = (acct b').accountAddress) : (acct b).height < (acct b').height := by
  have hcut : l.blocks = (l.chunks.take j).flatten ++ ((l.chunks.drop j).flatten ++ l.unconfirmed) := by
    rw [blocks, ← append_assoc, ← flatten_append, take_append_drop]
  have hbefore : c ∈ l.chunks.take j := mem_of_getElem? (by rw [getElem?_take_of_lt hij, hc])
  have hafter : c' ∈ l.chunks.drop j := mem_of_getElem? (by rw [getElem?_drop, Nat.add_zero, hc'])
  exact hw.height_lt hcut (mem_flatten_of_mem hbefore hb) (mem_append_left _ (mem_flatten_of_mem hafter hb')) haddr

theorem WellFormed.apply {a : LedgerAction β} (ha : l.Allows acct a) : (l.apply acct a).WellFormed acct := by
  cases a with
  | insert b =>
    have hblocks : (l.apply acct (.insert b)).blocks = l.blocks ++ [b] := by simp [Ledger.apply, blocks]
    refine ⟨fun addr => ?_, by rw [hblocks]; exact ha.2⟩
    rw [hblocks, owned_append, map_append, hw.numbered addr, length_append, owned_singleton]
    by_cases haddr : (acct b).accountAddress = addr
    · have hheight := ha.1
      rw [haddr] at hheight
      rw [if_pos haddr, map_singleton, length_singleton, hheight, range'_1_concat, Nat.add_comm 1]
    · rw [if_neg haddr]
      simp
  | snapshot confirmed =>
    have howned : ∀ addr, owned acct addr (l.apply acct (.snapshot confirmed)).blocks = owned acct addr l.blocks := by
      intro addr
      have hcut := hw.owned_snapshot ha addr
      simp only [Ledger.apply, blocks, flatten_append, flatten_singleton, owned_append, hcut,
        append_assoc]
    refine ⟨fun addr => by rw [howned]; exact hw.numbered addr, ?_⟩
    exact ((hw.perm_blocks ha).flatMap_right _).nodup_iff.2 hw.hashes
  | takeBack gone =>
    have hsub : (l.apply acct (.takeBack gone)).blocks.Sublist l.blocks :=
      (List.Sublist.refl _).append filter_sublist
    refine ⟨numbered_of_isPrefix hw fun addr => ?_, hw.hashes.sublist (hsub.flatMap _)⟩
    rw [blocks, blocks, owned_append, owned_append, hw.owned_takeBack ha addr, ← append_assoc]
    exact prefix_append _ _
  | rollback n recover => exact hw.of_isPrefix (blocks_rollback_isPrefix n recover)

end

theorem wellFormed_empty : (Ledger.mk [] [] : Ledger β).WellFormed acct := ⟨fun _ => rfl, nodup_nil⟩

end GoVite.Chain.Ledger

import Mathlib.Data.List.Permutation
import GoVite.Sanity.Chain.Index
import GoVite.Sanity.Chain.Ledger

/-! What inserting and deleting blocks does to the records of receive blocks (table 3) and of the blocks on the road
(table 5). A deletion is looked at for one send block: at most the blocks that send and receive it matter. -/

namespace GoVite.Chain.AccountBlock

/-- The send blocks that are this block or in its list, with the addresses they go to. -/
def sends (b : AccountBlock) : List (Hash × Address) :=
  (if b.isReceiveBlock then [] else [(b.hash, b.toAddress)]) ++ b.sendBlockList.map fun s => (s.hash, s.toAddress)

/-- The block receives the send block with the hash; a genesis block receives none. -/
def Receives (b : AccountBlock) (h : Hash) : Prop :=
  b.isReceiveBlock = true ∧ b.blockType ≠ .genesisReceive ∧ b.fromBlockHash = h

instance (b : AccountBlock) (h : Hash) : Decidable (b.Receives h) :=
  inferInstanceAs (Decidable (b.isReceiveBlock = true ∧ b.blockType ≠ .genesisReceive ∧ b.fromBlockHash = h))

variable {b : AccountBlock}

theorem mem_hashes_of_mem_sends {h : Hash} {addr : Address} (hs : (h, addr) ∈ b.sends) : h ∈ b.hashes := by
  rcases List.mem_append.1 hs with hs | hs
  · split_ifs at hs
    · cases hs
    · rw [(Prod.mk.inj (List.mem_singleton.1 hs)).1]
      exact List.mem_cons_self
  · obtain ⟨s, hs, heq⟩ := List.mem_map.1 hs
    exact List.mem_cons_of_mem _ ((Prod.mk.inj heq).1 ▸ List.mem_map_of_mem hs)

theorem sends_unique (hb : b.hashes.Nodup) {h : Hash} {addr addr' : Address}
    (hs : (h, addr) ∈ b.sends) (hs' : (h, addr') ∈ b.sends) : addr = addr' := by
  have hnodup : (b.sends.map Prod.fst).Nodup := by
    refine hb.sublist ?_
    unfold sends hashes
    rw [List.map_append, List.map_map]
    split_ifs
    · exact (List.Sublist.refl _).cons _
    · exact List.Sublist.refl _
  exact (Prod.mk.inj (List.inj_on_of_nodup_map hnodup hs hs' rfl)).2

theorem sends_of_not_isReceiveBlock (hplain : b.sendBlockList ≠ [] → b.isReceiveBlock)
    (hb : b.isReceiveBlock = false) : b.sends = [(b.hash, b.toAddress)] := by
  have hnil : b.sendBlockList = [] := by
    by_contra hne
    rw [hplain hne] at hb
    cases hb
  simp [sends, hb, hnil]

end GoVite.Chain.AccountBlock

namespace GoVite.ChainIndex.Pending
open KeyStore ChainDb Chain List Option Store Prod AccountBlock

variable {p : Pending}

/-! Insertion -/

theorem record_receive_insertAccountBlock (p : Pending) (b : AccountBlock) (h : Hash) :
    (p.insertAccountBlock b).record (createReceiveKey h) = if h ∈ b.sends.map fst then some (some unreceivedFlag)
      else if b.Receives h then some (some [b.hash]) else p.record (createReceiveKey h) := by
  have haccount := record_insertAccount (k := createReceiveKey h) (by simp) p b.accountAddress
  have hmem : h ∈ b.sends.map fst ↔
      (b.isReceiveBlock = false ∧ b.hash = h) ∨ ∃ s ∈ b.sendBlockList, s.hash = h := by
    by_cases hr : b.isReceiveBlock = true <;> simp [sends, hr, eq_comm]
  refine (foldl_observe (fun q : Pending => q.record (createReceiveKey h)) (fun s => s.hash = h)
    (some (some unreceivedFlag)) (fun q s => ?_) _ _).trans ?_
  · unfold insertSendBlock
    by_cases hc : s.blockType = .sendCreate <;> simp [hc]
  by_cases hinner : ∃ s ∈ b.sendBlockList, s.hash = h
  · rw [if_pos hinner, if_pos (hmem.2 (.inr hinner))]
  · simp only [AccountBlock.Receives]
    split_ifs <;> simp_all [insertSend]

theorem record_onRoad_insertAccountBlock (p : Pending) (b : AccountBlock) (addr : Address) (h : Hash) :
    (p.insertAccountBlock b).record (createOnRoadKey addr h) = if (h, addr) ∈ b.sends then some (some [])
      else if b.Receives h ∧ b.accountAddress = addr then some none else p.record (createOnRoadKey addr h) := by
  have haccount := record_insertAccount (k := createOnRoadKey addr h) (by simp) p b.accountAddress
  have hmem : (h, addr) ∈ b.sends ↔
      (b.isReceiveBlock = false ∧ b.hash = h ∧ b.toAddress = addr) ∨
        ∃ s ∈ b.sendBlockList, (s.hash, s.toAddress) = (h, addr) := by
    by_cases hr : b.isReceiveBlock = true <;> simp [sends, hr, eq_comm]
  rw [insertAccountBlock]
  refine (foldl_observe (fun q : Pending => q.record (createOnRoadKey addr h))
    (fun s => (s.hash, s.toAddress) = (h, addr)) (some (some [])) (fun q s => ?_) _ _).trans ?_
  · unfold insertSendBlock
    by_cases hc : s.blockType = .sendCreate <;> simp [hc, and_comm]
  by_cases hinner : ∃ s ∈ b.sendBlockList, (s.hash, s.toAddress) = (h, addr)
  · rw [if_pos hinner, if_pos (hmem.2 (.inr hinner))]
  · rw [if_neg hinner]
    simp only [AccountBlock.Receives]
    split_ifs <;> simp_all [insertSend] <;> grind

/-! Deletion -/

/-- How far the deletion has come for one send block: where it goes to if its receive block is not deleted, and the
records written for it. -/
structure Slot where
  opened : Option Address
  receive : Option (Option DbValue)
  onRoad : Address → Option (Option DbValue)

def slot (h : Hash) (acc : Pending × Store Hash Address) : Slot :=
  ⟨acc.2.get? h, acc.1.record (createReceiveKey h), fun addr => acc.1.record (createOnRoadKey addr h)⟩

namespace Slot

def reopen (s : Slot) (addr : Address) : Slot :=
  match s.opened with
  | some _ => ⟨none, some none, s.onRoad⟩
  | none => ⟨none, some (some unreceivedFlag), Function.update s.onRoad addr (some (some []))⟩

def send (s : Slot) : Option Address → Slot
  | some addr => { s with opened := some addr }
  | none => s

def delete (h : Hash) (s : Slot) (b : AccountBlock) : Slot :=
  (if b.isReceiveBlock = true ∧ b.fromBlockHash = h then s.reopen b.accountAddress else s).send
    ((b.sends.find? fun x => x.1 = h).map Prod.snd)

end Slot

variable {b : AccountBlock}

section
variable (h : Hash) (acc : Pending × Store Hash Address)

theorem slot_deleteOwn (b : AccountBlock) : slot h (acc.1.deleteOwn b, acc.2) = slot h acc := by
  simp [slot, deleteOwn]

theorem slot_reopen (b : AccountBlock) :
    slot h (reopen acc b) = if b.fromBlockHash = h then (slot h acc).reopen b.accountAddress else slot h acc := by
  unfold reopen Slot.reopen
  by_cases hfrom : b.fromBlockHash = h
  · subst hfrom
    cases hopen : acc.2.get? b.fromBlockHash with
    | none =>
      simp only [slot, hopen, isSome_none, Bool.false_eq_true, if_false, if_true, Slot.mk.injEq, true_and]
      refine ⟨by simp, funext fun addr => ?_⟩
      by_cases haddr : addr = b.accountAddress
      · simp [haddr]
      · simp [haddr, Ne.symm haddr]
    | some addr => simp [slot, hopen]
  · split_ifs <;> simp [slot, hfrom, get?_erase, Ne.symm hfrom]

theorem slot_deleteSendBlock (s : SendBlock) :
    slot h (deleteSendBlock acc s) = if s.hash = h then (slot h acc).send (some s.toAddress) else slot h acc := by
  by_cases hs : s.hash = h
  · subst hs
    by_cases hc : s.blockType = .sendCreate <;> simp [slot, deleteSendBlock, hc, Slot.send]
  · by_cases hc : s.blockType = .sendCreate <;> simp [slot, deleteSendBlock, hc, hs, get?_set, Ne.symm hs]

theorem slot_foldl_deleteSendBlock {l : List SendBlock} (hl : (l.map (·.hash)).Nodup) :
    slot h (l.foldl deleteSendBlock acc) = (slot h acc).send ((l.find? fun s => s.hash = h).map (·.toAddress)) := by
  induction l generalizing acc with
  | nil => rfl
  | cons s l ih =>
    rw [map_cons, nodup_cons] at hl
    rw [foldl_cons, ih _ hl.2, slot_deleteSendBlock]
    by_cases hs : s.hash = h
    · -- no other send block has the hash
      have hnone : l.find? (fun s => s.hash = h) = none := find?_eq_none.2 fun x hx heq => by
        rw [decide_eq_true_eq, ← hs] at heq
        exact hl.1 (heq ▸ mem_map_of_mem hx)
      simp [hs, hnone, Slot.send]
    · simp [hs]

theorem slot_deleteAccountBlock (hb : b.hashes.Nodup) (hplain : b.sendBlockList ≠ [] → b.isReceiveBlock) :
    slot h (deleteAccountBlock acc b) = (slot h acc).delete h b := by
  rw [deleteAccountBlock_eq, Slot.delete]
  by_cases hr : b.isReceiveBlock = true
  · have hsends : (b.sends.find? fun x => x.1 = h).map snd =
        (b.sendBlockList.find? fun s => s.hash = h).map (·.toAddress) := by
      simp only [sends, hr, if_true, nil_append, find?_map, Option.map_map]
      rfl
    rw [if_pos hr, slot_foldl_deleteSendBlock h _ (nodup_cons.1 hb).2, slot_reopen, slot_deleteOwn, hsends]
    simp only [hr, true_and]
  · rw [Bool.not_eq_true] at hr
    rw [sends_of_not_isReceiveBlock hplain hr]
    by_cases hh : b.hash = h
    · subst hh
      by_cases hc : b.blockType = .sendCreate <;> simp [hr, hc, slot, Slot.send, deleteOwn]
    · by_cases hc : b.blockType = .sendCreate <;> simp [hr, hc, hh, slot, Slot.send, deleteOwn, get?_set, Ne.symm hh]

theorem slot_deleteSnapshotBlock (m : Store Hash Address) (q : Pending) (sb : SnapshotBlock) :
    slot h (q.deleteSnapshotBlock sb, m) = slot h (q, m) := by
  unfold slot deleteSnapshotBlock
  simp (disch := simp) only [record_deleteHeights]
  simp

end

/-- Blocks as they are on a chain: hashes are not used twice, and only receive blocks have send blocks. -/
structure Proper (bs : List AccountBlock) : Prop where
  hashes : (bs.flatMap hashes).Nodup
  plain : ∀ b ∈ bs, b.sendBlockList ≠ [] → b.isReceiveBlock

variable {bs bs' gone : List AccountBlock}

theorem Proper.subset (hb : Proper bs) (hsub : bs'.Sublist bs) : Proper bs' :=
  ⟨hb.hashes.sublist (hsub.flatMap _), fun b h => hb.plain b (hsub.subset h)⟩

theorem Proper.nodup_hashes (hb : Proper bs) (h : b ∈ bs) : b.hashes.Nodup :=
  (nodup_flatMap.1 hb.hashes).1 b h

theorem Proper.nodup (hb : Proper bs) : bs.Nodup := by
  have hnodup : (bs.flatMap fun b => (id b).hashes).Nodup := hb.hashes
  exact (Ledger.nodup_hash hnodup).of_map _

/-- A send block is sent by one block, to one address. -/
theorem Proper.sender_eq (hb : Proper bs) {b b' : AccountBlock} (h : b ∈ bs) (h' : b' ∈ bs)
    {x : Hash} {addr addr' : Address} (hs : (x, addr) ∈ b.sends) (hs' : (x, addr') ∈ b'.sends) :
    b = b' ∧ addr = addr' := by
  have hnodup : (bs.flatMap fun b => (id b).hashes).Nodup := hb.hashes
  obtain rfl : b = b' := Ledger.eq_of_mem_hashes hnodup h h' (mem_hashes_of_mem_sends hs) (mem_hashes_of_mem_sends hs')
  exact ⟨rfl, sends_unique (hb.nodup_hashes h) hs hs'⟩

/-- What is known of a send block after the deletion of blocks. -/
def deletedSlot (h : Hash) (gone : List AccountBlock) : Slot :=
  gone.foldl (Slot.delete h) ⟨none, none, fun _ => none⟩

theorem slot_rollbackChunk (h : Hash) {gone : List AccountBlock} (hgone : Proper gone)
    (acc : Pending × Store Hash Address) (seg : SnapshotChunk) (hseg : ∀ b ∈ seg.accountBlocks, b ∈ gone) :
    slot h (rollbackChunk acc seg) = seg.accountBlocks.foldl (Slot.delete h) (slot h acc) := by
  have hfold : ∀ (bs : List AccountBlock), (∀ b ∈ bs, b ∈ gone) → ∀ acc,
      slot h (bs.foldl deleteAccountBlock acc) = bs.foldl (Slot.delete h) (slot h acc) := by
    intro bs
    induction bs with
    | nil => exact fun _ _ => rfl
    | cons b bs ih =>
      intro hbs acc
      have hb := hbs b mem_cons_self
      rw [foldl_cons, foldl_cons, ih (fun c hc => hbs c (mem_cons_of_mem _ hc)),
        slot_deleteAccountBlock h acc (hgone.nodup_hashes hb) (hgone.plain b hb)]
  unfold rollbackChunk
  cases seg.snapshotBlock with
  | none => exact hfold _ hseg acc
  | some sb => exact (slot_deleteSnapshotBlock h _ _ sb).trans (hfold _ hseg acc)

theorem slot_rollbackChunks (h : Hash) {gone : List AccountBlock} (hgone : Proper gone) {segs : List SnapshotChunk} :
    ∀ (acc : Pending × Store Hash Address), (∀ seg ∈ segs, ∀ b ∈ seg.accountBlocks, b ∈ gone) →
      slot h (segs.foldl rollbackChunk acc) =
        (segs.flatMap (·.accountBlocks)).foldl (Slot.delete h) (slot h acc) := by
  induction segs with
  | nil => exact fun _ _ => rfl
  | cons seg segs ih =>
    intro acc hsegs
    rw [foldl_cons, ih _ fun s hs => hsegs s (mem_cons_of_mem _ hs),
      slot_rollbackChunk h hgone acc seg (hsegs seg mem_cons_self), flatMap_cons, foldl_append]

section
variable (db : IndexDb) {segs : List SnapshotChunk} (hsegs : segs.flatMap (·.accountBlocks) = gone)
  (hgone : Proper gone) (h : Hash)
include hsegs hgone

theorem slot_deleted : slot h (segs.foldl rollbackChunk (db.pending, .empty)) = deletedSlot h gone := by
  rw [slot_rollbackChunks h hgone _ fun seg hseg b hb => hsegs ▸ mem_flatMap.2 ⟨seg, hseg, hb⟩, hsegs]
  rfl

theorem record_receive_rollback : (db.pending.rollback segs).record (createReceiveKey h) =
    if (deletedSlot h gone).opened.isSome then some none else (deletedSlot h gone).receive := by
  have hclose : ∀ (q : Pending) (e : Hash × Address), (closeSend q e).record (createReceiveKey h) =
      if e.1 = h then some none else q.record (createReceiveKey h) := fun q e => by
    simp [closeSend]
  rw [rollback_eq, foldl_observe (fun q : Pending => q.record (createReceiveKey h)) (fun e => e.1 = h) (some none) hclose,
    ← slot_deleted db hsegs hgone h]
  refine if_congr ?_ rfl rfl
  simp only [slot, isSome_iff_exists, get?_eq_some_iff]
  constructor
  · rintro ⟨e, he, rfl⟩
    exact ⟨e.2, he⟩
  · rintro ⟨addr, he⟩
    exact ⟨_, he, rfl⟩

theorem record_onRoad_rollback (addr : Address) : (db.pending.rollback segs).record (createOnRoadKey addr h) =
    if (deletedSlot h gone).opened = some addr then some none else (deletedSlot h gone).onRoad addr := by
  have hclose : ∀ (q : Pending) (e : Hash × Address), (closeSend q e).record (createOnRoadKey addr h) =
      if e = (h, addr) then some none else q.record (createOnRoadKey addr h) := fun q e => by
    simp [closeSend, Prod.ext_iff, and_comm]
  rw [rollback_eq, foldl_observe (fun q : Pending => q.record (createOnRoadKey addr h)) (fun e => e = (h, addr)) (some none)
    hclose, ← slot_deleted db hsegs hgone h]
  refine if_congr ?_ rfl rfl
  simp only [slot, get?_eq_some_iff, exists_eq_right]

end

/-! The blocks that matter for a send block -/

/-- The block sends or receives the send block. -/
def Touches (h : Hash) (b : AccountBlock) : Prop := b.Receives h ∨ h ∈ b.sends.map Prod.fst

instance (h : Hash) : DecidablePred (Touches h) := fun b =>
  inferInstanceAs (Decidable (b.Receives h ∨ h ∈ b.sends.map Prod.fst))

namespace Slot
variable {s : Slot} {h : Hash} {b : AccountBlock}

theorem receives_iff (hg : b.blockType ≠ .genesisReceive) :
    b.isReceiveBlock = true ∧ b.fromBlockHash = h ↔ b.Receives h := by
  simp [AccountBlock.Receives, hg]

theorem find?_sends_of_not_mem (hb : h ∉ b.sends.map fst) : b.sends.find? (fun x => x.1 = h) = none :=
  find?_eq_none.2 fun x hx heq => hb (by
    rw [decide_eq_true_eq] at heq
    exact heq ▸ mem_map_of_mem hx)

theorem delete_of_not_touches (hg : b.blockType ≠ .genesisReceive) (hb : ¬Touches h b) : s.delete h b = s := by
  rw [Touches, not_or] at hb
  rw [delete, if_neg (fun hr => hb.1 ((receives_iff hg).1 hr)), find?_sends_of_not_mem hb.2]
  rfl

theorem delete_of_receives (hr : b.Receives h) (hb : h ∉ b.sends.map fst) :
    s.delete h b = s.reopen b.accountAddress := by
  rw [delete, if_pos ⟨hr.1, hr.2.2⟩, find?_sends_of_not_mem hb]
  rfl

theorem delete_of_sends (hg : b.blockType ≠ .genesisReceive) (hr : ¬b.Receives h) (hnodup : b.hashes.Nodup)
    {addr : Address} (hs : (h, addr) ∈ b.sends) : s.delete h b = { s with opened := some addr } := by
  have hfind : b.sends.find? (fun x => x.1 = h) = some (h, addr) := by
    cases hf : b.sends.find? (fun x => x.1 = h) with
    | none => exact absurd (find?_eq_none.1 hf _ hs) (by simp)
    | some x =>
      obtain ⟨x, addr'⟩ := x
      obtain rfl : x = h := by simpa using find?_some hf
      rw [sends_unique hnodup hs (mem_of_find?_eq_some hf)]
  rw [delete, if_neg (fun h' => hr ((receives_iff hg).1 h')), hfind]
  rfl

end Slot

/-- Blocks of a chain without its genesis blocks, of which one at most receives a send block, and none what it sends
itself. -/
structure Removable (gone : List AccountBlock) : Prop where
  proper : Proper gone
  genesis : ∀ b ∈ gone, b.blockType ≠ .genesisReceive
  once : ∀ h, ∀ b ∈ gone, ∀ b' ∈ gone, b.Receives h → b'.Receives h → b = b'
  other : ∀ h, ∀ b ∈ gone, b.Receives h → h ∉ b.sends.map Prod.fst

section
variable (hgone : Removable gone) (h : Hash)
include hgone

theorem deletedSlot_eq_filter : deletedSlot h gone = deletedSlot h (gone.filter fun b => Touches h b) := by
  have hfold : ∀ (bs : List AccountBlock), (∀ b ∈ bs, b ∈ gone) → ∀ s : Slot,
      bs.foldl (Slot.delete h) s = (bs.filter fun b => Touches h b).foldl (Slot.delete h) s := by
    intro bs
    induction bs with
    | nil => exact fun _ _ => rfl
    | cons b bs ih =>
      intro hbs s
      have hrest := ih fun c hc => hbs c (mem_cons_of_mem _ hc)
      by_cases hb : Touches h b
      · rw [filter_cons_of_pos (by simpa using hb), foldl_cons, foldl_cons, hrest]
      · rw [filter_cons_of_neg (by simpa using hb), foldl_cons, hrest,
          Slot.delete_of_not_touches (hgone.genesis b (hbs b mem_cons_self)) hb]
  exact hfold gone (fun _ hb => hb) _

theorem Removable.nodup : gone.Nodup := hgone.proper.nodup

/-- The blocks that matter are those of a list with the same elements, in some order. -/
theorem filter_touches_perm {l : List AccountBlock} (hl : l.Nodup) (hmem : ∀ b, b ∈ gone ∧ Touches h b ↔ b ∈ l) :
    (gone.filter fun b => Touches h b).Perm l := by
  refine (perm_ext_iff_of_nodup (hgone.nodup.filter _) hl).2 fun b => ?_
  rw [mem_filter, decide_eq_true_eq, hmem]

variable {h}

theorem deletedSlot_of_not_touched (hnone : ∀ b ∈ gone, ¬Touches h b) :
    deletedSlot h gone = ⟨none, none, fun _ => none⟩ := by
  have hnil : (gone.filter fun b => Touches h b) = [] := filter_eq_nil_iff.2 fun b hb => by simpa using hnone b hb
  rw [deletedSlot_eq_filter hgone, hnil]
  rfl

/-- The receive block goes, and the send block stays. -/
theorem deletedSlot_of_received {r : AccountBlock} (hr : r ∈ gone) (hrec : r.Receives h)
    (hsend : ∀ b ∈ gone, h ∉ b.sends.map fst) :
    deletedSlot h gone =
      ⟨none, some (some unreceivedFlag), Function.update (fun _ => none) r.accountAddress (some (some []))⟩ := by
  have hperm := filter_touches_perm hgone h (nodup_singleton r) fun b => by
    rw [mem_singleton]
    refine ⟨fun hb => hgone.once h b hb.1 r hr (hb.2.resolve_right (hsend b hb.1)) hrec, ?_⟩
    rintro rfl
    exact ⟨hr, .inl hrec⟩
  rw [deletedSlot_eq_filter hgone, perm_singleton.1 hperm, deletedSlot, foldl_cons,
    Slot.delete_of_receives hrec (hsend r hr)]
  rfl

/-- The send block goes. Its record on the road is deleted, or not written if its receive block goes too, whichever of
the two comes first. -/
theorem deletedSlot_of_sent (hb : b ∈ gone) {addr : Address} (hs : (h, addr) ∈ b.sends)
    (haddr : ∀ r ∈ gone, r.Receives h → r.accountAddress = addr) :
    ((deletedSlot h gone).opened = some addr ∧ ∀ addr' ≠ addr, (deletedSlot h gone).onRoad addr' = none) ∨
      (deletedSlot h gone = ⟨none, some none, fun _ => none⟩ ∧ ∃ r ∈ gone, r.Receives h) := by
  have hsends : h ∈ b.sends.map fst := mem_map_of_mem hs
  have hnot : ¬b.Receives h := fun hrec => hgone.other h b hb hrec hsends
  have honly : ∀ b' ∈ gone, h ∈ b'.sends.map fst → b' = b := fun b' hb' hs' => by
    obtain ⟨⟨x, addr'⟩, hx, rfl⟩ := mem_map.1 hs'
    exact (hgone.proper.sender_eq hb' hb hx hs).1
  have hdelete : ∀ s : Slot, s.delete h b = { s with opened := some addr } := fun s =>
    Slot.delete_of_sends (hgone.genesis b hb) hnot (hgone.proper.nodup_hashes hb) hs
  rw [deletedSlot_eq_filter hgone]
  by_cases hrec : ∃ r ∈ gone, r.Receives h
  · obtain ⟨r, hr, hrec⟩ := hrec
    have hne : b ≠ r := fun heq => hnot (heq ▸ hrec)
    have hreopen : ∀ s : Slot, s.delete h r = s.reopen addr := fun s => by
      rw [Slot.delete_of_receives hrec (hgone.other h r hr hrec), haddr r hr hrec]
    have hperm := filter_touches_perm hgone h (l := [b, r]) (by simp [hne]) fun b' => by
      simp only [mem_cons, not_mem_nil, or_false]
      constructor
      · rintro ⟨hb', hrec' | hs'⟩
        · exact .inr (hgone.once h b' hb' r hr hrec' hrec)
        · exact .inl (honly b' hb' hs')
      · rintro (rfl | rfl)
        · exact ⟨hb, .inr hsends⟩
        · exact ⟨hr, .inl hrec⟩
    rcases perm_pair.1 hperm with heq | heq
    · right
      rw [heq, deletedSlot, foldl_cons, foldl_cons, hdelete, hreopen]
      exact ⟨rfl, r, hr, hrec⟩
    · left
      rw [heq, deletedSlot, foldl_cons, foldl_cons, hreopen, hdelete]
      exact ⟨rfl, fun addr' hne => Function.update_of_ne hne _ _⟩
  · left
    have hperm := filter_touches_perm hgone h (nodup_singleton b) fun b' => by
      rw [mem_singleton]
      refine ⟨fun hb' => honly b' hb'.1 (hb'.2.resolve_left fun hrec' => hrec ⟨b', hb'.1, hrec'⟩), ?_⟩
      rintro rfl
      exact ⟨hb, .inr hsends⟩
    rw [perm_singleton.1 hperm, deletedSlot, foldl_cons, hdelete]
    exact ⟨rfl, fun _ _ => rfl⟩

end

end GoVite.ChainIndex.Pending

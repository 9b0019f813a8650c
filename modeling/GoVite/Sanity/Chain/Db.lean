import GoVite.Lib.Except
import GoVite.Sanity.Chain.Ledger
import GoVite.Spec.Chain.Db

/-! The batches a store keeps for the unconfirmed blocks, and what its operations show now and leave on disk. -/

namespace GoVite.ChainDb
open KeyStore Chain Ledger List Batch Function

variable {κ α β : Type} {acct : β → AccountBlock} {f : β → Batch κ α}

namespace UnconfirmedBatchs

/-- One batch for each block, in the order of the blocks. -/
def ofBlocks (acct : β → AccountBlock) (f : β → Batch κ α) (bs : List β) : UnconfirmedBatchs κ α :=
  bs.map fun b => (some (acct b).hash, f b)

variable {bs : List β}

theorem ofBlocks_congr {g : β → Batch κ α} (h : ∀ b ∈ bs, f b = g b) : ofBlocks acct f bs = ofBlocks acct g bs :=
  map_congr_left fun b hb => by rw [h b hb]

theorem all_ofBlocks : (ofBlocks acct f bs).all = bs.flatMap f := by
  simp [all, ofBlocks, flatMap_def, comp_def]

theorem get_ofBlocks (hnodup : (bs.map fun b => (acct b).hash).Nodup) {b : β} (hb : b ∈ bs) :
    (ofBlocks acct f bs).get (acct b).hash = some (f b) := by
  induction bs with
  | nil => cases hb
  | cons c bs ih =>
    rw [map_cons, nodup_cons] at hnodup
    by_cases heq : (acct c).hash = (acct b).hash
    · have hcb : b = c := (mem_cons.1 hb).resolve_right fun h =>
        hnodup.1 (heq ▸ mem_map_of_mem h)
      simp [get, ofBlocks, hcb]
    · have hmem : b ∈ bs := (mem_cons.1 hb).resolve_left fun h => heq (h ▸ rfl)
      simpa [get, ofBlocks, heq] using ih hnodup.2 hmem

theorem remove_ofBlocks (b : β) : (ofBlocks acct f bs).remove (acct b).hash = ofBlocks acct f (without acct bs [b]) := by
  simp [remove, ofBlocks, without, filter_map, comp_def]

theorem foldl_remove_ofBlocks (gone : List β) :
    (gone.map fun b => (acct b).hash).foldl remove (ofBlocks acct f bs) = ofBlocks acct f (without acct bs gone) := by
  induction gone generalizing bs with
  | nil => simp [without]
  | cons b gone ih =>
    rw [map_cons, foldl_cons, remove_ofBlocks, ih, without_without_singleton]

/-- A block with a new hash gets its batch at the end. -/
theorem put_ofBlocks [DecidableEq β] {b : β} (hb : (acct b).hash ∉ bs.map fun b => (acct b).hash) (batch : Batch κ α) :
    (ofBlocks acct f bs).put (acct b).hash batch = ofBlocks acct (update f b batch) (bs ++ [b]) := by
  have hne : ∀ c ∈ bs, (acct c).hash ≠ (acct b).hash := fun c hc heq =>
    hb (heq ▸ mem_map_of_mem hc)
  have hold : ofBlocks acct (update f b batch) bs = ofBlocks acct f bs :=
    ofBlocks_congr fun c hc => update_of_ne (fun h => hne c hc (by rw [h])) _ _
  have hkept : (ofBlocks acct f bs).map (fun e => if e.1 = some (acct b).hash then (none, e.2) else e) =
      ofBlocks acct f bs := by
    refine (map_congr_left fun e he => ?_).trans (map_id _)
    obtain ⟨c, hc, rfl⟩ := mem_map.1 he
    simp [hne c hc]
  rw [put, hkept, ← hold]
  simp [ofBlocks]

end UnconfirmedBatchs

namespace DbStore
open UnconfirmedBatchs

variable [LinearOrder κ]

def flushed (s : DbStore κ α) : Store κ α := Batch.replay (s.flushingBatch.getD [] ++ s.snapshotBatch) s.disk

theorem view_putMemDb (s : DbStore κ α) (batch : Batch κ α) : (s.putMemDb batch).view = replay batch s.view :=
  replay_append ..

theorem view_rollbackAccountBlocks (s : DbStore κ α) (batch : Batch κ α) (hs : List Hash) :
    (s.rollbackAccountBlocks batch hs).view = replay batch s.view := view_putMemDb s batch

theorem view_rollbackSnapshot (s : DbStore κ α) (batch : Batch κ α) :
    (s.rollbackSnapshot batch).view = replay batch s.view := view_putMemDb s batch

variable {s s' : DbStore κ α} {batch : Batch κ α}

theorem view_writeSnapshotByHash {hs : List Hash}
    (h : s.writeSnapshotByHash batch hs = .ok s') : s'.view = replay batch s.view := by
  obtain ⟨t, hfold, h⟩ := ExceptRules.bind_ok h
  obtain rfl := Except.ok.inj h
  have hseen : t.memDb = (s.putMemDb batch).memDb ∧ t.disk = s.disk := by
    refine ExceptRules.foldlM_inv (fun _ u => u.memDb = (s.putMemDb batch).memDb ∧ u.disk = s.disk)
      (fun done u x u' hu hstep => ?_) hfold ⟨rfl, rfl⟩
    rw [confirmBatch] at hstep
    cases hget : u.unconfirmedBatchs.get x with
    | none =>
      rw [hget] at hstep
      cases hstep
    | some b =>
      rw [hget] at hstep
      obtain rfl := Except.ok.inj hstep
      exact hu
  rw [← view_putMemDb, view, view, ← hseen.1]
  exact congrArg _ hseen.2

theorem flushed_rollbackSnapshot (s : DbStore κ α) (batch : Batch κ α) :
    (s.rollbackSnapshot batch).flushed = replay batch (replay s.unconfirmedBatchs.all s.flushed) := by
  simp only [flushed, rollbackSnapshot, putMemDb, replay_append]

variable {confirmed bs : List β}

section
variable (hs : s.unconfirmedBatchs = ofBlocks acct f bs) (hnodup : (bs.map fun b => (acct b).hash).Nodup)
  (hsub : confirmed.Sublist bs)
include hs hnodup hsub

/-- Confirming blocks moves their batches, one after the other, to the snapshot batch. -/
theorem foldlM_confirmBatch : (confirmed.map fun b => (acct b).hash).foldlM confirmBatch s = .ok { s with
      snapshotBatch := s.snapshotBatch ++ confirmed.flatMap f
      unconfirmedBatchs := ofBlocks acct f (without acct bs confirmed) } := by
  induction confirmed generalizing s bs with
  | nil => simp [← hs, without, pure, Except.pure]
  | cons b confirmed ih =>
    have hget : s.unconfirmedBatchs.get (acct b).hash = some (f b) :=
      hs ▸ get_ofBlocks hnodup (hsub.subset mem_cons_self)
    have hdistinct := hnodup.sublist (hsub.map fun b => (acct b).hash)
    rw [map_cons, nodup_cons] at hdistinct
    -- the other confirmed blocks are still there when the first is taken out
    have hrest : confirmed.Sublist (without acct bs [b]) := by
      have hkept : without acct confirmed [b] = confirmed := without_of_disjoint fun c hc hmem => by
        rw [map_singleton, mem_singleton] at hmem
        exact hdistinct.1 (hmem ▸ mem_map_of_mem hc)
      rw [← hkept]
      exact ((sublist_cons_self b confirmed).trans hsub).filter _
    have hnodup' : ((without acct bs [b]).map fun b => (acct b).hash).Nodup :=
      hnodup.sublist (filter_sublist.map _)
    rw [map_cons, foldlM_cons, confirmBatch, hget]
    refine (ih ?_ hnodup' hrest).trans ?_
    · rw [hs, remove_ofBlocks]
    · rw [without_without_singleton, flatMap_cons, append_assoc]

/-- What is seen, flushed and pending after a snapshot block has been written. -/
theorem writeSnapshotByHash_spec (h : s.writeSnapshotByHash batch (confirmed.map fun b => (acct b).hash) = .ok s') :
    s'.view = replay batch s.view ∧
      s'.flushed = replay batch (replay (confirmed.flatMap f) s.flushed) ∧
      s'.flushingBatch = s.flushingBatch ∧ s'.unconfirmedBatchs = ofBlocks acct f (without acct bs confirmed) := by
  rw [writeSnapshotByHash, foldlM_confirmBatch (s := s.putMemDb batch) hs hnodup hsub] at h
  obtain rfl := Except.ok.inj h
  refine ⟨view_putMemDb s batch, ?_, rfl, rfl⟩
  simp only [flushed, putMemDb, replay_append]

end

end DbStore

end GoVite.ChainDb

import GoVite.Sanity.Chain.Cache
import GoVite.Sanity.Chain.OnRoad
import GoVite.Sanity.Chain.Rollback

/-! The index of the blocks on the road agrees with the chain over every run of insertions, snapshots and rollbacks,
with whatever the cache holds. -/

namespace GoVite.ChainIndex
open KeyStore ChainDb Chain Ledger IndexWorld Pending List Store Ledger Batch Prod

/-- Every receive block receives, as the only one, what another block of the chain sends to its account. -/
structure Consistent (bs : List AccountBlock) : Prop where
  sent : ∀ h, ∀ b ∈ bs, b.Receives h → ∃ s ∈ bs, s ≠ b ∧ (h, b.accountAddress) ∈ s.sends
  once : ∀ h, ∀ b ∈ bs, ∀ b' ∈ bs, b.Receives h → b'.Receives h → b = b'

/-- The tables of receive blocks and of blocks on the road are those of the blocks. -/
structure OnRoad (V : Store DbKey DbValue) (bs : List AccountBlock) : Prop where
  form : ∀ k v, V.get? k = some v → table k = 5 → ∃ addr h, k = createOnRoadKey addr h
  road : ∀ addr h, (V.get? (createOnRoadKey addr h)).isSome = true ↔
    (∃ b ∈ bs, (h, addr) ∈ b.sends) ∧ ∀ b ∈ bs, ¬b.Receives h
  received : ∀ h, ∀ b ∈ bs, b.Receives h → V.get? (createReceiveKey h) = some [b.hash]
  unreceived : ∀ h, (∀ b ∈ bs, ¬b.Receives h) →
    V.get? (createReceiveKey h) = none ∨ V.get? (createReceiveKey h) = some unreceivedFlag

/-- The block may follow the blocks: what it receives has been sent to its account and not been received. -/
def Receivable (bs : List AccountBlock) (b : AccountBlock) : Prop :=
  ∀ h, b.Receives h → (∃ s ∈ bs, (h, b.accountAddress) ∈ s.sends) ∧ ∀ c ∈ bs, ¬c.Receives h

variable {b : AccountBlock} {db : IndexDb}

section
variable {V : Store DbKey DbValue} {bs bs' : List AccountBlock}

theorem OnRoad.congr (hV : OnRoad V bs) (h : ∀ b, b ∈ bs' ↔ b ∈ bs) : OnRoad V bs' := by
  refine ⟨hV.form, fun addr x => ?_, fun x b hb => hV.received x b ((h b).1 hb), fun x hx => ?_⟩
  · simp only [hV.road addr x, h]
  · exact hV.unreceived x fun b hb => hx b ((h b).2 hb)

theorem Consistent.congr (hc : Consistent bs) (h : ∀ b, b ∈ bs' ↔ b ∈ bs) : Consistent bs' := by
  refine ⟨fun x b hb hrec => ?_, fun x b hb b' hb' => hc.once x b ((h b).1 hb) b' ((h b').1 hb')⟩
  obtain ⟨s, hs, hne⟩ := hc.sent x b ((h b).1 hb) hrec
  exact ⟨s, (h s).2 hs, hne⟩

variable {batch : Batch DbKey DbValue}

/-- The records of other tables do not matter. -/
theorem OnRoad.replay (hV : OnRoad V bs)
    (hkeys : ∀ k, table k = 3 ∨ table k = 5 → last? batch k = none) : OnRoad (replay batch V) bs := by
  have hsame : ∀ k, table k = 3 ∨ table k = 5 → (Batch.replay batch V).get? k = V.get? k := fun k hk => by
    rw [get?_replay, hkeys k hk, Option.getD_none]
  refine ⟨fun k v hget hk => hV.form k v (by rwa [hsame k (.inr hk)] at hget) hk, fun addr h => ?_, fun h => ?_, fun h => ?_⟩
  · rw [hsame _ (.inr rfl)]
    exact hV.road addr h
  · rw [hsame _ (.inl rfl)]
    exact hV.received h
  · rw [hsame _ (.inl rfl)]
    exact hV.unreceived h

/-- The keys of the table of blocks on the road have their form. -/
def WritesRoads (batch : Batch DbKey DbValue) : Prop :=
  ∀ k v, Batch.last? batch k = some (some v) → table k = 5 → ∃ addr h, k = createOnRoadKey addr h

theorem OnRoad.form_replay (hV : OnRoad V bs) (hform : WritesRoads batch) (k : DbKey)
    (v : DbValue) (hget : (Batch.replay batch V).get? k = some v) (hk : table k = 5) :
    ∃ addr h, k = createOnRoadKey addr h := by
  rw [get?_replay] at hget
  cases hlast : last? batch k with
  | none =>
    rw [hlast] at hget
    exact hV.form k v hget hk
  | some r =>
    rw [hlast, Option.getD_some] at hget
    exact hform k v (by rw [hlast, hget]) hk

/-! Insertion -/

variable {addr : Address}

section
variable (hc : Consistent bs) (hb : Proper (bs ++ [b])) (hnew : Receivable bs b)
include hb

theorem not_mem_of_proper : b ∉ bs := fun hmem => by
  exact (nodup_append.1 hb.nodup).2.2 b hmem b mem_cons_self rfl

/-- What the block sends is not sent by another one. -/
theorem not_sent_before {h : Hash} (hs : h ∈ b.sends.map fst) {c : AccountBlock} (hcb : c ∈ bs) :
    (h, addr) ∉ c.sends := fun hmem => by
  obtain ⟨⟨x, addr'⟩, hx, rfl⟩ := mem_map.1 hs
  have heq := (hb.sender_eq (mem_append_left _ hcb) mem_concat_self hmem hx).1
  exact not_mem_of_proper hb (heq ▸ hcb)

include hc hnew

theorem not_received_of_sends {h : Hash} (hs : h ∈ b.sends.map fst) : ∀ c ∈ bs ++ [b], ¬c.Receives h := by
  refine forall_mem_concat.2 ⟨fun c hcb hrec => ?_, fun hrec => ?_⟩
  · obtain ⟨s, hsb, -, hmem⟩ := hc.sent h c hcb hrec
    exact not_sent_before hb hs hsb hmem
  · obtain ⟨⟨s, hsb, hmem⟩, -⟩ := hnew h hrec
    exact not_sent_before hb hs hsb hmem

theorem Consistent.insert : Consistent (bs ++ [b]) := by
  refine ⟨fun h => ?_, fun h => ?_⟩
  · refine forall_mem_concat.2 ⟨fun c hcb hrec => ?_, fun hrec => ?_⟩
    · obtain ⟨s, hs, hne⟩ := hc.sent h c hcb hrec
      exact ⟨s, mem_append_left _ hs, hne⟩
    · obtain ⟨⟨s, hs, hmem⟩, -⟩ := hnew h hrec
      exact ⟨s, mem_append_left _ hs, fun heq => not_mem_of_proper hb (heq ▸ hs), hmem⟩
  · refine forall_mem_concat.2 ⟨fun c hcb => ?_, ?_⟩ <;> refine forall_mem_concat.2 ⟨?_, ?_⟩
    · exact hc.once h c hcb
    · exact fun hrec hrec' => absurd hrec ((hnew h hrec').2 c hcb)
    · exact fun c' hcb' hrec hrec' => absurd hrec' ((hnew h hrec).2 c' hcb')
    · exact fun _ _ => rfl

theorem OnRoad.insert (hV : OnRoad V bs) (hreceive : ∀ h, last? batch (createReceiveKey h) =
      if h ∈ b.sends.map fst then some (some unreceivedFlag)
      else if b.Receives h then some (some [b.hash]) else none)
    (hroad : ∀ addr h, last? batch (createOnRoadKey addr h) =
      if (h, addr) ∈ b.sends then some (some [])
      else if b.Receives h ∧ b.accountAddress = addr then some none else none)
    (hform : WritesRoads batch) : OnRoad (Batch.replay batch V) (bs ++ [b]) := by
  have hunsent := fun h => not_received_of_sends hc hb hnew (h := h)
  refine ⟨hV.form_replay hform, fun addr h => ?_, fun h c hcb hrec => ?_, fun h hnone => ?_⟩
  · rw [get?_replay, hroad]
    by_cases hs : (h, addr) ∈ b.sends
    · rw [if_pos hs]
      refine iff_of_true rfl ⟨⟨b, mem_concat_self, hs⟩, hunsent h (mem_map_of_mem hs)⟩
    · rw [if_neg hs]
      have hsent : (∃ c ∈ bs ++ [b], (h, addr) ∈ c.sends) ↔ ∃ c ∈ bs, (h, addr) ∈ c.sends := by
        simp [hs]
      rw [hsent]
      by_cases hrec : b.Receives h
      · -- what the block receives is on the road to no address
        refine iff_of_false (fun hsome => ?_) fun hall => hall.2 b mem_concat_self hrec
        obtain ⟨⟨s, hsb, hmem⟩, -⟩ := hnew h hrec
        by_cases haddr : b.accountAddress = addr
        · rw [if_pos ⟨hrec, haddr⟩] at hsome
          cases hsome
        · rw [if_neg fun hall => haddr hall.2] at hsome
          obtain ⟨⟨s', hsb', hmem'⟩, -⟩ := (hV.road addr h).1 hsome
          exact haddr (hb.sender_eq (mem_append_left _ hsb) (mem_append_left _ hsb') hmem hmem').2
      · rw [if_neg fun hall => hrec hall.1, Option.getD_none, hV.road addr h]
        simp [or_imp, forall_and, hrec]
  · rw [get?_replay, hreceive, if_neg fun hs => hunsent h hs c hcb hrec]
    rcases mem_append.1 hcb with hcb | hcb
    · rw [if_neg fun hrec' => (hnew h hrec').2 c hcb hrec]
      exact hV.received h c hcb hrec
    · obtain rfl := mem_singleton.1 hcb
      rw [if_pos hrec, Option.getD_some]
  · rw [get?_replay, hreceive]
    by_cases hs : h ∈ b.sends.map fst
    · rw [if_pos hs]
      exact .inr rfl
    · rw [if_neg hs, if_neg (hnone b mem_concat_self)]
      exact hV.unreceived h fun c hcb => hnone c (mem_append_left _ hcb)

end

/-! Deletion -/

/-- Some of the blocks go, none of them a genesis block, and none that stays receives what one that goes has sent. -/
structure Removes (bs kept gone : List AccountBlock) : Prop where
  blocks : ∀ b, b ∈ bs ↔ b ∈ kept ∨ b ∈ gone
  disjoint : ∀ b ∈ kept, b ∉ gone
  sublist : gone.Sublist bs
  genesis : ∀ b ∈ gone, b.blockType ≠ .genesisReceive
  closed : ∀ h, ∀ b ∈ kept, b.Receives h → ∀ s ∈ gone, h ∉ s.sends.map Prod.fst

section
variable {kept gone : List AccountBlock} (hb : Proper bs) (hc : Consistent bs) (hr : Removes bs kept gone)
include hc hr

theorem Consistent.delete : Consistent kept := by
  refine ⟨fun h b hbk hrec => ?_, fun h b hbk b' hbk' =>
    hc.once h b ((hr.blocks b).2 (.inl hbk)) b' ((hr.blocks b').2 (.inl hbk'))⟩
  obtain ⟨s, hs, hne, hmem⟩ := hc.sent h b ((hr.blocks b).2 (.inl hbk)) hrec
  exact ⟨s, ((hr.blocks s).1 hs).resolve_right fun hgone => hr.closed h b hbk hrec s hgone (mem_map_of_mem hmem),
    hne, hmem⟩

include hb

theorem Removes.removable : Removable gone := by
  have hmem := fun b (hbg : b ∈ gone) => (hr.blocks b).2 (.inr hbg)
  refine ⟨hb.subset hr.sublist, hr.genesis, fun h b hbg b' hbg' => hc.once h b (hmem b hbg) b' (hmem b' hbg'),
    fun h b hbg hrec hs => ?_⟩
  obtain ⟨⟨x, addr⟩, hx, rfl⟩ := mem_map.1 hs
  obtain ⟨s, hsb, hne, hsend⟩ := hc.sent x b (hmem b hbg) hrec
  exact hne (hb.sender_eq hsb (hmem b hbg) hsend hx).1

variable {segs : List SnapshotChunk} (hsegs : segs.flatMap (·.accountBlocks) = gone)
include hsegs

/-- What the batch of a rollback leaves of a send block in the two tables: nothing if it goes itself, the mark and the
place on the road if only its receive block goes, and else what there was. -/
theorem OnRoad.get?_delete (hV : OnRoad V bs) (db : IndexDb) {V' : Store DbKey DbValue}
    (hV' : V' = Batch.replay (db.pending.rollback segs).batch V) (h : Hash) :
    (∃ b ∈ gone, ∃ addr, (h, addr) ∈ b.sends ∧ V'.get? (createReceiveKey h) = none ∧
      ∀ addr', V'.get? (createOnRoadKey addr' h) = none) ∨
    (∀ b ∈ gone, h ∉ b.sends.map fst) ∧
      ((∃ r ∈ gone, r.Receives h ∧ V'.get? (createReceiveKey h) = some unreceivedFlag ∧ ∀ addr,
        V'.get? (createOnRoadKey addr h) = if addr = r.accountAddress then some [] else V.get? (createOnRoadKey addr h)) ∨
      (∀ b ∈ gone, ¬b.Receives h) ∧ V'.get? (createReceiveKey h) = V.get? (createReceiveKey h) ∧
        ∀ addr, V'.get? (createOnRoadKey addr h) = V.get? (createOnRoadKey addr h)) := by
  have hgone := hr.removable hb hc
  have hlost := fun b (hbg : b ∈ gone) => (hr.blocks b).2 (.inr hbg)
  have hreceive := record_receive_rollback db hsegs hgone.proper h
  have hroad := record_onRoad_rollback db hsegs hgone.proper h
  unfold record at hreceive hroad
  simp only [hV', get?_replay, hreceive, hroad]
  by_cases hsend : ∃ b ∈ gone, h ∈ b.sends.map fst
  · obtain ⟨b, hbg, hmem⟩ := hsend
    obtain ⟨⟨x, addr⟩, hs, rfl⟩ := mem_map.1 hmem
    refine .inl ⟨b, hbg, addr, hs, ?_⟩
    have haddr : ∀ r ∈ gone, r.Receives x → r.accountAddress = addr := fun r hrg hrec => by
      obtain ⟨s, hsb, -, hsend⟩ := hc.sent x r (hlost r hrg) hrec
      exact (hb.sender_eq hsb (hlost b hbg) hsend hs).2
    rcases deletedSlot_of_sent hgone hbg hs haddr with ⟨hopened, hother⟩ | ⟨hslot, r, hrg, hrec⟩
    · rw [hopened]
      refine ⟨rfl, fun addr' => ?_⟩
      by_cases heq : addr' = addr
      · rw [if_pos (by rw [heq]), Option.getD_some]
      · -- it was on the road to its own address at most
        rw [if_neg (by simpa using Ne.symm heq), hother addr' heq, Option.getD_none, ← Option.not_isSome_iff_eq_none,
          hV.road]
        rintro ⟨⟨s, hsb, hsend⟩, -⟩
        exact heq (hb.sender_eq hsb (hlost b hbg) hsend hs).2
    · rw [hslot]
      refine ⟨rfl, fun addr' => ?_⟩
      -- it was not on the road, since it had been received
      rw [if_neg (by simp), Option.getD_none, ← Option.not_isSome_iff_eq_none, hV.road]
      exact fun hall => hall.2 r (hlost r hrg) hrec
  · push Not at hsend
    refine .inr ⟨hsend, ?_⟩
    by_cases hrec : ∃ r ∈ gone, r.Receives h
    · obtain ⟨r, hrg, hrec⟩ := hrec
      rw [deletedSlot_of_received hgone hrg hrec hsend]
      refine .inl ⟨r, hrg, hrec, rfl, fun addr => ?_⟩
      dsimp only
      rw [if_neg (by simp), Function.update_apply]
      split_ifs <;> rfl
    · push Not at hrec
      rw [deletedSlot_of_not_touched hgone fun b hbg ht => ht.elim (hrec b hbg) (hsend b hbg)]
      exact .inr ⟨hrec, rfl, fun addr => rfl⟩

theorem OnRoad.delete (hV : OnRoad V bs) (hform : WritesRoads (db.pending.rollback segs).batch) :
    OnRoad (Batch.replay (db.pending.rollback segs).batch V) kept := by
  have hkept := fun b (hbk : b ∈ kept) => (hr.blocks b).2 (.inl hbk)
  have hlost := fun b (hbg : b ∈ gone) => (hr.blocks b).2 (.inr hbg)
  have hcases := OnRoad.get?_delete hb hc hr hsegs hV db rfl
  refine ⟨hV.form_replay hform, fun addr h => ?_, fun h b hbk hrec => ?_, fun h hnone => ?_⟩
  · rcases hcases h with ⟨b, hbg, addr', hs, -, hroad⟩ | ⟨hsend, ⟨r, hrg, hrec, -, hroad⟩ | ⟨hnone, -, hroad⟩⟩ <;>
      rw [hroad]
    · refine iff_of_false (by simp) ?_
      rintro ⟨⟨s, hsk, hmem⟩, -⟩
      have heq := (hb.sender_eq (hkept s hsk) (hlost b hbg) hmem hs).1
      exact hr.disjoint s hsk (heq ▸ hbg)
    · obtain ⟨s, hsb, -, hmem⟩ := hc.sent h r (hlost r hrg) hrec
      have hsk : s ∈ kept := ((hr.blocks s).1 hsb).resolve_right fun hsg => hsend s hsg (mem_map_of_mem hmem)
      by_cases haddr : addr = r.accountAddress
      · rw [if_pos haddr]
        refine iff_of_true rfl ⟨⟨s, hsk, haddr ▸ hmem⟩, fun b hbk hrec' => ?_⟩
        exact hr.disjoint b hbk (hc.once h b (hkept b hbk) r (hlost r hrg) hrec' hrec ▸ hrg)
      · rw [if_neg haddr, hV.road]
        refine iff_of_false (fun hall => hall.2 r (hlost r hrg) hrec) ?_
        rintro ⟨⟨s', hsk', hmem'⟩, -⟩
        exact haddr (hb.sender_eq (hkept s' hsk') hsb hmem' hmem).2
    · rw [hV.road]
      have hsent : (∃ b ∈ bs, (h, addr) ∈ b.sends) ↔ ∃ b ∈ kept, (h, addr) ∈ b.sends :=
        ⟨fun ⟨b, hbb, hmem⟩ => ⟨b, ((hr.blocks b).1 hbb).resolve_right fun hbg => hsend b hbg (mem_map_of_mem hmem),
          hmem⟩, fun ⟨b, hbk, hmem⟩ => ⟨b, hkept b hbk, hmem⟩⟩
      have hrec : (∀ b ∈ bs, ¬b.Receives h) ↔ ∀ b ∈ kept, ¬b.Receives h :=
        ⟨fun hall b hbk => hall b (hkept b hbk), fun hall b hbb => ((hr.blocks b).1 hbb).elim (hall b)
          fun hbg => hnone b hbg⟩
      rw [hsent, hrec]
  · rcases hcases h with ⟨s, hsg, addr, hs, -⟩ | ⟨-, ⟨r, hrg, hrec', -⟩ | ⟨-, hreceive, -⟩⟩
    · exact absurd (mem_map_of_mem hs) (hr.closed h b hbk hrec s hsg)
    · exact absurd (hc.once h b (hkept b hbk) r (hlost r hrg) hrec hrec' ▸ hrg) (hr.disjoint b hbk)
    · rw [hreceive]
      exact hV.received h b (hkept b hbk) hrec
  · rcases hcases h with ⟨-, -, -, -, hreceive, -⟩ | ⟨-, ⟨-, -, -, hreceive, -⟩ | ⟨hnot, hreceive, -⟩⟩ <;> rw [hreceive]
    · exact .inl rfl
    · exact .inr rfl
    · exact hV.unreceived h fun b hbb => ((hr.blocks b).1 hbb).elim (hnone b) (hnot b)

end

end

/-! The keys of the batches -/

namespace Pending
variable {p : Pending} {k : DbKey} {v : DbValue}

section
variable (h : WritesRoads p.batch)
include h

theorem writesRoads_put (hk : table k = 5 → ∃ addr x, k = createOnRoadKey addr x) :
    WritesRoads (p.put k v).batch := fun k' w hrec ht => by
  rw [show last? (p.put k v).batch k' = _ from record_put p k k' v] at hrec
  split_ifs at hrec with heq
  · exact heq ▸ hk (heq ▸ ht)
  · exact h k' w hrec ht

theorem writesRoads_delete : WritesRoads (p.delete k).batch := fun k' w hrec ht => by
  rw [show last? (p.delete k).batch k' = _ from record_delete p k k'] at hrec
  split_ifs at hrec with heq
  · cases Option.some.inj hrec
  · exact h k' w hrec ht

theorem writesRoads_insertAccountBlock (b : AccountBlock) : WritesRoads (p.insertAccountBlock b).batch := by
  refine insertAccountBlock_writes (Q := fun q => WritesRoads q.batch) b (fun _ _ _ hq => hq)
    (fun q k v hk hq => writesRoads_put hq fun ht => ?_) (fun _ _ _ hq => writesRoads_delete hq)
    (fun q k v hk hq => writesRoads_put hq fun ht => ?_) (fun _ _ _ hq => hq) h
  · cases hk with
    | onRoad addr x => exact ⟨addr, x, rfl⟩
    | height | address addr | account id => simp at ht
  · cases hk with
    | hash x => simp at ht
    | receive x => simp at ht

theorem writesRoads_rollback (segs : List SnapshotChunk) : WritesRoads (p.rollback segs).batch :=
  rollback_induction (Q := fun q => WritesRoads q.batch) (fun _ addr x hq => writesRoads_put hq fun _ => ⟨addr, x, rfl⟩)
    (fun _ _ hq => writesRoads_put hq fun ht => by simp at ht)
    (fun _ _ _ hq => writesRoads_delete hq) (fun _ _ hq => hq) (fun _ _ _ hq => writesRoads_delete hq)
    (fun _ _ _ hq => writesRoads_delete hq) segs h

end

theorem writesRoads_pending (db : IndexDb) : WritesRoads db.pending.batch := fun _ _ hrec => by cases hrec

theorem record_insertSnapshot_eq_none (sb : SnapshotBlock) (confirmed : List AccountBlock) (location : Hash → ℕ)
    (db : IndexDb) (hk : table k = 3 ∨ table k = 5) : (db.pending.insertSnapshot sb confirmed location).record k = none := by
  refine insertSnapshot_induction (Q := fun q => q.record k = none) sb confirmed location (fun q k' v hk' hq => ?_)
    (fun q addr y hq => ?_) (fun _ _ hq => hq) rfl
  · have hne : k' ≠ k := fun heq => by
      rcases hk with hk | hk
      · exact hk'.table_ne.2.1 (heq ▸ hk)
      · exact hk'.table_ne.2.2.2 (heq ▸ hk)
    rw [record_putCached, if_neg hne, hq]
  · have hne : createConfirmHeightKey addr y ≠ k := fun heq => by
      rw [← heq] at hk
      simp at hk
    rw [record_put, if_neg hne, hq]

end Pending

/-! The database and the chain -/

structure RoadInv (db : IndexDb) (l : Ledger AccountBlock) : Prop where
  wellFormed : l.WellFormed id
  plain : ∀ b ∈ l.blocks, b.sendBlockList ≠ [] → b.isReceiveBlock
  consistent : Consistent l.blocks
  road : OnRoad db.store.view l.blocks
  cache : db.pending.CacheOk db.store.view l.chunks.flatten

variable {l : Ledger AccountBlock}

theorem RoadInv.proper (hi : RoadInv db l) : Proper l.blocks := ⟨hi.wellFormed.hashes, hi.plain⟩

variable {db' : IndexDb} {confirmed : List AccountBlock}

/-- The cache agrees with the store into which the batch has been written. -/
theorem cacheOk_replay {V : Store DbKey DbValue} {p : Pending}
    (h : p.CacheOk V confirmed) (hcache : db'.cache = p.db.cache) (hview : db'.store.view = replay p.batch V) :
    db'.pending.CacheOk db'.store.view confirmed := by
  refine ⟨fun k v hget => ?_, fun k v hget => h.held k v (hcache ▸ hget)⟩
  rw [hview]
  exact (get?_replay ..).trans (h.agrees k v (hcache ▸ hget))

theorem RoadInv.insert (hi : RoadInv db l) (hw : (l.apply id (.insert b)).WellFormed id)
    (hplain : b.sendBlockList ≠ [] → b.isReceiveBlock) (hnew : Receivable l.blocks b) :
    RoadInv (db.insertAccountBlock b) (l.apply id (.insert b)) := by
  have hview := view_insertAccountBlock db b
  have hblocks : ∀ c ∈ (l.apply id (.insert b)).blocks, c.sendBlockList ≠ [] → c.isReceiveBlock := by
    rw [blocks_insert]
    exact forall_mem_concat.2 ⟨hi.plain, hplain⟩
  have hproper : Proper (l.blocks ++ [b]) := blocks_insert l b ▸ ⟨hw.hashes, hblocks⟩
  refine ⟨hw, hblocks, ?_, ?_, ?_⟩
  · rw [blocks_insert]
    exact hi.consistent.insert hproper hnew
  · rw [blocks_insert, hview]
    exact hi.road.insert hi.consistent hproper hnew (fun h => record_receive_insertAccountBlock db.pending b h)
      (fun addr h => record_onRoad_insertAccountBlock db.pending b addr h)
      (writesRoads_insertAccountBlock (writesRoads_pending db) b)
  · refine cacheOk_replay (hi.cache.insertAccountBlock fun c hc haddr => ?_) rfl hview
    exact (hw.height_lt (blocks_insert l b) (mem_append_left _ hc) mem_cons_self haddr).ne

theorem RoadInv.snapshot (hi : RoadInv db l) {sb : SnapshotBlock} {location : Hash → ℕ}
    (ha : l.Allows id (.snapshot confirmed))
    (h : db.insertSnapshotBlock sb confirmed location = .ok db') : RoadInv db' (l.apply id (.snapshot confirmed)) := by
  have hperm := mem_blocks_snapshot hi.wellFormed ha
  obtain ⟨store, hwrite, rfl⟩ := store_snapshot h
  have hview := DbStore.view_writeSnapshotByHash hwrite
  refine ⟨hi.wellFormed.apply ha, fun b hb => hi.plain b ((hperm b).1 hb), hi.consistent.congr hperm, ?_, ?_⟩
  · rw [hview]
    exact (hi.road.replay fun k hk => record_insertSnapshot_eq_none sb confirmed location db hk).congr hperm
  · have hflat : (l.apply id (.snapshot confirmed)).chunks.flatten = l.chunks.flatten ++ confirmed := by
      simp [apply]
    rw [hflat]
    exact cacheOk_replay ((hi.cache.mono (subset_append_left _ _)).insertSnapshot sb location
      (subset_append_right _ _)) rfl hview

variable {l' : Ledger AccountBlock} {m : ℕ}

/-- The blocks given to a rollback go, and others stay. -/
theorem RoadInv.delete (hi : RoadInv db l) {segs : List SnapshotChunk}
    {gone : List AccountBlock} (hl : Leaves l l' gone m) (hsegs : segs.flatMap (·.accountBlocks) = gone)
    (hr : Removes l.blocks l'.blocks gone) (hcache : db'.cache = (db.pending.rollback segs).db.cache)
    (hview : db'.store.view = replay (db.pending.rollback segs).batch db.store.view) : RoadInv db' l' := by
  refine ⟨hl.wellFormed, fun b hb => hi.plain b (hl.kept_mem hb), hi.consistent.delete hr, ?_, ?_⟩
  · rw [hview]
    exact hi.road.delete hi.proper hi.consistent hr hsegs (writesRoads_rollback (writesRoads_pending db) segs)
  · have hok := cacheOk_replay (hi.cache.rollback segs) hcache hview
    refine ⟨hok.agrees, fun k v hget => ?_⟩
    rcases hok.held k v hget with hkey | hkey
    · exact .inl hkey
    · cases hkey with
      | hash h => exact .inr (.hash h)
      | height y => exact .inr (.height y)
      | block b hb =>
        -- the place of a block that has gone is not cached any more
        have hnot : b ∉ gone := fun hgone => by
          have hcached := cache_height_rollback db.pending segs b.accountAddress b.height
          obtain ⟨seg, hseg, hmem⟩ := mem_flatMap.1 (hsegs ▸ hgone)
          rw [if_pos ⟨seg, hseg, b, hmem, rfl, rfl⟩, ← hcache] at hcached
          rw [show db'.pending.db.cache = db'.cache from rfl, hcached] at hget
          cases hget
        refine .inr (.block b ?_)
        rw [hl.chunks]
        have hsplit : b ∈ (l.chunks.take m ++ l.chunks.drop m).flatten := by rwa [take_append_drop]
        rw [flatten_append, mem_append] at hsplit
        exact hsplit.resolve_right fun hlater => hnot (hl.later b hlater)

/-- Blocks that are inserted again, each of which may follow those before it. -/
theorem RoadInv.insertAll {cs : List AccountBlock} (hi : RoadInv db l)
    (hw : (Ledger.mk l.chunks (l.unconfirmed ++ cs)).WellFormed id)
    (hplain : ∀ b ∈ cs, b.sendBlockList ≠ [] → b.isReceiveBlock)
    (hnew : ∀ c₁ b c₂, cs = c₁ ++ b :: c₂ → Receivable (l.blocks ++ c₁) b) :
    RoadInv (cs.foldl IndexDb.insertAccountBlock db) ⟨l.chunks, l.unconfirmed ++ cs⟩ := by
  induction cs generalizing db l with
  | nil => simpa using hi
  | cons b cs ih =>
    have hb := wellFormed_insert hw
    have hassoc : l.unconfirmed ++ b :: cs = (l.apply id (.insert b)).unconfirmed ++ cs := by simp [Ledger.apply]
    rw [hassoc] at hw ⊢
    refine ih (hi.insert hb (hplain b mem_cons_self) ?_) hw (fun c hc => hplain c (mem_cons_of_mem _ hc))
      fun c₁ c c₂ heq => ?_
    · simpa using hnew [] b cs rfl
    · rw [blocks_insert, append_assoc]
      exact hnew (b :: c₁) c c₂ (by rw [heq]; rfl)

/-! Runs -/

namespace IndexWorld

/-- No block of the list receives what a later one sends. -/
def InOrder (bs : List AccountBlock) : Prop := bs.Pairwise fun r s => ∀ h, r.Receives h → h ∉ s.sends.map Prod.fst

/-- None of the blocks is a genesis block, and no block of the chain that is left receives what one of them has sent. -/
def Closed (kept gone : List AccountBlock) : Prop :=
  (∀ b ∈ gone, b.blockType ≠ .genesisReceive) ∧
    ∀ h, ∀ b ∈ kept, b.Receives h → ∀ s ∈ gone, h ∉ s.sends.map Prod.fst

/-- The runs of the four operations, with a cache that may lose entries. A receive block receives what has been sent to
its account, and no other has received; the blocks deleted are closed under dependency, and those of snapshot blocks
come in the order of insertion. -/
def OnRoadRun (w : IndexWorld) : IndexAction → Prop
  | .insertAccountBlock b => Receivable w.ledger.blocks b
  | .insertSnapshotBlock _ _ _ => True
  | .rollbackAccountBlocks deleted => Closed (w.ledger.apply id (.takeBack deleted)).blocks deleted
  | .rollbackSnapshotBlocks n _ =>
    let deleted := (w.ledger.deleted n).flatten ++ w.ledger.unconfirmed
    Closed (w.ledger.apply id (.rollback n false)).blocks deleted ∧ InOrder deleted
  | .evict _ _ _ => True
  | .restart _ => False

structure RoadWorldInv (w : IndexWorld) : Prop where
  road : RoadInv w.db w.ledger
  hashes : w.snapshotHashes.length = w.ledger.chunks.length

theorem roadWorldInv_new : RoadWorldInv new := by
  have hroad : OnRoad (Store.empty : Store DbKey DbValue) [] :=
    ⟨fun k v hget => (by cases hget), fun addr h => (by simp), fun h b hb => (by cases hb), fun h _ => .inl rfl⟩
  exact ⟨⟨wellFormed_empty, fun b hb => (by cases hb), ⟨fun h b hb => (by cases hb), fun h b hb => (by cases hb)⟩, hroad,
    ⟨fun k v hget => (by cases hget), fun k v hget => (by cases hget)⟩⟩, rfl⟩

theorem removes_of_leaves {l : Ledger AccountBlock} {gone : List AccountBlock} (hl : Leaves l l' gone m)
    (hsub : gone.Sublist l.blocks) (hclosed : Closed l'.blocks gone) : Removes l.blocks l'.blocks gone :=
  ⟨hl.blocks, hl.disjoint, hsub, hclosed.1, hclosed.2⟩

/-- A block of the first chunk deleted receives what the chain still has or what an earlier block of the chunk sends. -/
theorem receivable_again {l : Ledger AccountBlock} (hi : RoadInv db l) {kept gone c₁ c₂ : List AccountBlock}
    (hr : Removes l.blocks kept gone) (hgone : gone = c₁ ++ b :: c₂) (horder : InOrder gone) :
    Receivable (kept ++ c₁) b := by
  have hmem : ∀ c ∈ kept ++ c₁, c ∈ l.blocks := fun c hc => (hr.blocks c).2 <| (mem_append.1 hc).imp_right
    fun hc => hgone ▸ mem_append_left _ hc
  have hbg : b ∈ gone := hgone ▸ mem_append_right _ mem_cons_self
  have hb : b ∈ l.blocks := (hr.blocks b).2 (.inr hbg)
  have hnodup := (hr.removable hi.proper hi.consistent).nodup
  rw [hgone] at horder hnodup
  intro h hrec
  refine ⟨?_, fun c hc hrec' => ?_⟩
  · obtain ⟨s, hs, hne, hsend⟩ := hi.consistent.sent h b hb hrec
    refine ⟨s, ?_, hsend⟩
    rcases (hr.blocks s).1 hs with hs | hs
    · exact mem_append_left _ hs
    · rw [hgone, mem_append, mem_cons] at hs
      refine mem_append_right _ (hs.resolve_right ?_)
      rintro (heq | hlater)
      · exact hne heq
      · exact (pairwise_cons.1 (pairwise_append.1 horder).2.1).1 s hlater h hrec (mem_map_of_mem hsend)
  · obtain rfl := hi.consistent.once h c (hmem c hc) b hb hrec' hrec
    rcases mem_append.1 hc with hc | hc
    · exact hr.disjoint c hc hbg
    · exact (nodup_append.1 hnodup).2.2 c hc c mem_cons_self rfl

variable {w : IndexWorld}

theorem RoadInv.rollback (hi : RoadInv w.db w.ledger)
    (hlen : w.snapshotHashes.length = w.ledger.chunks.length) {n : ℕ} {recover : Bool}
    (ha : w.ledger.Allows id (.rollback n recover)) (hP : w.OnRoadRun (.rollbackSnapshotBlocks n recover)) :
    RoadInv (w.db.rollbackSnapshotBlocks (w.deletedSegments n) (w.ledger.apply id (.rollback n recover)).unconfirmed)
      (w.ledger.apply id (.rollback n recover)) := by
  set gone := (w.ledger.deleted n).flatten ++ w.ledger.unconfirmed with hgone
  have hl := leaves_rollback hi.wellFormed ha.2
  have hr := removes_of_leaves hl (blocks_eq_deleted w.ledger n ▸ sublist_append_right _ _) hP.1
  have hbase : RoadInv (w.db.rollbackSnapshotBlocks (w.deletedSegments n) []) (w.ledger.apply id (.rollback n false)) := by
    refine hi.delete hl (accountBlocks_deletedSegments hlen n) hr rfl ?_
    rw [store_rollbackAll, DbStore.view_rollbackSnapshot]
  refine hbase.insertAll (hi.wellFormed.apply ha) (fun b hb => ?_) fun c₁ b c₂ heq => ?_
  · exact hi.plain b ((blocks_rollback_isPrefix n recover).subset (mem_append_right _ hb))
  · have hfirst : ∃ rest, gone = (w.ledger.apply id (.rollback n recover)).unconfirmed ++ rest := by
      cases recover with
      | false => exact ⟨gone, rfl⟩
      | true =>
        cases hd : w.ledger.deleted n with
        | nil => exact ⟨gone, by simp [apply, hd]⟩
        | cons c cs => exact ⟨cs.flatten ++ w.ledger.unconfirmed, by simp [hgone, apply, hd]⟩
    obtain ⟨rest, hrest⟩ := hfirst
    have hsplit : (w.ledger.deleted n).flatten ++ w.ledger.unconfirmed = c₁ ++ b :: (c₂ ++ rest) := by
      rw [← hgone, hrest, heq]
      simp
    exact receivable_again hi hr hsplit hP.2

theorem RoadWorldInv.step {w' : IndexWorld} {a : IndexAction} (hi : RoadWorldInv w) (ha : w.Allows a)
    (hP : w.OnRoadRun a) (h : w.step a = .ok w') : RoadWorldInv w' := by
  obtain ⟨db', hdb, rfl⟩ := ExceptRules.map_ok h
  refine ⟨?_, length_nextSnapshotHashes hi.hashes a⟩
  cases a with
  | insertAccountBlock b =>
    obtain rfl := Except.ok.inj hdb
    exact hi.road.insert (hi.road.wellFormed.apply (ha.1 _ rfl)) ha.2 hP
  | insertSnapshotBlock hash confirmed location => exact hi.road.snapshot (ha.1 _ rfl) hdb
  | rollbackAccountBlocks gone =>
    obtain rfl := Except.ok.inj hdb
    have hallow := ha.1 _ rfl
    have hl := leaves_takeBack hi.road.wellFormed hallow
    have hsegs : ([⟨none, gone⟩] : List SnapshotChunk).flatMap (·.accountBlocks) = gone := by simp
    refine hi.road.delete hl hsegs (removes_of_leaves hl ?_ hP) rfl ?_
    · exact hallow.1.trans (sublist_append_right _ _)
    · rw [store_takeBack, DbStore.view_rollbackAccountBlocks]
  | rollbackSnapshotBlocks n recover =>
    obtain rfl := Except.ok.inj hdb
    exact RoadInv.rollback hi.road hi.hashes (ha.1 _ rfl) hP
  | evict keys hashes accounts =>
    obtain rfl := Except.ok.inj hdb
    refine ⟨hi.road.wellFormed, hi.road.plain, hi.road.consistent, hi.road.road, ?_⟩
    exact ⟨fun k v hget => hi.road.cache.agrees k v (get?_foldl_erase hget),
      fun k v hget => hi.road.cache.held k v (get?_foldl_erase hget)⟩
  | restart createBlockHashes => exact hP.elim

theorem RoadWorldInv.reachable (hw : Reachable OnRoadRun w) : RoadWorldInv w := by
  induction hw with
  | new => exact roadWorldInv_new
  | step _ ha hP h ih => exact ih.step ha hP h

end IndexWorld

/-! What is read -/

theorem RoadInv.getValue (hi : RoadInv db l) (k : DbKey) : db.getValue k = (db.store.get k).getD [] := by
  rw [IndexDb.getValue]
  cases hc : db.cache.get? k with
  | none => rw [Option.none_or]
  | some v =>
    rw [Option.some_or]
    have hv : db.store.get k = some v := hi.cache.agrees k v hc
    rw [hv]

/-- The value at the key of a send block is the hash of its receive block, or holds no hash. -/
theorem RoadInv.receiveValue (hi : RoadInv db l) (h : Hash) :
    (∃ b ∈ l.blocks, b.Receives h ∧ db.getValue (createReceiveKey h) = [b.hash]) ∨
      (∀ b ∈ l.blocks, ¬b.Receives h) ∧ db.getValue (createReceiveKey h) = [] := by
  rw [hi.getValue, DbStore.get]
  by_cases hrec : ∃ b ∈ l.blocks, b.Receives h
  · obtain ⟨b, hb, hrec⟩ := hrec
    exact .inl ⟨b, hb, hrec, by rw [hi.road.received h b hb hrec, Option.getD_some]⟩
  · have hnone : ∀ b ∈ l.blocks, ¬b.Receives h := fun b hb hb' => hrec ⟨b, hb, hb'⟩
    refine .inr ⟨hnone, ?_⟩
    rcases hi.road.unreceived h hnone with hget | hget <;> rw [hget] <;> rfl

theorem RoadInv.getReceivedBySend (hi : RoadInv db l) (h x : Hash) :
    db.getReceivedBySend h = some x ↔ ∃ b ∈ l.blocks, b.Receives h ∧ b.hash = x := by
  rw [IndexDb.getReceivedBySend]
  rcases hi.receiveValue h with ⟨b, hb, hrec, hvalue⟩ | ⟨hnone, hvalue⟩ <;> rw [hvalue]
  · refine ⟨fun heq => ⟨b, hb, hrec, Option.some.inj heq⟩, ?_⟩
    rintro ⟨b', hb', hrec', rfl⟩
    rw [hi.consistent.once h b hb b' hb' hrec hrec']
  · exact iff_of_false (by simp) fun ⟨b, hb, hrec, _⟩ => hnone b hb hrec

theorem RoadInv.isReceived (hi : RoadInv db l) (h : Hash) : db.isReceived h = true ↔ ∃ b ∈ l.blocks, b.Receives h := by
  rw [IndexDb.isReceived]
  rcases hi.receiveValue h with ⟨b, hb, hrec, hvalue⟩ | ⟨hnone, hvalue⟩ <;> rw [hvalue]
  · exact iff_of_true rfl ⟨b, hb, hrec⟩
  · exact iff_of_false (by simp) fun ⟨b, hb, hrec⟩ => hnone b hb hrec

/-- The loop of `loadAllHash` over entries whose keys have their form. -/
theorem foldlM_loadAllHash (es : List (DbKey × DbValue)) (hes : ∀ e ∈ es, ∃ addr h, e.1 = createOnRoadKey addr h)
    (m : Store Address (List Hash)) :
    ∃ m', es.foldlM IndexDb.loadHash m = some m' ∧
      ∀ addr h, h ∈ m'.getD addr [] ↔ h ∈ m.getD addr [] ∨ ∃ e ∈ es, e.1 = createOnRoadKey addr h := by
  induction es generalizing m with
  | nil => exact ⟨m, rfl, fun addr h => by simp⟩
  | cons e es ih =>
    obtain ⟨k, v⟩ := e
    obtain ⟨addr, x, rfl⟩ := hes _ mem_cons_self
    obtain ⟨m', hfold, hmem⟩ := ih (fun e he => hes e (mem_cons_of_mem _ he)) (m.set addr (m.getD addr [] ++ [x]))
    refine ⟨m', hfold, fun addr' h => ?_⟩
    rw [hmem, getD_set]
    by_cases haddr : addr' = addr
    · subst haddr
      simp [or_assoc, eq_comm]
    · simp [haddr, Ne.symm haddr]

theorem RoadInv.loadAllHash (hi : RoadInv db l) : ∃ m, db.loadAllHash = some m ∧ ∀ addr h, h ∈ m.getD addr [] ↔
    (∃ b ∈ l.blocks, (h, addr) ∈ b.sends) ∧ ∀ b ∈ l.blocks, ¬b.Receives h := by
  obtain ⟨m, hfold, hmem⟩ := foldlM_loadAllHash (db.store.view.entries.filter fun e => e.1.headD 0 = 5) (fun e he => by
    obtain ⟨he, ht⟩ := mem_filter.1 he
    exact hi.road.form e.1 e.2 (get?_eq_some_iff.2 he) (of_decide_eq_true ht)) .empty
  refine ⟨m, hfold, fun addr h => ?_⟩
  rw [hmem, ← hi.road.road addr h, Option.isSome_iff_exists]
  constructor
  · rintro (hempty | ⟨e, he, hkey⟩)
    · cases hempty
    · exact ⟨e.2, get?_eq_some_iff.2 (hkey ▸ (mem_filter.1 he).1)⟩
  · rintro ⟨v, hget⟩
    exact .inr ⟨_, mem_filter.2 ⟨get?_eq_some_iff.1 hget, by simp⟩, rfl⟩

namespace IndexWorld

/-- In every run the blocks on the road to an address are the send blocks to it that are not received, a send block is
received if a block of the chain receives it, whose hash is the one given, and the cache says what the store says. -/
theorem onRoad_exact {w : IndexWorld} (hw : Reachable OnRoadRun w) :
    (∃ m, w.db.loadAllHash = some m ∧ ∀ addr h, h ∈ m.getD addr [] ↔
      (∃ b ∈ w.ledger.blocks, (h, addr) ∈ b.sends) ∧ ∀ b ∈ w.ledger.blocks, ¬b.Receives h) ∧
    (∀ h, w.db.isReceived h = true ↔ ∃ b ∈ w.ledger.blocks, b.Receives h) ∧
    (∀ h x, w.db.getReceivedBySend h = some x ↔ ∃ b ∈ w.ledger.blocks, b.Receives h ∧ b.hash = x) ∧
    ∀ k v, w.db.cache.get? k = some v → w.db.store.get k = some v := by
  have hi := (RoadWorldInv.reachable hw).road
  exact ⟨hi.loadAllHash, hi.isReceived, hi.getReceivedBySend, hi.cache.agrees⟩

/-- A send block, and a receive block of it that sends on. -/
def sending : AccountBlock := ⟨.sendCall, 11, 1, 1, 2, 0, none, []⟩
def relaying : AccountBlock := ⟨.receive, 21, 1, 2, 0, 11, none, [⟨.sendCall, 22, 3⟩]⟩

/-- The snapshot block of the receive block is rolled back, and the receive block is inserted again. -/
theorem onRoad_exact_relay : ∃ w, Reachable OnRoadRun w ∧ w.ledger.blocks = [sending, relaying] ∧
    w.db.isReceived 11 = true ∧ w.db.getReceivedBySend 11 = some 21 ∧ w.db.isReceived 22 = false := by
  have hw := Reachable.step (P := OnRoadRun) (a := .rollbackSnapshotBlocks 1 true)
    (.step (a := .insertSnapshotBlock 101 [relaying] fun _ => 0)
      (.step (a := .insertAccountBlock relaying)
        (.step (a := .insertSnapshotBlock 100 [sending] fun _ => 0)
          (.step (a := .insertAccountBlock sending) .new ?_ ?_ rfl) ?_ trivial rfl) ?_ ?_ rfl) ?_ trivial rfl) ?_ ?_ rfl
  · obtain ⟨-, hreceived, hget, -⟩ := onRoad_exact hw
    refine ⟨_, hw, by decide +kernel, (hreceived 11).2 ⟨relaying, by decide +kernel, by decide⟩,
      (hget 11 21).2 ⟨relaying, by decide +kernel, by decide, rfl⟩, by decide +kernel⟩
  · exact ⟨fun la h => by cases h; exact ⟨by decide, by decide⟩, fun h => absurd rfl h⟩
  · exact fun h hrec => absurd hrec.1 (by decide)
  · exact allows_insertSnapshotBlock _ _
  · exact ⟨fun la h => by cases h; exact ⟨by decide, by decide⟩, fun _ => by decide⟩
  · rintro h ⟨-, -, rfl⟩
    exact ⟨⟨sending, by decide, by decide⟩, by decide⟩
  · exact allows_insertSnapshotBlock _ _
  · refine ⟨fun la h => ?_, trivial⟩
    cases h
    exact ⟨le_rfl, by decide⟩
  · have hrun : ∀ kept gone : List AccountBlock, kept = [sending] → gone = [relaying] → Closed kept gone ∧ InOrder gone := by
      rintro kept gone rfl rfl
      refine ⟨⟨by decide, fun h b hb hrec => ?_⟩, pairwise_singleton _ _⟩
      obtain rfl := mem_singleton.1 hb
      exact absurd hrec.1 (by decide)
    exact hrun _ _ (by decide +kernel) (by decide +kernel)

end IndexWorld

end GoVite.ChainIndex

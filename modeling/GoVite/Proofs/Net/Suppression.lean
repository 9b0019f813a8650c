import GoVite.Spec.Net.Broadcaster
import GoVite.Proofs.Verifier.BlockContent
import Mathlib.Data.List.Induction

/-! Which messages keep a valid block out. The filter holds the computed hashes of the messages that reached it, valid
or not, and a copy with another signature has the hash of the block. -/

namespace GoVite.Net

variable {A S P H : Type*} [DecidableEq P] [DecidableEq H] (bs : Blocks A S H)

open Broadcaster List ByteString

/-- The block is given to the pool or to the store and, if its time to live is positive, sent to every chosen peer that is
not known to have it. -/
structure Delivers (b : Broadcaster P H) (env : Surroundings P H) (nb : NewBlock A S P) (block : Block A S) : Prop where
  handedOver : (if env.syncExited then Output.notify block else Output.enqueue block) ∈ (b.handle bs env nb).2.1
  forwarded : 0 < nb.ttl → ∀ p ∈ env.choosePeers nb.sender, (p, bs.hash block) ∉ b.knownBlocks →
    Output.writeMsg p block (nb.ttl - 1) ∈ (b.handle bs env nb).2.1

/-- One of the messages carried the block past the age check and both looks into the filter. -/
def Reached (messages : List (Surroundings P H × NewBlock A S P)) (block : Block A S) : Prop :=
  ∃ before env nb after, messages = before ++ (env, nb) :: after ∧ nb.block = some block ∧ tooLow bs env block = false ∧
    bs.hash block ∉ (run bs ⟨[], []⟩ before).filter ∧ bs.computeHash block ∉ (run bs ⟨[], []⟩ before).filter

variable {bs}

/-! The filter -/

theorem filter_forward (block : Block A S) (ttl : ℤ) (b : Broadcaster P H) (peers : List P) :
    (b.forward bs block ttl peers).1.filter = b.filter := by
  induction peers generalizing b with
  | nil => rfl
  | cons p rest ih =>
    unfold forward
    split_ifs
    · exact ih b
    · exact ih _

theorem filter_accept (b : Broadcaster P H) (env : Surroundings P H) (nb : NewBlock A S P) (block : Block A S) :
    (b.accept bs env nb block).1.filter = b.filter := by
  unfold accept
  by_cases httl : 0 < nb.ttl
  · rw [if_pos httl]
    exact filter_forward block _ b _
  · rw [if_neg httl]

variable {b : Broadcaster P H} {env : Surroundings P H} {nb : NewBlock A S P}

/-- A message adds the computed hash of its block if it reaches the filter, and nothing else. -/
theorem mem_filter_handle {x : H} :
    x ∈ (b.handle bs env nb).1.filter ↔ x ∈ b.filter ∨ ∃ block, nb.block = some block ∧ tooLow bs env block = false ∧
      bs.hash block ∉ b.filter ∧ bs.computeHash block ∉ b.filter ∧ bs.computeHash block = x := by
  unfold handle
  cases hblock : nb.block with
  | none => simp
  | some block =>
    simp only [Option.some.injEq]
    split_ifs with hlow hhash hcompute hconfirmed hverify
    · simp [hlow]
    · simp [hhash]
    · simp [hcompute]
    · simp [hlow, hhash, hcompute, or_comm, eq_comm]
    · simp [hlow, hhash, hcompute, or_comm, eq_comm]
    · simp [hlow, hhash, hcompute, or_comm, eq_comm, filter_accept]

/-- After a run the filter holds the computed hashes of the blocks that reached it. -/
theorem mem_filter_run (messages : List (Surroundings P H × NewBlock A S P)) (x : H) :
    x ∈ (run bs ⟨[], []⟩ messages).filter ↔ ∃ block, Reached bs messages block ∧ bs.computeHash block = x := by
  induction messages using List.reverseRecOn with
  | nil => simp [run, Reached]
  | append_singleton messages m ih =>
    have hrun : run bs ⟨[], []⟩ (messages ++ [m]) = ((run bs ⟨[], []⟩ messages).handle bs m.1 m.2).1 := by
      rw [run, foldl_append]
      rfl
    rw [hrun, mem_filter_handle, ih]
    constructor
    · rintro (⟨block, ⟨before, env, nb, after, rfl, hreached⟩, hx⟩ | ⟨block, hblock, hlow, hhash, hcompute, hx⟩)
      · exact ⟨block, ⟨before, env, nb, after ++ [m], by simp, hreached⟩, hx⟩
      · exact ⟨block, ⟨messages, m.1, m.2, [], rfl, hblock, hlow, hhash, hcompute⟩, hx⟩
    · rintro ⟨block, ⟨before, env, nb, after, heq, hblock, hlow, hhash, hcompute⟩, hx⟩
      -- the message is the last one, or one before it
      obtain rfl | ⟨front, last, rfl⟩ := eq_nil_or_concat after
      · obtain ⟨rfl, hm⟩ := append_inj' heq rfl
        obtain rfl : m = (env, nb) := singleton_inj.1 hm
        exact Or.inr ⟨block, hblock, hlow, hhash, hcompute, hx⟩
      · have hconcat : messages ++ [m] = (before ++ (env, nb) :: front) ++ [last] := by simpa using heq
        obtain ⟨hmessages, -⟩ := append_inj' hconcat rfl
        exact Or.inl ⟨block, ⟨before, env, nb, front, hmessages, hblock, hlow, hhash, hcompute⟩, hx⟩

variable {block : Block A S}

/-! Delivery -/

theorem mem_forward {ttl : ℤ} {peers : List P} {p : P} (hp : p ∈ peers)
    (hknown : (p, bs.hash block) ∉ b.knownBlocks) : Output.writeMsg p block ttl ∈ (b.forward bs block ttl peers).2 := by
  induction peers generalizing b with
  | nil => simp at hp
  | cons q rest ih =>
    unfold forward
    rcases eq_or_ne p q with rfl | hne
    · rw [if_neg hknown]
      exact mem_cons_self
    · have hrest : p ∈ rest := (mem_cons.1 hp).resolve_left hne
      split_ifs
      · exact ih hrest hknown
      · refine mem_cons_of_mem _ (ih hrest ?_)
        simp [hne, hknown]

theorem handle_known (hblock : nb.block = some block) (h : bs.hash block ∈ b.filter ∨ bs.computeHash block ∈ b.filter) :
    b.handle bs env nb = (b, [], none) := by
  unfold handle
  rw [hblock]
  dsimp only
  split_ifs <;> first | rfl | tauto

/-- A verified block that is not too old is delivered exactly if neither of its hashes is in the filter. -/
theorem delivers_iff (hblock : nb.block = some block) (hlow : tooLow bs env block = false)
    (hconfirmed : tooConfirmed env (bs.computeHash block) block = false) (hvalid : bs.verifyNet block = true) :
    Delivers bs b env nb block ↔ bs.hash block ∉ b.filter ∧ bs.computeHash block ∉ b.filter := by
  constructor
  · rintro ⟨handed, -⟩
    by_contra hknown
    rw [handle_known hblock (by tauto)] at handed
    simp at handed
  · rintro ⟨hhash, hcompute⟩
    have houtputs : (b.handle bs env nb).2.1 =
        ((⟨bs.computeHash block :: b.filter, b.knownBlocks⟩ : Broadcaster P H).accept bs env nb block).2 := by
      unfold handle
      rw [hblock]
      simp only [hlow, hconfirmed, hvalid, hhash, hcompute]
      rfl
    constructor
    · rw [houtputs, accept]
      by_cases httl : 0 < nb.ttl
      · rw [if_pos httl]
        exact mem_append_right _ mem_cons_self
      · rw [if_neg httl]
        exact mem_cons_self
    · intro httl p hp hknown
      rw [houtputs, accept, if_pos httl]
      exact mem_append_left _ (mem_forward hp hknown)

/-- A valid block that is not too old, and whose hashes no valid block before it had, is delivered exactly if no invalid
block reached the filter with one of them. -/
theorem delivers_iff_no_invalid_copy (bs : Blocks A S H) (messages : List (Surroundings P H × NewBlock A S P))
    (env : Surroundings P H) (nb : NewBlock A S P) (block : Block A S) (hblock : nb.block = some block)
    (hlow : tooLow bs env block = false) (hconfirmed : tooConfirmed env (bs.computeHash block) block = false)
    (hvalid : bs.verifyNet block = true)
    (hfirst : ∀ m ∈ messages, ∀ earlier, m.2.block = some earlier → bs.verifyNet earlier = true →
      bs.computeHash earlier ≠ bs.hash block ∧ bs.computeHash earlier ≠ bs.computeHash block) :
    Delivers bs (run bs ⟨[], []⟩ messages) env nb block ↔
      ∀ copy, Reached bs messages copy → bs.verifyNet copy = false →
        bs.computeHash copy ≠ bs.hash block ∧ bs.computeHash copy ≠ bs.computeHash block := by
  rw [delivers_iff hblock hlow hconfirmed hvalid, mem_filter_run, mem_filter_run]
  constructor
  · rintro ⟨hhash, hcompute⟩ copy hreached -
    exact ⟨fun heq => hhash ⟨copy, hreached, heq⟩, fun heq => hcompute ⟨copy, hreached, heq⟩⟩
  · intro hcopies
    have hother : ∀ copy, Reached bs messages copy →
        bs.computeHash copy ≠ bs.hash block ∧ bs.computeHash copy ≠ bs.computeHash block := by
      intro copy hreached
      cases hcopy : bs.verifyNet copy with
      | false => exact hcopies copy hreached hcopy
      | true =>
        obtain ⟨before, env', nb', after, rfl, hnb, -⟩ := hreached
        exact hfirst (env', nb') (by simp) copy hnb hcopy
    exact ⟨fun ⟨copy, hreached, heq⟩ => (hother copy hreached).1 heq,
      fun ⟨copy, hreached, heq⟩ => (hother copy hreached).2 heq⟩

/-! An account block and a copy of it -/

section
open AccountBlocks

/-- Account blocks with a stand-in for the hash; a signature of one byte counts as good. There are no snapshot blocks. -/
def accountBlocks : Blocks AccountBlock Empty AccountBlocks.Hash where
  hash
    | .account block => block.hash
  computeHash
    | .account block => (block.computeHash lengthHash).getD zeroHash
  height := Empty.elim
  verifyNet
    | .account block => block.hash == (block.computeHash lengthHash).getD zeroHash && block.signature.length == 1

def quietSurroundings : Surroundings ℕ AccountBlocks.Hash where
  latestSnapshotHeight := 0
  shouldCheck := false
  confirmedTimes := fun _ => 0
  syncExited := true
  choosePeers := fun _ => [7]

def signedSend (signature : Data) : Block AccountBlock Empty :=
  .account { (userSend [] 0 none [] []).withHash lengthHash with signature := signature }

def sendMessage (signature : Data) : NewBlock AccountBlock Empty ℕ := ⟨some (signedSend signature), 3, 1⟩

/-- A copy without a signature, from any peer, keeps the signed block out: it is valid, no valid block came before it, and
nothing is done with it. -/
theorem invalid_copy_suppresses :
    let b := run accountBlocks ⟨[], []⟩ [(quietSurroundings, sendMessage [])]
    accountBlocks.verifyNet (signedSend (writeBE 1 1)) = true ∧
      accountBlocks.verifyNet (signedSend []) = false ∧
      (b.handle accountBlocks quietSurroundings (sendMessage (writeBE 1 1))).2 = ([], none) ∧
      ¬ Delivers accountBlocks b quietSurroundings (sendMessage (writeBE 1 1))
        (signedSend (writeBE 1 1)) := by
  have hdropped : ((run accountBlocks ⟨[], []⟩ [(quietSurroundings, sendMessage [])]).handle accountBlocks
      quietSurroundings (sendMessage (writeBE 1 1))).2 = ([], none) := by
    have hrecorded : accountBlocks.computeHash (signedSend (writeBE 1 1)) ∈
        (run accountBlocks ⟨[], []⟩ [(quietSurroundings, sendMessage [])]).filter :=
      (mem_filter_run _ _).2 ⟨signedSend [], ⟨[], _, _, [], rfl, rfl, rfl, by simp [run], by simp [run]⟩, rfl⟩
    rw [handle_known rfl (Or.inr hrecorded)]
  refine ⟨by decide +kernel, by decide +kernel, hdropped, fun h => ?_⟩
  have hempty := h.handedOver
  rw [hdropped] at hempty
  simp at hempty

/-- A block with data, and perhaps logs, from another peer. -/
def otherMessage (logHash : Option AccountBlocks.Hash) (signature : Data) : NewBlock AccountBlock Empty ℕ :=
  ⟨some (.account { (userSend (writeBE 1 1) 0 logHash [] []).withHash lengthHash with signature := signature }), 3, 2⟩

/-- A signed block, an unsigned one and a copy of the first without its signature. -/
def otherMessages : List (Surroundings ℕ AccountBlocks.Hash × NewBlock AccountBlock Empty ℕ) :=
  [otherMessage none (writeBE 1 1), otherMessage (some zeroHash) [], otherMessage none []].map (quietSurroundings, ·)

theorem otherMessages_other : ∀ m ∈ otherMessages, ∀ earlier ∈ m.2.block,
    accountBlocks.computeHash earlier ≠ accountBlocks.hash (signedSend (writeBE 1 1)) ∧
      accountBlocks.computeHash earlier ≠ accountBlocks.computeHash (signedSend (writeBE 1 1)) := by
  decide +kernel

/-- The two different blocks are recorded before the block comes. -/
theorem delivers_without_copy :
    (run accountBlocks ⟨[], []⟩ otherMessages).filter.length = 2 ∧
      (otherMessages.map fun m => m.2.block.all accountBlocks.verifyNet) = [true, false, false] ∧
      Delivers accountBlocks (run accountBlocks ⟨[], []⟩ otherMessages) quietSurroundings (sendMessage (writeBE 1 1))
        (signedSend (writeBE 1 1)) := by
  refine ⟨by decide +kernel, by decide +kernel, (delivers_iff_no_invalid_copy accountBlocks otherMessages quietSurroundings
    (sendMessage (writeBE 1 1)) _ rfl rfl rfl (by decide +kernel) fun m hm earlier hearlier _ =>
      otherMessages_other m hm earlier hearlier).2 ?_⟩
  rintro copy ⟨before, env, nb, after, heq, hnb, -⟩ -
  exact otherMessages_other (env, nb) (by simp [heq]) copy hnb

end

end GoVite.Net

import GoVite.Spec.Net.ConnPool
import Mathlib.Data.Int.Order.Basic
import Mathlib.Data.List.InsertIdx
import Mathlib.Data.List.Nodup
import Mathlib.Order.Basic
import Mathlib.Tactic.SplitIfs

/-! The positions that the pool keeps of its connections are right as long as only the last connection is deleted. -/

namespace GoVite.Net
open List Function DownloadConnPool

section Positions
variable {mi : ℕ → Option ℕ} {ids ids' : List ℕ} {id i : ℕ}

/-- The map gives exactly the positions in the list. -/
def Positions (mi : ℕ → Option ℕ) (ids : List ℕ) : Prop := ∀ id i, mi id = some i ↔ ids[i]? = some id

theorem Positions.mem_iff (h : Positions mi ids) : id ∈ ids ↔ mi id ≠ none := by
  simp only [mem_iff_getElem?, ← h id, Option.ne_none_iff_exists']

theorem Positions.nodup (h : Positions mi ids) : ids.Nodup := by
  rw [nodup_iff_getElem?_ne_getElem?]
  intro i j hij hj heq
  have := h ids[j] i
  have := h ids[j] j
  grind

theorem Positions.concat (h : Positions mi ids) (hid : mi id = none) :
    Positions (update mi id (some ids.length)) (ids ++ [id]) := by
  have hnew : id ∉ ids := fun hmem => h.mem_iff.1 hmem hid
  intro id' i
  have := h id' i
  grind

theorem Positions.eraseIdx_iff (h : Positions mi ids) (hid : mi id = some i) :
    Positions (update mi id none) (ids.eraseIdx i) ↔ i + 1 = ids.length := by
  have hget := (h id i).1 hid
  constructor
  · intro h'
    by_contra hne
    -- the connection behind is one position further on than the map says
    have hlt : i + 1 < ids.length := by grind
    have hmoved := (h' ids[i + 1] i).2 (by grind)
    have hold := (h ids[i + 1] (i + 1)).2 (by simp)
    grind
  · intro hlast id' j
    have := h id' j
    rw [getElem?_eraseIdx]
    grind

theorem positions_foldl (hnodup : ids.Nodup) (k j : ℕ) :
    ((ids.zipIdx k).foldl (fun mi c => update mi c.1 (some c.2)) mi : ℕ → Option ℕ) id = some j ↔
      k ≤ j ∧ ids[j - k]? = some id ∨ id ∉ ids ∧ mi id = some j := by
  induction ids generalizing mi k with
  | nil => simp
  | cons id' ids ih =>
    rw [zipIdx_cons, foldl_cons, ih (nodup_cons.1 hnodup).2, getElem?_cons]
    grind

theorem Positions.perm (h : Positions mi ids) (hp : ids'.Perm ids) :
    Positions (ids'.zipIdx.foldl (fun mi c => update mi c.1 (some c.2)) mi) ids' := by
  intro id i
  rw [positions_foldl (hp.nodup_iff.2 h.nodup), hp.mem_iff, h.mem_iff]
  grind

end Positions

theorem eraseIdx_eq_filter {l : List SyncConn} {id i : ℕ} (hnodup : (l.map (·.peer.id)).Nodup)
    (hi : (l.map (·.peer.id))[i]? = some id) : l.eraseIdx i = l.filter (·.peer.id ≠ id) := by
  induction l generalizing i with
  | nil => rfl
  | cons c l ih => cases i <;> grind [filter_eq_self]

namespace DownloadConnPool
variable {fp : DownloadConnPool}

/-- The positions of the connections in the list, and what follows for the next call. -/
structure Right (fp : DownloadConnPool) : Prop where
  positions : Positions fp.mi (fp.l.map (·.peer.id))
  delConn c : (fp.delConn c).l = fp.l.filter (·.peer.id ≠ c.peer.id)
  addConn c : (fp.addConn c).2 = false → ∃ c' ∈ fp.l, c'.peer.id = c.peer.id

theorem right_iff : fp.Right ↔ Positions fp.mi (fp.l.map (·.peer.id)) := by
  refine ⟨Right.positions, fun h => ⟨h, fun c => ?_, fun c hc => ?_⟩⟩
  all_goals have hmem : c.peer.id ∈ _ ↔ _ := h.mem_iff
  · rw [DownloadConnPool.delConn]
    split
    next i hi => exact eraseIdx_eq_filter h.nodup ((h _ i).1 hi)
    next hi => grind [filter_eq_self]
  · rw [DownloadConnPool.addConn] at hc
    grind

end DownloadConnPool

inductive PoolCall
  | addConn (c : SyncConn)
  | delConn (c : SyncConn)
  | chooseSource (peers : List DownloadPeer) (now : ℤ) (height : ℕ) (createNew : Bool) (sorted : List SyncConn)

namespace DownloadConnPool

def call (fp : DownloadConnPool) : PoolCall → DownloadConnPool
  | .addConn c => (fp.addConn c).1
  | .delConn c => fp.delConn c
  | .chooseSource peers now height createNew sorted => (fp.chooseSource peers now height createNew sorted).2

/-- Sorting only changes the order. -/
def Possible (fp : DownloadConnPool) : PoolCall → Prop
  | .chooseSource _ _ _ _ sorted => sorted.Perm fp.l
  | _ => True

def LastOnly (fp : DownloadConnPool) : PoolCall → Prop
  | .delConn c => ∀ i, fp.mi c.peer.id = some i → i + 1 = fp.l.length
  | _ => True

/-- All calls of a run. -/
def All (P : DownloadConnPool → PoolCall → Prop) : DownloadConnPool → List PoolCall → Prop
  | _, [] => True
  | fp, call :: calls => P fp call ∧ All P (fp.call call) calls

variable {fp : DownloadConnPool}

theorem Right.call_iff {call : PoolCall} (h : fp.Right) (hp : fp.Possible call) :
    (fp.call call).Right ↔ fp.LastOnly call := by
  rw [right_iff] at h ⊢
  cases call with
  | addConn c =>
    refine iff_of_true ?_ trivial
    rw [DownloadConnPool.call, DownloadConnPool.addConn]
    split
    · exact h
    next hc => simpa using h.concat hc
  | delConn c =>
    rw [DownloadConnPool.call, DownloadConnPool.delConn, LastOnly]
    split
    next i hi => simpa [hi, eraseIdx_map] using h.eraseIdx_iff hi
    next hi => simpa [hi] using h
  | chooseSource peers now height createNew sorted =>
    refine iff_of_true ?_ trivial
    rw [DownloadConnPool.call, DownloadConnPool.chooseSource]
    split
    · exact h
    · simpa [sortLocked, zipIdx_map, foldl_map] using h.perm (hp.map _)

theorem right_scanl_iff {calls : List PoolCall} (h : fp.Right) (hp : All Possible fp calls) :
    (∀ fp' ∈ calls.scanl call fp, fp'.Right) ↔ All LastOnly fp calls := by
  induction calls generalizing fp with
  | nil => simpa [All] using h
  | cons call calls ih =>
    rw [scanl_cons, forall_mem_cons, All, ← h.call_iff hp.1]
    constructor
    · rintro ⟨-, hall⟩
      have hfirst := hall (fp.call call) (by cases calls <;> simp)
      exact ⟨hfirst, (ih hfirst hp.2).1 hall⟩
    · rintro ⟨hfirst, hlast⟩
      exact ⟨h, (ih hfirst hp.2).2 hlast⟩

end DownloadConnPool

/-- All states of a run are right exactly if no connection before the last one is deleted. -/
theorem connPool_right_iff (calls : List PoolCall) (hp : All Possible {} calls) :
    (∀ fp ∈ calls.scanl call {}, fp.Right) ↔ All LastOnly {} calls :=
  right_scanl_iff (right_iff.2 fun _ _ => by simp) hp

/-- Connections of three peers, of which those of the first and the second peer are deleted. -/
def twoDeletions : List PoolCall :=
  [.addConn ⟨⟨1, 0⟩, false⟩, .addConn ⟨⟨2, 0⟩, false⟩, .addConn ⟨⟨3, 0⟩, false⟩,
    .delConn ⟨⟨1, 0⟩, false⟩, .delConn ⟨⟨2, 0⟩, false⟩]

/-- The second deletion removes the connection of the third peer. -/
theorem connPool_twoDeletions : (twoDeletions.foldl call {}).l.map (·.peer.id) = [2] := by
  decide

theorem connPool_twoDeletions_not_right : ¬ ∀ fp ∈ twoDeletions.scanl call {}, fp.Right := by
  rw [connPool_right_iff twoDeletions ⟨trivial, trivial, trivial, trivial, trivial, trivial⟩]
  rintro ⟨-, -, -, hlast, -⟩
  exact absurd (hlast 0 rfl) (by decide)

/-- A tall enough peer without a connection. -/
def Free (fp : DownloadConnPool) (peers : List DownloadPeer) (height : ℕ) (p : DownloadPeer) : Prop :=
  p ∈ peers ∧ height ≤ p.height ∧ ∀ c ∈ fp.l, c.peer.id ≠ p.id

/-- A new connection goes to a peer that is not blocked, and it is made if there is one and no suitable connection. -/
def AvoidsBlocked (fp : DownloadConnPool) (peers : List DownloadPeer) (now : ℤ) (height : ℕ) (createNew : Bool)
    (sorted : List SyncConn) : Prop :=
  let source := (fp.chooseSource peers now height createNew sorted).1
  (∀ p, source = .peer p → fp.blocked now p.id = false) ∧
    ((∀ c ∈ sorted, c.busy ∨ c.peer.height < height) → (∃ p, Free fp peers height p ∧ fp.blocked now p.id = false) →
      ∃ p, Free fp peers height p ∧ fp.blocked now p.id = false ∧ source = .peer p)

/-- There is no block of the peer, or it ends just now. -/
def Open (fp : DownloadConnPool) (now : ℤ) (p : DownloadPeer) : Prop := ∀ t, fp.blackList p.id = some t → t = now

def suitable (height : ℕ) (c : SyncConn) : Bool := !c.busy && height ≤ c.peer.height

/-- No connection is suitable, or a new one is drawn and the first suitable one is not among the fastest third. -/
def WantsNew (height : ℕ) (createNew : Bool) (sorted : List SyncConn) : Prop :=
  sorted.findIdx (suitable height) = sorted.length ∨
    createNew = true ∧ sorted.length < 3 * (sorted.findIdx (suitable height) + 1)

/-- Before a blocked free peer there is an open one, if a new connection is wanted; and if no connection is suitable and
not all free peers are blocked, one of them is open. -/
def OpenFirst (fp : DownloadConnPool) (peers : List DownloadPeer) (now : ℤ) (height : ℕ) (createNew : Bool)
    (sorted : List SyncConn) : Prop :=
  (WantsNew height createNew sorted → ∀ before p after, peers = before ++ p :: after → Free fp peers height p →
    fp.blocked now p.id = true → ∃ q ∈ before, Free fp peers height q ∧ Open fp now q) ∧
  ((∀ c ∈ sorted, c.busy ∨ c.peer.height < height) → (∃ p, Free fp peers height p ∧ fp.blocked now p.id = false) →
    ∃ p, Free fp peers height p ∧ Open fp now p)

section Choice
variable {fp : DownloadConnPool} {peers : List DownloadPeer} {now : ℤ} {height n i : ℕ} {createNew : Bool}
  {sorted : List SyncConn} {p : DownloadPeer}

theorem mem_candidates : p ∈ fp.candidates now (peers.filter (height ≤ ·.height)) ↔
    Free fp peers height p ∧ ∀ t, fp.blackList p.id = some t → now ≤ t := by
  cases ht : fp.blackList p.id <;> simp [candidates, Free, ht, and_comm, and_left_comm]

theorem blocked_eq_false : fp.blocked now p.id = false ↔ ∀ t, fp.blackList p.id = some t → t ≤ now := by
  cases ht : fp.blackList p.id <;> simp [blocked, ht]

theorem Open.not_blocked (h : Open fp now p) : fp.blocked now p.id = false := blocked_eq_false.2 fun t ht => (h t ht).le

theorem suitable_eq_false {c : SyncConn} : suitable height c = false ↔ c.busy ∨ c.peer.height < height := by
  cases hc : c.busy <;> simp [suitable, hc]

variable (fp peers now height) in
theorem head?_candidates : ∃ f : DownloadPeer → Bool,
    (fp.candidates now (peers.filter (height ≤ ·.height))).head? = peers.find? f ∧
      ∀ p ∈ peers, f p = true ↔ Free fp peers height p ∧ ∀ t, fp.blackList p.id = some t → now ≤ t := by
  refine ⟨_, by rw [candidates, filter_filter, head?_filter], fun p hp => ?_⟩
  rw [← mem_candidates, candidates, filter_filter, mem_filter, and_iff_right hp]

theorem chooseConn_eq_peer {first : Option DownloadPeer} :
    (chooseConn height n (if createNew then first else none) i sorted).getD (first.elim .wait .peer) = .peer p ↔
      (sorted.findIdx (suitable height) = sorted.length ∨
        createNew = true ∧ n < 3 * (i + sorted.findIdx (suitable height) + 1)) ∧ first = some p := by
  induction sorted generalizing i with
  | nil => cases first <;> simp [chooseConn]
  | cons c l ih =>
    rw [chooseConn, findIdx_cons]
    by_cases h : c.busy ∨ c.peer.height < height
    · rw [if_pos h, ih, suitable_eq_false.2 h, cond_false, length_cons, Nat.add_right_cancel_iff, Nat.add_right_comm i,
        Nat.add_assoc i]
    · have hc : suitable height c = true := by
        rw [← Bool.not_eq_false, suitable_eq_false]
        exact h
      rw [if_neg h, hc]
      by_cases hn : 3 * (i + 1) < n + 1
      · have hn' : ¬n < 3 * (i + 1) := by omega
        simp [hn, hn']
      · have hn' : n < 3 * (i + 1) := by omega
        cases createNew <;> cases first <;> simp [hn, hn']

theorem chooseSource_eq_peer : (fp.chooseSource peers now height createNew sorted).1 = .peer p ↔
    WantsNew height createNew sorted ∧ (fp.candidates now (peers.filter (height ≤ ·.height))).head? = some p := by
  rw [chooseSource]
  split
  next h => simp [isEmpty_iff.1 h, candidates]
  · simpa [WantsNew] using chooseConn_eq_peer (i := 0) (n := sorted.length)

theorem wantsNew_of_busy (createNew : Bool) (h : ∀ c ∈ sorted, c.busy ∨ c.peer.height < height) :
    WantsNew height createNew sorted :=
  .inl (findIdx_eq_length.2 fun c hc => suitable_eq_false.2 (h c hc))

theorem avoidsBlocked_iff : AvoidsBlocked fp peers now height createNew sorted ↔
    OpenFirst fp peers now height createNew sorted := by
  constructor
  · rintro ⟨hblocked, hsource⟩
    have hopen {p} (h : (fp.chooseSource peers now height createNew sorted).1 = .peer p) :
        Free fp peers height p ∧ Open fp now p := by
      obtain ⟨hfree, hle⟩ := mem_candidates.1 (mem_of_head? (chooseSource_eq_peer.1 h).2)
      exact ⟨hfree, fun t ht => le_antisymm (blocked_eq_false.1 (hblocked p h) t ht) (hle t ht)⟩
    refine ⟨fun hnew before p after hpeers hp hb => ?_, fun hbusy hfree => ?_⟩
    · -- the blocked peer is a candidate, so the first candidate is not behind it
      obtain ⟨f, hhead, hf⟩ := head?_candidates fp peers now height
      have hp' : f p = true := by
        refine (hf p hp.1).2 ⟨hp, fun t ht => ?_⟩
        simp only [blocked, ht, Option.any_some, decide_eq_true_eq] at hb
        exact hb.le
      rw [hpeers, find?_append, find?_cons_of_pos hp', ← hpeers] at hhead
      cases hq : before.find? f with
      | none =>
        rw [hq, Option.none_or] at hhead
        rw [hblocked p (chooseSource_eq_peer.2 ⟨hnew, hhead⟩)] at hb
        cases hb
      | some q =>
        rw [hq, Option.some_or] at hhead
        exact ⟨q, mem_of_find?_eq_some hq, hopen (chooseSource_eq_peer.2 ⟨hnew, hhead⟩)⟩
    · obtain ⟨p, -, -, hpeer⟩ := hsource hbusy hfree
      exact ⟨p, hopen hpeer⟩
  · rintro ⟨hfirst, hopen⟩
    have hblocked p (h : (fp.chooseSource peers now height createNew sorted).1 = .peer p) :
        fp.blocked now p.id = false := by
      obtain ⟨hnew, hhead⟩ := chooseSource_eq_peer.1 h
      have hp := (mem_candidates.1 (mem_of_head? hhead)).1
      obtain ⟨f, hfind, hf⟩ := head?_candidates fp peers now height
      rw [hfind, find?_eq_some_iff_append] at hhead
      obtain ⟨-, before, after, hpeers, hbefore⟩ := hhead
      by_contra hb
      obtain ⟨q, hq, hfree, hq'⟩ := hfirst hnew before p after hpeers hp (by simpa using hb)
      have := hbefore q hq
      rw [(hf q hfree.1).2 ⟨hfree, fun t ht => (hq' t ht).ge⟩] at this
      cases this
    refine ⟨hblocked, fun hbusy hfree => ?_⟩
    obtain ⟨p, hp, hp'⟩ := hopen hbusy hfree
    have hcand := mem_candidates.2 ⟨hp, fun t ht => (hp' t ht).ge⟩
    obtain ⟨q, hq⟩ := Option.isSome_iff_exists.1 (isSome_head?.2 (ne_nil_of_mem hcand))
    have hpeer := chooseSource_eq_peer.2 ⟨wantsNew_of_busy createNew hbusy, hq⟩
    exact ⟨q, (mem_candidates.1 (mem_of_head? hq)).1, hblocked q hpeer, hpeer⟩

end Choice

/-- A call respects blocks and their end exactly if an open peer comes first, and all calls do if and only if all blocks
end just now. -/
theorem chooseSource_avoidsBlocked_iff (peers : List DownloadPeer) (blackList : ℕ → Option ℤ) (now : ℤ) :
    (∀ mi l height createNew sorted, sorted.Perm l →
      (AvoidsBlocked ⟨mi, l, blackList⟩ peers now height createNew sorted ↔
        OpenFirst ⟨mi, l, blackList⟩ peers now height createNew sorted)) ∧
    ((∀ mi l height createNew sorted, sorted.Perm l →
      AvoidsBlocked ⟨mi, l, blackList⟩ peers now height createNew sorted) ↔
      ∀ p ∈ peers, ∀ t, blackList p.id = some t → t = now) := by
  refine ⟨fun _ _ _ _ _ _ => avoidsBlocked_iff, ?_⟩
  simp only [avoidsBlocked_iff]
  constructor
  · intro h p hp t ht
    -- all the other peers have a busy connection
    obtain ⟨l, hbusy, hfree⟩ : ∃ l : List SyncConn, (∀ c ∈ l, c.busy ∨ c.peer.height < 0) ∧
        ∀ q, Free ⟨fun _ => none, l, blackList⟩ peers 0 q ↔ q ∈ peers ∧ q.id = p.id := by
      refine ⟨(peers.filter (·.id ≠ p.id)).map (⟨·, true⟩), ?_, fun q => ?_⟩
      · simp only [forall_mem_map, true_or, implies_true]
      · simp only [Free, forall_mem_map]
        grind
    obtain ⟨hblocked, hopen⟩ := h (fun _ => none) l 0 false l .rfl
    have hp' := (hfree p).2 ⟨hp, rfl⟩
    have hend {q} (hq : Free ⟨fun _ => none, l, blackList⟩ peers 0 q ∧ Open ⟨fun _ => none, l, blackList⟩ now q) :
        t = now := hq.2 t (by rw [← ht, ((hfree q).1 hq.1).2])
    by_cases hb : blocked ⟨fun _ => none, l, blackList⟩ now p.id = true
    · obtain ⟨before, after, hpeers⟩ := append_of_mem hp
      obtain ⟨q, -, hq⟩ := hblocked (wantsNew_of_busy false hbusy) before p after hpeers hp' hb
      exact hend hq
    · obtain ⟨q, hq⟩ := hopen hbusy ⟨p, hp', by simpa using hb⟩
      exact hend hq
  · intro h mi l height createNew sorted _
    have hopen {p} (hp : Free ⟨mi, l, blackList⟩ peers height p) : Open ⟨mi, l, blackList⟩ now p := h p hp.1
    refine ⟨fun _ _ p _ _ hp hb => ?_, fun _ ⟨p, hp, _⟩ => ⟨p, hp, hopen hp⟩⟩
    rw [(hopen hp).not_blocked] at hb
    cases hb

/-- A peer that is blocked until the second 5 is chosen in the second 3, and no more in the second 7. -/
theorem chooseSource_blocked_peer :
    let fp : DownloadConnPool := { blackList := update (fun _ => none) 1 (some 5) }
    fp.blocked 3 1 = true ∧ (fp.chooseSource [⟨1, 0⟩] 3 0 false []).1 = .peer ⟨1, 0⟩ ∧
      fp.blocked 7 1 = false ∧ (fp.chooseSource [⟨1, 0⟩] 7 0 false []).1 = .wait :=
  ⟨rfl, rfl, rfl, rfl⟩

end GoVite.Net

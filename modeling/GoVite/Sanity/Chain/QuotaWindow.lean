import GoVite.Sanity.Chain.QuotaCounts

/-! The quota list that a ledger and a length determine: each operation turns the exact list of a ledger into that of
the ledger it leaves. -/

namespace GoVite.ChainCache
open KeyStore List Ledger QuotaMap Except QuotaInfo

variable {k n : ℕ} {l : Ledger}

namespace Ledger

/-- The last `n` entries of the ledger: the chunks of the latest snapshots, the genesis snapshot apart, and the
unconfirmed blocks. -/
def recent (l : Ledger) (n : ℕ) : List (List AccountBlock) :=
  l.chunks.tail.drop (l.latestHeight - n) ++ [l.unconfirmed]

/-- The chunks among them. -/
def older (l : Ledger) (n : ℕ) : List (List AccountBlock) := l.chunks.tail.drop (l.latestHeight - n)

theorem recent_eq : l.recent n = l.older n ++ [l.unconfirmed] := rfl

/-- The entries the quota is computed from. -/
def window (l : Ledger) : List (List AccountBlock) := l.recent usedAccumulateHeight

/-- The totals of the ledger are those of uint64 counters. -/
def Fits (l : Ledger) : Prop := (total (l.chunks.tail.flatten ++ l.unconfirmed)).Fits

/-- A list of length `n` holds the window, and only snapshots after the genesis snapshot. -/
structure Length (l : Ledger) (n : ℕ) : Prop where
  genesis : l.chunks ≠ []
  used : min usedAccumulateHeight l.latestHeight ≤ n
  le : n ≤ l.latestHeight

theorem latestHeight_pos (h : l.chunks ≠ []) : 0 < l.latestHeight := length_pos_iff.2 h

theorem Length.pos (h : l.Length n) : 0 < n := by
  have := latestHeight_pos h.genesis
  have := h.used
  simp only [usedAccumulateHeight] at this
  omega

theorem length_tail : l.chunks.tail.length = l.latestHeight - 1 := by simp [latestHeight]

theorem Length.length_older (h : l.Length n) : (l.older n).length + 1 = n := by
  have := h.pos
  have := h.le
  rw [older, length_drop, length_tail]
  omega

theorem Length.length_recent (h : l.Length n) : (l.recent n).length = n := by
  rw [recent_eq, length_append, length_singleton, h.length_older]

theorem recent_sublist : (l.recent n).Sublist (l.chunks.tail ++ [l.unconfirmed]) :=
  (drop_sublist _ _).append (List.Sublist.refl _)

theorem Fits.total_recent (h : l.Fits) (n : ℕ) : (total (l.recent n).flatten).Fits :=
  fits_of_sublist recent_sublist (by simpa [Fits] using h)

theorem total_window : total l.window.flatten = total (l.older usedAccumulateHeight).flatten + total l.unconfirmed := by
  simp [window, recent_eq]

theorem Fits.total_window (h : l.Fits) : (total l.window.flatten).Fits := h.total_recent _

theorem Fits.total_unconfirmed (h : l.Fits) : (total l.unconfirmed).Fits := by
  rw [Fits, total_append] at h
  exact h.right

theorem Length.drop_recent (h : l.Length n) (hk : k < n) : (l.recent n).drop k = l.recent (n - k) := by
  have hle := h.le
  have hlen := h.length_older
  rw [recent_eq, recent, drop_append_of_le_length (by omega), older, drop_drop,
    show l.latestHeight - n + k = l.latestHeight - (n - k) by omega]

/-- The window is the end of the list. -/
theorem Length.drop_eq_window (h : l.Length n) : (l.recent n).drop (n - usedAccumulateHeight) = l.window := by
  have hpos := h.pos
  have hused := h.used
  simp only [usedAccumulateHeight] at hused
  rw [h.drop_recent (by simp only [usedAccumulateHeight]; omega), window, recent]
  congr 2
  simp only [usedAccumulateHeight]
  omega

end Ledger

namespace QuotaList

/-- The quota list of length `n` that counts right. -/
def exact (l : Ledger) (n : ℕ) : QuotaList where
  backElement := .ofBlocks l.unconfirmed
  globalUsed := total l.window.flatten
  usedStart := some (.linked (n - usedAccumulateHeight))
  list := (l.recent n).map QuotaMap.ofBlocks
  initialized := true
  wrapped := false

theorem getQuotaUsedList_exact (hn : l.Length n) (hf : l.Fits) (addr : Address) :
    (exact l n).getQuotaUsedList addr = l.window.map fun bs => total (owned addr bs) := by
  have hused : (exact l n).used = l.window.map ofBlocks := by
    rw [← hn.drop_eq_window, map_drop]
    rfl
  rw [getQuotaUsedList, hused, map_map]
  refine map_congr_left fun bs hbs => ?_
  exact getD_ofBlocks (fits_of_mem hbs (hf.total_recent _)) addr

theorem getGlobalQuota_exact (hf : l.Fits) : (exact l n).getGlobalQuota = (total l.window.dropLast.flatten, false) := by
  have hwindow : total l.window.flatten = total l.window.dropLast.flatten + total l.unconfirmed := by
    simp [window, recent]
  have hvalues := sum_values_ofBlocks hf.total_unconfirmed
  have hfits := hf.total_window
  rw [hwindow, ← hvalues] at hfits
  have hfold := foldl_debit hfits false
  rw [hvalues, ← hwindow] at hfold
  exact hfold

theorem setBackElement_exact (m : QuotaMap) :
    (exact l n).setBackElement m = { exact l n with
      backElement := m
      list := (l.older n).map ofBlocks ++ [m] } := by
  simp [setBackElement, exact, recent_eq]

variable {b : AccountBlock}

theorem add_exact (hf : (l.apply (.add b)).Fits) :
    (exact l n).add b.accountAddress b.quota b.quotaUsed = exact (l.apply (.add b)) n := by
  have hwindow : total (l.apply (.add b)).window.flatten = total l.window.flatten + ⟨1, b.quota, b.quotaUsed⟩ := by
    simp [window, recent, apply, latestHeight, add_assoc, AccountBlock.info]
  have hplus : (total l.window.flatten).plus ⟨1, b.quota, b.quotaUsed⟩ = total (l.apply (.add b)).window.flatten := by
    rw [hwindow]
    refine plus_eq ?_
    rw [← hwindow]
    exact hf.total_recent _
  rw [add, setBackElement_exact]
  simp only [exact, hplus, ← ofBlocks_concat]
  simp [apply, recent, older, latestHeight]

theorem sub_exact (hf : l.Fits) (hb : b ∈ l.unconfirmed) :
    (exact l n).sub b.accountAddress b.quota b.quotaUsed = exact (l.apply (.sub b)) n := by
  have hperm := total_perm (perm_cons_erase hb)
  have hwindow : total l.window.flatten = total (l.apply (.sub b)).window.flatten + ⟨1, b.quota, b.quotaUsed⟩ := by
    simp only [window, recent, apply, latestHeight, flatten_append, total_append,
      flatten_cons, hperm, total_cons, AccountBlock.info]
    abel
  have hfits := hf.total_window
  rw [hwindow] at hfits
  rw [sub]
  simp only [exact, sub_of_mem hb hf.total_unconfirmed]
  rw [← exact, setBackElement_exact]
  simp only [debitGlobal, exact, hwindow, debit_add hfits.left]
  simp [apply, recent, older, latestHeight]

/-! A new snapshot -/

variable {blocks unconfirmed : List AccountBlock}

/-- Confirming blocks moves them from the unconfirmed map to the map of the snapshot. -/
theorem foldlM_confirm (done : List AccountBlock)
    (hsub : blocks.Subperm unconfirmed) (hf : (total (done ++ unconfirmed)).Fits) (wrapped : Bool) :
    blocks.foldlM confirm (.ofBlocks done, .ofBlocks unconfirmed, wrapped) =
      .ok (.ofBlocks (done ++ blocks), .ofBlocks (unconfirmed.diff blocks), wrapped) := by
  induction blocks generalizing done unconfirmed with
  | nil =>
    rw [append_nil]
    rfl
  | cons b blocks ih =>
    have hb : b ∈ unconfirmed := hsub.subset (by simp)
    have hunconfirmed : (total unconfirmed).Fits := by
      rw [total_append] at hf
      exact hf.right
    have hget : (ofBlocks unconfirmed).get? b.accountAddress =
        some (total (owned b.accountAddress unconfirmed)) := by
      rw [get?_ofBlocks hunconfirmed, if_neg]
      exact ne_nil_of_mem (mem_filter.2 ⟨hb, by simp⟩)
    have hstep : confirm (.ofBlocks done, .ofBlocks unconfirmed, wrapped) b =
        .ok (.ofBlocks (done ++ [b]), .ofBlocks (unconfirmed.erase b), wrapped) := by
      simp only [confirm, hget, sub_of_mem hb hunconfirmed, ofBlocks_concat, Bool.or_false]
    have hrest : blocks.Subperm (unconfirmed.erase b) := by simpa using hsub.erase b
    have hperm : (done ++ [b] ++ unconfirmed.erase b).Perm (done ++ unconfirmed) := by
      rw [append_assoc]
      exact (perm_cons_erase hb).symm.append_left done
    rw [foldlM_cons, hstep, diff_cons]
    have hih := ih (done ++ [b]) hrest (total_perm hperm ▸ hf)
    rw [append_assoc] at hih
    exact hih

variable {s : QuotaList} {bss : List (List AccountBlock)}

/-- The list after a new last entry: `bss` are the entries before it, and the running total covers the last 75 of them
and the new one. -/
theorem moveNext_counted (hlist : s.list = bss.map ofBlocks) (hlen : bss.length ≤ listMaxLength)
    (hstart : s.usedStart.getD (.linked bss.length) = .linked (bss.length - usedAccumulateHeight))
    (hglobal : s.globalUsed = total (bss.drop (bss.length - usedAccumulateHeight)).flatten + total blocks)
    (hf : (total (bss ++ [blocks]).flatten).Fits) :
    s.moveNext (.ofBlocks blocks) =
      { backElement := .ofBlocks blocks
        globalUsed := total ((bss ++ [blocks]).drop (bss.length + 1 - usedAccumulateHeight)).flatten
        usedStart := some (.linked (min listMaxLength (bss.length + 1) - usedAccumulateHeight))
        list := ((bss ++ [blocks]).drop (bss.length + 1 - listMaxLength)).map ofBlocks
        initialized := s.initialized
        wrapped := s.wrapped } := by
  have hpushed : s.list ++ [ofBlocks blocks] = (bss ++ [blocks]).map ofBlocks := by simp [hlist]
  unfold moveNext
  simp only [hpushed, length_map, length_append, length_singleton, Nat.add_sub_cancel, hstart]
  by_cases hshort : bss.length + 1 ≤ usedAccumulateHeight
  · have hzero : bss.length - usedAccumulateHeight = 0 := by omega
    have hzero' : bss.length + 1 - usedAccumulateHeight = 0 := by omega
    have hzero'' : bss.length + 1 - listMaxLength = 0 := by
      simp only [usedAccumulateHeight, listMaxLength] at hshort ⊢
      omega
    have hmin : min listMaxLength (bss.length + 1) - usedAccumulateHeight = 0 := by omega
    rw [if_pos hshort]
    simp [hglobal, hzero, hzero', hzero'', hmin]
  · -- the oldest entry leaves the running total
    obtain ⟨k, hk⟩ : ∃ k, bss.length = k + usedAccumulateHeight := ⟨bss.length - usedAccumulateHeight, by omega⟩
    have hpos : 0 < usedAccumulateHeight := by decide
    have hlt : k < bss.length := by omega
    have hsub : bss.length - usedAccumulateHeight = k := by omega
    have hsub' : bss.length + 1 - usedAccumulateHeight = k + 1 := by omega
    have hvalue : (Element.linked k).value ((bss ++ [blocks]).map ofBlocks) = .ofBlocks bss[k] := by
      rw [Element.value, getD_eq_getElem?_getD, getElem?_map, getElem?_append_left hlt]
      simp [hlt]
    have hdrop : (bss ++ [blocks]).drop (k + 1) = bss.drop (k + 1) ++ [blocks] :=
      drop_append_of_le_length (by omega)
    have hbound : (total (bss.drop k ++ [blocks]).flatten).Fits :=
      fits_of_sublist ((drop_sublist k bss).append (List.Sublist.refl _)) hf
    have hmem : bss[k] ∈ bss ++ [blocks] := by simp
    have hold : (total bss[k]).Fits := fits_of_mem hmem hf
    have hoff : s.globalUsed = total ((bss ++ [blocks]).drop (k + 1)).flatten +
        (ofBlocks bss[k]).values.sum := by
      rw [hglobal, hsub, sum_values_ofBlocks hold, hdrop, drop_eq_getElem_cons hlt]
      simp only [flatten_cons, flatten_append, total_append]
      abel
    have hfits : (total ((bss ++ [blocks]).drop (k + 1)).flatten + (ofBlocks bss[k]).values.sum).Fits := by
      rw [← hoff, hglobal, hsub]
      simpa using hbound
    rw [if_neg hshort, hsub, hvalue, hoff, foldl_debit hfits]
    have hnext : (Element.linked k).next ((bss ++ [blocks]).map ofBlocks) = some (.linked (k + 1)) := by
      simp only [Element.next, length_map, length_append, length_singleton]
      rw [if_pos (by omega)]
    simp only [hnext, hsub']
    by_cases hmax : listMaxLength < bss.length + 1
    · have hone : bss.length + 1 - listMaxLength = 1 := by omega
      have hmin : min listMaxLength (bss.length + 1) - usedAccumulateHeight = k := by omega
      rw [if_pos hmax, hone, hmin, removeFront]
      simp [Element.afterRemove]
    · have hzero : bss.length + 1 - listMaxLength = 0 := by omega
      have hmin : min listMaxLength (bss.length + 1) - usedAccumulateHeight = k + 1 := by omega
      rw [if_neg hmax, hzero, hmin]
      simp

/-- The list after a new last entry is exact again. -/
theorem moveNext_exact {l : Ledger} (hn : l.Length n) (hf : l.Fits) (hmax : n ≤ listMaxLength + 1)
    (hlist : s.list = (l.older n).map ofBlocks)
    (hstart : s.usedStart.getD (.linked (l.older n).length) = .linked ((l.older n).length - usedAccumulateHeight))
    (hglobal : s.globalUsed = total ((l.older n).drop ((l.older n).length - usedAccumulateHeight)).flatten +
      total l.unconfirmed) :
    s.moveNext (.ofBlocks l.unconfirmed) = { exact l (min listMaxLength n) with
      initialized := s.initialized
      wrapped := s.wrapped } := by
  have hlen := hn.length_older
  have hfits := hf.total_recent n
  have hlt : n - listMaxLength < n := Nat.sub_lt hn.pos (by decide)
  rw [moveNext_counted hlist (by omega) hstart hglobal hfits, hlen, ← recent_eq, hn.drop_eq_window, hn.drop_recent hlt,
    show n - (n - listMaxLength) = min listMaxLength n by omega]
  rfl

theorem newNext_exact (hn : l.Length n) (hmax : n ≤ listMaxLength) (hf : l.Fits) (hsub : blocks.Subperm l.unconfirmed) :
    (exact l n).newNext blocks = .ok (exact (l.apply (.newNext blocks)) (min listMaxLength (n + 1))) := by
  have hle := hn.le
  have hlen := hn.length_older
  have hperm : (blocks ++ l.unconfirmed.diff blocks).Perm l.unconfirmed :=
    subperm_append_diff_self_of_count_le fun x _ => hsub.count_le x
  have htotal : total l.unconfirmed = total blocks + total (l.unconfirmed.diff blocks) := by
    rw [← total_perm hperm, total_append]
  have htail : (l.chunks ++ [blocks]).tail = l.chunks.tail ++ [blocks] := tail_append_of_ne_nil hn.genesis
  have hheight : (l.apply (.newNext blocks)).latestHeight = l.latestHeight + 1 := by
    simp [apply, latestHeight]
  have hdrop : l.latestHeight - n ≤ l.chunks.tail.length := by
    rw [Ledger.length_tail]
    omega
  have holder : (l.apply (.newNext blocks)).older (n + 1) = l.older n ++ [blocks] := by
    rw [older, hheight, show l.latestHeight + 1 - (n + 1) = l.latestHeight - n by omega]
    simp only [apply, htail, drop_append_of_le_length hdrop, older]
  have hlength : ((l.apply (.newNext blocks)).older (n + 1)).length = n := by
    rw [holder, length_append, length_singleton, hlen]
  have hused := hn.used
  have hfits : (l.apply (.newNext blocks)).Fits := by
    rw [Ledger.Fits] at hf ⊢
    simp only [apply, htail, total_append, htotal] at hf ⊢
    simpa [add_assoc] using hf
  have hwindow : total l.window.flatten = total (((l.apply (.newNext blocks)).older (n + 1)).drop
      (n - usedAccumulateHeight)).flatten + total (l.unconfirmed.diff blocks) := by
    have hkept : n - usedAccumulateHeight ≤ (l.older n).length := by
      simp only [usedAccumulateHeight]
      omega
    rw [← hn.drop_eq_window, recent_eq, holder, drop_append_of_le_length hkept, drop_append_of_le_length hkept]
    simp [htotal, add_assoc]
  have hconfirm := foldlM_confirm [] hsub (by simpa using hf.total_unconfirmed) false
  have hn' : (l.apply (.newNext blocks)).Length (n + 1) := by
    refine ⟨by simp [apply], ?_, ?_⟩
    · omega
    · omega
  have hmove := moveNext_exact (s := { exact l n with list := ((l.apply (.newNext blocks)).older (n + 1)).map ofBlocks })
    hn' hfits (by omega) rfl (by rw [hlength]; rfl) (by rw [hlength]; exact hwindow)
  have hlist : (exact l n).list.dropLast ++ [ofBlocks blocks] =
      ((l.apply (.newNext blocks)).older (n + 1)).map ofBlocks := by
    simp [exact, recent_eq, holder]
  have hne : (exact l n).list ≠ [] := by simp [exact, recent]
  have hloop : blocks.foldlM confirm (.empty, (exact l n).backElement, (exact l n).wrapped) = .ok
      (.ofBlocks blocks, .ofBlocks (l.unconfirmed.diff blocks), false) := hconfirm
  rw [newNext, hloop]
  change (if (exact l n).list = [] then _ else _) = _
  rw [if_neg hne, hlist]
  exact congrArg ok hmove

theorem resetUnconfirmedQuotas_exact (hn : l.Length n) (hf : l.Fits)
    (hf' : (l.apply (.resetUnconfirmedQuotas blocks)).Fits) (hheight : 2 ≤ l.latestHeight) :
    (exact l n).resetUnconfirmedQuotas blocks = .ok (exact (l.apply (.resetUnconfirmedQuotas blocks)) n) := by
  have hafter : total (l.apply (.resetUnconfirmedQuotas blocks)).window.flatten =
      total (l.older usedAccumulateHeight).flatten + total blocks := by
    simp [window, recent, apply, latestHeight, older]
  have hfits := hf.total_window
  have hfits' := hf'.total_window
  rw [total_window] at hfits
  rw [hafter] at hfits'
  have hold : (ofBlocks l.unconfirmed).aggregate = total l.unconfirmed :=
    aggregate_ofBlocks hf.total_unconfirmed
  have hnew : (ofBlocks blocks).aggregate = total blocks := aggregate_ofBlocks hfits'.right
  have hne : (exact l n).list ≠ [] := by simp [exact, recent]
  -- the window does not begin with the unconfirmed entry
  have hlen : (exact l n).list.length = n := by simp [exact, hn.length_recent]
  have hstart : n - usedAccumulateHeight ≠ (exact l n).list.length - 1 := by
    have := hn.used
    simp only [usedAccumulateHeight] at this ⊢
    omega
  have hle : ¬ (exact l n).list.length - 1 < n - usedAccumulateHeight := by
    simp only [usedAccumulateHeight]
    omega
  have hglobal : (exact l n).debitGlobal (exact l n).backElement.aggregate =
      { exact l n with globalUsed := total (l.older usedAccumulateHeight).flatten } := by
    rw [debitGlobal]
    simp only [exact, hold, total_window, debit_add hfits.left]
  rw [resetUnconfirmedQuotas, hglobal]
  simp only [hnew, plus_eq hfits', ← hafter, removeBack]
  simp only [exact, Option.map_some, Element.afterRemove] at hstart hle ⊢
  rw [if_neg hstart, if_neg hle]
  simp [apply, recent, latestHeight]

/-! Rebuilding -/

theorem foldl_values {a : QuotaInfo} (hf : (a + total bss.flatten).Fits) :
    (bss.map ofBlocks).foldl (fun g m => m.values.foldl .plus g) a = a + total bss.flatten := by
  induction bss generalizing a with
  | nil => simp
  | cons bs bss ih =>
    rw [flatten_cons, total_append, ← add_assoc] at hf ⊢
    have hbs := sum_values_ofBlocks hf.left.right
    have hfold : (ofBlocks bs).values.foldl .plus a = a + total bs := by
      rw [← hbs]
      exact foldl_plus (hbs ▸ hf.left)
    rw [map_cons, foldl_cons, hfold, ih hf]

/-- The deferred part of `build` counts the last 75 entries. -/
theorem finishBuild_counted (hlist : s.list = bss.map ofBlocks)
    (hne : bss ≠ []) (hf : (total bss.flatten).Fits) :
    ∃ back, s.finishBuild = { s with
      backElement := back
      usedStart := some (.linked (bss.length - usedAccumulateHeight))
      globalUsed := total (bss.drop (bss.length - usedAccumulateHeight)).flatten } := by
  obtain ⟨back, hback⟩ : ∃ back, s.list.getLast? = some back := by
    rw [hlist]
    exact ⟨_, getLast?_eq_some_getLast (by simpa using hne)⟩
  have hfits : (0 + total (bss.drop (bss.length - usedAccumulateHeight)).flatten).Fits := by
    rw [zero_add]
    exact fits_of_sublist (drop_sublist _ _) hf
  have hfold := foldl_values hfits
  rw [zero_add, map_drop] at hfold
  refine ⟨back, ?_⟩
  rw [finishBuild, hback]
  simp only [resetUsedStart, hlist, length_map]
  rw [← hfold]
  rfl

/-- Counting the list anew and opening an entry for unconfirmed blocks gives the exact list. -/
theorem moveNext_finishBuild {l : Ledger} (hn : l.Length n) (hf : l.Fits) (hmax : n ≤ listMaxLength + 1) (htwo : 2 ≤ n)
    (hu : l.unconfirmed = []) (hlist : s.list = (l.older n).map ofBlocks) :
    s.finishBuild.moveNext .empty = { exact l (min listMaxLength n) with
      initialized := s.initialized
      wrapped := s.wrapped } := by
  have hlen := hn.length_older
  have hfits := hf.total_recent n
  rw [recent_eq, flatten_append, total_append] at hfits
  obtain ⟨back, hfinish⟩ := finishBuild_counted hlist (ne_nil_of_length_pos (by omega)) hfits.left
  have hmove := moveNext_exact (s := s.finishBuild) hn hf hmax (by rw [hfinish]; exact hlist)
    (by rw [hfinish]; rfl) (by rw [hfinish, hu, total_nil, add_zero])
  rw [hu, hfinish] at hmove
  rw [hfinish]
  exact hmove

theorem removeBacks_eq (k : ℕ) (s : QuotaList) :
    ∃ start, removeBacks k s = { s with list := s.list.take (s.list.length - k), usedStart := start } := by
  induction k generalizing s with
  | zero => exact ⟨s.usedStart, by simp [removeBacks]⟩
  | succ k ih =>
    by_cases hnil : s.list = []
    · have htake : s.list.take (s.list.length - (k + 1)) = s.list := by
        rw [hnil, take_nil]
      exact ⟨s.usedStart, by rw [removeBacks, if_pos hnil, htake]⟩
    · obtain ⟨start, hstart⟩ := ih s.removeBack
      refine ⟨start, ?_⟩
      rw [removeBacks, if_neg hnil, hstart]
      simp only [removeBack, dropLast_eq_take, take_take, length_take]
      congr 2
      omega

/-- With an empty list `build` reads the last chunks of the chain. -/
theorem build_empty (hgenesis : l.chunks ≠ []) (hnil : s.list = []) :
    s.build l = .ok { s with list := (l.older (min listMaxLength l.latestHeight)).map ofBlocks }.finishBuild := by
  have hpos := latestHeight_pos hgenesis
  obtain ⟨start, hstart⟩ : ∃ start, start = if listMaxLength < l.latestHeight + 1 then
      l.latestHeight + 1 - listMaxLength else 1 := ⟨_, rfl⟩
  have hstart' : start = l.latestHeight - min listMaxLength l.latestHeight + 1 := by
    by_cases hlong : listMaxLength < l.latestHeight + 1
    · rw [hstart, if_pos hlong]
      omega
    · rw [hstart, if_neg hlong]
      omega
  have hlocation : l.hasLocation start = true := by
    simp only [hasLocation, hstart', Bool.and_eq_true, decide_eq_true_eq, listMaxLength]
    omega
  have hread : l.readRange start l.latestHeight = [] :: l.older (min listMaxLength l.latestHeight) := by
    rw [readRange, take_of_length_le (by rw [length_drop]; exact Nat.le_refl _), hstart', older, drop_tail]
  have hused : ¬ usedAccumulateHeight ≤ 0 := by decide
  rw [build]
  simp only [hnil, length_nil, Nat.sub_zero, if_neg hused, if_neg (Nat.not_le.2 hpos), ← hstart,
    getSubLedgerAfterHeight, hlocation, hread, if_true, tail_cons, nil_append]

/-- The entries `build` reads are those of the longest exact list. -/
theorem length_longest (hgenesis : l.chunks ≠ []) : l.Length (min listMaxLength l.latestHeight) := by
  refine ⟨hgenesis, ?_, Nat.min_le_right _ _⟩
  simp only [usedAccumulateHeight, listMaxLength]
  omega

theorem init_exact {chunks : List (List AccountBlock)} (hgenesis : chunks ≠ []) (hf : (Ledger.mk chunks []).Fits) :
    newQuotaList.init ⟨chunks, []⟩ = .ok (exact ⟨chunks, []⟩ (min listMaxLength chunks.length)) := by
  obtain ⟨l, hl⟩ : ∃ l : Ledger, l = ⟨chunks, []⟩ := ⟨_, rfl⟩
  have hgenesis' : l.chunks ≠ [] := by rwa [hl]
  have hheight : chunks.length = l.latestHeight := by rw [hl, latestHeight]
  have hu : l.unconfirmed = [] := by rw [hl]
  rw [← hl] at hf ⊢
  have hn := length_longest hgenesis'
  rw [hheight, init, build_empty hgenesis' rfl]
  generalize hm : min listMaxLength l.latestHeight = m at hn
  have hlen := hn.length_older
  have hmin : min listMaxLength m = m := by omega
  refine congrArg ok ?_
  by_cases htwo : 2 ≤ m
  · rw [moveNext_finishBuild hn hf (by omega) htwo hu rfl, hmin]
    rfl
  · -- only the genesis snapshot: nothing has been counted yet
    have hnil : l.older m = [] := length_eq_zero_iff.1 (by omega)
    have hmove := moveNext_exact (s := newQuotaList) hn hf (by omega) (by rw [hnil]; rfl) (by rw [hnil]; rfl)
      (by rw [hnil, hu]; rfl)
    rw [hu, hmin] at hmove
    rw [hnil]
    change { newQuotaList.moveNext (.ofBlocks []) with initialized := true } = _
    rw [hmove]
    rfl

/-- The removals of `Rollback` leave the entries of the snapshots that stay, `d` being the chunks to delete beyond the
last entry. -/
theorem removed_eq {kept : List QuotaMap} {d : ℕ}
    (htake : s.list.take (s.list.length - d) = kept.take (kept.length - k)) (hnone : listMaxLength ≤ d → kept.length ≤ k) :
    ∃ start, (if listMaxLength ≤ d then s.initList else removeBacks d s) =
      { s with list := kept.take (kept.length - k), usedStart := start } := by
  by_cases hd : listMaxLength ≤ d
  · have hzero : kept.length - k = 0 := Nat.sub_eq_zero_of_le (hnone hd)
    rw [if_pos hd, hzero]
    exact ⟨_, rfl⟩
  · obtain ⟨start, hstart⟩ := removeBacks_eq d s
    rw [if_neg hd, ← htake]
    exact ⟨start, hstart⟩

theorem rollback_eq (hn : l.Length n) (hmax : n ≤ listMaxLength) (hf : l.Fits) (k : ℕ) :
    ∃ start, ∀ l', (exact l n).rollback l' (l.deletedChunks k) = ({ exact l n with
      list := ((l.older n).take (n - 1 - k)).map ofBlocks
      usedStart := start }.build l').map fun s : QuotaList => s.moveNext .empty := by
  obtain ⟨kept, hkept⟩ : ∃ kept, kept = (l.older n).map ofBlocks := ⟨_, rfl⟩
  have hlen : kept.length = n - 1 := by
    have := hn.length_older
    rw [hkept, length_map]
    omega
  have hlist : (exact l n).list = kept ++ [.ofBlocks l.unconfirmed] := by simp [exact, recent_eq, hkept]
  have hlast : (exact l n).list.getLast? = some (.ofBlocks l.unconfirmed) := by rw [hlist, getLast?_concat]
  have hmap : ((l.older n).take (n - 1 - k)).map ofBlocks = kept.take (kept.length - k) := by
    rw [map_take, ← hkept, hlen]
  have hbind : ∀ x : Except QuotaError QuotaList,
      (x >>= fun s => ok (s.moveNext .empty)) = x.map fun s => s.moveNext .empty := fun x => by cases x <;> rfl
  simp only [rollback, hlast, hmap, hbind]
  by_cases hu : l.unconfirmed = []
  · have hkeys : (ofBlocks l.unconfirmed).keys = [] := (keys_ofBlocks hf.total_unconfirmed).2 hu
    have hremove : (exact l n).removeBack.list = kept := by rw [removeBack, hlist, dropLast_concat]
    have hdeleted : l.deletedChunks k = k := by rw [deletedChunks, if_pos hu, Nat.add_zero]
    have htake : (exact l n).removeBack.list.take ((exact l n).removeBack.list.length - k) =
        kept.take (kept.length - k) := by rw [hremove]
    obtain ⟨start, hstart⟩ := removed_eq htake (by omega)
    refine ⟨start, fun l' => ?_⟩
    rw [if_pos hkeys, hdeleted, hstart]
    rfl
  · have hkeys : (ofBlocks l.unconfirmed).keys ≠ [] :=
      fun h => hu ((keys_ofBlocks hf.total_unconfirmed).1 h)
    have hdeleted : l.deletedChunks k = k + 1 := by rw [deletedChunks, if_neg hu]
    have htake : (exact l n).list.take ((exact l n).list.length - (k + 1)) = kept.take (kept.length - k) := by
      rw [hlist, length_append, length_singleton, Nat.add_sub_add_right,
        take_append_of_le_length (Nat.sub_le _ _)]
    obtain ⟨start, hstart⟩ := removed_eq htake (by omega)
    refine ⟨start, fun l' => ?_⟩
    rw [if_neg hkeys, hdeleted, hstart]

theorem fits_rollback (hf : l.Fits) (k : ℕ) : (l.apply (.rollback k)).Fits := by
  refine fits_of_subperm (List.Sublist.subperm ?_) hf
  refine List.Sublist.append (List.Sublist.flatten ?_) (nil_sublist _)
  exact (take_sublist _ _).tail

theorem latestHeight_rollback (k : ℕ) : (l.apply (.rollback k)).latestHeight = l.latestHeight - k := by
  simp [apply, latestHeight]

theorem chunks_rollback_ne_nil (hk : k < l.latestHeight) : (l.apply (.rollback k)).chunks ≠ [] := by
  refine ne_nil_of_length_pos ?_
  change 0 < (l.apply (.rollback k)).latestHeight
  rw [latestHeight_rollback]
  omega

theorem rollback_exact_of_kept (hn : l.Length n) (hmax : n ≤ listMaxLength) (hf : l.Fits)
    (hkept : usedAccumulateHeight ≤ n - 1 - k) :
    (exact l n).rollback (l.apply (.rollback k)) (l.deletedChunks k) = .ok (exact (l.apply (.rollback k)) (n - k)) := by
  have hused : 0 < usedAccumulateHeight := by decide
  have hle := hn.le
  obtain ⟨start, hstart⟩ := rollback_eq hn hmax hf k
  have htail : (l.apply (.rollback k)).chunks.tail = l.chunks.tail.take (l.latestHeight - k - 1) := by
    rw [← drop_one, ← drop_one, ← drop_take]
    rfl
  have holder : (l.older n).take (n - 1 - k) = (l.apply (.rollback k)).older (n - k) := by
    rw [older, older, latestHeight_rollback, htail, drop_take,
      show l.latestHeight - k - (n - k) = l.latestHeight - n by omega,
      show l.latestHeight - k - 1 - (l.latestHeight - n) = n - 1 - k by omega]
  have hn' : (l.apply (.rollback k)).Length (n - k) :=
    ⟨chunks_rollback_ne_nil (by omega), by omega, by rw [latestHeight_rollback]; omega⟩
  have hlen' := hn'.length_older
  rw [hstart, holder, build, if_pos (by rw [length_map]; omega)]
  refine congrArg ok ?_
  beta_reduce
  rw [moveNext_finishBuild hn' (fits_rollback hf k) (by omega) (by omega) rfl rfl,
    show min listMaxLength (n - k) = n - k by omega]
  rfl

/-- A rollback that empties the list, on a chain with a snapshot after the genesis snapshot. -/
theorem rollback_exact_of_empty (hn : l.Length n) (hmax : n ≤ listMaxLength) (hf : l.Fits)
    (hnone : n - 1 ≤ k) (hheight : k + 2 ≤ l.latestHeight) :
    (exact l n).rollback (l.apply (.rollback k)) (l.deletedChunks k) =
      .ok (exact (l.apply (.rollback k)) (min listMaxLength (l.latestHeight - k))) := by
  obtain ⟨start, hstart⟩ := rollback_eq hn hmax hf k
  have hgenesis : (l.apply (.rollback k)).chunks ≠ [] := chunks_rollback_ne_nil (by omega)
  have hn' := length_longest hgenesis
  have hempty : ((l.older n).take (n - 1 - k)).map ofBlocks = [] := by
    rw [Nat.sub_eq_zero_of_le hnone, take_zero, map_nil]
  have hmaxLength : 1 < listMaxLength := by decide
  rw [hstart, build_empty hgenesis hempty]
  rw [latestHeight_rollback] at hn' ⊢
  refine congrArg ok ?_
  beta_reduce
  rw [moveNext_finishBuild hn' (fits_rollback hf k) (by omega) (by omega) rfl rfl,
    show min listMaxLength (min listMaxLength (l.latestHeight - k)) = min listMaxLength (l.latestHeight - k) by omega]
  rfl

end QuotaList

end GoVite.ChainCache

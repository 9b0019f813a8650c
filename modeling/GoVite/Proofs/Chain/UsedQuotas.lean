import GoVite.Sanity.Chain.QuotaWindow

/-! The quota list counts right in every run in which it is never rebuilt from a part of itself. -/

namespace GoVite.ChainCache
open KeyStore Ledger Except QuotaList

namespace QuotaWorld

/-- The counters fit, a reset does not replace the only entry, and a rollback either leaves 75 entries in the list or
empties it on a chain that keeps a snapshot after the genesis snapshot. -/
def Harmless (w : QuotaWorld) (a : QuotaAction) : Prop :=
  (w.ledger.apply a).Fits ∧
    match a with
    | .resetUnconfirmedQuotas _ => 2 ≤ w.ledger.latestHeight
    | .rollback k => usedAccumulateHeight ≤ w.quotas.list.length - 1 - k ∨
        w.quotas.list.length - 1 ≤ k ∧ k + 2 ≤ w.ledger.latestHeight
    | _ => True

/-- The list is the exact one of some length. -/
def Exact (w : QuotaWorld) : Prop :=
  w.ledger.Fits ∧ ∃ n, w.ledger.Length n ∧ n ≤ listMaxLength ∧ w.quotas = .exact w.ledger n

/-- Every harmless step succeeds and leaves an exact list. -/
theorem step_exact {w : QuotaWorld} {a : QuotaAction} (h : w.Exact) (ha : w.ledger.Allows a) (hP : w.Harmless a) :
    ∃ w', w.step a = .ok w' ∧ w'.Exact := by
  obtain ⟨l, q⟩ := w
  obtain ⟨hf, n, hn, hmax, hq⟩ := h
  obtain ⟨hf', hP⟩ := hP
  dsimp only at hf hf' hn hP ha hq
  subst hq
  have hlist : (exact l n).list.length = n := by
    rw [exact, List.length_map, hn.length_recent]
  cases a with
  | add b =>
    refine ⟨_, rfl, hf', n, ⟨hn.genesis, hn.used, hn.le⟩, hmax, ?_⟩
    exact add_exact hf'
  | sub b =>
    refine ⟨_, rfl, hf', n, ⟨hn.genesis, hn.used, hn.le⟩, hmax, ?_⟩
    exact sub_exact hf ha
  | newNext blocks =>
    refine ⟨⟨_, _⟩, congrArg (Except.map _) (newNext_exact hn hmax hf ha), hf', _, ?_, Nat.min_le_left _ _, rfl⟩
    have hused := hn.used
    have hle := hn.le
    have hheight : (l.apply (.newNext blocks)).latestHeight = l.latestHeight + 1 := by
      simp [apply, latestHeight]
    refine ⟨by simp [apply], ?_, ?_⟩
    · simp only [usedAccumulateHeight, listMaxLength] at hused ⊢
      omega
    · rw [hheight]
      omega
  | resetUnconfirmedQuotas blocks =>
    refine ⟨⟨_, _⟩, congrArg (Except.map _) (resetUnconfirmedQuotas_exact hn hf hf' hP), hf', n,
      ⟨hn.genesis, hn.used, hn.le⟩, hmax, rfl⟩
  | rollback k =>
    rw [hlist] at hP
    have hle := hn.le
    have hgenesis := chunks_rollback_ne_nil ha
    obtain hkept | ⟨hnone, hheight⟩ := hP
    · refine ⟨⟨_, _⟩, congrArg (Except.map _) (rollback_exact_of_kept hn hmax hf hkept), hf', n - k,
        ⟨hgenesis, by omega, ?_⟩, by omega, rfl⟩
      change n - k ≤ (l.apply (.rollback k)).latestHeight
      rw [latestHeight_rollback]
      omega
    · refine ⟨⟨_, _⟩, congrArg (Except.map _) (rollback_exact_of_empty hn hmax hf hnone hheight), hf', _,
        ?_, Nat.min_le_left _ _, rfl⟩
      rw [← latestHeight_rollback]
      exact length_longest hgenesis

theorem exact_of_reachable {w : QuotaWorld} (h : Reachable Ledger.Fits Harmless w) : w.Exact := by
  induction h with
  | start hc hQ h =>
    rw [start, init_exact hc hQ] at h
    cases h
    exact ⟨hQ, _, length_longest hc, Nat.min_le_left _ _, rfl⟩
  | step hw ha hP h ih =>
    obtain ⟨w', hw', hexact⟩ := step_exact ih ha hP
    rw [h, ok.injEq] at hw'
    exact hw' ▸ hexact

/-- In every run of harmless steps the entries are the totals of the window, the global quota is their sum without the
unconfirmed entry, no counter has wrapped, and the next harmless step succeeds. -/
theorem quotas_right_unless_rebuilt_in_part {w : QuotaWorld} (h : Reachable Ledger.Fits Harmless w) :
    (∀ addr, w.quotas.getQuotaUsedList addr = w.ledger.window.map fun bs => total (owned addr bs)) ∧
      w.ledger.window.length = min usedAccumulateHeight w.ledger.latestHeight ∧
      w.quotas.getGlobalQuota = (total w.ledger.window.dropLast.flatten, false) ∧
      w.quotas.wrapped = false ∧
      ∀ a, w.ledger.Allows a → w.Harmless a → ∃ w', w.step a = .ok w' := by
  have hexact := exact_of_reachable h
  obtain ⟨hf, n, hn, hmax, hq⟩ := hexact
  refine ⟨fun addr => ?_, ?_, ?_, ?_, fun a ha hP => ?_⟩
  · rw [hq]
    exact getQuotaUsedList_exact hn hf addr
  · rw [← hn.drop_eq_window, List.length_drop, hn.length_recent]
    have hused := hn.used
    have hle := hn.le
    omega
  · rw [hq]
    exact getGlobalQuota_exact hf
  · rw [hq]
    rfl
  · obtain ⟨w', hw', -⟩ := step_exact (exact_of_reachable h) ha hP
    exact ⟨w', hw'⟩

/-- A chain of 80 snapshots whose last two confirm blocks of address 7. -/
def longChain : List (List AccountBlock) := List.replicate 78 [] ++ [[⟨7, 5, 3⟩, ⟨8, 1, 1⟩], [⟨7, 2, 2⟩]]

theorem quotas_right_long_chain : ∃ w, Reachable Ledger.Fits Harmless w ∧ w.ledger = ⟨longChain.dropLast, []⟩ ∧
    w.quotas.getQuotaUsedList 7 = List.replicate 73 ⟨0, 0, 0⟩ ++ [⟨1, 5, 3⟩, ⟨0, 0, 0⟩] ∧
    w.quotas.getGlobalQuota = (⟨2, 6, 4⟩, false) := by
  have hf : (Ledger.mk longChain []).Fits := by
    unfold Ledger.Fits QuotaInfo.Fits
    decide +kernel
  have hn : (Ledger.mk longChain []).Length 80 := ⟨by decide, by decide, by decide⟩
  have hstart : start longChain = .ok ⟨⟨longChain, []⟩, .exact ⟨longChain, []⟩ 80⟩ := by
    rw [start, init_exact (by decide) hf]
    rfl
  have hkept : usedAccumulateHeight ≤ 80 - 1 - 1 := by decide
  have hstep : QuotaWorld.step ⟨⟨longChain, []⟩, .exact ⟨longChain, []⟩ 80⟩ (.rollback 1) =
      .ok ⟨(Ledger.mk longChain []).apply (.rollback 1), .exact ((Ledger.mk longChain []).apply (.rollback 1)) 79⟩ :=
    congrArg (Except.map _) (rollback_exact_of_kept hn (by decide) hf hkept)
  have hallowed : (Ledger.mk longChain []).Allows (.rollback 1) := show 1 < longChain.length by decide
  have hreach := Reachable.step (Reachable.start (P := Harmless) (by decide) hf hstart) hallowed
    ⟨fits_rollback hf 1, .inl (by decide +kernel)⟩ hstep
  obtain ⟨hlist, -, hglobal, -⟩ := quotas_right_unless_rebuilt_in_part hreach
  refine ⟨_, hreach, by decide +kernel, (hlist 7).trans ?_, hglobal.trans ?_⟩ <;> decide +kernel

/-- A chain of three snapshots whose second one confirms a block of address 7: after the third is deleted the second
is read from the chain once more, and the quota of the block counts twice. -/
theorem second_snapshot_counted_twice :
    ((start [[], [⟨7, 5, 3⟩], []] >>= fun w => w.step (.rollback 1)).map fun w =>
      (w.quotas.getQuotaUsedList 7, w.quotas.getGlobalQuota.1, w.ledger.window)) =
    .ok ([⟨1, 5, 3⟩, ⟨1, 5, 3⟩, ⟨0, 0, 0⟩], ⟨2, 10, 6⟩, [[⟨7, 5, 3⟩], []]) := by
  decide +kernel

end QuotaWorld

end GoVite.ChainCache

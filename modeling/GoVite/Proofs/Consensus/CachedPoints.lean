import GoVite.Sanity.Consensus.PointCounts
import Mathlib.Tactic.LinearCombination

/-! Cached points are the points of the current chain: a point is determined by its index and the hash it ends in,
whatever the chain was when it was cached. This needs hours to consist of whole periods. -/

namespace GoVite.Consensus
open KeyStore ExceptRules List Option UpperLevel Nat

variable {c : List Hash}

/-- Points without caches, on a chain that ends before the end of the window. -/
abbrev FreshArray := ℕ → List Hash → Except PointError Point

namespace BlockWorld
variable (W : BlockWorld)

def freshPeriod (j : ℕ) (c : List Hash) : Except PointError Point :=
  if W.window c (W.periodTime j) = [] then .ok (.empty (W.head c))
  else do
    let result ← W.electionIndex c j
    W.genPeriodPoint (W.head c) (W.window c (W.periodTime j)) result

/-- The loop over lower points, each of `k` periods. -/
def freshLoop (lower : FreshArray) (k start : ℕ) : ℕ → List Hash → Point → Except PointError Point
  | 0, _, result => .ok result
  | n + 1, c, result => do
    let p ← lower (start + n) c
    if p.isEmpty then freshLoop lower k start n c result
    else do
      let result ← result.leftAppend p
      freshLoop lower k start n (W.rest c (W.periodTime ((start + n) * k))) result

def freshUpper (l : UpperLevel) (lower : FreshArray) (k i : ℕ) (c : List Hash) : Except PointError Point := do
  let p ← W.freshLoop lower k (i * l.rate W) (l.rate W) c (.empty (W.head c))
  l.addVotes W (W.head c) p

def hourPeriods : ℕ := UpperLevel.hour.rate W

def freshHour : FreshArray := W.freshUpper .hour W.freshPeriod 1

def freshDay : FreshArray := W.freshUpper .day W.freshHour W.hourPeriods

def freshAt : PointLevel → FreshArray
  | .period => W.freshPeriod
  | .upper .hour => W.freshHour
  | .upper .day => W.freshDay

/-- What is known of the points of windows of `k` periods. -/
structure FreshSpec (k : ℕ) (fresh : FreshArray) : Prop where
  nil : ∀ {i c}, Linked W c → W.rest c (W.periodTime ((i + 1) * k)) = c → W.window c (W.periodTime (i * k)) = [] →
    fresh i c = .ok (.empty (W.head c))
  describes : ∀ {i c p}, Linked W c → W.rest c (W.periodTime ((i + 1) * k)) = c → fresh i c = .ok p →
    Describes W c (i * k) ((i + 1) * k) p
  total : (∀ h, W.elect h ≠ none) → (∀ h, W.dayVotes h ≠ none) →
    ∀ {i c}, Linked W c → W.rest c (W.periodTime ((i + 1) * k)) = c → ∃ p, fresh i c = .ok p

variable {W} {t : ℤ}

theorem head?_window (hne : W.window c t ≠ []) : (W.window c t).head? = some (W.head c) := by
  have happend := window_append_rest (W := W) c t
  obtain ⟨a, w, haw⟩ := exists_cons_of_ne_nil hne
  rw [haw] at happend ⊢
  rw [← happend]
  rfl

theorem genPeriodPoint_window (hc : Linked W c) (hne : W.window c t ≠ []) (result : ElectionResult) :
    W.genPeriodPoint (W.head c) (W.window c t) result =
      .ok ⟨W.head (W.rest c t), W.head c, countPlans result.plans (W.countBlocks (W.window c t) .empty), none⟩ := by
  obtain ⟨last, hlast⟩ := ne_none_iff_exists'.1 (mt getLast?_eq_none_iff.1 hne)
  unfold genPeriodPoint
  rw [head?_window hne, hlast]
  simp only [ne_eq, not_true_eq_false, if_false, hc.prevHash_getLast hlast]

theorem freshPeriod_spec : FreshSpec W 1 W.freshPeriod where
  nil {i c} _ _ hnil := by
    rw [mul_one] at hnil
    exact if_pos hnil
  describes {i c p} hc hbefore hp := by
    rw [mul_one] at hbefore ⊢
    rw [mul_one]
    unfold freshPeriod at hp
    by_cases hnil : W.window c (W.periodTime i) = []
    · rw [if_pos hnil] at hp
      cases hp
      exact (Describes.start hbefore).skip (le_succ i) le_rfl (by rw [hbefore]; exact hnil)
    · rw [if_neg hnil] at hp
      obtain ⟨result, hresult, hp⟩ := bind_ok hp
      rw [genPeriodPoint_window hc hnil] at hp
      cases hp
      refine ⟨rfl, rfl, fun a => ?_, fun a => ?_, fun h => absurd h hnil⟩
      · rw [countPlans_getD, countBlocks_getD]
        simp [Content.merge, Store.getD]
      · rw [countPlans_getD, countBlocks_getD, Nat.Ico_succ_singleton, Finset.sum_singleton, expectedIn, hbefore,
          if_neg hnil, plansOf, hresult]
        simp [Content.merge, Store.getD]
  total helect _ {i c} hc _ := by
    unfold freshPeriod
    by_cases hnil : W.window c (W.periodTime i) = []
    · rw [if_pos hnil]
      exact ⟨_, rfl⟩
    · rw [if_neg hnil]
      unfold electionIndex
      rw [getSnapshotHeaderBeforeTime_eq hc (genesisTime_lt_genProofTime i)]
      obtain ⟨members, hmembers⟩ := ne_none_iff_exists'.1 (helect (W.head (W.rest c (W.genProofTime i))))
      simp only [hmembers]
      exact ⟨_, genPeriodPoint_window hc hnil _⟩

variable {p : Point} {i : ℕ} {lower : FreshArray} (l : UpperLevel) {k : ℕ}

section Upper
variable {start n : ℕ}

theorem freshLoop_nil (hlower : FreshSpec W k lower) (hc : Linked W c) (result : Point)
    (hbefore : W.rest c (W.periodTime ((start + n) * k)) = c) (hnil : W.window c (W.periodTime (start * k)) = []) :
    W.freshLoop lower k start n c result = .ok result := by
  induction n with
  | zero => rfl
  | succ n ih =>
    have hle : W.periodTime (start * k) ≤ W.periodTime ((start + n) * k) :=
      periodTime_mono (mul_le_mul_right k (le_add_right start n))
    have hnil' : W.window c (W.periodTime ((start + n) * k)) = [] := window_nil_of_le hle hnil
    have hempty : (Point.empty (W.head c)).isEmpty := by simp [Point.isEmpty, Point.empty]
    unfold freshLoop
    rw [hlower.nil (i := start + n) hc hbefore hnil']
    exact (if_pos hempty).trans (ih (rest_eq_of_window_nil hnil'))

variable {m : ℕ} {result : Point}

section
variable (hlower : FreshSpec W k lower) (hc : Linked W c)
include hlower hc

/-- An empty point is passed over, and any other is put before the result. -/
theorem freshLoop_step {q : Point} (hend : (start + (n + 1)) * k ≤ m)
    (hresult : Describes W c ((start + (n + 1)) * k) m result)
    (hq : lower (start + n) (W.rest c (W.periodTime ((start + (n + 1)) * k))) = .ok q) :
    ∃ result', Describes W c ((start + n) * k) m result' ∧
      W.freshLoop lower k start (n + 1) (W.rest c (W.periodTime ((start + (n + 1)) * k))) result =
        W.freshLoop lower k start n (W.rest c (W.periodTime ((start + n) * k))) result' := by
  have hstep : (start + n) * k ≤ (start + (n + 1)) * k := mul_le_mul_right k (by omega)
  have hd := hc.rest (W.periodTime ((start + (n + 1)) * k))
  have hdesc := hlower.describes (i := start + n) hd (rest_rest le_rfl) hq
  have hrest := rest_rest (W := W) (c := c) (periodTime_mono (W := W) hstep)
  rw [freshLoop, hq, hrest]
  by_cases hempty : q.isEmpty
  · have hnil := (hdesc.isEmpty_iff hd).1 hempty
    rw [← hrest, rest_eq_of_window_nil hnil]
    exact ⟨result, hresult.skip hstep hend hnil, if_pos hempty⟩
  · obtain ⟨p', hp', hdesc'⟩ := hresult.leftAppend hc hstep hend hdesc (fun h => hempty ((hdesc.isEmpty_iff hd).2 h))
    refine ⟨p', hdesc', (if_neg hempty).trans ?_⟩
    rw [hp']
    rfl

theorem freshLoop_describes (hend : (start + n) * k ≤ m) (hresult : Describes W c ((start + n) * k) m result)
    (hp : W.freshLoop lower k start n (W.rest c (W.periodTime ((start + n) * k))) result = .ok p) :
    Describes W c (start * k) m p := by
  induction n generalizing result with
  | zero =>
    cases hp
    exact hresult
  | succ n ih =>
    obtain ⟨q, hq, -⟩ := bind_ok hp
    obtain ⟨result', hresult', heq⟩ := freshLoop_step hlower hc hend hresult hq
    exact ih ((mul_le_mul_right k (by omega)).trans hend) hresult' (heq ▸ hp)

theorem freshLoop_total (helect : ∀ h, W.elect h ≠ none) (hvotes : ∀ h, W.dayVotes h ≠ none) (start n : ℕ)
    (hend : (start + n) * k ≤ m) (hresult : Describes W c ((start + n) * k) m result) :
    ∃ p, W.freshLoop lower k start n (W.rest c (W.periodTime ((start + n) * k))) result = .ok p := by
  induction n generalizing result with
  | zero => exact ⟨result, rfl⟩
  | succ n ih =>
    obtain ⟨q, hq⟩ := hlower.total helect hvotes (hc.rest _) (rest_rest le_rfl)
    obtain ⟨result', hresult', heq⟩ := freshLoop_step hlower hc hend hresult hq
    rw [heq]
    exact ih ((mul_le_mul_right k (by omega)).trans hend) hresult'

end

theorem addVotes_describes (hc : Linked W c) {q : Point}
    (hp : Describes W c i m p) (hq : l.addVotes W (W.head c) p = .ok q) : Describes W c i m q := by
  cases l with
  | hour =>
    cases hq
    exact hp
  | day =>
    unfold addVotes at hq
    by_cases hempty : p.isEmpty
    · rw [if_pos hempty] at hq
      cases hq
      exact hp
    · rw [if_neg hempty] at hq
      cases hvotes : W.dayVotes (W.head c) with
      | none =>
        rw [hvotes] at hq
        cases hq
      | some votes =>
        rw [hvotes] at hq
        cases hq
        exact ⟨hp.hash, hp.prevHash, hp.factual, hp.expected, fun h => absurd ((hp.isEmpty_iff hc).2 h) hempty⟩

theorem addVotes_empty (h : Hash) : l.addVotes W h (.empty h) = .ok (.empty h) := by
  cases l with
  | hour => rfl
  | day => exact if_pos (by simp [Point.isEmpty, Point.empty])

theorem addVotes_total (hvotes : ∀ h, W.dayVotes h ≠ none) (h : Hash) (p : Point) : ∃ q, l.addVotes W h p = .ok q := by
  cases l with
  | hour => exact ⟨p, rfl⟩
  | day =>
    unfold addVotes
    obtain ⟨votes, hv⟩ := ne_none_iff_exists'.1 (hvotes h)
    by_cases hempty : p.isEmpty
    · exact ⟨p, if_pos hempty⟩
    · rw [if_neg hempty, hv]
      exact ⟨_, rfl⟩

theorem upper_end (i rate k : ℕ) : (i * rate + rate) * k = (i + 1) * (rate * k) := by ring

theorem freshUpper_spec (hlower : FreshSpec W k lower) : FreshSpec W (l.rate W * k) (W.freshUpper l lower k) where
  nil {i c} hc hbefore hnil := by
    unfold freshUpper
    rw [freshLoop_nil hlower hc _ (by rw [upper_end]; exact hbefore) (by rw [mul_assoc]; exact hnil)]
    exact addVotes_empty l _
  describes {i c p} hc hbefore hp := by
    obtain ⟨q, hq, hp⟩ := bind_ok hp
    rw [← upper_end, ← mul_assoc] at *
    have hdesc := freshLoop_describes hlower hc le_rfl (Describes.start hbefore) (by rw [hbefore]; exact hq)
    exact addVotes_describes l hc hdesc hp
  total helect hvotes {i c} hc hbefore := by
    rw [← upper_end] at hbefore
    obtain ⟨q, hq⟩ := freshLoop_total hlower hc helect hvotes (i * l.rate W) (l.rate W) le_rfl (Describes.start hbefore)
    rw [hbefore] at hq
    exact bind_total hq (addVotes_total l hvotes _ q)

end Upper

theorem freshHour_spec : FreshSpec W W.hourPeriods W.freshHour := by
  have := freshUpper_spec .hour (freshPeriod_spec (W := W))
  rwa [mul_one] at this

theorem freshDay_spec : FreshSpec W (24 * W.hourPeriods) W.freshDay := freshUpper_spec .day freshHour_spec

/-! Caches. -/

/-- The point is the one of every chain that ends in its hash. -/
def Sound (W : BlockWorld) (fresh : List Hash → Except PointError Point) (p : Point) : Prop :=
  ∀ c, Linked W c → W.head c = p.hash → fresh c = .ok p

structure CacheInv (W : BlockWorld) (s : PointCaches) : Prop where
  periods : ∀ i p, s.periods i = some p → Sound W (W.freshPeriod i) p
  hours : ∀ i p, s.hours i = some p → Sound W (W.freshHour i) p
  days : ∀ i p, s.days i = some p → Sound W (W.freshDay i) p

theorem CacheInv.new : CacheInv W .new := by
  refine ⟨?_, ?_, ?_⟩ <;> intro i p h <;> cases h

/-- A point found on one chain is the point of every chain with its hash. -/
theorem sound_of_fresh {fresh : List Hash → Except PointError Point} (hc : Linked W c)
    (hp : fresh c = .ok p) (hhash : p.hash = W.head c) : Sound W fresh p := by
  intro d hd hhead
  have heq : d = c := hd.unique hc (by rw [hd.head?_eq, hc.head?_eq, hhead, hhash])
  rw [heq]
  exact hp

/-- An array of sound points stays one if a sound point is put into it. -/
theorem sound_update {points : ℕ → Option Point} {fresh : FreshArray} {q : Option Point}
    (hpoints : ∀ j r, points j = some r → Sound W (fresh j) r) (hq : ∀ r, q = some r → Sound W (fresh i) r) :
    ∀ j r, Function.update points i q j = some r → Sound W (fresh j) r := by
  intro j r hr
  rw [Function.update_apply] at hr
  by_cases hj : j = i
  · rw [if_pos hj] at hr
    rw [hj]
    exact hq r hr
  · rw [if_neg hj] at hr
    exact hpoints j r hr

/-- The array answers, for the windows between the times given, with the points of the chain. -/
def Serves (W : BlockWorld) (c : List Hash) (k : ℕ) (get : LinkedArray) (fresh : FreshArray) : Prop :=
  ∀ s i, CacheInv W s → ∃ s', CacheInv W s' ∧
    get s i (W.head (W.rest c (W.periodTime ((i + 1) * k)))) = (fresh i (W.rest c (W.periodTime ((i + 1) * k))), s')

theorem timestamp_head_rest (hc : Linked W c) (ht : W.group.genesisTime < t) :
    W.timestamp (W.head (W.rest c t)) < t := by
  have hfind := getSnapshotHeaderBeforeTime_eq hc ht
  simpa using find?_some hfind

theorem window_eq_nil_of_lt (hc : Linked W c) (ht : W.timestamp (W.head c) < t) : W.window c t = [] := by
  obtain ⟨a, d, rfl⟩ := exists_cons_of_ne_nil hc.ne_nil
  exact takeWhile_cons_of_neg (by simp only [decide_eq_true_eq]; exact fun h => absurd h.1 (not_le.2 ht))

theorem genesisTime_lt_of_pos (hn : 0 < i) : W.group.genesisTime < W.periodTime i := by
  obtain ⟨n, rfl⟩ := exists_eq_succ_of_ne_zero hn.ne'
  exact genesisTime_lt n

variable {stime etime : ℤ}

theorem proofEmpty_eq (hc : Linked W c) (ht : W.group.genesisTime < etime) :
    W.proofEmpty c stime etime = .ok (W.timestamp (W.head (W.rest c etime)) < stime) := by
  unfold proofEmpty
  rw [getSnapshotHeaderBeforeTime_eq hc ht]
  exact if_pos (timestamp_head_rest hc ht)

/-! The period array. -/

theorem getByIndexWithProofFromChain_eq (hc : Linked W c) (j : ℕ) :
    W.getByIndexWithProofFromChain c j (W.head (W.rest c (W.periodTime (j + 1)))) =
      W.freshPeriod j (W.rest c (W.periodTime (j + 1))) := by
  have hd := hc.rest (W.periodTime (j + 1))
  have hmem : W.head (W.rest c (W.periodTime (j + 1))) ∈ c := (rest_suffix c _).subset hd.head_mem
  have hheaders : W.getSnapshotHeadersAfterOrEqualTime c (W.head (W.rest c (W.periodTime (j + 1))))
      (W.group.timeIndex.index2Time j).1 = W.window (W.rest c (W.periodTime (j + 1))) (W.periodTime j) :=
    getSnapshotHeaders_window hc (genesisTime_le j) (periodTime_mono (le_succ j))
  unfold getByIndexWithProofFromChain freshPeriod
  simp only [if_neg (not_not.2 hmem), hheaders, electionIndex_rest hc le_rfl]
  by_cases hlt : W.timestamp (W.head (W.rest c (W.periodTime (j + 1)))) < (W.group.timeIndex.index2Time j).1
  · have hnil : W.window (W.rest c (W.periodTime (j + 1))) (W.periodTime j) = [] := window_eq_nil_of_lt hd hlt
    rw [if_pos hlt, if_pos hnil]
  · rw [if_neg hlt]

variable {s : PointCaches}

theorem loadPeriod_serves (hc : Linked W c) (hs : CacheInv W s) (j : ℕ) :
    ∃ s', CacheInv W s' ∧ W.loadPeriod c s j (W.head (W.rest c (W.periodTime (j + 1)))) =
      (W.freshPeriod j (W.rest c (W.periodTime (j + 1))), s') := by
  have hd := hc.rest (W.periodTime (j + 1))
  unfold loadPeriod
  rw [getByIndexWithProofFromChain_eq hc]
  cases hfresh : W.freshPeriod j (W.rest c (W.periodTime (j + 1))) with
  | error e => exact ⟨s, hs, rfl⟩
  | ok p =>
    have hdesc := freshPeriod_spec.describes hd (by rw [mul_one]; exact rest_rest le_rfl) hfresh
    refine ⟨{ s with periods := Function.update s.periods j (some p) },
      ⟨sound_update hs.periods ?_, hs.hours, hs.days⟩, rfl⟩
    rintro _ ⟨⟩
    exact sound_of_fresh hd hfresh hdesc.hash

theorem getPeriod_serves (hc : Linked W c) : Serves W c 1 (W.getPeriod c) W.freshPeriod := by
  intro s j hs
  rw [mul_one]
  have hd := hc.rest (W.periodTime (j + 1))
  set d := W.rest c (W.periodTime (j + 1)) with hddef
  unfold getPeriod
  by_cases hgenesis : W.head d = W.genesis
  · rw [if_pos hgenesis]
    refine ⟨s, hs, ?_⟩
    have hsingle : d = [W.genesis] := hd.eq_singleton (by rw [hd.head?_eq, hgenesis])
    have hnil : W.window d (W.periodTime j) = [] := by
      rw [hsingle]
      exact takeWhile_cons_of_neg (by simp)
    rw [freshPeriod, if_pos hnil]
  · rw [if_neg hgenesis]
    cases hcached : s.periods j with
    | some p =>
      dsimp only
      by_cases hhash : W.head d = p.hash
      · rw [if_pos hhash, hs.periods j p hcached d hd hhash]
        exact ⟨s, hs, rfl⟩
      · rw [if_neg hhash]
        exact loadPeriod_serves hc hs j
    | none =>
      simp only [index2Time_period, proofEmpty_eq hc (genesisTime_lt j)]
      by_cases hlt : W.timestamp (W.head d) < W.periodTime j
      · simp only [← hddef, hlt, decide_true]
        refine ⟨s, hs, ?_⟩
        rw [freshPeriod, if_pos (window_eq_nil_of_lt hd hlt)]
      · simp only [← hddef, hlt]
        exact loadPeriod_serves hc hs j

/-! The arrays over it. -/

section UpperCaches
variable {get : LinkedArray}

/-- The loop asks for the points that the loop without caches computes. -/
theorem kernelLoop_serves (hc : Linked W c) (hlower : FreshSpec W k lower) (hget : Serves W c k get lower)
    (hs : CacheInv W s) (start n : ℕ) (result : Point) :
    ∃ s', CacheInv W s' ∧ kernelLoop get start n s (W.head (W.rest c (W.periodTime ((start + n) * k)))) result =
      (W.freshLoop lower k start n (W.rest c (W.periodTime ((start + n) * k))) result, s') := by
  induction n generalizing s result with
  | zero => exact ⟨s, hs, rfl⟩
  | succ n ih =>
    have hd := hc.rest (W.periodTime ((start + (n + 1)) * k))
    have hstep : (start + n) * k ≤ (start + (n + 1)) * k := mul_le_mul_right k (by omega)
    have hrest := rest_rest (W := W) (c := c) (periodTime_mono (W := W) hstep)
    obtain ⟨s₁, hs₁, hask⟩ := hget s (start + n) hs
    unfold kernelLoop freshLoop
    rw [add_assoc] at hask
    rw [hask]
    cases hfresh : lower (start + n) (W.rest c (W.periodTime ((start + (n + 1)) * k))) with
    | error e => exact ⟨s₁, hs₁, rfl⟩
    | ok p =>
      have hdesc := hlower.describes (i := start + n) hd (rest_rest le_rfl) hfresh
      simp only [bind, Except.bind]
      by_cases hempty : p.isEmpty
      · have hsame := rest_eq_of_window_nil ((hdesc.isEmpty_iff hd).1 hempty)
        rw [hrest] at hsame
        rw [if_pos hempty, if_pos hempty, ← hsame]
        exact ih hs₁ result
      · rw [if_neg hempty, if_neg hempty]
        cases result.leftAppend p with
        | error e => exact ⟨s₁, hs₁, rfl⟩
        | ok result' =>
          rw [hdesc.prevHash, hrest]
          exact ih hs₁ result'

theorem CacheInv.stored (hs : CacheInv W s) (l : UpperLevel)
    (h : l.stored s i = some p) : Sound W (W.freshAt (.upper l) i) p := by
  cases l with
  | hour => exact hs.hours i p h
  | day => exact hs.days i p h

theorem CacheInv.store_fresh (hs : CacheInv W s) (l : UpperLevel) (i : ℕ) {p : Option Point}
    (h : ∀ q, p = some q → Sound W (W.freshAt (.upper l) i) q) : CacheInv W (l.store s i p) := by
  cases l with
  | hour => exact ⟨hs.periods, sound_update hs.hours h, hs.days⟩
  | day => exact ⟨hs.periods, hs.hours, sound_update hs.days h⟩

variable (hc : Linked W c) (hlower : FreshSpec W k lower) (hget : Serves W c k get lower)
  (hfresh : W.freshAt (.upper l) = W.freshUpper l lower k)
include hc hlower hget hfresh

theorem loadUpper_serves (hs : CacheInv W s) (i : ℕ) : ∃ s', CacheInv W s' ∧
      W.loadUpper l get s i (W.head (W.rest c (W.periodTime ((i + 1) * (l.rate W * k))))) =
        (W.freshUpper l lower k i (W.rest c (W.periodTime ((i + 1) * (l.rate W * k)))), s') := by
  have hd := hc.rest (W.periodTime ((i + 1) * (l.rate W * k)))
  have hspec := freshUpper_spec l hlower
  have hbefore := rest_rest (W := W) (c := c) (le_refl (W.periodTime ((i + 1) * (l.rate W * k))))
  obtain ⟨s₁, hs₁, hloop⟩ := kernelLoop_serves hc hlower hget hs (i * l.rate W) (l.rate W)
    (.empty (W.head (W.rest c (W.periodTime ((i + 1) * (l.rate W * k))))))
  rw [upper_end] at hloop
  set d := W.rest c (W.periodTime ((i + 1) * (l.rate W * k))) with hddef
  unfold loadUpper
  rw [hloop]
  cases hp : W.freshLoop lower k (i * l.rate W) (l.rate W) d (.empty (W.head d)) with
  | error e =>
    refine ⟨s₁, hs₁, ?_⟩
    unfold freshUpper
    rw [hp]
    rfl
  | ok p =>
    have hupper : W.freshUpper l lower k i d = l.addVotes W (W.head d) p := by
      unfold freshUpper
      rw [hp]
      rfl
    dsimp only
    rw [hupper]
    cases hq : l.addVotes W (W.head d) p with
    | error e => exact ⟨s₁, hs₁, rfl⟩
    | ok q =>
      rw [hq] at hupper
      have hsound : Sound W (W.freshAt (.upper l) i) q := by
        rw [hfresh]
        exact sound_of_fresh hd hupper (hspec.describes hd hbefore hupper).hash
      refine ⟨_, hs₁.store_fresh l i ?_, rfl⟩
      intro r hr
      split at hr
      · cases hr
      · cases hr
        exact hsound

theorem getUpper_serves (htimes : ∀ i, (l.timeIndex W).index2Time i =
      (W.periodTime (i * (l.rate W * k)), W.periodTime ((i + 1) * (l.rate W * k))))
    (hpos : 0 < l.rate W * k) : Serves W c (l.rate W * k) (W.getUpper l get c) (W.freshUpper l lower k) := by
  intro s i hs
  have hd := hc.rest (W.periodTime ((i + 1) * (l.rate W * k)))
  have hload := loadUpper_serves l hc hlower hget hfresh hs i
  unfold getUpper
  cases hstored : l.stored s i with
  | some p =>
    dsimp only
    by_cases hhash : W.head (W.rest c (W.periodTime ((i + 1) * (l.rate W * k)))) = p.hash
    · have hsound := hs.stored l hstored
      rw [hfresh] at hsound
      rw [if_pos hhash, hsound _ hd hhash]
      exact ⟨s, hs, rfl⟩
    · rw [if_neg hhash]
      exact hload
  | none =>
    simp only [htimes, proofEmpty_eq hc (genesisTime_lt_of_pos (mul_pos (succ_pos i) hpos))]
    by_cases hlt : W.timestamp (W.head (W.rest c (W.periodTime ((i + 1) * (l.rate W * k))))) <
        W.periodTime (i * (l.rate W * k))
    · simp only [hlt, decide_true]
      refine ⟨s, hs, ?_⟩
      rw [(freshUpper_spec l hlower).nil hd (rest_rest le_rfl) (window_eq_nil_of_lt hd hlt)]
    · simp only [hlt]
      exact hload

end UpperCaches

/-! Hours of whole periods. -/

/-- An hour is a number of whole periods. -/
def Aligned (W : BlockWorld) : Prop := W.group.planInterval ∣ 3600

theorem Aligned.hourPeriods_mul (h : W.Aligned) : W.hourPeriods * W.group.planInterval = 3600 := by
  obtain ⟨n, hn⟩ := h
  have hrate : W.hourPeriods = n := by
    simp only [hourPeriods, rate, hourInterval]
    have hcast : (3600 : ℤ) * second = (second * W.group.planInterval) * n := by
      rw [mul_assoc, mul_comm]
      exact congrArg (second * ·) (by exact_mod_cast hn)
    have hpos : second * (W.group.planInterval : ℤ) ≠ 0 :=
      (mul_pos second_pos (by exact_mod_cast W.planInterval_pos)).ne'
    rw [hcast, Int.mul_ediv_cancel_left _ hpos]
    rfl
  rw [hrate, mul_comm]
  exact hn.symm

theorem Aligned.hourPeriods_pos (h : W.Aligned) : 0 < W.hourPeriods :=
  Nat.pos_of_mul_pos_right (by rw [h.hourPeriods_mul]; norm_num)

theorem Aligned.periodTime_hours (h : W.Aligned) (n : ℕ) :
    W.periodTime (n * W.hourPeriods) = W.group.genesisTime + hourInterval * n := by
  have hmul : ((W.hourPeriods * W.group.planInterval : ℕ) : ℤ) = 3600 := by rw [h.hourPeriods_mul]; rfl
  push_cast at hmul
  simp only [periodTime, TimeIndex.index2Time, GroupInfo.timeIndex, hourInterval]
  push_cast
  linear_combination (second * n) * hmul

def periodsOf (W : BlockWorld) : PointLevel → ℕ
  | .period => 1
  | .upper .hour => W.hourPeriods
  | .upper .day => 24 * W.hourPeriods

theorem Aligned.index2Time (h : W.Aligned) (l : PointLevel) (i : ℕ) :
    (l.timeIndex W).index2Time i = (W.periodTime (i * W.periodsOf l), W.periodTime ((i + 1) * W.periodsOf l)) := by
  rcases l with _ | l | l
  · simp only [periodsOf, mul_one]
    rfl
  · simp only [periodsOf, h.periodTime_hours]
    rfl
  · simp only [periodsOf, ← mul_assoc, h.periodTime_hours]
    simp only [PointLevel.timeIndex, timeIndex, TimeIndex.index2Time]
    push_cast
    congr 1 <;> ring

theorem Aligned.periodsOf_pos (h : W.Aligned) (l : PointLevel) : 0 < W.periodsOf l := by
  have := h.hourPeriods_pos
  rcases l with _ | l | l
  · exact one_pos
  · exact this
  · exact mul_pos (by norm_num) this

theorem freshAt_spec (l : PointLevel) : FreshSpec W (W.periodsOf l) (W.freshAt l) := by
  rcases l with _ | l | l
  · exact freshPeriod_spec
  · exact freshHour_spec
  · exact freshDay_spec

theorem Aligned.getHour_serves (h : W.Aligned) (hc : Linked W c) :
    Serves W c W.hourPeriods (W.getHour c) W.freshHour := by
  have htimes : ∀ i, (UpperLevel.hour.timeIndex W).index2Time i =
      (W.periodTime (i * (UpperLevel.hour.rate W * 1)), W.periodTime ((i + 1) * (UpperLevel.hour.rate W * 1))) := by
    intro i
    rw [mul_one]
    exact h.index2Time (.upper .hour) i
  have hserves := getUpper_serves .hour hc freshPeriod_spec (getPeriod_serves hc) rfl htimes
    (by rw [mul_one]; exact h.hourPeriods_pos)
  rw [mul_one] at hserves
  exact hserves

theorem Aligned.serves (h : W.Aligned) (hc : Linked W c) (l : PointLevel) :
    Serves W c (W.periodsOf l) (l.getByIndexWithProof W c) (W.freshAt l) := by
  rcases l with _ | l | l
  · exact getPeriod_serves hc
  · exact h.getHour_serves hc
  · exact getUpper_serves .day hc freshHour_spec (h.getHour_serves hc) rfl (h.index2Time (.upper .day))
      (h.periodsOf_pos (.upper .day))

/-- The blocks before the end of a window. -/
def upTo (W : BlockWorld) (c : List Hash) (l : PointLevel) (i : ℕ) : List Hash :=
  W.rest c (W.periodTime ((i + 1) * W.periodsOf l))

variable (h : W.Aligned) (hc : Linked W c)
include h hc

theorem Aligned.proofHash_eq (l : PointLevel) (i : ℕ) : l.proofHash W c i = .ok (W.head (W.upTo c l i)) := by
  unfold PointLevel.proofHash
  rw [h.index2Time, getSnapshotHeaderBeforeTime_eq hc (genesisTime_lt_of_pos (mul_pos (succ_pos i) (h.periodsOf_pos l)))]
  rfl

theorem Aligned.getByIndex_eq (hs : CacheInv W s) (l : PointLevel) (i : ℕ) :
    ∃ s', CacheInv W s' ∧ l.getByIndex W c s i = (W.freshAt l i (W.upTo c l i), s') := by
  unfold PointLevel.getByIndex
  rw [h.proofHash_eq hc]
  exact h.serves hc l s i hs

theorem Aligned.getByIndexWithProof_eq
    (hs : CacheInv W s) {l : PointLevel} {proofHash : Hash} (hproof : l.proofHash W c i = .ok proofHash) :
    ∃ s', CacheInv W s' ∧ l.getByIndexWithProof W c s i proofHash = (W.freshAt l i (W.upTo c l i), s') := by
  rw [h.proofHash_eq hc] at hproof
  cases hproof
  exact h.serves hc l s i hs

end BlockWorld

/-! Runs. -/

open BlockWorld

structure PointInv (W : BlockWorld) (st : PointState) : Prop where
  linked : Linked W st.chain
  caches : CacheInv W st.caches

theorem PointInv.init (W : BlockWorld) : PointInv W (.init W) :=
  ⟨⟨isChain_singleton _, rfl⟩, CacheInv.new⟩

variable {st : PointState}

theorem PointInv.step {W : BlockWorld} (hW : W.Aligned) (h : PointInv W st) {a : PointAction}
    (ha : st.Allowed W a) : PointInv W (st.step W a) := by
  cases a with
  | append b =>
    obtain ⟨head, rest, hchain, hfollows⟩ := ha
    exact ⟨h.linked.cons hchain hfollows, h.caches⟩
  | rollback n =>
    refine ⟨h.linked.suffix (drop_suffix n _) ?_, h.caches⟩
    intro hnil
    exact absurd (drop_eq_nil_iff.1 hnil) (not_le.2 ha)
  | getByIndex l i =>
    obtain ⟨s', hs', heq⟩ := hW.getByIndex_eq h.linked h.caches l i
    refine ⟨h.linked, ?_⟩
    simp only [PointState.step, heq]
    exact hs'
  | getByIndexWithProof l i proofHash =>
    obtain ⟨s', hs', heq⟩ := hW.getByIndexWithProof_eq h.linked h.caches ha
    refine ⟨h.linked, ?_⟩
    simp only [PointState.step, heq]
    exact hs'
  | evict keep =>
    refine ⟨h.linked, ?_, h.caches.hours, h.caches.days⟩
    intro i p hp
    simp only [PointState.step] at hp
    split at hp
    · exact h.caches.periods i p hp
    · cases hp

theorem PointInv.reachable {W : BlockWorld} (hW : W.Aligned) (h : st.Reachable W) : PointInv W st := by
  induction h with
  | init => exact PointInv.init W
  | step _ ha ih => exact ih.step hW ha

/-- A query answers as it would with empty caches; its point describes the window on the current chain. -/
structure AnswersFresh (W : BlockWorld) (st : PointState) (l : PointLevel) (i : ℕ) : Prop where
  fresh : (l.getByIndex W st.chain st.caches i).1 = (l.getByIndex W st.chain .new i).1
  withProof : ∀ proofHash, l.proofHash W st.chain i = .ok proofHash →
    (l.getByIndexWithProof W st.chain st.caches i proofHash).1 =
      (l.getByIndexWithProof W st.chain .new i proofHash).1 ∧
    (l.getByIndexWithProof W st.chain st.caches i proofHash).1 = (l.getByIndex W st.chain st.caches i).1
  point : ∀ p, (l.getByIndex W st.chain st.caches i).1 = .ok p →
    l.proofHash W st.chain i = .ok p.hash ∧
    Describes W (W.upTo st.chain l i) (i * W.periodsOf l) ((i + 1) * W.periodsOf l) p ∧
    (∀ first, (W.window (W.upTo st.chain l i) (W.periodTime (i * W.periodsOf l))).getLast? = some first →
      p.prevHash = W.prevHash first)
  returned : (∀ h, W.elect h ≠ none) → (∀ h, W.dayVotes h ≠ none) →
    ∃ p, (l.getByIndex W st.chain st.caches i).1 = .ok p

theorem cached_points_are_fresh (W : BlockWorld) (hW : W.Aligned) (st : PointState) (hst : st.Reachable W)
    (l : PointLevel) (i : ℕ) : AnswersFresh W st l i := by
  have hinv := PointInv.reachable hW hst
  have hd : Linked W (W.upTo st.chain l i) := hinv.linked.rest _
  have hbefore : W.rest (W.upTo st.chain l i) (W.periodTime ((i + 1) * W.periodsOf l)) = W.upTo st.chain l i :=
    rest_rest le_rfl
  obtain ⟨s₁, -, hcached⟩ := hW.getByIndex_eq hinv.linked hinv.caches l i
  obtain ⟨s₂, -, hfresh⟩ := hW.getByIndex_eq hinv.linked CacheInv.new l i
  refine ⟨by rw [hcached, hfresh], ?_, ?_, ?_⟩
  · intro proofHash hproof
    obtain ⟨s₃, -, hcached'⟩ := hW.getByIndexWithProof_eq hinv.linked hinv.caches hproof
    obtain ⟨s₄, -, hfresh'⟩ := hW.getByIndexWithProof_eq hinv.linked CacheInv.new hproof
    rw [hcached', hfresh', hcached]
    exact ⟨rfl, rfl⟩
  · intro p hp
    rw [hcached] at hp
    have hdesc := (freshAt_spec l).describes hd hbefore hp
    refine ⟨by rw [hW.proofHash_eq hinv.linked, hdesc.hash], hdesc, ?_⟩
    intro first hfirst
    rw [hdesc.prevHash, hd.prevHash_getLast hfirst]
  · intro helect hvotes
    rw [hcached]
    exact (freshAt_spec l).total helect hvotes hd hbefore

/-! A period that does not divide the hour. -/

/-- Three blocks: genesis, and two that follow it at 3000 and 5000 seconds. -/
def threeBlocks (interval : ℕ) (hpos : 0 < interval) : BlockWorld where
  prevHash _ := 0
  height h := if h = 0 then 1 else 2
  timestamp h := if h = 0 then 0 else if h = 1 then 3000 * second else 5000 * second
  producer h := h
  genesis := 0
  group := ⟨0, 1, interval, 1, 1, 0, 1, 1⟩
  elect _ := some [7]
  dayVotes _ := some ⟨[], 0⟩
  genesis_time := rfl
  planInterval_pos := by simpa [GroupInfo.planInterval] using hpos

def fortyMinutes : BlockWorld := threeBlocks 2400 (by norm_num)

variable {interval : ℕ} {hpos : 0 < interval}

/-- A point is asked for before the block after genesis is replaced by a later one. -/
def forkedState (W : BlockWorld) (l : PointLevel) (i : ℕ) : PointState :=
  ((((PointState.init W).step W (.append 1)).step W (.getByIndex l i)).step W (.rollback 1)).step W (.append 2)

theorem forkedState_reachable (l : PointLevel) (i : ℕ) :
    (forkedState (threeBlocks interval hpos) l i).Reachable (threeBlocks interval hpos) := by
  refine .step (.step (.step (.step .init ?_) ?_) ?_) ?_
  · exact ⟨0, [], rfl, rfl, rfl, show 0 < 3000 * second by decide⟩
  · trivial
  · exact show 1 < 2 by decide
  · exact ⟨0, [], rfl, rfl, rfl, show 0 < 5000 * second by decide⟩

def emptyAnswer (r : Except PointError Point) : Option Bool := r.toOption.map (·.isEmpty)

def stalePeriod : PointState := forkedState fortyMinutes .period 1

theorem stale_period_changes_hour : stalePeriod.Reachable fortyMinutes ∧
      emptyAnswer (PointLevel.getByIndex fortyMinutes stalePeriod.chain (.upper .hour) stalePeriod.caches 1).1 = some false ∧
      emptyAnswer (PointLevel.getByIndex fortyMinutes stalePeriod.chain (.upper .hour) .new 1).1 = some true ∧
      ¬AnswersFresh fortyMinutes stalePeriod (.upper .hour) 1 := by
  have hcached : emptyAnswer
      (PointLevel.getByIndex fortyMinutes stalePeriod.chain (.upper .hour) stalePeriod.caches 1).1 = some false := by
    decide +kernel
  have hfresh : emptyAnswer (PointLevel.getByIndex fortyMinutes stalePeriod.chain (.upper .hour) .new 1).1 = some true := by
    decide +kernel
  refine ⟨forkedState_reachable _ _, hcached, hfresh, fun h => ?_⟩
  rw [h.fresh] at hcached
  cases hcached

def sixtyMinutes : BlockWorld := threeBlocks 3600 (by norm_num)

/-- The hour was asked for before the fork, and the periods have left the cache. -/
theorem cached_points_are_fresh_hourly : AnswersFresh sixtyMinutes
    ((forkedState sixtyMinutes (.upper .hour) 0).step sixtyMinutes (.evict fun _ => false)) (.upper .day) 0 := by
  refine cached_points_are_fresh sixtyMinutes ⟨1, rfl⟩ _ (.step (forkedState_reachable _ _) ?_) _ _
  trivial

end GoVite.Consensus

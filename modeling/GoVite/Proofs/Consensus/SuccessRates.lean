import GoVite.Sanity.Consensus.PointCounts

/-! The success rates of the producers over an hour: those of the merged counts, exact while the count of blocks in
millionths fits in 32 bits. -/

namespace GoVite.Consensus
open KeyStore List Store

/-- What a rate is: the share of the expected blocks in millionths, rounded down. -/
def Content.Exact (c : Content) : Prop :=
  (c.rate = -1 ↔ c.expectedNum = 0) ∧
    (c.expectedNum ≠ 0 → c.rate.toInt = (c.factualNum * 1000000 / c.expectedNum : ℕ) ∧
      0 ≤ c.rate.toInt ∧ c.rate.toInt ≤ 1000000)

/-- The counts over some periods. -/
def hourContents (points : List Point) : Sbps := points.foldl (fun m p => m.merge p.sbps) .empty

section Rate
variable {c : Content} (h : c.factualNum ≤ c.expectedNum)
include h

theorem wrappedShare_le : c.factualNum * 1000000 % UInt32.size / c.expectedNum ≤ 1000000 :=
  Nat.div_le_of_le_mul ((Nat.mod_le _ _).trans (Nat.mul_le_mul_right _ h))

theorem rate_toInt (h0 : c.expectedNum ≠ 0) :
    c.rate.toInt = (c.factualNum * 1000000 % UInt32.size / c.expectedNum : ℕ) := by
  have hle := wrappedShare_le h
  unfold Content.rate
  rw [if_neg h0]
  split_ifs with hf
  · simp [hf]
  · exact Int32.toInt_ofNat_of_lt (by omega)

theorem Content.exact_iff (hfit : c.expectedNum < UInt32.size) : c.Exact ↔ c.factualNum * 1000000 < UInt32.size := by
  by_cases h0 : c.expectedNum = 0
  · have hf : c.factualNum = 0 := by omega
    simp [Content.Exact, Content.rate, h0, hf]
  · have hrate := rate_toInt h h0
    have hle := wrappedShare_le h
    constructor
    · rintro ⟨-, hexact⟩
      by_contra hwrap
      -- the product lost a multiple of the modulus, which is more than one expected block is worth
      have hlost : c.factualNum * 1000000 % UInt32.size + c.expectedNum ≤ c.factualNum * 1000000 := by
        simp only [UInt32.size] at *
        omega
      have := Nat.div_le_div_right (c := c.expectedNum) hlost
      rw [Nat.add_div_right _ (by omega)] at this
      omega
    · intro hlt
      rw [Nat.mod_eq_of_lt hlt] at hrate hle
      have hpos := Int.natCast_nonneg (c.factualNum * 1000000 / c.expectedNum)
      rw [← hrate] at hpos
      refine ⟨⟨fun heq => ?_, fun heq => absurd heq h0⟩, fun _ => ⟨hrate, hpos, ?_⟩⟩
      · rw [heq] at hpos
        exact absurd hpos (by decide)
      · rw [hrate]
        exact_mod_cast hle

end Rate

variable {points : List Point}

theorem getSuccessRateByHour_eq (O : MapOrder) {reader : PeriodReader} {index : ℕ}
    (h : hourPoints reader index hour 0 none = .ok points) :
    ∃ rates, getSuccessRateByHour O reader index = .ok rates ∧
      ∀ a, rates.get? a = ((hourContents points).get? a).map Content.rate := by
  have hinfos : points.foldl (fun m p => (O.order p.sbps).foldl (fun m e => m.addNum e.1 e.2) m) .empty =
      hourContents points := by
    congr 1
    funext m p
    exact ext_get? fun a =>
      (Sbps.get?_foldl_addNum m (O.perm _) a).trans (Sbps.get?_foldl_addNum m .rfl a).symm
  refine ⟨_, by rw [getSuccessRateByHour, h]; rfl, fun a => ?_⟩
  have hl := O.perm (hourContents points)
  have hnodup := (hl.map Prod.fst).nodup_iff.2 (hourContents points).keys_nodup
  have hmem : ∀ c, (a, c) ∈ O.order (hourContents points) ↔ (hourContents points).get? a = some c :=
    fun c => by rw [hl.mem_iff, get?_eq_some_iff]
  simp only [hinfos]
  refine (get?_foldl_update (fun _ c => c.rate) hnodup hmem .empty).trans ?_
  cases (hourContents points).get? a <;> rfl

/-- A rate is exact iff the blocks in millionths fit in 32 bits; the rates of an hour are those of the merged counts;
merging does not depend on order or grouping. -/
theorem success_rates_exact_iff (O : MapOrder) (reader : PeriodReader) (index : ℕ)
    (hread : hourPoints reader index hour 0 none = .ok points)
    (hcounts : ∀ p ∈ points, ∀ a, (p.sbps.getD a ⟨0, 0⟩).factualNum ≤ (p.sbps.getD a ⟨0, 0⟩).expectedNum)
    (hfit : ∀ a c, (hourContents points).get? a = some c → c.expectedNum < UInt32.size) :
    (∀ c : Content, c.factualNum ≤ c.expectedNum → c.expectedNum < UInt32.size →
      (c.Exact ↔ c.factualNum * 1000000 < UInt32.size)) ∧
    (∃ rates, getSuccessRateByHour O reader index = .ok rates ∧
      (∀ a, rates.get? a = ((hourContents points).get? a).map Content.rate) ∧
      ((∀ a c, (hourContents points).get? a = some c → c.Exact) ↔
        ∀ a c, (hourContents points).get? a = some c → c.factualNum * 1000000 < UInt32.size)) ∧
    ∀ m₁ m₂ m₃ : Sbps, m₁.merge m₂ = m₂.merge m₁ ∧ (m₁.merge m₂).merge m₃ = m₁.merge (m₂.merge m₃) := by
  have hcomm : Std.Commutative Content.merge := ⟨fun a b => by simp [Content.merge, Nat.add_comm]⟩
  have hassoc : Std.Associative Content.merge := ⟨fun a b c => by simp [Content.merge, Nat.add_assoc]⟩
  refine ⟨fun c h hlt => c.exact_iff h hlt, ?_, fun m₁ m₂ m₃ => ⟨?_, ?_⟩⟩
  · obtain ⟨rates, hrates, hget⟩ := getSuccessRateByHour_eq O hread
    refine ⟨rates, hrates, hget, forall_congr' fun a => forall_congr' fun c => ?_⟩
    refine imp_congr_right fun hc => c.exact_iff ?_ (hfit a c hc)
    rw [← getD_of_get? hc ⟨0, 0⟩]
    -- counts stay below what is expected when they are merged
    refine foldlRecOn (motive := fun m : Sbps => (m.getD a ⟨0, 0⟩).factualNum ≤ (m.getD a ⟨0, 0⟩).expectedNum) points _
      le_rfl fun m ih p hp => ?_
    rw [Sbps.getD_merge]
    exact Nat.add_le_add ih (hcounts p hp a)
  · refine ext_get? fun a => ?_
    simp only [Sbps.get?_merge]
    exact (Option.commutative_merge Content.merge).comm _ _
  · refine ext_get? fun a => ?_
    simp only [Sbps.get?_merge]
    exact (Option.associative_merge Content.merge).assoc _ _ _

/-- Two producers in two periods. -/
def usualPeriods : List Point :=
  [⟨0, 1, (empty.set 1 ⟨3, 3⟩).set 2 ⟨3, 1⟩, none⟩, ⟨1, 2, empty.set 1 ⟨3, 2⟩, none⟩]

theorem success_rates_exact_usual : ∃ rates,
    getSuccessRateByHour ⟨entries, fun _ => .rfl⟩ (fun i _ => .ok usualPeriods[1 - i]?) 1 = .ok rates ∧
      rates.get? 1 = some 833333 ∧ ∀ a c, (hourContents usualPeriods).get? a = some c → c.Exact := by
  have hread : hourPoints (fun i _ => .ok usualPeriods[1 - i]?) 1 hour 0 none = .ok usualPeriods := rfl
  have hsmall : ∀ e ∈ (hourContents usualPeriods).entries, e.2.expectedNum < UInt32.size ∧
      e.2.factualNum * 1000000 < UInt32.size := by decide
  obtain ⟨-, ⟨rates, hrates, hget, hexact⟩, -⟩ := success_rates_exact_iff ⟨entries, fun _ => .rfl⟩ _ 1 hread
    (by
      simp only [usualPeriods, forall_mem_cons, getD_set]
      refine ⟨fun a => ?_, fun a => ?_, by simp⟩ <;> split_ifs <;> simp [Store.getD])
    fun a c hc => (hsmall (a, c) (get?_eq_some_iff.1 hc)).1
  exact ⟨rates, hrates, hget 1, hexact.2 fun a c hc => (hsmall (a, c) (get?_eq_some_iff.1 hc)).2⟩

/-- One period in which a producer made all its blocks. -/
def samplePeriod (n : ℕ) : Point := ⟨0, 1, empty.set 1 ⟨n, n⟩, none⟩

/-- With 4295 blocks, all of them made, the rate is 7 millionths. -/
theorem full_rate_lost :
    ((getSuccessRateByHour ⟨entries, fun _ => .rfl⟩ (fun _ _ => .ok (some (samplePeriod 4295))) 0).toOption.bind
      (·.get? 1)) = some 7 ∧ ¬ (⟨4295, 4295⟩ : Content).Exact :=
  ⟨by decide, fun h => absurd ((Content.exact_iff le_rfl (by decide)).1 h) (by decide)⟩

end GoVite.Consensus

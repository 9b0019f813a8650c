import GoVite.Sanity.Governance.Receives
import GoVite.Sanity.Governance.Rewards

/-! Over a run the days a name has asked for are over, asked for once, and without a gap up to its reward time; what is
issued is the sum of their rewards. -/

namespace GoVite.Governance
open KeyStore Consensus ExceptRules List Function

variable {name : Name} {old : Registration} {N : Network}

/-! One name -/

/-- The days a withdrawal asks for: over, and from the reward time on. -/
structure Asks (N : Network) (old : Registration) (current : SnapshotBlock) (days : List ℕ) : Prop where
  nodup : days.Nodup
  mem_iff : ∀ d, d ∈ days ↔ 0 ≤ old.rewardTime ∧ old.rewardTime ≤ N.dayIndex.startTime d ∧ d < daysOver N old current

variable {current : SnapshotBlock}

/-- The days paid up to are over, and those of a revoked registration are over at its revocation. -/
theorem endTime_le_of_lt_daysOver {N : Network} {d : ℕ} (hd : d < daysOver N old current) :
    N.dayIndex.endTime d ≤ getRewardTimeLimit current ∧
      (old.isActive = false → N.dayIndex.endTime d ≤ old.revokeTime) := by
  unfold daysOver at hd
  rw [N.dayIndex.lt_time2Index_iff] at hd
  cases hfinal : isFinal N old current with
  | true =>
    rw [if_pos hfinal] at hd
    refine ⟨?_, fun _ => hd⟩
    -- a boundary of days that is not after the revocation is not after the last such boundary
    have hlast : N.dayIndex.endTime d ≤ N.dayIndex.startTime (N.dayIndex.time2Index old.revokeTime) := by
      rw [N.dayIndex.endTime_eq, N.dayIndex.startTime_le_iff]
      exact N.dayIndex.lt_time2Index_iff.2 hd
    unfold isFinal at hfinal
    simp only [Bool.and_eq_true, decide_eq_true_eq] at hfinal
    exact hlast.trans hfinal.2
  | false =>
    rw [if_neg (by simp [hfinal])] at hd
    refine ⟨hd, fun hinactive => ?_⟩
    have hlater : getRewardTimeLimit current < N.dayIndex.startTime (N.dayIndex.time2Index old.revokeTime) := by
      simpa [isFinal, hinactive] using hfinal
    have hlt := hd.trans_lt hlater
    rw [N.dayIndex.endTime_eq, N.dayIndex.startTime_lt_iff] at hlt
    exact N.dayIndex.lt_time2Index_iff.1 (by omega)

section
variable (N : Network)

/-- The registration of a name is that of its latest term. -/
structure TermInv (r : Registration) (t : Term) (rest : List Term) : Prop where
  revoked : t.revokedAt = if r.isActive then none else some r.revokeTime
  rewardTime : 0 ≤ r.rewardTime ∨ r.rewardTime = -1 ∧ r.isActive = false
  /-- what is asked for next has not been asked for -/
  fresh : 0 ≤ r.rewardTime → ∀ t' ∈ t :: rest, ∀ d ∈ t'.coveredDays, N.dayIndex.startTime d < r.rewardTime
  /-- and no day since the registration is left out -/
  complete : 0 ≤ r.rewardTime → ∀ d, t.registeredAt ≤ N.dayIndex.startTime d →
    N.dayIndex.startTime d < r.rewardTime → d ∈ t.coveredDays
  finished : r.rewardTime = -1 → ∀ d, t.registeredAt ≤ N.dayIndex.startTime d →
    N.dayIndex.endTime d ≤ r.revokeTime → d ∈ t.coveredDays

structure NameInv (name : Name) (time : ℤ) (reg : Option Registration) (terms : List Term) : Prop where
  unregistered : reg = none → terms = []
  named : ∀ r ∈ reg, r.name = name
  issued : ∀ t ∈ terms, t.issuedDays.Sublist t.coveredDays
  amounts : ∀ t ∈ terms, ∀ i ∈ t.issues, i.amount = i.total
  ended : ∀ t ∈ terms, ∀ d ∈ t.coveredDays, N.dayIndex.endTime d ≤ time - rewardTimeLimit
  once : (terms.flatMap (·.coveredDays)).Nodup
  current : ∀ r ∈ reg, ∃ t rest, terms = t :: rest ∧ TermInv N r t rest

end

namespace NameInv
variable {time time' : ℤ} {reg : Option Registration} {terms : List Term}

theorem new (N : Network) (name : Name) : NameInv N name 0 none [] :=
  ⟨fun _ => rfl, fun _ hr => (by cases hr), fun _ ht => (by cases ht), fun _ ht => (by cases ht), fun _ ht => (by cases ht),
    nodup_nil, fun _ hr => (by cases hr)⟩

theorem mono (h : NameInv N name time reg terms) (htime : time ≤ time') : NameInv N name time' reg terms :=
  { h with ended := fun t ht d hd => (h.ended t ht d hd).trans (by omega) }

variable {new : Registration}

theorem register (h : NameInv N name time reg terms) (htime : time ≤ time') (hpos : 0 < time')
    (hreward : new.rewardTime = time') (hrevoke : new.revokeTime = 0) (hname : new.name = name) :
    NameInv N name time' (some new) (⟨time', none, [], []⟩ :: terms) := by
  have hover := (h.mono htime).ended
  refine ⟨fun hnone => (by cases hnone), fun r hr => Option.some.inj hr ▸ hname, ?_, ?_, ?_, ?_, ?_⟩
  · intro t ht
    rcases mem_cons.1 ht with rfl | ht
    · exact List.Sublist.slnil
    · exact h.issued t ht
  · intro t ht i hi
    rcases mem_cons.1 ht with rfl | ht
    · cases hi
    · exact h.amounts t ht i hi
  · intro t ht d hd
    rcases mem_cons.1 ht with rfl | ht
    · cases hd
    · exact hover t ht d hd
  · simpa using h.once
  · rintro r hr
    obtain rfl := Option.some.inj hr
    have hactive : new.isActive = true := decide_eq_true hrevoke
    refine ⟨_, _, rfl, by simp [hactive], .inl (by omega), fun _ t ht d hd => ?_, fun _ d hreg hlt => ?_, fun hneg => ?_⟩
    · rcases mem_cons.1 ht with rfl | ht
      · cases hd
      · -- the days asked for before are over
        have hend := hover t ht d hd
        have hlt : N.dayIndex.startTime d < N.dayIndex.endTime d := by
          rw [N.dayIndex.endTime_eq, N.dayIndex.startTime_lt_iff]
          exact Nat.lt_succ_self d
        have : (0 : ℤ) < rewardTimeLimit := by decide
        omega
    · rw [hreward] at hlt
      exact absurd hlt (not_lt.2 hreg)
    · omega

theorem revoke (h : NameInv N name time (some old) terms) (htime : time ≤ time') (hpos : 0 < time')
    (hactive : old.isActive = true) (hreward : new.rewardTime = old.rewardTime)
    (hrevoke : new.revokeTime = time') (hname : new.name = old.name) :
    NameInv N name time' (some new) (terms.modifyHead fun t => { t with revokedAt := some time' }) := by
  obtain ⟨t, rest, rfl, ht⟩ := h.current old rfl
  have hold := h.mono htime
  have hnonneg : 0 ≤ old.rewardTime := ht.rewardTime.resolve_right fun hneg => by
    rw [hactive] at hneg
    cases hneg.2
  have hinactive : new.isActive = false := by
    rw [Registration.isActive, hrevoke]
    exact decide_eq_false hpos.ne'
  refine ⟨fun hnone => (by cases hnone), fun r hr => Option.some.inj hr ▸ hname.trans (h.named old rfl), ?_, ?_, ?_, ?_, ?_⟩
  · intro t' ht'
    rcases mem_cons.1 ht' with rfl | ht'
    · exact h.issued t mem_cons_self
    · exact h.issued t' (mem_cons_of_mem t ht')
  · intro t' ht'
    rcases mem_cons.1 ht' with rfl | ht'
    · exact h.amounts t mem_cons_self
    · exact h.amounts t' (mem_cons_of_mem t ht')
  · intro t' ht'
    rcases mem_cons.1 ht' with rfl | ht'
    · exact hold.ended t mem_cons_self
    · exact hold.ended t' (mem_cons_of_mem t ht')
  · exact h.once
  · intro r hr
    obtain rfl := Option.some.inj hr
    refine ⟨_, rest, rfl, by rw [hinactive, hrevoke]; rfl, .inl (hreward ▸ hnonneg), fun _ t' ht' => ?_, fun _ => ?_,
      fun hneg => by omega⟩
    · rw [hreward]
      rcases mem_cons.1 ht' with rfl | ht'
      · exact ht.fresh hnonneg t mem_cons_self
      · exact ht.fresh hnonneg t' (mem_cons_of_mem t ht')
    · rw [hreward]
      exact ht.complete hnonneg

variable {days : List ℕ} {issued : List Issue}

theorem withdraw (h : NameInv N name time (some old) terms)
    (htime : time ≤ current.timestamp) (hreward : new.rewardTime = nextRewardTime N old current)
    (hrevoke : new.revokeTime = old.revokeTime) (hname : new.name = old.name) (hdays : Asks N old current days)
    (hissued : (issued.flatMap Issue.days).Sublist days) (hamounts : ∀ i ∈ issued, i.amount = i.total)
    (hset : old.rewardTime ≠ -1) :
    NameInv N name current.timestamp (some new) (terms.modifyHead fun t => { t with
      coveredDays := t.coveredDays ++ days
      issues := t.issues ++ issued }) := by
  obtain ⟨t, rest, rfl, ht⟩ := h.current old rfl
  have hnonneg : 0 ≤ old.rewardTime := ht.rewardTime.resolve_right fun hneg => hset hneg.1
  have hold := h.mono htime
  have hactive : new.isActive = old.isActive := by rw [Registration.isActive, hrevoke]; rfl
  rw [modifyHead_cons]
  have hended : ∀ t' ∈ { t with coveredDays := t.coveredDays ++ days, issues := t.issues ++ issued } :: rest,
      ∀ d ∈ t'.coveredDays, N.dayIndex.endTime d ≤ getRewardTimeLimit current := by
    intro t' ht' d hd
    rcases mem_cons.1 ht' with rfl | ht'
    · rcases mem_append.1 hd with hd | hd
      · exact hold.ended t mem_cons_self d hd
      · exact (endTime_le_of_lt_daysOver ((hdays.mem_iff d).1 hd).2.2).1
    · exact hold.ended t' (mem_cons_of_mem t ht') d hd
  refine ⟨fun hnone => (by cases hnone), fun r hr => Option.some.inj hr ▸ hname.trans (h.named old rfl), ?_, ?_, hended, ?_, ?_⟩
  · intro t' ht'
    rcases mem_cons.1 ht' with rfl | ht'
    · rw [Term.issuedDays, flatMap_append]
      exact (h.issued t mem_cons_self).append hissued
    · exact h.issued t' (mem_cons_of_mem t ht')
  · intro t' ht' i hi
    rcases mem_cons.1 ht' with rfl | ht'
    · exact (mem_append.1 hi).elim (h.amounts t mem_cons_self i) (hamounts i)
    · exact h.amounts t' (mem_cons_of_mem t ht') i hi
  · -- the new days start at the reward time or later, the old ones before it
    have hperm : (t.coveredDays ++ days ++ rest.flatMap (·.coveredDays)).Perm
        ((t.coveredDays ++ rest.flatMap (·.coveredDays)) ++ days) := by
      rw [append_assoc, append_assoc]
      exact (perm_append_comm).append_left _
    rw [flatMap_cons, hperm.nodup_iff, nodup_append]
    have honce := h.once
    refine ⟨honce, hdays.nodup, fun d hd d' hd' heq => ?_⟩
    subst heq
    have hbefore : N.dayIndex.startTime d < old.rewardTime := by
      rcases mem_append.1 hd with hd | hd
      · exact ht.fresh hnonneg t mem_cons_self d hd
      · obtain ⟨t', ht', hd⟩ := mem_flatMap.1 hd
        exact ht.fresh hnonneg t' (mem_cons_of_mem t ht') d hd
    exact absurd ((hdays.mem_iff d).1 hd').2.1 (not_le.2 hbefore)
  · intro r hr
    obtain rfl := Option.some.inj hr
    -- every day paid up to since the registration has been asked for
    have hcovered : ∀ d, t.registeredAt ≤ N.dayIndex.startTime d → d < daysOver N old current →
        d ∈ t.coveredDays ++ days := fun d hreg hd => by
      rcases lt_or_ge (N.dayIndex.startTime d) old.rewardTime with hlt | hge
      · exact mem_append_left _ (ht.complete hnonneg d hreg hlt)
      · exact mem_append_right _ ((hdays.mem_iff d).2 ⟨hnonneg, hge, hd⟩)
    by_cases hfinal : isFinal N old current = true
    · have hneg : new.rewardTime = -1 := by rw [hreward, nextRewardTime, if_pos (.inr hfinal)]
      have hinactive : old.isActive = false := by
        simpa using (Bool.and_eq_true_iff.1 hfinal).1
      refine ⟨_, rest, rfl, by rw [hactive, hrevoke]; exact ht.revoked, .inr ⟨hneg, hactive.trans hinactive⟩,
        fun h0 => by omega, fun h0 => by omega, fun _ d hreg hend => hcovered d hreg ?_⟩
      rw [hrevoke] at hend
      rw [daysOver, if_pos hfinal]
      exact N.dayIndex.lt_time2Index_iff.2 hend
    · have hnext : new.rewardTime = N.dayIndex.startTime (daysOver N old current) := by
        rw [hreward, nextRewardTime, if_neg (by simp [hfinal, hnonneg])]
      have hpos : 0 < new.rewardTime := hnext ▸ N.startTime_pos _
      refine ⟨_, rest, rfl, by rw [hactive, hrevoke]; exact ht.revoked, .inl hpos.le, fun _ t' ht' d hd => ?_,
        fun _ d hreg hlt => ?_, fun hneg => by omega⟩
      · rw [hnext, N.dayIndex.startTime_lt_iff, daysOver, if_neg hfinal]
        exact N.dayIndex.lt_time2Index_iff.2 (hended t' ht' d hd)
      · rw [hnext, N.dayIndex.startTime_lt_iff] at hlt
        exact hcovered d hreg hlt

end NameInv

/-! What a receive does to one name -/

/-- From a registration and terms to a registration and terms, at a snapshot block. `W` says which registration a
withdrawal is asked for. -/
inductive NameStep (N : Network) (name : Name) (current : SnapshotBlock) (W : Registration → Prop)
    (reg : Option Registration) (terms : List Term) :
    Option Registration → List Term → Prop
  | same : NameStep N name current W reg terms reg terms
  | register (new : Registration) (hreward : new.rewardTime = current.timestamp) (hrevoke : new.revokeTime = 0)
      (hname : new.name = name) :
      NameStep N name current W reg terms (some new) (⟨current.timestamp, none, [], []⟩ :: terms)
  | revoke (old new : Registration) (hold : reg = some old) (hactive : old.isActive = true)
      (hreward : 0 ≤ old.rewardTime → new.rewardTime = old.rewardTime) (hrevoke : new.revokeTime = current.timestamp)
      (hname : new.name = old.name) :
      NameStep N name current W reg terms (some new)
        (terms.modifyHead fun t => { t with revokedAt := some current.timestamp })
  | withdraw (old new : Registration) (days : List ℕ) (issued : List Issue) (hold : reg = some old) (hask : W old)
      (hset : old.rewardTime ≠ -1) (hreward : new.rewardTime = nextRewardTime N old current)
      (hrevoke : new.revokeTime = old.revokeTime) (hname : new.name = old.name)
      (hdays : Asks N old current days) (hissued : (issued.flatMap Issue.days).Sublist days)
      (hamounts : ∀ i ∈ issued, i.amount = i.total) :
      NameStep N name current W reg terms (some new)
        (terms.modifyHead fun t => { t with
          coveredDays := t.coveredDays ++ days
          issues := t.issues ++ issued })

theorem NameInv.step {N : Network} {W : Registration → Prop} {time : ℤ}
    {reg reg' : Option Registration} {terms terms' : List Term} (h : NameInv N name time reg terms)
    (htime : time ≤ current.timestamp)
    (hs : NameStep N name current W reg terms reg' terms') : NameInv N name current.timestamp reg' terms' := by
  cases hs with
  | same => exact h.mono htime
  | register new hreward hrevoke hname => exact h.register htime current.timestamp_pos hreward hrevoke hname
  | revoke old new hold hactive hreward hrevoke hname =>
    subst hold
    obtain ⟨t, rest, -, ht⟩ := h.current old rfl
    refine h.revoke htime current.timestamp_pos hactive (hreward (ht.rewardTime.resolve_right fun hneg => ?_)) hrevoke hname
    rw [hactive] at hneg
    cases hneg.2
  | withdraw old new days issued hold _ hset hreward hrevoke hname hdays hissued hamounts =>
    subst hold
    exact h.withdraw htime hreward hrevoke hname hdays hissued hamounts hset

theorem asks_daysOf (N : Network) (stats : ℕ → ℕ → Except VmError (List DayStats)) (old : Registration)
    (current : SnapshotBlock) :
    Asks N old current (SbpWorld.daysOf N (vmConsensusReader N.dayIndex stats) current (some old)) := by
  unfold SbpWorld.daysOf
  dsimp only
  rcases lt_or_ge old.rewardTime 0 with hneg | hnonneg
  · rw [rewardPeriod_of_neg hneg]
    exact ⟨nodup_nil, fun d => iff_of_false not_mem_nil fun hd => absurd hd.1 (not_le.2 hneg)⟩
  · obtain ⟨p, hp, -, -, hnodup, hmem⟩ := rewardPeriod_eq N stats current hnonneg
    rw [hp]
    exact ⟨hnodup, fun d => (hmem d).trans (by simp [hnonneg])⟩

theorem checkRewardDrained_active {N : Network} {env : VmEnvironment} {drained : Bool}
    {stats : ℕ → ℕ → Except VmError (List DayStats)}
    (h : checkRewardDrained N env (vmConsensusReader N.dayIndex stats) old = .ok drained) (hactive : old.isActive = true)
    (hreward : 0 ≤ old.rewardTime) : drained = false := by
  obtain ⟨result, hresult, rfl⟩ := map_ok h
  have hspec := (recoverCalcReward_vm hresult).1
  have hnot : ¬(old.rewardTime < 0 ∨ isFinal N old env.snapshotBlock = true) := by
    simp [isFinal, hactive, not_lt.2 hreward]
  have hfalse : result.drained = false := by
    cases hd : result.drained with
    | false => rfl
    | true => exact absurd (hspec.1 hd) hnot
  simp [rewardDrained, hfalse]

namespace SbpWorld
variable {w : SbpWorld} {r : Receive}

theorem step_time (w : SbpWorld) (r : Receive) : (w.step N r).time = r.env.snapshotBlock.timestamp := by
  unfold step
  cases receive N (r.reader N) r.env w.db r.send r.request <;> rfl

/-- `r` asks for the rewards of the registration. -/
def Asked (w : SbpWorld) (r : Receive) (old : Registration) : Prop :=
  ∃ param, r.request = .withdrawReward param ∧ w.db.registrations snapshotGid param.sbpName = some old

/-- Nothing is issued without a reward to issue. -/
theorem issuesOf_nil {calls : List CallBlock} (h : calls.filterMap (·.data.issued) = []) (rewards : List (ℕ × ℤ)) :
    issuesOf calls rewards = [] := by rw [issuesOf, h, map_nil]

/-- A receive about a name changes that name only. -/
theorem step_cases (hnamed : ∀ old ∈ w.db.registrations snapshotGid name, old.name = name) :
    NameStep N name r.env.snapshotBlock (w.Asked r) (w.db.registrations snapshotGid name) (w.terms name)
      ((w.step N r).db.registrations snapshotGid name) ((w.step N r).terms name) := by
  cases hreceive : receive N (r.reader N) r.env w.db r.send r.request with
  | error e =>
    have hstep : w.step N r = { w with time := r.env.snapshotBlock.timestamp } := by rw [step, hreceive]
    rw [hstep]
    exact .same
  | ok receipt =>
    obtain ⟨db', calls⟩ := receipt
    have hstep : w.step N r = ⟨db', if r.request.gid = snapshotGid then
        update w.terms r.request.sbpName (w.nextTerms N r calls (w.terms r.request.sbpName))
      else w.terms, r.env.snapshotBlock.timestamp⟩ := by rw [step, hreceive]
    rw [hstep]
    dsimp only
    -- the registration set is that of the request
    have hother : ¬(snapshotGid = r.request.gid ∧ name = r.request.sbpName) → ∀ {reg},
        Sets w.db db' r.request.gid r.request.sbpName reg →
        NameStep N name r.env.snapshotBlock (w.Asked r) (w.db.registrations snapshotGid name) (w.terms name)
          (db'.registrations snapshotGid name)
          ((if r.request.gid = snapshotGid then
            update w.terms r.request.sbpName (w.nextTerms N r calls (w.terms r.request.sbpName))
          else w.terms) name) := fun hne {reg} hsets => by
      rw [hsets.others _ _ hne]
      split_ifs with hgid
      · rw [update_of_ne fun hname => hne ⟨hgid.symm, hname⟩]
        exact .same
      · exact .same
    have hself : r.request.gid = snapshotGid → (if r.request.gid = snapshotGid then
            update w.terms r.request.sbpName (w.nextTerms N r calls (w.terms r.request.sbpName))
          else w.terms) r.request.sbpName = w.nextTerms N r calls (w.terms r.request.sbpName) := fun hgid => by
      rw [if_pos hgid, update_self]
    by_cases hname : snapshotGid = r.request.gid ∧ name = r.request.sbpName
    · obtain ⟨hgid, rfl⟩ := hname
      rw [hself hgid.symm]
      cases hreq : r.request with
      | register param =>
        rw [hreq] at hreceive hgid
        obtain ⟨reg, hsets, hreward, hrevoke, hregName, rfl, -⟩ := register_ok hreceive
        have hg : param.version.gid = snapshotGid := hgid.symm
        rw [hg] at hsets
        rw [if_pos hg] at hreward
        have hnext : w.nextTerms N r [] (w.terms (Request.register param).sbpName) =
            ⟨r.env.snapshotBlock.timestamp, none, [], []⟩ :: w.terms param.sbpName := by
          rw [nextTerms, hreq]
          rfl
        rw [hnext, show db'.registrations snapshotGid (Request.register param).sbpName = some reg from hsets.self]
        exact .register reg hreward hrevoke hregName
      | revoke param =>
        rw [hreq] at hreceive hgid
        obtain ⟨old, reg, drained, hold, hactive, hdrained, hsets, hreward, hrevoke, hregName, hissued⟩ := revoke_ok hreceive
        have hg : param.version.gid = snapshotGid := hgid.symm
        rw [hg] at hsets hold
        have hnext : w.nextTerms N r calls (w.terms (Request.revoke param).sbpName) =
            (w.terms param.sbpName).modifyHead fun t =>
              { t with revokedAt := some r.env.snapshotBlock.timestamp } := by
          rw [nextTerms, hreq]
          simp only [issuesOf_nil hissued, append_nil]
          rfl
        rw [hnext, show db'.registrations snapshotGid (Request.revoke param).sbpName = some reg from hsets.self]
        refine .revoke old reg hold hactive (fun hnonneg => ?_) hrevoke hregName
        rw [hreward, checkRewardDrained_active hdrained hactive hnonneg]
        rfl
      | withdrawReward param =>
        rw [hreq] at hreceive hgid
        obtain ⟨old, reg, result, hold, hset, hresult, hsets, hreward, hrevoke, hregName, hissued⟩ :=
          withdrawReward_ok hreceive
        have hg : param.version.gid = snapshotGid := hgid.symm
        rw [hg] at hsets hold
        have hname : old.name = param.sbpName := by
          rw [hreq] at hnamed
          exact hnamed old hold
        set days := daysOf N (r.reader N) r.env.snapshotBlock (some old) with hdays
        have hnext : w.nextTerms N r calls (w.terms (Request.withdrawReward param).sbpName) =
            (w.terms param.sbpName).modifyHead fun t => { t with
              coveredDays := t.coveredDays ++ days
              issues := t.issues ++ issuesOf calls (rewardsOf N r old.name days) } := by
          rw [nextTerms, hreq]
          dsimp only
          rw [hold, hname]
          rfl
        rw [hnext, show db'.registrations snapshotGid (Request.withdrawReward param).sbpName = some reg from hsets.self]
        refine .withdraw old reg _ _ hold ⟨param, hreq, hold⟩ hset (hreward.trans (recoverCalcReward_vm hresult).2) hrevoke
          hregName (asks_daysOf N r.stats.dayStats old _) ?_ ?_
        · rcases hissued with hnone | ⟨reward, -, hone⟩
          · rw [issuesOf_nil hnone]
            exact nil_sublist _
          · rw [issuesOf, hone, map_singleton, flatMap_singleton, Issue.days, rewardsOf_days]
        · intro i hi
          rcases hissued with hnone | ⟨reward, hreward, hone⟩
          · rw [issuesOf_nil hnone] at hi
            cases hi
          · rw [issuesOf, hone, map_singleton, mem_singleton] at hi
            rw [hi, recoverCalcReward_rewards hresult hreward]
            rfl
    · obtain ⟨reg, hsets⟩ : ∃ reg, Sets w.db db' r.request.gid r.request.sbpName reg := by
        cases hreq : r.request with
        | register param =>
          rw [hreq] at hreceive
          obtain ⟨reg, hsets, -⟩ := register_ok hreceive
          exact ⟨reg, hsets⟩
        | revoke param =>
          rw [hreq] at hreceive
          obtain ⟨-, reg, -, -, -, -, hsets, -⟩ := revoke_ok hreceive
          exact ⟨reg, hsets⟩
        | withdrawReward param =>
          rw [hreq] at hreceive
          obtain ⟨-, reg, -, -, -, -, hsets, -⟩ := withdrawReward_ok hreceive
          exact ⟨reg, hsets⟩
      exact hother hname hsets

theorem Reachable.nameInv {P : SbpWorld → Receive → Prop} (h : Reachable N P w) (name : Name) :
    NameInv N name w.time (w.db.registrations snapshotGid name) (w.terms name) := by
  induction h with
  | new groups => exact NameInv.new N name
  | step _ ha _ ih =>
    rw [step_time]
    exact ih.step ha.1 (step_cases ih.named)

end SbpWorld

end GoVite.Governance

import GoVite.Sanity.Governance.Terms

/-! The days a name is paid for: no day twice, every full day in the end, and none outside a registration without an
early withdrawal. -/

namespace GoVite.Governance
open KeyStore Consensus ExceptRules List

def Term.FullDay (N : Network) (t : Term) (d : ℕ) : Prop :=
  t.registeredAt ≤ N.dayIndex.startTime d ∧ ∀ revoked ∈ t.revokedAt, N.dayIndex.endTime d ≤ revoked

variable {N : Network}

/-! Every full day can be paid -/

variable {old : Registration}

variable {timestamp : ℕ} {h : 0 < timestamp} {w : SbpWorld}

namespace SbpWorld
variable {r : Receive}

variable {t : Term} {d : ℕ} {name : Name}

variable {P : SbpWorld → Receive → Prop}

theorem oneBlockVotes_nonneg : ∀ v ∈ some (⟨[(oneName, 0)], 0⟩ : VoteContent), 0 ≤ v.total := by decide

def oneBlockPoint : DayPoint :=
  ⟨⟨0, 1, Store.empty.set 60 ⟨1, 1⟩, some ⟨[(oneName, 0)], 0⟩⟩, oneBlockVotes_nonneg⟩

def oneBlockStats : SBPStatReader :=
  .ofArray ⟨fun _ => .ok oneBlockPoint, fun _ _ => .ok oneBlockPoint⟩ [⟨oneName, [60]⟩]

def atTime (timestamp : ℕ) (h : 0 < timestamp) (amount : ℕ) (request : Request) : Receive :=
  ⟨⟨⟨1, timestamp, by exact_mod_cast h⟩, 1⟩, oneBlockStats, ⟨50, amount, viteTokenId⟩, request⟩

def registerAt (timestamp : ℕ) (h : 0 < timestamp) : Receive :=
  atTime timestamp h sbpStakeAmountPreMainnet (.register ⟨.old snapshotGid, oneName, 60, 0⟩)

def withdrawAt (timestamp : ℕ) (h : 0 < timestamp) : Receive :=
  atTime timestamp h 0 (.withdrawReward ⟨.old snapshotGid, oneName, 50⟩)

/-- The stake of a registration of the snapshot group is kept for 10 snapshot blocks. -/
def oneGroup : SbpWorld := .new fun gid => if gid = snapshotGid then some 10 else none

def oneRun (rs : List Receive) : SbpWorld := rs.foldl (SbpWorld.step oneNetwork) oneGroup

theorem allows_atTime {amount : ℕ} {request : Request}
    (htime : w.time ≤ timestamp) (hparam : ∀ param, request = .withdrawReward param → param.checked) :
    w.Allows (atTime timestamp h amount request) := ⟨htime, hparam⟩

theorem allows_registerAt (htime : w.time ≤ timestamp) :
    w.Allows (registerAt timestamp h) := allows_atTime htime fun _ hparam => by cases hparam

theorem allows_withdrawAt (htime : w.time ≤ timestamp) :
    w.Allows (withdrawAt timestamp h) := allows_atTime htime fun param hparam => by
  cases hparam
  rfl

/-- Registered in the middle of day 5, paid for days 6 and 7 at once, and for day 8 later. -/
def paidRun : List Receive :=
  [registerAt (1000 + 5 * 86400 + 100) (by decide), withdrawAt (1000 + 8 * 86400 + 3600) (by decide),
    withdrawAt (1000 + 9 * 86400 + 3600) (by decide)]

/-- The receives are allowed one after the other, and meet `P`. -/
def Steps (N : Network) (P : SbpWorld → Receive → Prop) : SbpWorld → List Receive → Prop
  | _, [] => True
  | w, r :: rs => w.Allows r ∧ P w r ∧ Steps N P (w.step N r) rs

theorem Reachable.foldl (h : Reachable N P w) {rs : List Receive}
    (hrs : Steps N P w rs) : Reachable N P (rs.foldl (SbpWorld.step N) w) := by
  induction rs generalizing w with
  | nil => exact h
  | cons r rs ih =>
    obtain ⟨ha, hP, hrs⟩ := hrs
    exact ih (h.step ha hP) hrs

end SbpWorld

/-! Days outside the registration -/

/-- The reward time a withdrawal leaves is not before the one it finds: the registration is revoked and is paid to its
end, or the last day that is over ends at the reward time or later. -/
def MovesForward (N : Network) (old : Registration) (current : SnapshotBlock) : Prop :=
  isFinal N old current = true ∨ old.rewardTime ≤ N.dayIndex.startTime (daysOver N old current)

instance (N : Network) (old : Registration) (current : SnapshotBlock) : Decidable (MovesForward N old current) :=
  inferInstanceAs (Decidable (_ ∨ _))

variable {current : SnapshotBlock}

theorem nextRewardTime_forward_iff :
    (old.rewardTime ≤ nextRewardTime N old current ∨ nextRewardTime N old current = -1) ↔
      MovesForward N old current := by
  have hstart := N.startTime_pos (daysOver N old current)
  unfold nextRewardTime MovesForward
  by_cases hfinal : isFinal N old current = true
  · simp [hfinal]
  · by_cases hneg : old.rewardTime < 0
    · simp only [hneg, true_or, if_true, or_true, true_iff]
      exact .inr (by omega)
    · rw [if_neg (by simp [hneg, hfinal])]
      simp only [hfinal, Bool.false_eq_true, false_or]
      omega

/-- Every day asked for lies in its term, and what is asked for next starts in the latest term. -/
structure Inside (N : Network) (reg : Option Registration) (terms : List Term) : Prop where
  days : ∀ t ∈ terms, ∀ d ∈ t.coveredDays, t.FullDay N d
  current : ∀ r ∈ reg, 0 ≤ r.rewardTime → ∀ t ∈ terms.head?, t.registeredAt ≤ r.rewardTime

variable {reg reg' : Option Registration} {terms terms' : List Term}

theorem Inside.step {name : Name} {W : Registration → Prop} {time : ℤ} (h : Inside N reg terms)
    (hinv : NameInv N name time reg terms)
    (htime : time ≤ current.timestamp) (hW : ∀ old, W old → MovesForward N old current)
    (hs : NameStep N name current W reg terms reg' terms') : Inside N reg' terms' := by
  cases hs with
  | same => exact h
  | register new hreward =>
    refine ⟨fun t ht d hd => ?_, fun r hr _ t ht => ?_⟩
    · rcases mem_cons.1 ht with rfl | ht
      · cases hd
      · exact h.days t ht d hd
    · cases hr
      cases ht
      exact hreward.ge
  | revoke old new hold hactive hreward =>
    subst hold
    obtain ⟨t, rest, rfl, hcur⟩ := hinv.current old rfl
    have hnonneg : 0 ≤ old.rewardTime := hcur.rewardTime.resolve_right fun hneg => by
      rw [hactive] at hneg
      cases hneg.2
    refine ⟨fun t' ht' d hd => ?_, fun r hr _ t' ht' => ?_⟩
    · rcases mem_cons.1 ht' with rfl | ht'
      · refine ⟨(h.days t mem_cons_self d hd).1, fun revoked hrevoked => ?_⟩
        -- what has been asked for is over before the revocation
        obtain rfl := Option.some.inj hrevoked
        have hover := hinv.ended t mem_cons_self d hd
        have : (0 : ℤ) < rewardTimeLimit := by decide
        omega
      · exact h.days t' (mem_cons_of_mem t ht') d hd
    · cases hr
      cases ht'
      rw [hreward hnonneg]
      exact h.current old rfl hnonneg t rfl
  | withdraw old new days issued hold hask hset hreward _ _ hdays =>
    subst hold
    obtain ⟨t, rest, rfl, hcur⟩ := hinv.current old rfl
    have hnonneg : 0 ≤ old.rewardTime := hcur.rewardTime.resolve_right fun hneg => hset hneg.1
    have hstart := h.current old rfl hnonneg t rfl
    refine ⟨fun t' ht' d hd => ?_, fun r hr hr0 t' ht' => ?_⟩
    · rcases mem_cons.1 ht' with rfl | ht'
      · rcases mem_append.1 hd with hd | hd
        · exact h.days t mem_cons_self d hd
        · obtain ⟨-, hge, hlt⟩ := (hdays.mem_iff d).1 hd
          refine ⟨hstart.trans hge, fun revoked hrevoked => ?_⟩
          have hrev : t.revokedAt = some revoked := hrevoked
          rw [hcur.revoked] at hrev
          split_ifs at hrev with hactive
          obtain rfl := Option.some.inj hrev
          exact (endTime_le_of_lt_daysOver hlt).2 (by simpa using hactive)
      · exact h.days t' (mem_cons_of_mem t ht') d hd
    · cases hr
      cases ht'
      have hforward := nextRewardTime_forward_iff.2 (hW old hask)
      rw [← hreward] at hforward
      exact hstart.trans (hforward.resolve_right fun hneg => by omega)

namespace SbpWorld
/-- No withdrawal comes before the first day after the reward time is over. -/
def NotEarly (N : Network) (w : SbpWorld) (r : Receive) : Prop :=
  ∀ old, w.Asked r old → MovesForward N old r.env.snapshotBlock

theorem Reachable.inside (h : Reachable N (NotEarly N) w) (name : Name) :
    Inside N (w.db.registrations snapshotGid name) (w.terms name) := by
  induction h with
  | new groups => exact ⟨fun t ht => (by cases ht), fun r hr => (by cases hr)⟩
  | step hw ha hP ih => exact ih.step (hw.nameInv name) ha.1 hP (step_cases (hw.nameInv name).named)

/-- In every run without an early withdrawal what is issued is the sum of the rewards of days that lie in their
registration; and, in any state, a withdrawal that goes through moves the reward time back exactly if it is early. -/
theorem rewards_inside_registration :
    (∀ w, Reachable N (NotEarly N) w → ∀ name, ∀ t ∈ w.terms name, ∀ i ∈ t.issues, i.amount = i.total ∧ ∀ d ∈ i.days,
      t.registeredAt ≤ N.dayIndex.startTime d ∧ ∀ revoked ∈ t.revokedAt, N.dayIndex.endTime d ≤ revoked) ∧
    ∀ (w : SbpWorld) (r : Receive) (param : ParamReward) (receipt : Receipt), w.Allows r →
      r.request = .withdrawReward param →
      receive N (r.reader N) r.env w.db r.send r.request = .ok receipt →
      ∃ old new, w.db.registrations snapshotGid param.sbpName = some old ∧
        (w.step N r).db.registrations snapshotGid param.sbpName = some new ∧
        ((old.rewardTime ≤ new.rewardTime ∨ new.rewardTime = -1) ↔ MovesForward N old r.env.snapshotBlock) := by
  refine ⟨fun w h name t ht i hi => ⟨(h.nameInv name).amounts t ht i hi, fun d hd => ?_⟩, ?_⟩
  · exact (h.inside name).days t ht d (((h.nameInv name).issued t ht).subset (mem_flatMap_of_mem hi hd))
  intro w r param receipt ha hreq hreceive
  obtain ⟨db', calls⟩ := receipt
  have hstep : (w.step N r).db = db' := by rw [step, hreceive]
  rw [hreq] at hreceive
  obtain ⟨old, new, result, hold, -, hresult, hsets, hreward, -⟩ := withdrawReward_ok hreceive
  have hgid : param.version.gid = snapshotGid := of_decide_eq_true (ha.2 param hreq)
  rw [hgid] at hold hsets
  refine ⟨old, new, hold, by rw [hstep]; exact hsets.self, ?_⟩
  rw [hreward, (recoverCalcReward_vm hresult).2]
  exact nextRewardTime_forward_iff

/-- A withdrawal 100 seconds after the registration sets the reward time to the start of the day before, and the next
one pays that day. -/
def earlyRun : List Receive :=
  [registerAt (1000 + 5 * 86400 + 100) (by decide), withdrawAt (1000 + 5 * 86400 + 200) (by decide),
    withdrawAt (1000 + 8 * 86400 + 3600) (by decide)]

theorem early_withdrawal_pays_days_before : Reachable oneNetwork (fun _ _ => True) (oneRun earlyRun) ∧
    ((oneRun (earlyRun.take 2)).db.registrations snapshotGid oneName).map (·.rewardTime) =
      some (oneNetwork.dayIndex.startTime 4) ∧
    ∃ t ∈ (oneRun earlyRun).terms oneName, ∃ i ∈ t.issues, i.amount = 4 * (rewardPerBlock - 1) ∧
      (4, rewardPerBlock - 1) ∈ i.rewards ∧ oneNetwork.dayIndex.endTime 4 < t.registeredAt := by
  refine ⟨Reachable.foldl (.new _) ⟨allows_registerAt (by decide), trivial,
    allows_withdrawAt (by rw [step_time]; decide), trivial, allows_withdrawAt (by rw [step_time]; decide), trivial,
    trivial⟩, by decide +kernel, ?_⟩
  have hterms : (oneRun earlyRun).terms oneName = [⟨1000 + 5 * 86400 + 100, none, [4, 5, 6, 7],
      [⟨4 * (rewardPerBlock - 1), [4, 5, 6, 7].map (·, rewardPerBlock - 1)⟩]⟩] := by
    decide +kernel
  rw [hterms]
  exact ⟨_, mem_cons_self, _, mem_cons_self, rfl, mem_cons_self, by decide⟩

theorem notEarly_registerAt : w.NotEarly oneNetwork (registerAt timestamp h) := by
  rintro old ⟨param, hreq, -⟩
  cases hreq

theorem notEarly_withdrawAt (hall : ((w.db.registrations snapshotGid oneName).all fun old =>
      MovesForward oneNetwork old (withdrawAt timestamp h).env.snapshotBlock) = true) :
    w.NotEarly oneNetwork (withdrawAt timestamp h) := by
  rintro old ⟨param, hreq, hold⟩
  cases hreq
  rw [hold] at hall
  exact of_decide_eq_true hall

theorem steps_paidRun_notEarly : Steps oneNetwork (NotEarly oneNetwork) oneGroup paidRun :=
  ⟨allows_registerAt (by decide), notEarly_registerAt, allows_withdrawAt (by rw [step_time]; decide),
    notEarly_withdrawAt (by decide +kernel), allows_withdrawAt (by rw [step_time]; decide),
    notEarly_withdrawAt (by decide +kernel), trivial⟩

theorem rewards_inside_registration_paidRun : (((oneRun paidRun).terms oneName).flatMap (·.issues)).length = 2 ∧
    ∀ t ∈ (oneRun paidRun).terms oneName, ∀ i ∈ t.issues, i.amount = i.total ∧ ∀ d ∈ i.days,
      t.registeredAt ≤ oneNetwork.dayIndex.startTime d ∧
        ∀ revoked ∈ t.revokedAt, oneNetwork.dayIndex.endTime d ≤ revoked :=
  ⟨by decide +kernel, rewards_inside_registration.1 _ (Reachable.foldl (.new _) steps_paidRun_notEarly) oneName⟩

end SbpWorld

end GoVite.Governance

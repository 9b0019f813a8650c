import GoVite.Sanity.Governance.Receives

/-! A computation of a reward that fails. The error of the reader comes out of `CalcReward`; a panic does not. -/

namespace GoVite.Governance
open KeyStore Consensus ExceptRules

def LeavesAlone (db : GovernanceDb) (x : Except ReceiveError Receipt) : Prop :=
  ∀ db' calls, x = .ok (db', calls) → db'.registrations = db.registrations ∧ calls = []

variable {N : Network} {reader : ConsensusReader} {env : VmEnvironment} {old : Registration}

theorem leavesAlone_error {db : GovernanceDb} {x : Except ReceiveError Receipt}
    (h : ∀ receipt, x ≠ .ok receipt) : LeavesAlone db x := fun db' calls hok => absurd hok (h (db', calls))

theorem checkRewardDrained_error {e : VmError} (h : recoverCalcReward N env reader old = .error e) :
    checkRewardDrained N env reader old = .error e := by
  rw [checkRewardDrained, h]
  rfl

section
variable {db : GovernanceDb} {send : SendBlock} {e : VmError} (herr : recoverCalcReward N env reader old = .error e)
include herr

theorem withdrawReward_fails {param : ParamReward}
    (hold : db.registrations param.version.gid param.sbpName = some old) (receipt : Receipt) :
    withdrawReward N reader env db send param ≠ .ok receipt := by
  intro hok
  obtain ⟨old', -, result, hold', -, hresult, -⟩ := withdrawReward_ok hok
  obtain rfl := Option.mem_unique hold hold'
  rw [herr] at hresult
  cases hresult

theorem revoke_fails {param : ParamCancelRegister}
    (hold : db.registrations param.version.gid param.sbpName = some old) (receipt : Receipt) :
    revoke N reader env db send param ≠ .ok receipt := by
  intro hok
  obtain ⟨old', -, drained, hold', -, hdrained, -⟩ := revoke_ok hok
  obtain rfl := Option.mem_unique hold hold'
  rw [checkRewardDrained_error herr] at hdrained
  cases hdrained

theorem register_fails {param : ParamRegister}
    (hold : db.registrations param.version.gid param.sbpName = some old) (receipt : Receipt) :
    register N reader env db send param ≠ .ok receipt := by
  intro hok
  obtain ⟨-, -, -, -, -, -, hchecked⟩ := register_ok hok
  have hdrained := (hchecked old hold).2
  rw [checkRewardDrained_error herr] at hdrained
  cases hdrained

end

/-- When the computation of the reward fails, `CalcReward` returns an error and the methods leave the registration
alone, exactly if it did not fail by a panic. -/
theorem failed_read_changes_nothing (N : Network) (reader : ConsensusReader) (env : VmEnvironment) (old : Registration)
    (f : Failure) (hf : calcReward N env reader old = .error f) :
    ((∃ e, recoverCalcReward N env reader old = .error e) ∧
      ∀ (db : GovernanceDb) (send : SendBlock) (request : Request),
        db.registrations request.gid request.sbpName = some old →
          LeavesAlone db (receive N reader env db send request)) ↔ f ≠ .panic := by
  constructor
  · rintro ⟨⟨e, he⟩, -⟩ rfl
    rw [recoverCalcReward, hf] at he
    cases he
  · intro hne
    cases f with
    | panic => exact absurd rfl hne
    | error e =>
      have herr : recoverCalcReward N env reader old = .error e := by rw [recoverCalcReward, hf]
      refine ⟨⟨e, herr⟩, fun db send request hold => leavesAlone_error ?_⟩
      cases request with
      | register param => exact register_fails herr hold
      | revoke param => exact revoke_fails herr hold
      | withdrawReward param => exact withdrawReward_fails herr hold

/-- A registration paid up to day 100, and a reader whose statistics end in `f`. -/
def paidUp : Registration := ⟨oneName, 60, 50, 50, sbpStakeAmountPreMainnet, 10, 1000 + 100 * 86400, 0, [60]⟩

def failReader (f : Failure) : ConsensusReader :=
  { vmConsensusReader oneNetwork.dayIndex (fun _ _ => .ok []) with getConsensusDetailByDay := fun _ _ => .error f }

theorem failTime_pos : (0 : ℤ) < 1000 + 103 * 86400 := by decide

def failEnv : VmEnvironment := ⟨⟨20, 1000 + 103 * 86400, failTime_pos⟩, 20⟩

def paidUpDb : GovernanceDb :=
  ⟨fun gid name => if gid = snapshotGid ∧ name = oneName then some paidUp else none, fun _ _ => none, fun _ => none⟩

/-- What a withdrawal by the staker leaves as the reward time. -/
def rewardTimeAfter (f : Failure) : Option ℤ :=
  match withdrawReward oneNetwork (failReader f) failEnv paidUpDb ⟨50, 0, viteTokenId⟩ ⟨.v3, oneName, 50⟩ with
  | .ok (db, _) => (db.registrations snapshotGid oneName).map (·.rewardTime)
  | .error _ => none

theorem panic_resets_reward_time :
    calcReward oneNetwork failEnv (failReader .panic) paidUp = .error .panic ∧
    recoverCalcReward oneNetwork failEnv (failReader .panic) paidUp = .ok ⟨0, 0, none, false⟩ ∧
    paidUp.rewardTime = 1000 + 100 * 86400 ∧ rewardTimeAfter .panic = some 0 := by
  decide +kernel

theorem failed_read_changes_nothing_error :
    calcReward oneNetwork failEnv (failReader (.error .invalidMethodParam)) paidUp =
      .error (.error .invalidMethodParam) ∧
    ∃ e, recoverCalcReward oneNetwork failEnv (failReader (.error .invalidMethodParam)) paidUp = .error e := by
  have hf : calcReward oneNetwork failEnv (failReader (.error .invalidMethodParam)) paidUp =
      .error (.error .invalidMethodParam) := by decide +kernel
  exact ⟨hf, ((failed_read_changes_nothing _ _ _ _ _ hf).2 (by decide)).1⟩

end GoVite.Governance

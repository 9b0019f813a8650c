import GoVite.Sanity.Governance.Days

/-! What a receive of the governance contract does to the registration it is about, and what it leaves alone. -/

namespace GoVite.Governance
open KeyStore Consensus ExceptRules Except

/-- Of the registrations, that of the name is set and the others are as they were. -/
structure Sets (db db' : GovernanceDb) (gid : Gid) (name : Name) (reg : Registration) : Prop where
  self : db'.registrations gid name = some reg
  others : ∀ g n, ¬(g = gid ∧ n = name) → db'.registrations g n = db.registrations g n

variable {N : Network} {reader : ConsensusReader} {env : VmEnvironment} {db db' : GovernanceDb} {send : SendBlock}
  {calls : List CallBlock}

theorem sets_setRegistration (db : GovernanceDb) (gid : Gid) (name : Name) (reg : Registration) :
    Sets db (db.setRegistration gid name reg) gid name reg := by
  refine ⟨by simp [GovernanceDb.setRegistration], fun g n hne => ?_⟩
  by_cases hg : g = gid
  · have hn : n ≠ name := fun hn => hne ⟨hg, hn⟩
    simp [GovernanceDb.setRegistration, hg, hn]
  · simp [GovernanceDb.setRegistration, hg]

theorem Sets.refl {gid : Gid} {name : Name} {reg : Registration} (h : db.registrations gid name = some reg) :
    Sets db db gid name reg := ⟨h, fun _ _ _ => rfl⟩

section
variable (earth : Bool) (r : Registration)

@[simp] theorem packRegistration_rewardTime :
    (packRegistration earth r).rewardTime = r.rewardTime := by cases earth <;> rfl

@[simp] theorem packRegistration_name : (packRegistration earth r).name = r.name := by cases earth <;> rfl

@[simp] theorem packRegistration_revokeTime :
    (packRegistration earth r).revokeTime = r.revokeTime := by cases earth <;> rfl

end

theorem addHisAddr_ok {gid : Gid} {name : Name} {addr : Address} {l l' : List Address}
    (h : addHisAddr db gid name addr l = .ok (db', l')) : db'.registrations = db.registrations := by
  unfold addHisAddr at h
  cases hname : db.hisNames addr gid with
  | none =>
    rw [hname] at h
    cases h
    rfl
  | some hisName =>
    rw [hname] at h
    obtain ⟨-, h⟩ := guard_ok h
    cases h
    rfl

theorem dealWithErr_ok {α : Type} {x : Except VmError α} {a : α} (h : dealWithErr x = .ok a) : x = .ok a := mapError_ok h

/-- An old registration of the name is revoked and has nothing left to pay. -/
theorem checkOld_ok {old : Option Registration} {l : List Address} (h : checkOld N reader env send old = .ok l) :
    ∀ r ∈ old, r.isActive = false ∧ checkRewardDrained N env reader r = .ok true := by
  rintro r rfl
  obtain ⟨hguard, h⟩ := guard_ok h
  obtain ⟨drained, hdrained, h⟩ := bind_ok h
  obtain ⟨hd, -⟩ := guard_ok h
  have hactive : r.isActive = false := by
    cases hr : r.isActive with
    | false => rfl
    | true => simp [hr] at hguard
  have htrue : drained = true := by simpa using hd
  exact ⟨hactive, htrue ▸ dealWithErr_ok hdrained⟩

theorem register_ok {param : ParamRegister} (h : register N reader env db send param = .ok (db', calls)) : ∃ reg,
    Sets db db' param.version.gid param.sbpName reg ∧
      reg.rewardTime = (if param.version.gid = snapshotGid then env.snapshotBlock.timestamp else 0) ∧
      reg.revokeTime = 0 ∧ reg.name = param.sbpName ∧ calls = [] ∧
      ∀ old ∈ db.registrations param.version.gid param.sbpName,
        old.isActive = false ∧ checkRewardDrained N env reader old = .ok true := by
  obtain ⟨-, h⟩ := guard_ok h
  obtain ⟨hisAddrList, hold, h⟩ := bind_ok h
  obtain ⟨⟨db₁, hisAddrList'⟩, hhis, h⟩ := bind_ok h
  have hsame := addHisAddr_ok hhis
  dsimp only at h
  cases hgroup : db₁.groups param.version.gid with
  | none =>
    rw [hgroup] at h
    cases h
  | some stakeHeight =>
    rw [hgroup] at h
    cases h
    have hset := sets_setRegistration db₁ param.version.gid param.sbpName
    refine ⟨_, ⟨(hset _).self, fun g n hne => ((hset _).others g n hne).trans (by rw [hsame])⟩, ?_, ?_, ?_, rfl,
      checkOld_ok hold⟩
    · rw [packRegistration_rewardTime]
    · rw [packRegistration_revokeTime]
    · rw [packRegistration_name]

theorem revoke_ok {param : ParamCancelRegister} (h : revoke N reader env db send param = .ok (db', calls)) :
    ∃ old reg drained, db.registrations param.version.gid param.sbpName = some old ∧ old.isActive = true ∧
      checkRewardDrained N env reader old = .ok drained ∧ Sets db db' param.version.gid param.sbpName reg ∧
      reg.rewardTime = (if drained then -1 else old.rewardTime) ∧ reg.revokeTime = env.snapshotBlock.timestamp ∧
      reg.name = old.name ∧ calls.filterMap (·.data.issued) = [] := by
  unfold revoke at h
  dsimp only at h
  cases hold : db.registrations param.version.gid param.sbpName with
  | none =>
    rw [hold] at h
    cases h
  | some old =>
    rw [hold] at h
    obtain ⟨hguard, h⟩ := guard_ok h
    obtain ⟨drained, hdrained, h⟩ := bind_ok h
    have hactive : old.isActive = true := by
      cases hr : old.isActive with
      | true => rfl
      | false => simp [hr] at hguard
    cases h
    refine ⟨old, _, drained, rfl, hactive, dealWithErr_ok hdrained, sets_setRegistration _ _ _ _, ?_, ?_, ?_, ?_⟩
    · rw [packRegistration_rewardTime]
    · rw [packRegistration_revokeTime]
    · rw [packRegistration_name]
    · split_ifs <;> rfl

/-- A withdrawal moves the reward time to the end of what it was asked for, and has the whole reward issued or nothing. -/
theorem withdrawReward_ok {param : ParamReward} (h : withdrawReward N reader env db send param = .ok (db', calls)) :
    ∃ old reg result, db.registrations param.version.gid param.sbpName = some old ∧ old.rewardTime ≠ -1 ∧
      recoverCalcReward N env reader old = .ok result ∧ Sets db db' param.version.gid param.sbpName reg ∧
      reg.rewardTime = (if result.drained then -1 else result.endTime) ∧ reg.revokeTime = old.revokeTime ∧
      reg.name = old.name ∧ (calls.filterMap (·.data.issued) = [] ∨
        ∃ reward, result.reward = some reward ∧ calls.filterMap (·.data.issued) = [reward.totalReward]) := by
  unfold withdrawReward at h
  dsimp only at h
  cases hold : db.registrations param.version.gid param.sbpName with
  | none =>
    rw [hold] at h
    cases h
  | some old =>
    rw [hold] at h
    obtain ⟨hguard, h⟩ := guard_ok h
    obtain ⟨result, hresult, h⟩ := bind_ok h
    have hreward : old.rewardTime ≠ -1 := fun heq => by simp [heq] at hguard
    by_cases hsame : (if result.drained then -1 else result.endTime) = old.rewardTime
    · rw [if_pos hsame] at h
      cases h
      exact ⟨old, old, result, rfl, hreward, dealWithErr_ok hresult, Sets.refl hold, hsame.symm, rfl, rfl, .inl rfl⟩
    · rw [if_neg hsame] at h
      have hset : db' = db.setRegistration param.version.gid param.sbpName
          (packRegistration (N.isEarthUpgrade env.latestHeight)
            { old with rewardTime := if result.drained then -1 else result.endTime }) ∧
          (calls.filterMap (·.data.issued) = [] ∨
            ∃ reward, result.reward = some reward ∧ calls.filterMap (·.data.issued) = [reward.totalReward]) := by
        cases hrew : result.reward with
        | none =>
          rw [hrew] at h
          cases h
          exact ⟨rfl, .inl rfl⟩
        | some reward =>
          rw [hrew] at h
          dsimp only at h
          by_cases hpos : 0 < reward.totalReward
          · rw [if_pos hpos] at h
            cases h
            refine ⟨rfl, .inr ⟨reward, rfl, ?_⟩⟩
            split_ifs <;> rfl
          · rw [if_neg hpos] at h
            cases h
            exact ⟨rfl, .inl rfl⟩
      obtain ⟨hdb', hissued⟩ := hset
      subst hdb'
      refine ⟨old, _, result, rfl, hreward, dealWithErr_ok hresult, sets_setRegistration _ _ _ _, ?_, ?_, ?_, hissued⟩
      · rw [packRegistration_rewardTime]
      · rw [packRegistration_revokeTime]
      · rw [packRegistration_name]

end GoVite.Governance

import Mathlib.Tactic.Ring

/-! The tables that turn a stake or a proof of work into quota, and their inverse (`vm/quota/quota.go`). Amounts that are
nil or not positive count as zero. -/

namespace GoVite.Quota

def quotaLimitForBlock : ℕ := 1000000
def quotaForSection : ℕ := 280
def sectionLen : ℕ := 3571
def qcDivision : ℕ := 1000000000000000000

inductive PowError
  | blockQuotaLimitReached | diverges
  deriving DecidableEq

/-- The amounts at which the sections begin. -/
structure SectionList where
  list : List ℕ
  length_eq : list.length = sectionLen + 1
  increasing : list.Pairwise (· < ·)

structure QuotaConfig where
  difficultyList : SectionList
  stakeAmountList : SectionList

def getExactIndex (x : ℕ) (list : List ℕ) (index : ℕ) : ℕ :=
  if index = 0 ∨ list.getD index 0 ≤ x then index else index - 1

/-- It is called with `left ≤ right` only. -/
def getIndexInBigIntList (x : ℕ) (list : List ℕ) (left right : ℕ) : ℕ :=
  if h : right ≤ left then getExactIndex x list left
  else
    let mid := (left + right + 1) / 2
    if list.getD mid 0 = x then mid
    else if x < list.getD mid 0 then getIndexInBigIntList x list left (mid - 1)
    else getIndexInBigIntList x list mid right
termination_by right - left

def calcQuotaByIndex (index : ℕ) : ℕ := if index ≤ sectionLen then index * quotaForSection else 0

def calcStakeParam (qc : ℕ) (isCongestion : Bool) (param : ℕ) : ℕ :=
  if isCongestion then param * qc / qcDivision else param

/-- The quota of an amount by one of the tables. -/
def sectionQuota (sections : SectionList) (qc : ℕ) (isCongestion : Bool) (amount : ℕ) : ℕ :=
  if amount = 0 then 0
  else calcQuotaByIndex (getIndexInBigIntList (calcStakeParam qc isCongestion amount) sections.list 0 sectionLen)

def calcStakeQuota (C : QuotaConfig) : ℕ → Bool → ℕ → ℕ := sectionQuota C.stakeAmountList

def calcPoWQuota (C : QuotaConfig) : ℕ → Bool → ℕ → ℕ := sectionQuota C.difficultyList

def getIndexByQuota (q : ℕ) : Except PowError ℕ :=
  let index := (q + quotaForSection - 1) / quotaForSection
  if sectionLen < index ∨ index * quotaForSection < q then .error .blockQuotaLimitReached else .ok index

/-- The loop of `calcStakeTargetParam`, for some turns. -/
def targetLoop (qc : ℕ) (isCongestion : Bool) (target : ℕ) : ℕ → ℕ → Except PowError ℕ
  | 0, _ => .error .diverges
  | fuel + 1, newTarget =>
    if target ≤ calcStakeParam qc isCongestion newTarget then .ok newTarget
    else targetLoop qc isCongestion target fuel (newTarget + 1)

def calcStakeTargetParam (fuel qc : ℕ) (isCongestion : Bool) (target : ℕ) : Except PowError ℕ := do
  let newTarget ← targetLoop qc isCongestion target fuel (target * qcDivision / qc)
  if newTarget < 2 ^ 256 then .ok newTarget else .error .blockQuotaLimitReached

/-- `CalcPoWDifficulty` for the current quota and the congestion that `CalcQc` returns. -/
def calcPoWDifficulty (C : QuotaConfig) (fuel qc : ℕ) (isCongestion : Bool) (quotaRequired current : ℕ) :
    Except PowError ℕ :=
  if quotaLimitForBlock < quotaRequired then .error .blockQuotaLimitReached
  else if quotaRequired ≤ current then .ok 0
  else do
    let index ← getIndexByQuota quotaRequired
    let difficulty := C.difficultyList.list.getD index 0
    if isCongestion then calcStakeTargetParam fuel qc isCongestion difficulty else .ok difficulty

end GoVite.Quota

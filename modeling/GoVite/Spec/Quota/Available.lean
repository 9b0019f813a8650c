import GoVite.Spec.Chain.QuotaList

/-! The quota an account can use (`calcQuotaTotal` in `vm/quota/quota.go`), from what its stake gives for each snapshot
and what its blocks used. -/

namespace GoVite.Quota
open ChainCache

inductive QuotaError
  | invalidUnconfirmedQuota | db
  deriving DecidableEq

end GoVite.Quota

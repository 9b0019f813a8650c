import GoVite.Spec.Quota.Available
import Mathlib.Data.List.Forall2
import Mathlib.Order.Bounds.Basic

/-! The quota of an account: its bounds, how it moves with stake and use, and the best run of snapshots behind it. -/

namespace GoVite.Quota
open ChainCache List

variable {s s' : ℕ} {l l' : List QuotaInfo}

end GoVite.Quota

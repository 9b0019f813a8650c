import GoVite.Proofs.Asset.Circulation
import GoVite.Proofs.Chain.ClosedUnconfirmed
import GoVite.Proofs.Chain.ConfirmHeights
import GoVite.Proofs.Chain.OnRoadIndex
import GoVite.Proofs.Chain.UsedQuotas
import GoVite.Proofs.Consensus.CachedPoints
import GoVite.Proofs.Consensus.FullCommittee
import GoVite.Proofs.Consensus.SeedCommitments
import GoVite.Proofs.Consensus.SuccessRates
import GoVite.Proofs.Dex.DividendPools
import GoVite.Proofs.Dex.ExactPasses
import GoVite.Proofs.Dex.ExpiredRefund
import GoVite.Proofs.Dex.FeeTotals
import GoVite.Proofs.Dex.FillOrKill
import GoVite.Proofs.Dex.MarketAgents
import GoVite.Proofs.Dex.PeriodDivision
import GoVite.Proofs.Dex.RateString
import GoVite.Proofs.Dex.StakeCycle
import GoVite.Proofs.Dex.TokenRecords
import GoVite.Proofs.Dex.VxSum
import GoVite.Proofs.Dex.VxUnlocks
import GoVite.Proofs.Governance.DailyInflation
import GoVite.Proofs.Governance.FailedReads
import GoVite.Proofs.Governance.RewardDays
import GoVite.Proofs.Net.BlockStore
import GoVite.Proofs.Net.CacheReader
import GoVite.Proofs.Net.ConnPool
import GoVite.Proofs.Net.Lookup
import GoVite.Proofs.Net.Neighbors
import GoVite.Proofs.Net.Suppression
import GoVite.Proofs.Pool.BatchLevels
import GoVite.Proofs.Pool.IrreversibleBlocks
import GoVite.Proofs.Quota.AvailableQuota
import GoVite.Proofs.Quota.PowDifficulty
import GoVite.Proofs.Quota.StakeLocks
import GoVite.Proofs.Vm.PushData
import GoVite.Proofs.VmDb.ReceiptHash

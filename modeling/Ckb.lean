import Ckb.Support.FiniteMap
import Ckb.Support.Worklist
import Ckb.Types.Core
import Ckb.TxPool.Entry
import Ckb.TxPool.Links
import Ckb.TxPool.Edges
import Ckb.TxPool.PoolMap
import Ckb.TxPool.Frame
import Ckb.TxPool.LinkSpec
import Ckb.TxPool.EdgeSpec
import Ckb.TxPool.Reachable
import Ckb.TxPool.Indexes
import Ckb.TxPool.Removal
import Ckb.TxPool.Insertion
import Ckb.TxPool.Consistency
import Ckb.Support.ExceptOption
import Ckb.Types.Molecule
import Ckb.Cell.Resolve
import Ckb.Cell.ResolveSpec
import Ckb.Cell.Check
import Ckb.Cell.SeenInputs
import Ckb.Cell.CheckSpec
import Ckb.Cell.Agreement
import Ckb.Types.Epoch
import Ckb.Types.Consensus
import Ckb.Verification.Since
import Ckb.Verification.SinceSpec
import Ckb.Types.Block
import Ckb.Types.SerializedSize
import Ckb.Types.Difficulty
import Ckb.Types.HeaderDigest
import Ckb.Store.Transaction
import Ckb.Store.Cell
import Ckb.Store.CellSpec
import Ckb.Chain.ProposalTable
import Ckb.Support.MountainRange
import Ckb.Chain.Verify
import Ckb.Support.BlockTree
import Ckb.Chain.MainChain
import Ckb.Chain.ForkSpec
import Ckb.Chain.LiveCells
import Ckb.Chain.ReconcileSpec
import Ckb.Chain.Columns
import Ckb.Chain.Heaviest
import Ckb.Chain.Service
import Ckb.Chain.RootMMR
import Ckb.Chain.ProposalTableSpec
import Ckb.Verification.TwoPhaseCommit
import Ckb.Chain.Proposals
import Ckb.Reward.Calculator
import Ckb.Reward.ProposalReward
import Ckb.Support.Bracketing
import Ckb.Light.DigestMerge
import Ckb.Light.Sampling
import Ckb.Light.SearchSpec
import Ckb.Light.SamplingSpec
import Ckb.Versionbits.Checker
import Ckb.Versionbits.StateSpec
import Ckb.TxPool.SortKey
import Ckb.TxPool.Atomicity
import Ckb.Sync.Inflight
import Ckb.Sync.InflightSpec
import Ckb.TxPool.Pool
import Ckb.TxPool.LimitSize
import Ckb.TxPool.Closure
import Ckb.TxPool.Replacement
import Ckb.BlockAssembler.Assembler
import Ckb.BlockAssembler.SizeSpec
import Ckb.TxPool.CommitTxsScanner
import Ckb.TxPool.ScanReady
import Ckb.TxPool.ScanModified
import Ckb.TxPool.ScanPackage
import Ckb.TxPool.ScanRound
import Ckb.TxPool.ScanSpec
import Ckb.Types.Extras
import Ckb.Shared.HeaderIndexView
import Ckb.Shared.AncestorSpec
import Ckb.Shared.HeaderMap
import Ckb.Shared.HeaderMapSpec
import Ckb.Support.Median
import Ckb.Verification.MedianTime
import Ckb.Versionbits.SignalWindow
import Ckb.Support.LittleEndian
import Ckb.Dao.Data
import Ckb.Types.OccupiedCapacity
import Ckb.Types.WitnessArgs
import Ckb.Dao.Calculator
import Ckb.Dao.WithdrawSpec
import Ckb.Dao.FieldSpec
import Ckb.Verification.Uncles
import Ckb.Verification.UnclesSpec
import Ckb.Sync.SchedulerSpec
import Ckb.FeeEstimator.WeightUnitsFlow
import Ckb.FeeEstimator.BucketSpec
import Ckb.Sync.Locator
import Ckb.Sync.LocatorSpec
import Ckb.Support.Chunks
import Ckb.Sync.BlockFetcher
import Ckb.Sync.BlockFetcherSpec
import Ckb.Sync.Peers
import Ckb.Sync.PeersSpec
import Ckb.Support.IndexedList
import Ckb.Network.AddrManager
import Ckb.Network.AddrManagerSpec
import Ckb.Types.Rational
import Ckb.Types.RationalSpec
import Ckb.Spec.NextEpoch
import Ckb.Spec.NextEpochSpec
import Ckb.Chain.OrphanBlockPool
import Ckb.Chain.OrphanBlockPoolSpec
import Ckb.TxPool.OrphanPool
import Ckb.TxPool.OrphanPoolSpec
import Ckb.TxPool.VerifyQueue
import Ckb.TxPool.VerifyQueueSpec
import Ckb.Support.SeenSet
import Ckb.Types.MoleculeTable
import Ckb.Verification.NonContextual
import Ckb.Verification.NonContextualSpec
import Ckb.Verification.Header
import Ckb.Verification.HeaderSpec
import Ckb.Network.BanList
import Ckb.Network.BanListSpec
import Ckb.TxPool.RecentReject
import Ckb.TxPool.RecentRejectSpec

import KalamDB.Sql.PlanCache
import KalamDB.Rls.PreAuthorization
import KalamDB.Rls.Correctness
import KalamDB.Raft.WatermarkOrder
import KalamDB.Raft.Wedging
import KalamDB.Jobs.Idempotency
import KalamDB.Raft.SnapshotInstall
import KalamDB.Raft.LogStorage
import KalamDB.Raft.AppliedIndex
import KalamDB.Dml.BatchAtomicity
import KalamDB.Transactions.ReadYourWrites
import KalamDB.Segments.FailingReads
import KalamDB.Segments.LostUpdates
import KalamDB.Segments.PendingFlag
import KalamDB.RowFilter.Integers
import KalamDB.SharedTable.PkUniqueness
import KalamDB.Live.NoSilentGap
import KalamDB.Live.SubscriberIndex
import KalamDB.Transactions.Owners
import KalamDB.Transactions.LeaderLoss
import KalamDB.Transactions.Savepoints
import KalamDB.Raft.VersionOrder
import KalamDB.Transactions.PkClaims
import KalamDB.Storage.GroupCommit
import KalamDB.Topics.Offsets
import KalamDB.Topics.RetainedBytes
import KalamDB.Topics.TailCache
import KalamDB.Topics.FetchReturns
import KalamDB.Vector.Disclosure
import KalamDB.Segments.BucketIdentity
import KalamDB.Topics.GroupOffsets
import KalamDB.Functions.Deadline

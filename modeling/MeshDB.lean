import MeshDB.Batcheval.EndTransaction
import MeshDB.Closedts.Replication
import MeshDB.Closedts.Tracker
import MeshDB.Concurrency.UnreplicatedLocks
import MeshDB.Gc.Garbage
import MeshDB.KvCoord.Committer
import MeshDB.KvCoord.LockCoverage
import MeshDB.KvCoord.ParallelCommit
import MeshDB.KvCoord.ResumeCoverage
import MeshDB.KvCoord.Savepoints
import MeshDB.KvCoord.TxnCoordSender
import MeshDB.Kvpb.BatchSplit
import MeshDB.Kvserver.BatchUpdates
import MeshDB.Kvserver.ClosedTimestampSafety
import MeshDB.Kvserver.LeaseHistory
import MeshDB.Kvserver.SidetransportAccess
import MeshDB.Opt.Constraint
import MeshDB.Rangefeed.ResolvedTimestamp
import MeshDB.Roachpb.SubtractSpans
import MeshDB.Roachpb.TxnUpdate
import MeshDB.SpanLatch.Invariant
import MeshDB.Storage.Decoding
import MeshDB.Storage.GarbageCollectSafety
import MeshDB.Storage.RangeKeyVersions
import MeshDB.Tscache.History
import MeshDB.Tscache.TreeJoin
import MeshDB.Txnwait.Deadlock
import MeshDB.Util.Clock
import MeshDB.Util.Duration

import BumbleBee.Concurrency.TimeoutSafe
import BumbleBee.Mvcc.Abort
import BumbleBee.Mvcc.EveryRun
import BumbleBee.Mvcc.WatermarkRuns
import BumbleBee.Execution.InsertWorkers
import BumbleBee.Metadata.AllOrNothing
import BumbleBee.Metadata.CatalogChain
import BumbleBee.Main.MemoryBooks
import BumbleBee.Main.SessionsProgress
import BumbleBee.Main.StatementReads
import BumbleBee.Parallel.Completion
import BumbleBee.Parallel.TaskDemand
import BumbleBee.Buffer.ArcInvariants
import BumbleBee.Buffer.PageIds
import BumbleBee.External.CrashSafety
import BumbleBee.External.Statements
import BumbleBee.External.WriteGuard
import BumbleBee.Types.ChunkCollection
import BumbleBee.Types.IntegerCast
import BumbleBee.Types.StringHeap
import BumbleBee.Expression.LikeMatch
import BumbleBee.Sort.TopNResult
import BumbleBee.HashTable.GroupTable
import BumbleBee.Join.SemiAnti

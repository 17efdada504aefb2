import Jdbx.Utils.CheckpointCounts
import Jdbx.Utils.HazardRelease
import Jdbx.Utils.CheckpointRewinds
import Jdbx.Utils.JsonLiterals
import Jdbx.Utils.JsonCacheRuns
import Jdbx.Utils.StringPoolRuns
import Jdbx.Lockfree.HazardRuns
import Jdbx.Rbac.Base64Memory
import Jdbx.Core.StrtokCallers
import Jdbx.Storage.RepeatedRecovery
import Jdbx.Query.QueryCorrectness
import Jdbx.Query.Projections
import Jdbx.Query.SortOrder
import Jdbx.Query.FieldPaths
import Jdbx.Index.SecondaryIndex
import Jdbx.Database.ConcurrentUpdates
import Jdbx.Database.CachedQueries
import Jdbx.Rbac.JwtCacheRuns
import Jdbx.Database.ComparedStrings
import Jdbx.Database.ConcurrentInserts
import Jdbx.Rbac.SessionRuns
import Jdbx.Rbac.RoleMembership
import Jdbx.Transaction.TransactionTable
import Jdbx.Database.DeadlockVictims
import Jdbx.Database.LockRuns
import Jdbx.Database.EndingRuns
import Jdbx.Transaction.LogCompaction
import Jdbx.Transaction.TransactionRetry
import Jdbx.Core.QueueRuns
import Jdbx.Core.PoolWaiters
import Jdbx.Core.PoolThreads
import Jdbx.Core.RequestStreams
import Jdbx.Core.AuthCookies
import Jdbx.Core.ConnectionRuns
import Jdbx.Core.StaticFiles
import Jdbx.Utils.JsonWriteSizes
import Jdbx.Utils.RefJson
import Jdbx.Utils.JsonCopiers
import Jdbx.Utils.StoredJson
import Jdbx.Utils.InputValidation
import Jdbx.Utils.JsonCursor
import Jdbx.Storage.InsertFailures
import Jdbx.Rbac.Authentication
import Jdbx.Js.NativeStorage
import Jdbx.Js.FunctionResolver
import Jdbx.Storage.BTreeShape
import Jdbx.Query.Pagination
import Jdbx.Database.PolicyCascade
import Jdbx.Core.CircuitBreaker
import Jdbx.Utils.CacheRefinement
import Jdbx.Database.SchemaVerdicts
import Jdbx.Index.CollectionIndexes
import Jdbx.Database.JsonSchemaVerdicts
import Jdbx.Database.VersionRestore
import Jdbx.Database.BatchInsert
import Jdbx.Library.StatefulMap

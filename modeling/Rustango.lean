import Rustango.Lib.Keyed
import Rustango.Migrate.Snapshot
import Rustango.Lib.ThreeWay
import Rustango.Migrate.Merge
import Rustango.Migrate.MergeCorrect
import Rustango.Migrate.Closed
import Rustango.Migrate.MergeClosed
import Rustango.Lib.Slots
import Rustango.Migrate.Change
import Rustango.Migrate.Schema
import Rustango.Migrate.Rename
import Rustango.Migrate.Baseline
import Rustango.Migrate.Diff
import Rustango.Migrate.FkNames
import Rustango.Migrate.DiffJunction
import Rustango.Migrate.JunctionColumns
import Rustango.Lib.Settle
import Rustango.Migrate.EarlyCreations
import Rustango.Migrate.ShapeAt
import Rustango.Migrate.ShapeColumns
import Rustango.Migrate.RenderStep
import Rustango.Migrate.DiffRun
import Rustango.Migrate.DiffTables
import Rustango.Migrate.DiffComplete
import Rustango.Query.Ir
import Rustango.Query.QuerySet
import Rustango.Lib.Firsts
import Rustango.Query.Meaning
import Rustango.Lib.Precedence
import Rustango.Query.Condition
import Rustango.Lib.Outcome
import Rustango.Query.Where
import Rustango.Query.TextLookup
import Rustango.Query.WhereText
import Rustango.Lib.Pieces
import Rustango.Lib.PrefixCode
import Rustango.Lib.Assignments
import Rustango.Lib.TokenBucket
import Rustango.Lib.TreePaths
import Rustango.Lib.Lasts
import Rustango.Query.LookupGrammar
import Rustango.Query.LookupKeys
import Rustango.Query.Joins
import Rustango.Query.Compile
import Rustango.Lib.Leaders
import Rustango.Query.Dedup
import Rustango.Query.Dml
import Rustango.Query.Order
import Rustango.Query.Distinct
import Rustango.Query.DistinctOn
import Rustango.Query.DmlFetch
import Rustango.Query.SetOps
import Rustango.Query.Fetch
import Rustango.Query.Count
import Rustango.Query.Derived
import Rustango.Query.Page
import Rustango.Query.PageTotal
import Rustango.Query.Summaries
import Rustango.Query.Update
import Rustango.Migrate.Runner
import Rustango.Migrate.Squash
import Rustango.Migrate.Segments
import Rustango.Migrate.AtomicSqlite
import Rustango.Lib.Numeral
import Rustango.Lib.Worklist
import Rustango.Migrate.Files
import Rustango.Migrate.Branches
import Rustango.Migrate.MergeFile
import Rustango.Migrate.Plan
import Rustango.Migrate.PlanOrder
import Rustango.Lib.Views
import Rustango.Cache.Flat
import Rustango.Cache.KeySpace
import Rustango.Cache.Scoped
import Rustango.Cache.Isolation
import Rustango.Lib.Threads
import Rustango.AccountLockout.Account
import Rustango.AccountLockout.Run
import Rustango.AccountLockout.Protocol
import Rustango.AccountLockout.Ledger
import Rustango.AccountLockout.Keeps
import Rustango.AccountLockout.Bounded
import Rustango.DistributedLock.Lock
import Rustango.DistributedLock.Run
import Rustango.DistributedLock.Protocol
import Rustango.DistributedLock.Ledger
import Rustango.DistributedLock.Keeps
import Rustango.DistributedLock.OncePerPeriod
import Rustango.Idempotency.Handle
import Rustango.Idempotency.Once
import Rustango.Idempotency.Digest
import Rustango.Idempotency.Replay
import Rustango.Jobs.Queue
import Rustango.Jobs.Step
import Rustango.Jobs.Lease
import Rustango.Jobs.DeadLetter
import Rustango.MemoryQueue.Queue
import Rustango.MemoryQueue.Places
import Rustango.MemoryQueue.Conserve
import Rustango.Resolver.Cache
import Rustango.Resolver.Run
import Rustango.Resolver.Protocol
import Rustango.Resolver.Ledger
import Rustango.Resolver.Keeps
import Rustango.Resolver.Fresh
import Rustango.Atomic.Tx
import Rustango.Atomic.Forest
import Rustango.Atomic.Step
import Rustango.Atomic.Stack
import Rustango.Atomic.Queued
import Rustango.Atomic.Hooks
import Rustango.Writer.Ir
import Rustango.Writer.Buffer
import Rustango.Writer.Select
import Rustango.Writer.Tree
import Rustango.Writer.Equality
import Rustango.Writer.Slots
import Rustango.Writer.Takes
import Rustango.Writer.Flows
import Rustango.Writer.Nesting
import Rustango.Writer.TreeFlows
import Rustango.Writer.HiddenColumn
import Rustango.Upsert.UniqueKeys
import Rustango.Upsert.Batches
import Rustango.RateLimit.Layer
import Rustango.RateLimit.Run
import Rustango.Sqlite.JsonEq
import Rustango.Query.Names
import Rustango.Query.InBatches
import Rustango.MemoryCache.Pins
import Rustango.Lib.Utf8
import Rustango.Lib.Halves
import Rustango.Lib.WebUrl
import Rustango.Url.Codec
import Rustango.Url.Iri
import Rustango.Url.Meaning
import Rustango.Url.Reverse
import Rustango.Url.Redirect
import Rustango.RealIp.Addr
import Rustango.RealIp.Layer
import Rustango.Pagination.Query
import Rustango.Pagination.Links
import Rustango.Pagination.Pages
import Rustango.Pagination.Elided
import Rustango.Query.ChunkedIter
import Rustango.Query.Drains
import Rustango.Lib.Regroup
import Rustango.Totp.Base32
import Rustango.Lib.Base64
import Rustango.Signing.Base62
import Rustango.Signing.Signer
import Rustango.Signing.RoundTrip
import Rustango.Migrate.Invert
import Rustango.Migrate.DropOrder
import Rustango.SignedUrl.Params
import Rustango.SignedUrl.Sign
import Rustango.JwtLifecycle.JtiMap
import Rustango.JwtLifecycle.Token
import Rustango.JwtLifecycle.Run
import Rustango.JwtLifecycle.Protocol
import Rustango.JwtLifecycle.Ledger
import Rustango.JwtLifecycle.SingleUse
import Rustango.Viewset.FkTarget
import Rustango.Lib.Expiring
import Rustango.Csv.Writer
import Rustango.DatabaseCache.StoredKey
import Rustango.DatabaseCache.CounterText
import Rustango.DatabaseCache.Table
import Rustango.DatabaseCache.Ops
import Rustango.DatabaseCache.TtlMap
import Rustango.DatabaseCache.Holds
import Rustango.DatabaseCache.Refines
import Rustango.Lib.Ranked
import Rustango.Viewset.ListData
import Rustango.Viewset.HookedList
import Rustango.Lib.Walk
import Rustango.Viewset.CursorToken
import Rustango.Viewset.CursorPages
import Rustango.MemoryCache.Refines
import Rustango.RateLimit.FixedWindow
import Rustango.HmacAuth.Request
import Rustango.HmacAuth.Covered
import Rustango.HmacAuth.Replay

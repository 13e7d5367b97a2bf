import VenomDb.Buffer.Agreement
import VenomDb.Buffer.BufferPool
import VenomDb.Buffer.Checkpoint
import VenomDb.Buffer.Client
import VenomDb.Buffer.Contents
import VenomDb.Buffer.DiskErrors
import VenomDb.Buffer.Eviction
import VenomDb.Buffer.Frames
import VenomDb.Buffer.Lru
import VenomDb.Buffer.PageStore
import VenomDb.Buffer.Pins
import VenomDb.Buffer.Residence
import VenomDb.Buffer.Saturation
import VenomDb.Buffer.Throughout
import VenomDb.Buffer.Transparency
import VenomDb.Buffer.Versions
import VenomDb.Concurrency.Deadlock
import VenomDb.Concurrency.LockManager
import VenomDb.Concurrency.LockSteps
import VenomDb.Concurrency.Locking
import VenomDb.Concurrency.Serializability
import VenomDb.Concurrency.WaitsFor
import VenomDb.Concurrency.WakeUp
import VenomDb.Engine.Alignment
import VenomDb.Engine.Ample
import VenomDb.Engine.Atomicity
import VenomDb.Engine.BeforeImages
import VenomDb.Engine.Blind
import VenomDb.Engine.Catalog
import VenomDb.Engine.Crashes
import VenomDb.Engine.DamagedRow
import VenomDb.Engine.DataDirectory
import VenomDb.Engine.DeleteRecords
import VenomDb.Engine.Durability
import VenomDb.Engine.Effects
import VenomDb.Engine.Evaluate
import VenomDb.Engine.Executor
import VenomDb.Engine.FinishedWork
import VenomDb.Engine.Healthy
import VenomDb.Engine.Idempotence
import VenomDb.Engine.IndexContents
import VenomDb.Engine.IndexManager
import VenomDb.Engine.IndexRebuild
import VenomDb.Engine.IndexRouting
import VenomDb.Engine.InsertPanics
import VenomDb.Engine.Intact
import VenomDb.Engine.IntactRuns
import VenomDb.Engine.Interrupted
import VenomDb.Engine.Invariants
import VenomDb.Engine.Journal
import VenomDb.Engine.KeyColumn
import VenomDb.Engine.Keys
import VenomDb.Engine.Leaks
import VenomDb.Engine.Legible
import VenomDb.Engine.LogGrammar
import VenomDb.Engine.Logical
import VenomDb.Engine.Moments
import VenomDb.Engine.OrderBy
import VenomDb.Engine.Ownership
import VenomDb.Engine.Pins
import VenomDb.Engine.Placement
import VenomDb.Engine.PrimaryKeys
import VenomDb.Engine.Queries
import VenomDb.Engine.Readings
import VenomDb.Engine.Recover
import VenomDb.Engine.Refinement
import VenomDb.Engine.Rejected
import VenomDb.Engine.Relational
import VenomDb.Engine.Replay
import VenomDb.Engine.Restart
import VenomDb.Engine.Room
import VenomDb.Engine.RowFormat
import VenomDb.Engine.Runs
import VenomDb.Engine.Scan
import VenomDb.Engine.SelectPanics
import VenomDb.Engine.SlotReplay
import VenomDb.Engine.Sound
import VenomDb.Engine.StaleCopies
import VenomDb.Engine.Statements
import VenomDb.Engine.Survival
import VenomDb.Engine.SystemCalls
import VenomDb.Engine.UnusedIndexes
import VenomDb.Engine.Updates
import VenomDb.Engine.WriteAhead
import VenomDb.Failure
import VenomDb.Hnsw.Beam
import VenomDb.Hnsw.Degrees
import VenomDb.Hnsw.Graph
import VenomDb.Hnsw.Insertion
import VenomDb.Hnsw.Links
import VenomDb.Hnsw.Reachability
import VenomDb.Hnsw.Search
import VenomDb.Hnsw.SearchLayer
import VenomDb.Index.Arranged
import VenomDb.Index.BTree
import VenomDb.Index.FiniteMap
import VenomDb.Index.Height
import VenomDb.Index.Insert
import VenomDb.Index.Node
import VenomDb.Index.NodeFormat
import VenomDb.Index.RangeScan
import VenomDb.Index.Shape
import VenomDb.Index.Structure
import VenomDb.Lib.Bytes
import VenomDb.Lib.Connectivity
import VenomDb.Lib.Counters
import VenomDb.Lib.Cycles
import VenomDb.Lib.Fallible
import VenomDb.Lib.Folders
import VenomDb.Lib.Lru
import VenomDb.Lib.Maps
import VenomDb.Lib.Ranking
import VenomDb.Lib.Readers
import VenomDb.Lib.Schedules
import VenomDb.Lib.StableSort
import VenomDb.Recovery.DamagedLog
import VenomDb.Recovery.LogFile
import VenomDb.Recovery.LogRecord
import VenomDb.Recovery.Sessions
import VenomDb.Recovery.Vouched
import VenomDb.Recovery.Wal
import VenomDb.Shell.Repl
import VenomDb.Shell.Transactions
import VenomDb.Shell.Transcripts
import VenomDb.Sql.Ast
import VenomDb.Sql.Grammar
import VenomDb.Sql.Lexer
import VenomDb.Sql.Parser
import VenomDb.Sql.RoundTrip
import VenomDb.Storage.CatalogFormat
import VenomDb.Storage.CatalogStore
import VenomDb.Storage.CatalogTruncation
import VenomDb.Storage.DiskManager
import VenomDb.Storage.FileFormats
import VenomDb.Storage.Page
import VenomDb.Storage.PageHistory
import VenomDb.Storage.SlottedPage

import BankManagement.AccountBooks
import BankManagement.Agreement
import BankManagement.AtomicBank
import BankManagement.AtomicObject
import BankManagement.AuditIds
import BankManagement.AuditQueries
import BankManagement.AuthService
import BankManagement.Backends
import BankManagement.BankHistory
import BankManagement.BankingService
import BankManagement.Batching
import BankManagement.CallProgress
import BankManagement.ConcurrentBooks
import BankManagement.ConcurrentLogins
import BankManagement.CrashAtomicity
import BankManagement.DatabaseRefinement
import BankManagement.DecodedFields
import BankManagement.DisjointTransactions
import BankManagement.Domain
import BankManagement.DurableBank
import BankManagement.Journal
import BankManagement.Json
import BankManagement.JsonGrammar
import BankManagement.JsonParser
import BankManagement.JsonRoundTrip
import BankManagement.JsonSyntax
import BankManagement.KeyedTable
import BankManagement.Ledger
import BankManagement.Lifecycle
import BankManagement.LineFraming
import BankManagement.Linearisability
import BankManagement.LocalActions
import BankManagement.LockOrder
import BankManagement.LostUpdates
import BankManagement.PinHashes
import BankManagement.Pipeline
import BankManagement.PipelineIds
import BankManagement.PipelineLocks
import BankManagement.PipelineOutcomes
import BankManagement.PipelineSteps
import BankManagement.PipelineTrail
import BankManagement.PipelineWatch
import BankManagement.PoolWakeups
import BankManagement.ProcessFaults
import BankManagement.ProcessImpl
import BankManagement.ProcessThrows
import BankManagement.Recovery
import BankManagement.Repositories
import BankManagement.RepositoryCalls
import BankManagement.RowMapping
import BankManagement.Runs
import BankManagement.ScopedAccountLock
import BankManagement.Serialisability
import BankManagement.Serializer
import BankManagement.ServiceThrows
import BankManagement.SessionTable
import BankManagement.Shutdown
import BankManagement.SnapshotStore
import BankManagement.Sqlite
import BankManagement.SqliteContents
import BankManagement.SqliteStatements
import BankManagement.SqliteTables
import BankManagement.StatusChanges
import BankManagement.StatusGates
import BankManagement.StatusRecovery
import BankManagement.StopReturns
import BankManagement.ThreadPool
import BankManagement.Throwing
import BankManagement.TransactionEffects
import BankManagement.TransactionOps
import BankManagement.TransactionProcessor
import BankManagement.TransactionProcessorIds
import BankManagement.TransactionProcessorPairing
import BankManagement.TransactionQueue
import BankManagement.Wakeups
import BankManagement.WalCoherence
import BankManagement.WalDamage
import BankManagement.WalFaults
import BankManagement.WalFraming
import BankManagement.WalLogger

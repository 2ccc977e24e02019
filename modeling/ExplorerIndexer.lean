import ExplorerIndexer.AsyncProgram
import ExplorerIndexer.AsyncWrites
import ExplorerIndexer.StoreTable
import ExplorerIndexer.StoreVersioned
import ExplorerIndexer.StoreLifespans
import ExplorerIndexer.StoreAsOf
import ExplorerIndexer.StoreBatches
import ExplorerIndexer.ModelViews
import ExplorerIndexer.StoreCache
import ExplorerIndexer.ModelEvents
import ExplorerIndexer.ModelSerializers
import ExplorerIndexer.ModelRows
import ExplorerIndexer.Database
import ExplorerIndexer.DatabaseOutlines
import ExplorerIndexer.AdapterAccounts
import ExplorerIndexer.AccountsRows
import ExplorerIndexer.AccountsRefinement
import ExplorerIndexer.AccountsImplicit
import ExplorerIndexer.AccountsReplay
import ExplorerIndexer.AdapterAccessKeys
import ExplorerIndexer.AccessKeysRows
import ExplorerIndexer.AccessKeysConfluence
import ExplorerIndexer.AccessKeysDeletion
import ExplorerIndexer.AccessKeysReplay
import ExplorerIndexer.AccessKeysPermission
import ExplorerIndexer.AccessKeysTransfers
import ExplorerIndexer.AccessKeysLives
import ExplorerIndexer.AccessKeysGrouping
import ExplorerIndexer.BlockOrder
import ExplorerIndexer.AsyncAlone
import ExplorerIndexer.AsyncOutline
import ExplorerIndexer.AsyncFailures
import ExplorerIndexer.AsyncStream
import ExplorerIndexer.AsyncRecord
import ExplorerIndexer.AsyncKeeps
import ExplorerIndexer.AsyncResumption
import ExplorerIndexer.AsyncOwned
import ExplorerIndexer.StoreResumption
import ExplorerIndexer.AdapterTransactions
import ExplorerIndexer.AdapterExecutionOutcomes
import ExplorerIndexer.AdapterReceipts
import ExplorerIndexer.ReceiptsLookups
import ExplorerIndexer.AdapterBlocks
import ExplorerIndexer.AdapterEvents
import ExplorerIndexer.HandleMessage
import ExplorerIndexer.HandleMessageQueries
import ExplorerIndexer.ListenBlocks
import ExplorerIndexer.HandleMessageBlocks
import ExplorerIndexer.ShardedMessages
import ExplorerIndexer.HandleMessageState
import ExplorerIndexer.IndexerConfig
import ExplorerIndexer.AggregatedSupply
import ExplorerIndexer.AggregatedLockups
import ExplorerIndexer.OutcomesStored
import ExplorerIndexer.HandleMessageFrame
import ExplorerIndexer.AsyncStatements
import ExplorerIndexer.AsyncPool
import ExplorerIndexer.AsyncCalls
import ExplorerIndexer.AsyncReplay
import ExplorerIndexer.IndexerRuns
import ExplorerIndexer.ParentsSound
import ExplorerIndexer.ParentsRoots
import ExplorerIndexer.EventsStored
import ExplorerIndexer.CollidedHashes
import ExplorerIndexer.CollidedReplay
import ExplorerIndexer.TransactionsComplete
import ExplorerIndexer.ReceiptsOutlines
import ExplorerIndexer.ReceiptsSearch
import ExplorerIndexer.ReceiptsComplete
import ExplorerIndexer.ReceiptsChain
import ExplorerIndexer.ReceiptsSections
import ExplorerIndexer.ReceiptsCached
import ExplorerIndexer.ReceiptsResolved
import ExplorerIndexer.ReceiptsUninterrupted
import ExplorerIndexer.MachineWords
import ExplorerIndexer.LinearRelease
import ExplorerIndexer.LockupContract
import ExplorerIndexer.LockupAmounts
import ExplorerIndexer.AggregatedConservation
import ExplorerIndexer.AggregatedDays
import ExplorerIndexer.AccountChangesOrder
import ExplorerIndexer.NullCharacters
import ExplorerIndexer.TransactionActions
import ExplorerIndexer.StreamCodes
import ExplorerIndexer.EscapedArguments
import ExplorerIndexer.AdapterGenesis
import ExplorerIndexer.GenesisBatches
import ExplorerIndexer.AccessKeysCollected
import ExplorerIndexer.StoreIndexes
import ExplorerIndexer.AccountChangesStored
import ExplorerIndexer.NestedLoops
import ExplorerIndexer.EventsNumbering
import ExplorerIndexer.AsyncRounds
import ExplorerIndexer.ReceiptsExit
import ExplorerIndexer.ReceiptsRounds
import ExplorerIndexer.StoreSchema
import ExplorerIndexer.DatabaseSchema
import ExplorerIndexer.ChainRows
import ExplorerIndexer.ChainWrites
import ExplorerIndexer.ChainOutlines
import ExplorerIndexer.ChainReceipts
import ExplorerIndexer.ChainKeys
import ExplorerIndexer.ChainHandled
import ExplorerIndexer.AsyncSequence
import ExplorerIndexer.GenesisImports
import ExplorerIndexer.ChainPools
import ExplorerIndexer.ChainHistories
import ExplorerIndexer.ChainTables
import ExplorerIndexer.StoredActions
import ExplorerIndexer.ChainActions
import ExplorerIndexer.AsyncDrained
import ExplorerIndexer.RetryLoops
import ExplorerIndexer.ChainRestarts
import ExplorerIndexer.AsyncTotal
import ExplorerIndexer.AdaptersTotal
import ExplorerIndexer.ChainClosed
import ExplorerIndexer.ChainConstraints
import ExplorerIndexer.ChainProgress
import ExplorerIndexer.ChainState
import ExplorerIndexer.ChainLives
import ExplorerIndexer.LockupHistories

import ExplorerIndexer.AdapterEvents
import ExplorerIndexer.AdapterExecutionOutcomes
import ExplorerIndexer.AdapterReceipts
import ExplorerIndexer.AdapterTransactions
import ExplorerIndexer.AdapterBlocks
import ExplorerIndexer.DatabaseSchema

/-! The rows that a message of the stream stands for, table by table. What is open is left open: the parent
transactions of its receipts, and whether a transaction goes under its hash or under its hash with a suffix. -/

namespace ExplorerIndexer

open Async Store Models

namespace StreamerMessage

/-- The row of a transaction of a chunk, with its position in the chunk. -/
def transactionRow (message : StreamerMessage) (suffix : String) (chunk : IndexerChunkView)
    (entry : IndexerTransactionWithOutcome × Nat) : Transaction :=
  .fromIndexerTransaction entry.1 (Transactions.hashWithSuffix suffix entry.1) entry.1.convertedIntoReceiptId
    message.block.header.hash chunk.header.chunkHash message.block.header.timestamp entry.2

/-- The row of a receipt of a chunk, with its position in the chunk. -/
def receiptRow (message : StreamerMessage) (transactionHash : ParentTransactionHashString) (chunk : IndexerChunkView)
    (entry : ReceiptView × Nat) : Receipt :=
  .fromReceiptView entry.1 message.block.header.hash transactionHash chunk.header.chunkHash entry.2
    message.block.header.timestamp

/-- The rows of a message, if its receipts have the given parents and no hash of its transactions is taken. -/
def rows (decoders : Decoders) (parent : ReceiptView → ParentTransactionHashString) (message : StreamerMessage) :
    (name : TableName) → List name.Row
  | .blocks => [.ofView message.block]
  | .chunks => (chunksOf message.shards).map fun chunk => .fromChunkView chunk message.block.header.hash
  | .transactions => (chunksOf message.shards).flatMap fun chunk =>
      chunk.transactions.zipIdx.map (message.transactionRow "" chunk)
  | .transactionActions => (chunksOf message.shards).flatMap fun chunk =>
      Transactions.transactionActionModels decoders chunk.transactions.zipIdx
  | .receipts => (chunksOf message.shards).flatMap fun chunk =>
      chunk.receipts.zipIdx.map fun entry => message.receiptRow (parent entry.1) chunk entry
  | .actionReceipts => message.receipts.filterMap ActionReceipt.ofView?
  | .actionReceiptActions => Receipts.receiptActionModels decoders message.block.header.timestamp message.receipts
  | .actionReceiptInputData => Receipts.inputDataModels message.receipts
  | .actionReceiptOutputData => Receipts.outputDataModels message.receipts
  | .dataReceipts => message.receipts.filterMap DataReceipt.ofView?
  | .executionOutcomes => message.shards.flatMap fun shard =>
      ExecutionOutcomes.outcomeModels shard.receiptExecutionOutcomes shard.shardId message.block.header.timestamp
  | .executionOutcomeReceipts => ExecutionOutcomes.outcomeReceiptModels message.outcomes

/-- The hash of a transaction is taken by the row of another one. -/
def HashTaken (message : StreamerMessage) (tx : IndexerTransactionWithOutcome) (db : Database) : Prop :=
  ∃ row, db.transactions.lookup tx.transaction.hash.text = some row ∧
    ¬ (row.includedInBlockHash = message.block.header.hash ∧ row.convertedIntoReceiptId = tx.convertedIntoReceiptId)

/-- The rows that a message may be the source of. -/
inductive RowOf (decoders : Decoders) (message : StreamerMessage) : (name : TableName) → Database → name.Row → Prop
  | plain {name : TableName} {db : Database} {row : name.Row} (parent : ReceiptView → ParentTransactionHashString)
      (hrow : row ∈ message.rows decoders parent name) : RowOf decoders message name db row
  | collided {db : Database} {chunk : IndexerChunkView} {entry : IndexerTransactionWithOutcome × Nat}
      (hchunk : chunk ∈ chunksOf message.shards) (hentry : entry ∈ chunk.transactions.zipIdx)
      (htaken : message.HashTaken entry.1 db) :
      RowOf decoders message .transactions db
        (message.transactionRow (Transactions.issue84Suffix message.block.header.height) chunk entry)

/-- The rows of account changes of a message. -/
def accountChangeRows (message : StreamerMessage) : List AccountChange :=
  message.shards.flatMap fun shard =>
    (AccountChanges.accountChangesModels shard.stateChanges message.block.header.hash
      message.block.header.timestamp).getD []

def ftEventRows (decoders : Decoders) (message : StreamerMessage) : List FungibleTokenEvent :=
  message.shards.flatMap fun shard =>
    Events.composeFtDbEvents (Events.eventsWithOutcomes decoders Events.ftEventOf shard)
      message.block.header.timestamp shard.shardId

def nftEventRows (decoders : Decoders) (message : StreamerMessage) : List NonFungibleTokenEvent :=
  message.shards.flatMap fun shard =>
    Events.composeNftDbEvents (Events.eventsWithOutcomes decoders Events.nftEventOf shard)
      message.block.header.timestamp shard.shardId

end StreamerMessage

/-- Some message of the chain is a source of the row. -/
def OfChain (decoders : Decoders) (chain : List StreamerMessage) (name : TableName) (db : Database) (row : name.Row) :
    Prop := ∃ message ∈ chain, message.RowOf decoders name db row

/-- A hash that is taken stays taken by the same row. -/
theorem lasting_ofChain (decoders : Decoders) (chain : List StreamerMessage) :
    tables.Lasting (OfChain decoders chain) := by
  rintro db db' name row hextends ⟨message, hmessage, hrow⟩
  refine ⟨message, hmessage, ?_⟩
  cases hrow with
  | plain parent hrow => exact .plain parent hrow
  | collided hchunk hentry htaken =>
      obtain ⟨taker, htaker, hother⟩ := htaken
      exact .collided hchunk hentry ⟨taker, hextends .transactions _ taker htaker, hother⟩

end ExplorerIndexer

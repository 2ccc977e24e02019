import ExplorerIndexer.Database

/-! The transactions adapter. Each transaction is cached and stored under its hash; the transactions of a block
that did not make it into the table, because another block has a transaction with the same hash, are cached and
stored again under their hash with a suffix. -/

namespace ExplorerIndexer.Transactions

open Async Store Models

/-- The hash a transaction is cached and stored under. -/
def hashWithSuffix (transactionHashSuffix : String) (tx : IndexerTransactionWithOutcome) :
    ParentTransactionHashString :=
  tx.transaction.hash.text ++ transactionHashSuffix

theorem hashWithSuffix_empty (tx : IndexerTransactionWithOutcome) :
    hashWithSuffix "" tx = tx.transaction.hash.text := by
  rw [hashWithSuffix, String.append_empty]

/-- The suffix of the transactions of a block with collided hashes. -/
def issue84Suffix (blockHeight : Nat) : String := "_issue84_" ++ toString blockHeight

def cacheTransactions (transactionHashSuffix : String)
    (transactions : List (IndexerTransactionWithOutcome × Nat)) (cache : ReceiptsCache) : ReceiptsCache :=
  transactions.foldl (fun cache entry =>
    cache.cacheSet (.receiptId entry.1.convertedIntoReceiptId) (hashWithSuffix transactionHashSuffix entry.1)) cache

def transactionModels (transactions : List (IndexerTransactionWithOutcome × Nat))
    (chunkHash blockHash : CryptoHash) (blockTimestamp : Nat) (transactionHashSuffix : String) :
    List Transaction :=
  transactions.map fun (tx, index) =>
    .fromIndexerTransaction tx (hashWithSuffix transactionHashSuffix tx) tx.convertedIntoReceiptId blockHash
      chunkHash blockTimestamp index

/-- The actions go under the hash without its suffix. -/
def transactionActionModels (decoders : Decoders)
    (transactions : List (IndexerTransactionWithOutcome × Nat)) : List TransactionAction :=
  transactions.flatMap fun (tx, _) =>
    tx.transaction.actions.zipIdx.map fun (action, index) =>
      .fromActionView decoders tx.transaction.hash.text index action

/-! ### Statements -/

def insertTransactions (batch : List Transaction) : Statement World Unit :=
  execute (insertBatch (·.transactionHash) (·.transactions) (fun db transactions => { db with transactions })
    Database.transactionReferences batch)

def insertTransactionActions (batch : List TransactionAction) : Statement World Unit :=
  execute (insertBatch TransactionAction.key (·.transactionActions)
    (fun db transactionActions => { db with transactionActions }) Database.transactionActionReferences batch)

/-- The receipts that the stored transactions of a block were converted into. -/
def convertedToReceiptIds (blockHash : CryptoHash) (db : Database) : List CryptoHash :=
  (db.transactions.rows.filter fun row => row.includedInBlockHash = blockHash).map (·.convertedIntoReceiptId)

theorem mem_convertedToReceiptIds {db : Database} {receiptId blockHash : CryptoHash} :
    receiptId ∈ convertedToReceiptIds blockHash db ↔ ∃ hash row, db.transactions.lookup hash = some row ∧
      row.includedInBlockHash = blockHash ∧ row.convertedIntoReceiptId = receiptId := by
  simp only [convertedToReceiptIds, List.mem_map, List.mem_filter, decide_eq_true_eq, Table.mem_rows_iff_lookup]
  constructor
  · rintro ⟨row, ⟨⟨hash, hrow⟩, hblock⟩, hconverted⟩
    exact ⟨hash, row, hrow, hblock, hconverted⟩
  · rintro ⟨hash, row, hrow, hblock, hconverted⟩
    exact ⟨row, ⟨⟨hash, hrow⟩, hblock⟩, hconverted⟩

/-! ### Futures -/

def storeChunkTransactions (decoders : Decoders) (transactions : List (IndexerTransactionWithOutcome × Nat))
    (chunkHash blockHash : CryptoHash) (blockTimestamp : Nat) (transactionHashSuffix : String) :
    Prog World Unit := do
  let _ ← withCache fun cache => ((), cacheTransactions transactionHashSuffix transactions cache)
  let _ ← awaitRetryOrPanic (insertTransactions
    (transactionModels transactions chunkHash blockHash blockTimestamp transactionHashSuffix)) 10
  let _ ← awaitRetryOrPanic (insertTransactionActions (transactionActionModels decoders transactions)) 10

/-- The only statement that is not retried. -/
def collectConvertedToReceiptIds (blockHash : CryptoHash) : Prog World (List CryptoHash) :=
  .query (some 1) (selectFrom (convertedToReceiptIds blockHash)) (fun _ => false) fun ids => .ret (ids.getD [])

/-- The transactions of a chunk that were not inserted, with their positions in the chunk. -/
def collidedTransactions (insertedReceiptIds : List CryptoHash) (chunk : IndexerChunkView) :
    List (IndexerTransactionWithOutcome × Nat) :=
  chunk.transactions.zipIdx.filter fun entry => entry.1.convertedIntoReceiptId ∉ insertedReceiptIds

theorem mem_collidedTransactions {ids : List CryptoHash} {chunk : IndexerChunkView}
    {entry : IndexerTransactionWithOutcome × Nat} : entry ∈ collidedTransactions ids chunk ↔
      entry ∈ chunk.transactions.zipIdx ∧ entry.1.convertedIntoReceiptId ∉ ids := by
  rw [collidedTransactions, List.mem_filter, decide_eq_true_eq]

def storeTransactions (decoders : Decoders) (shards : List IndexerShard) (blockHash : CryptoHash)
    (blockTimestamp blockHeight : Nat) : Prog World Unit := do
  let triedToInsertTransactionsCount :=
    (chunksOf shards).foldl (fun count chunk => count + chunk.transactions.length) 0
  let _ ← Prog.joinAll ((chunksOf shards).map fun chunk =>
    storeChunkTransactions decoders chunk.transactions.zipIdx chunk.header.chunkHash blockHash blockTimestamp "")
  let insertedReceiptIds ← collectConvertedToReceiptIds blockHash
  if insertedReceiptIds.length = triedToInsertTransactionsCount then .ret ()
  else
    Prog.joinAll ((chunksOf shards).map fun chunk =>
      storeChunkTransactions decoders (collidedTransactions insertedReceiptIds chunk) chunk.header.chunkHash
        blockHash blockTimestamp (issue84Suffix blockHeight))

end ExplorerIndexer.Transactions

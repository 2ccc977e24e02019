import ExplorerIndexer.Database

/-! The receipts adapter. The parent transactions of a chunk's receipts are looked for in the receipts cache and,
for the receipts it does not know, in three tables, round after round; the receipts that are found are stored
with everything that belongs to them, the others are skipped. -/

namespace ExplorerIndexer.Receipts

open Async Store Models

/-- The map of found parent transactions. -/
abbrev TxHashes := Table ReceiptOrDataId ParentTransactionHashString

/-- What a receipt is known by before it is stored: its id or, for a Data receipt, its data id. -/
def receiptOrDataId (receipt : ReceiptView) : ReceiptOrDataId :=
  match receipt.receipt with
  | .action .. => .receiptId receipt.receiptId
  | .data dataId _ => .dataId dataId

/-- The entry of a data id is not used again, so it is taken out. -/
def askCache (receipt : ReceiptView) (cache : ReceiptsCache) : Option ParentTransactionHashString × ReceiptsCache :=
  match receipt.receipt with
  | .action .. => cache.cacheGet (.receiptId receipt.receiptId)
  | .data dataId _ => cache.cacheRemove (.dataId dataId)

def addFromCache (found : TxHashes × ReceiptsCache) (receipt : ReceiptView) : TxHashes × ReceiptsCache :=
  match askCache receipt found.2 with
  | (some transactionHash, cache) => (found.1.insert (receiptOrDataId receipt) transactionHash, cache)
  | (none, cache) => (found.1, cache)

/-- The receipts that the cache knows. -/
def askCacheForAll (receipts : List ReceiptView) (cache : ReceiptsCache) : TxHashes × ReceiptsCache :=
  receipts.foldl addFromCache (∅, cache)

/-! ### The search in the database -/

/-- The parents of data ids: those of the receipts that output them. -/
def viaDataOutput (dataIds : List CryptoHash) (db : Database) :
    List (CryptoHash × ParentTransactionHashString) :=
  (db.actionReceiptOutputData.rows.filter fun row => row.outputDataId ∈ dataIds).filterMap fun row =>
    (db.receipts.lookup row.outputFromReceiptId).map fun parent =>
      (row.outputDataId, parent.originatedFromTransactionHash)

/-- The parents of receipts: those of the receipts whose execution produced them. -/
def viaOutcomes (receiptIds : List CryptoHash) (db : Database) :
    List (CryptoHash × ParentTransactionHashString) :=
  (db.executionOutcomeReceipts.rows.filter fun row => row.producedReceiptId ∈ receiptIds).filterMap fun row =>
    (db.receipts.lookup row.executedReceiptId).map fun parent =>
      (row.producedReceiptId, parent.originatedFromTransactionHash)

/-- The transactions that were converted into receipts. -/
def viaTransactions (receiptIds : List CryptoHash) (db : Database) :
    List (CryptoHash × ParentTransactionHashString) :=
  (db.transactions.rows.filter fun row => row.convertedIntoReceiptId ∈ receiptIds).map fun row =>
    (row.convertedIntoReceiptId, row.transactionHash)

/-- The state of a search: what is found, the receipts that are left, the retries of the non-strict mode. -/
structure Search where
  txHashes : TxHashes
  receipts : List ReceiptView
  retriesLeft : Nat

namespace Search

def dataIds (search : Search) : List CryptoHash := search.receipts.filterMap (·.dataId?)

def actionReceiptIds (search : Search) : List CryptoHash :=
  (search.receipts.filter (·.isAction)).map (·.receiptId)

/-- Adds what a query has found, under receipt ids. The search is over if as many entries were found as receipts
were left, otherwise it goes on with those that are still not found. -/
def extend (search : Search) (found : List (CryptoHash × ParentTransactionHashString)) : Search ⊕ TxHashes :=
  let txHashes := found.foldl (fun txHashes entry => txHashes.insert (.receiptId entry.1) entry.2) search.txHashes
  if found.length = search.receipts.length then .inr txHashes
  else
    .inl { search with
      txHashes
      receipts := search.receipts.filter fun r => ReceiptOrDataId.receiptId r.receiptId ∉ txHashes }

/-- The parents of the Data receipts that are left, from those of their data ids. -/
def ofDataIds (search : Search) (txHashesForDataIds : List (CryptoHash × ParentTransactionHashString)) :
    List (CryptoHash × ParentTransactionHashString) :=
  let txHashesForDataIds : Table CryptoHash ParentTransactionHashString :=
    txHashesForDataIds.foldl (fun txHashes entry => txHashes.insert entry.1 entry.2) ∅
  search.receipts.filterMap fun r =>
    r.dataId?.bind fun dataId => (txHashesForDataIds.lookup dataId).map fun hash => (r.receiptId, hash)

/-- The rest of a round, unless the search is over. -/
def unlessOver (stage : Search ⊕ TxHashes) (next : Search → Prog World (Search ⊕ TxHashes)) :
    Prog World (Search ⊕ TxHashes) :=
  match stage with
  | .inl search => next search
  | .inr txHashes => .ret (.inr txHashes)

/-- The only statement that is retried without an end. -/
def askDataOutput (search : Search) : Prog World (Search ⊕ TxHashes) :=
  if search.dataIds.isEmpty then .ret (.inl search)
  else
    .query none (selectFrom (viaDataOutput search.dataIds)) (fun _ => false) fun rows =>
      .anyOrder (rows.getD []) fun rows => .ret (search.extend (search.ofDataIds rows))

def askOutcomes (search : Search) : Prog World (Search ⊕ TxHashes) := do
  let rows ← awaitRetryOrPanic (selectFrom (viaOutcomes search.actionReceiptIds)) 10
  .anyOrder (rows.getD []) fun rows => .ret (search.extend rows)

def askTransactions (search : Search) : Prog World (Search ⊕ TxHashes) := do
  let rows ← awaitRetryOrPanic (selectFrom (viaTransactions search.actionReceiptIds)) 10
  .anyOrder (rows.getD []) fun rows => .ret (search.extend rows)

/-- In the non-strict mode the search ends after some rounds. -/
def retry (strictMode : Bool) (search : Search) : Search ⊕ TxHashes :=
  if strictMode then .inl search
  else if 0 < search.retriesLeft then .inl { search with retriesLeft := search.retriesLeft - 1 }
  else .inr search.txHashes

def round (strictMode : Bool) (search : Search) : Prog World (Search ⊕ TxHashes) := do
  let stage ← search.askDataOutput
  unlessOver stage fun search => do
    let stage ← search.askOutcomes
    unlessOver stage fun search => do
      let stage ← search.askTransactions
      unlessOver stage fun search => .ret (search.retry strictMode)

end Search

/-- Looks for already created parent transaction hashes for the given receipts. -/
def findTxHashesForReceipts (strictMode : Bool) (receipts : List ReceiptView) : Prog World TxHashes := do
  let txHashes ← withCache (askCacheForAll receipts)
  let receipts := receipts.filter fun r => receiptOrDataId r ∉ txHashes
  if receipts.isEmpty then .ret txHashes
  else .loop (Search.round strictMode) { txHashes, receipts, retriesLeft := 4 } .ret

/-! ### Rows -/

/-- The rows of the receipts with a parent transaction; the other receipts are skipped. -/
def receiptModels (receipts : List ReceiptView) (blockHash chunkHash : CryptoHash) (blockTimestamp : Nat)
    (txHashes : TxHashes) : List Receipt :=
  receipts.zipIdx.filterMap fun (r, index) =>
    (txHashes.lookup (receiptOrDataId r)).map fun transactionHash =>
      .fromReceiptView r blockHash transactionHash chunkHash index blockTimestamp

def skippingReceiptIds (receipts : List ReceiptView) (txHashes : TxHashes) : List CryptoHash :=
  (receipts.filter fun r => (txHashes.lookup (receiptOrDataId r)).isNone).map (·.receiptId)

/-- The id of a Data receipt is not known when its data is output, so the data ids get the parent. -/
def cacheDataIds (receipts : List ReceiptView) (txHashes : TxHashes) (cache : ReceiptsCache) : ReceiptsCache :=
  receipts.foldl
    (fun cache receipt =>
      match txHashes.lookup (.receiptId receipt.receiptId) with
      | some transactionHash =>
          receipt.outputDataReceivers.foldl
            (fun cache dataReceiver => cache.cacheSet (.dataId dataReceiver.dataId) transactionHash) cache
      | none => cache)
    cache

def receiptActionModels (decoders : Decoders) (blockTimestamp : Nat) (receipts : List ReceiptView) :
    List ActionReceiptAction :=
  receipts.flatMap fun receipt =>
    receipt.actions.zipIdx.map fun (action, index) =>
      .fromActionView decoders receipt.receiptId index action receipt.predecessorId receipt.receiverId blockTimestamp

def inputDataModels (receipts : List ReceiptView) : List ActionReceiptInputData :=
  receipts.flatMap fun receipt =>
    receipt.inputDataIds.map fun dataId => { inputToReceiptId := receipt.receiptId, inputDataId := dataId }

def outputDataModels (receipts : List ReceiptView) : List ActionReceiptOutputData :=
  receipts.flatMap fun receipt =>
    receipt.outputDataReceivers.map fun receiver => .fromDataReceiver receipt.receiptId receiver

/-! ### Statements -/

def insertReceipts (batch : List Receipt) : Statement World Unit :=
  execute (insertBatch (·.receiptId) (·.receipts) (fun db receipts => { db with receipts })
    Database.receiptReferences batch)

def insertActionReceipts (batch : List ActionReceipt) : Statement World Unit :=
  execute (insertBatch (·.receiptId) (·.actionReceipts) (fun db actionReceipts => { db with actionReceipts })
    (fun db row => db.receiptFk "receipt_fk" row.receiptId) batch)

def insertActionReceiptActions (batch : List ActionReceiptAction) : Statement World Unit :=
  execute (insertBatch ActionReceiptAction.key (·.actionReceiptActions)
    (fun db actionReceiptActions => { db with actionReceiptActions })
    (fun db row => db.receiptFk "action_receipt_fk" row.receiptId) batch)

def insertOutputData (batch : List ActionReceiptOutputData) : Statement World Unit :=
  execute (insertBatch ActionReceiptOutputData.key (·.actionReceiptOutputData)
    (fun db actionReceiptOutputData => { db with actionReceiptOutputData })
    (fun db row => db.receiptFk "receipt_fk" row.outputFromReceiptId) batch)

def insertInputData (batch : List ActionReceiptInputData) : Statement World Unit :=
  execute (insertBatch ActionReceiptInputData.key (·.actionReceiptInputData)
    (fun db actionReceiptInputData => { db with actionReceiptInputData })
    (fun db row => db.receiptFk "receipt_fk" row.inputToReceiptId) batch)

def insertDataReceipts (batch : List DataReceipt) : Statement World Unit :=
  execute (insertBatch (·.dataId) (·.dataReceipts) (fun db dataReceipts => { db with dataReceipts })
    (fun db row => db.receiptFk "receipt_fk" row.receiptId) batch)

/-! ### Futures -/

def saveReceipts (receipts : List Receipt) : Prog World Unit := do
  let _ ← awaitRetryOrPanic (insertReceipts receipts) 10

def storeReceiptActions (decoders : Decoders) (receipts : List ReceiptView) (blockTimestamp : Nat) :
    Prog World Unit := do
  let _ ← awaitRetryOrPanic (insertActionReceipts (receipts.filterMap ActionReceipt.ofView?)) 10
  let _ ← awaitRetryOrPanic (insertActionReceiptActions (receiptActionModels decoders blockTimestamp receipts)) 10
  let _ ← awaitRetryOrPanic (insertOutputData (outputDataModels receipts)) 10
  let _ ← awaitRetryOrPanic (insertInputData (inputDataModels receipts)) 10

def storeReceiptData (receipts : List ReceiptView) : Prog World Unit := do
  let _ ← awaitRetryOrPanic (insertDataReceipts (receipts.filterMap DataReceipt.ofView?)) 10

def storeChunkReceipts (decoders : Decoders) (receipts : List ReceiptView) (blockHash chunkHash : CryptoHash)
    (blockTimestamp : Nat) (strictMode : Bool) : Prog World Unit := do
  let txHashes ← findTxHashesForReceipts strictMode receipts
  let _ ← withCache fun cache => ((), cacheDataIds receipts txHashes cache)
  let _ ← saveReceipts (receiptModels receipts blockHash chunkHash blockTimestamp txHashes)
  let (actionReceipts, dataReceipts) :=
    (receipts.filter fun r => r.receiptId ∉ skippingReceiptIds receipts txHashes).partition (·.isAction)
  .both (storeReceiptActions decoders actionReceipts blockTimestamp) (storeReceiptData dataReceipts)

def storeReceipts (decoders : Decoders) (shards : List IndexerShard) (blockHash : CryptoHash)
    (blockTimestamp : Nat) (strictMode : Bool) : Prog World Unit :=
  Prog.joinAll (((chunksOf shards).filter fun chunk => !chunk.receipts.isEmpty).map fun chunk =>
    storeChunkReceipts decoders chunk.receipts blockHash chunk.header.chunkHash blockTimestamp strictMode)

end ExplorerIndexer.Receipts

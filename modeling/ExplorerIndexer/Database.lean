import ExplorerIndexer.AsyncProgram
import ExplorerIndexer.ModelRows
import ExplorerIndexer.StoreCache

/-! The state the adapters share: the tables of the database, with the constraints of its schema, and the
receipts cache. The foreign keys of `accounts` and `access_keys` are left out: all they do is make a
statement fail, and a statement may fail at any attempt. -/

namespace ExplorerIndexer

open Async Store Models

inductive ReceiptOrDataId where
  | receiptId (id : CryptoHash)
  | dataId (id : CryptoHash)
  deriving DecidableEq

abbrev ReceiptsCache := SizedCache ReceiptOrDataId ParentTransactionHashString

structure Database where
  blocks : Table CryptoHash Block := ∅
  chunks : Table CryptoHash Chunk := ∅
  transactions : Table ParentTransactionHashString Transaction := ∅
  transactionActions : Table (ParentTransactionHashString × Nat) TransactionAction := ∅
  receipts : Table CryptoHash Receipt := ∅
  actionReceipts : Table CryptoHash ActionReceipt := ∅
  actionReceiptActions : Table (CryptoHash × Nat) ActionReceiptAction := ∅
  actionReceiptInputData : Table (CryptoHash × CryptoHash) ActionReceiptInputData := ∅
  actionReceiptOutputData : Table (CryptoHash × CryptoHash) ActionReceiptOutputData := ∅
  dataReceipts : Table CryptoHash DataReceipt := ∅
  executionOutcomes : Table CryptoHash ExecutionOutcome := ∅
  executionOutcomeReceipts : Table (CryptoHash × Nat × CryptoHash) ExecutionOutcomeReceipt := ∅
  accounts : Table AccountId Account := ∅
  accessKeys : Table (PublicKey × AccountId) AccessKey := ∅
  accountChanges : List AccountChange := []
  fungibleTokenEvents : List FungibleTokenEvent := []
  nonFungibleTokenEvents : List NonFungibleTokenEvent := []

structure World where
  cache : ReceiptsCache
  db : Database

/-! ### Primary keys -/

def Models.TransactionAction.key (row : TransactionAction) : ParentTransactionHashString × Nat :=
  (row.transactionHash, row.indexInTransaction)

def Models.ActionReceiptAction.key (row : ActionReceiptAction) : CryptoHash × Nat :=
  (row.receiptId, row.indexInActionReceipt)

def Models.ActionReceiptInputData.key (row : ActionReceiptInputData) : CryptoHash × CryptoHash :=
  (row.inputDataId, row.inputToReceiptId)

def Models.ActionReceiptOutputData.key (row : ActionReceiptOutputData) : CryptoHash × CryptoHash :=
  (row.outputDataId, row.outputFromReceiptId)

def Models.ExecutionOutcomeReceipt.key (row : ExecutionOutcomeReceipt) : CryptoHash × Nat × CryptoHash :=
  (row.executedReceiptId, row.indexInExecutionOutcome, row.producedReceiptId)

def Models.AccessKey.key (row : AccessKey) : PublicKey × AccountId := (row.publicKey, row.accountId)

/-! ### Foreign keys

The constraint a row would violate, if any. -/

def requires (holds : Bool) (constraintName : String) : Option String :=
  if holds then none else some constraintName

theorem requires_eq_none {holds : Bool} {constraintName : String} :
    requires holds constraintName = none ↔ holds = true := by
  unfold requires
  split <;> simp_all

namespace Database

def hasBlock (db : Database) (blockHash : CryptoHash) : Bool := blockHash ∈ db.blocks

def hasChunk (db : Database) (chunkHash : CryptoHash) : Bool := chunkHash ∈ db.chunks

def hasTransaction (db : Database) (transactionHash : ParentTransactionHashString) : Bool :=
  transactionHash ∈ db.transactions

def hasReceipt (db : Database) (receiptId : CryptoHash) : Bool := receiptId ∈ db.receipts

def chunkReferences (db : Database) (row : Chunk) : Option String :=
  requires (db.hasBlock row.includedInBlockHash) "chunks_fk"

def transactionReferences (db : Database) (row : Transaction) : Option String :=
  (requires (db.hasBlock row.includedInBlockHash) "block_tx_fk").or
    (requires (db.hasChunk row.includedInChunkHash) "chunk_tx_fk")

def transactionActionReferences (db : Database) (row : TransactionAction) : Option String :=
  requires (db.hasTransaction row.transactionHash) "tx_action_fk"

def receiptReferences (db : Database) (row : Receipt) : Option String :=
  ((requires (db.hasBlock row.includedInBlockHash) "block_receipts_fk").or
    (requires (db.hasChunk row.includedInChunkHash) "chunk_receipts_fk")).or
      (requires (db.hasTransaction row.originatedFromTransactionHash) "tx_receipt_fk")

/-- The constraint of every table with a column that names a receipt. -/
def receiptFk (db : Database) (constraintName : String) (receiptId : CryptoHash) : Option String :=
  requires (db.hasReceipt receiptId) constraintName

def executionOutcomeReferences (db : Database) (row : ExecutionOutcome) : Option String :=
  (requires (db.hasBlock row.executedInBlockHash) "block_hash_execution_outcome_fk").or
    (requires (db.hasReceipt row.receiptId) "receipt_execution_outcome_fk")

def executionOutcomeReceiptReferences (db : Database) (row : ExecutionOutcomeReceipt) : Option String :=
  (requires (row.executedReceiptId ∈ db.executionOutcomes) "execution_outcome_fk").or
    (requires (db.hasReceipt row.executedReceiptId) "receipts_fk")

def accountChangeReferences (db : Database) (row : AccountChange) : Option String :=
  (((requires (row.affectedAccountId ∈ db.accounts) "account_id_fk").or
    (requires (db.hasBlock row.changedInBlockHash) "block_hash_fk")).or
    (requires (row.causedByReceiptId.all db.hasReceipt) "receipt_id_fk")).or
    (requires (row.causedByTransactionHash.all fun hash => db.hasTransaction hash.text) "transaction_hash_fk")

/-- No statement on accounts looks at their foreign keys. -/
def accountReferences (db : Database) (row : Account) : Option String :=
  (requires (row.createdByReceiptId.all db.hasReceipt) "created_receipt_fk").or
    (requires (row.deletedByReceiptId.all db.hasReceipt) "deleted_receipt_fk")

/-- Nor do those on access keys. -/
def accessKeyReferences (db : Database) (row : AccessKey) : Option String :=
  (requires (row.createdByReceiptId.all db.hasReceipt) "created_by_receipt_fk").or
    (requires (row.deletedByReceiptId.all db.hasReceipt) "deleted_by_receipt_fk")

end Database

/-! ### Statements -/

/-- Runs a statement against the database part of the state. -/
def execute {β : Type} (stmt : Database → Except QueryError (β × Database)) : Statement World β :=
  fun w => (stmt w.db).map fun result => (result.1, { w with db := result.2 })

/-- `INSERT` of a batch: refused as a whole if one of the rows it would add violates a foreign key. -/
def insertBatch {κ ρ : Type} [DecidableEq κ] (key : ρ → κ) (table : Database → Table κ ρ)
    (store : Database → Table κ ρ → Database) (references : Database → ρ → Option String)
    (batch : List ρ) (db : Database) : Except QueryError (Unit × Database) :=
  match (Table.inserted key batch (table db)).findSome? (references db) with
  | some constraintName => .error (.violates constraintName)
  | none => .ok ((), store db ((table db).insertAllNew key batch))

theorem insertBatch_ok {κ ρ : Type} [DecidableEq κ] {key : ρ → κ} {table : Database → Table κ ρ}
    {store : Database → Table κ ρ → Database} {references : Database → ρ → Option String} {batch : List ρ}
    {db db' : Database} {b : Unit} (h : insertBatch key table store references batch db = .ok (b, db')) :
    db' = store db ((table db).insertAllNew key batch) ∧
      ∀ row ∈ Table.inserted key batch (table db), references db row = none := by
  unfold insertBatch at h
  split at h
  · cases h
  · rename_i hnone
    cases h
    exact ⟨rfl, List.findSome?_eq_none_iff.mp hnone⟩

theorem insertBatch_of_references {κ ρ : Type} [DecidableEq κ] {key : ρ → κ} {table : Database → Table κ ρ}
    {store : Database → Table κ ρ → Database} {references : Database → ρ → Option String} {batch : List ρ}
    {db : Database} (h : ∀ row ∈ Table.inserted key batch (table db), references db row = none) :
    insertBatch key table store references batch db =
      .ok ((), store db ((table db).insertAllNew key batch)) := by
  unfold insertBatch
  rw [List.findSome?_eq_none_iff.mpr h]

/-- A query that only reads. -/
def selectFrom {β : Type} (read : Database → β) : Statement World β := execute fun db => .ok (read db, db)

/-- An update that no constraint refuses. -/
def updateSet (update : Database → Database) : Statement World Unit := execute fun db => .ok ((), update db)

/-- `await_retry_or_panic!`: the statement is tried the given number of times, then the task fails. -/
def awaitRetryOrPanic {β : Type} (stmt : Statement World β) (numberOfRetries : Nat) : Prog World (Option β) :=
  .query (some numberOfRetries) stmt (fun _ => false) .ret

/-- One critical section of the receipts cache. -/
def withCache {β : Type} (act : ReceiptsCache → β × ReceiptsCache) : Prog World β :=
  .access (fun w => ((act w.cache).1, { w with cache := (act w.cache).2 })) .ret

theorem execute_ok {β : Type} {stmt : Database → Except QueryError (β × Database)} {w w' : World} {b : β}
    (h : execute stmt w = .ok (b, w')) : ∃ db, stmt w.db = .ok (b, db) ∧ w' = { w with db := db } := by
  unfold execute at h
  cases hstmt : stmt w.db with
  | error error =>
      rw [hstmt] at h
      cases h
  | ok result =>
      rw [hstmt] at h
      cases h
      exact ⟨result.2, rfl, rfl⟩

theorem selectFrom_ok {β : Type} {read : Database → β} {w w' : World} {b : β}
    (h : selectFrom read w = .ok (b, w')) : b = read w.db ∧ w' = w := by
  obtain ⟨db, hok, hw⟩ := execute_ok h
  cases hok
  exact ⟨rfl, hw⟩

theorem updateSet_ok {update : Database → Database} {w w' : World} {b : Unit}
    (h : updateSet update w = .ok (b, w')) : w' = { w with db := update w.db } := by
  obtain ⟨db, hok, hw⟩ := execute_ok h
  cases hok
  exact hw

end ExplorerIndexer

import ExplorerIndexer.Database
import ExplorerIndexer.StoreSchema

/-! The tables that the adapters only add rows to, as a schema with references. -/

namespace ExplorerIndexer

open Async Store Models

/-- The tables of rows that are inserted and never updated. -/
inductive TableName where
  | blocks
  | chunks
  | transactions
  | transactionActions
  | receipts
  | actionReceipts
  | actionReceiptActions
  | actionReceiptInputData
  | actionReceiptOutputData
  | dataReceipts
  | executionOutcomes
  | executionOutcomeReceipts
  deriving DecidableEq

namespace TableName

@[reducible] def Key : TableName → Type
  | blocks | chunks | receipts | actionReceipts | dataReceipts | executionOutcomes => CryptoHash
  | transactions => ParentTransactionHashString
  | transactionActions => ParentTransactionHashString × Nat
  | actionReceiptActions => CryptoHash × Nat
  | actionReceiptInputData | actionReceiptOutputData => CryptoHash × CryptoHash
  | executionOutcomeReceipts => CryptoHash × Nat × CryptoHash

@[reducible] def Row : TableName → Type
  | blocks => Block
  | chunks => Chunk
  | transactions => Transaction
  | transactionActions => TransactionAction
  | receipts => Receipt
  | actionReceipts => ActionReceipt
  | actionReceiptActions => ActionReceiptAction
  | actionReceiptInputData => ActionReceiptInputData
  | actionReceiptOutputData => ActionReceiptOutputData
  | dataReceipts => DataReceipt
  | executionOutcomes => ExecutionOutcome
  | executionOutcomeReceipts => ExecutionOutcomeReceipt

def decEqKey : (name : TableName) → DecidableEq name.Key
  | blocks | chunks | receipts | actionReceipts | dataReceipts | executionOutcomes =>
      inferInstanceAs (DecidableEq CryptoHash)
  | transactions => inferInstanceAs (DecidableEq ParentTransactionHashString)
  | transactionActions => inferInstanceAs (DecidableEq (ParentTransactionHashString × Nat))
  | actionReceiptActions => inferInstanceAs (DecidableEq (CryptoHash × Nat))
  | actionReceiptInputData | actionReceiptOutputData => inferInstanceAs (DecidableEq (CryptoHash × CryptoHash))
  | executionOutcomeReceipts => inferInstanceAs (DecidableEq (CryptoHash × Nat × CryptoHash))

/-- The primary key. -/
def key : (name : TableName) → name.Row → name.Key
  | blocks => (·.blockHash)
  | chunks => (·.chunkHash)
  | transactions => (·.transactionHash)
  | transactionActions => TransactionAction.key
  | receipts => (·.receiptId)
  | actionReceipts => (·.receiptId)
  | actionReceiptActions => ActionReceiptAction.key
  | actionReceiptInputData => ActionReceiptInputData.key
  | actionReceiptOutputData => ActionReceiptOutputData.key
  | dataReceipts => (·.dataId)
  | executionOutcomes => (·.receiptId)
  | executionOutcomeReceipts => ExecutionOutcomeReceipt.key

def get : (name : TableName) → Database → Table name.Key name.Row
  | blocks => (·.blocks)
  | chunks => (·.chunks)
  | transactions => (·.transactions)
  | transactionActions => (·.transactionActions)
  | receipts => (·.receipts)
  | actionReceipts => (·.actionReceipts)
  | actionReceiptActions => (·.actionReceiptActions)
  | actionReceiptInputData => (·.actionReceiptInputData)
  | actionReceiptOutputData => (·.actionReceiptOutputData)
  | dataReceipts => (·.dataReceipts)
  | executionOutcomes => (·.executionOutcomes)
  | executionOutcomeReceipts => (·.executionOutcomeReceipts)

def set : (name : TableName) → Database → Table name.Key name.Row → Database
  | blocks => fun db blocks => { db with blocks }
  | chunks => fun db chunks => { db with chunks }
  | transactions => fun db transactions => { db with transactions }
  | transactionActions => fun db transactionActions => { db with transactionActions }
  | receipts => fun db receipts => { db with receipts }
  | actionReceipts => fun db actionReceipts => { db with actionReceipts }
  | actionReceiptActions => fun db actionReceiptActions => { db with actionReceiptActions }
  | actionReceiptInputData => fun db actionReceiptInputData => { db with actionReceiptInputData }
  | actionReceiptOutputData => fun db actionReceiptOutputData => { db with actionReceiptOutputData }
  | dataReceipts => fun db dataReceipts => { db with dataReceipts }
  | executionOutcomes => fun db executionOutcomes => { db with executionOutcomes }
  | executionOutcomeReceipts => fun db executionOutcomeReceipts => { db with executionOutcomeReceipts }

/-- The foreign key that a row violates, if any. -/
def references : (name : TableName) → Database → name.Row → Option String
  | blocks => fun _ _ => none
  | chunks => Database.chunkReferences
  | transactions => Database.transactionReferences
  | transactionActions => Database.transactionActionReferences
  | receipts => Database.receiptReferences
  | actionReceipts => fun db row => db.receiptFk "receipt_fk" row.receiptId
  | actionReceiptActions => fun db row => db.receiptFk "action_receipt_fk" row.receiptId
  | actionReceiptInputData => fun db row => db.receiptFk "receipt_fk" row.inputToReceiptId
  | actionReceiptOutputData => fun db row => db.receiptFk "receipt_fk" row.outputFromReceiptId
  | dataReceipts => fun db row => db.receiptFk "receipt_fk" row.receiptId
  | executionOutcomes => Database.executionOutcomeReferences
  | executionOutcomeReceipts => Database.executionOutcomeReceiptReferences

end TableName

/-- The tables of the database that only grow. -/
def tables : Tables TableName Database where
  Key := TableName.Key
  Row := TableName.Row
  decEqKey := TableName.decEqKey
  key := TableName.key
  get := TableName.get
  set := TableName.set
  get_set := by
    intro name db t
    cases name <;> rfl
  get_set_of_ne := by
    intro name name' db t hne
    cases name <;> cases name' <;> first | rfl | exact (hne rfl).elim

/-! ### Rows that are referred to stay -/

theorem requires_of_imp {p p' : Bool} {constraintName : String} (hp : p = true → p' = true)
    (hnone : requires p constraintName = none) : requires p' constraintName = none :=
  requires_eq_none.mpr (hp (requires_eq_none.mp hnone))

theorem or_eq_none_of_imp {a a' b b' : Option String} (ha : a = none → a' = none) (hb : b = none → b' = none)
    (hnone : a.or b = none) : a'.or b' = none := by
  rw [Option.or_eq_none_iff] at hnone ⊢
  exact ⟨ha hnone.1, hb hnone.2⟩

instance (name : TableName) : DecidableEq name.Key := name.decEqKey

section Extends

variable {db db' : Database} (h : tables.Extends db db')

include h

theorem decide_mem_extends (name : TableName) (k : name.Key) (hmem : decide (k ∈ name.get db) = true) :
    decide (k ∈ name.get db') = true := by
  rw [decide_eq_true_eq] at hmem ⊢
  exact Tables.Extends.mem h hmem

theorem requires_mem_extends (name : TableName) (k : name.Key) {constraintName : String}
    (hnone : requires (k ∈ name.get db) constraintName = none) :
    requires (k ∈ name.get db') constraintName = none := requires_of_imp (decide_mem_extends h name k) hnone

theorem receiptFk_extends {constraintName : String} {receiptId : CryptoHash}
    (hnone : db.receiptFk constraintName receiptId = none) : db'.receiptFk constraintName receiptId = none :=
  requires_mem_extends h .receipts receiptId hnone

/-- A row that refers to what is there goes on doing so. -/
theorem references_extends (name : TableName) (row : name.Row) (hnone : name.references db row = none) :
    name.references db' row = none := by
  cases name with
  | blocks => rfl
  | chunks => exact requires_mem_extends h .blocks _ hnone
  | transactions =>
      exact or_eq_none_of_imp (requires_mem_extends h .blocks _) (requires_mem_extends h .chunks _) hnone
  | transactionActions => exact requires_mem_extends h .transactions _ hnone
  | receipts =>
      exact or_eq_none_of_imp
        (or_eq_none_of_imp (requires_mem_extends h .blocks _) (requires_mem_extends h .chunks _))
        (requires_mem_extends h .transactions _) hnone
  | actionReceipts => exact receiptFk_extends h hnone
  | actionReceiptActions => exact receiptFk_extends h hnone
  | actionReceiptInputData => exact receiptFk_extends h hnone
  | actionReceiptOutputData => exact receiptFk_extends h hnone
  | dataReceipts => exact receiptFk_extends h hnone
  | executionOutcomes =>
      exact or_eq_none_of_imp (requires_mem_extends h .blocks _) (requires_mem_extends h .receipts _) hnone
  | executionOutcomeReceipts =>
      exact or_eq_none_of_imp (requires_mem_extends h .executionOutcomes _) (requires_mem_extends h .receipts _) hnone

/-- So does a row of account changes, as accounts are never taken out. -/
theorem accountChangeReferences_extends (haccounts : ∀ accountId ∈ db.accounts, accountId ∈ db'.accounts)
    {row : AccountChange} (hnone : db.accountChangeReferences row = none) : db'.accountChangeReferences row = none := by
  refine or_eq_none_of_imp (or_eq_none_of_imp (or_eq_none_of_imp (requires_of_imp fun hmem => ?_)
    (requires_mem_extends h .blocks _)) (requires_of_imp fun hall => ?_)) (requires_of_imp fun hall => ?_) hnone
  · exact decide_eq_true (haccounts _ (of_decide_eq_true hmem))
  · rw [Option.all_eq_true] at hall ⊢
    exact fun receiptId hid => decide_mem_extends h .receipts receiptId (hall receiptId hid)
  · rw [Option.all_eq_true] at hall ⊢
    exact fun hash hhash => decide_mem_extends h .transactions hash.text (hall hash hhash)

end Extends

/-- The schema: the tables with their foreign keys. -/
def schema : Schema TableName Database where
  toTables := tables
  broken := TableName.references
  broken_extends _ _ name row h := references_extends h name row

end ExplorerIndexer

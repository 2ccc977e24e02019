import Mathlib.Data.List.Nodup
import Mathlib.Data.List.Pairwise

/-! The chain data the indexer reads: the parts of the streamed block views that some adapter uses.
Amounts, heights and timestamps are natural numbers; texts of keys and signatures are strings. -/

namespace ExplorerIndexer

/-- The characters of the base58 texts of hashes: no `0`, `O`, `I`, `l`, and in particular no `_`. -/
def isBase58 (c : Char) : Bool :=
  c.isAlphanum && c != '0' && c != 'O' && c != 'I' && c != 'l'

/-- A hash is handled through its base58 text only; `to_string` and `from_str` are inverse. -/
structure CryptoHash where
  text : String
  base58 : text.toList.all isBase58 = true
  deriving DecidableEq

theorem CryptoHash.text_injective {a b : CryptoHash} (h : a.text = b.text) : a = b := by
  cases a
  cases b
  cases h
  rfl

/-- The hash with a text; every text that is none of a hash stands for the empty one. -/
def CryptoHash.ofText (text : String) : CryptoHash :=
  if h : text.toList.all isBase58 = true then ⟨text, h⟩ else ⟨"", rfl⟩

abbrev AccountId := String
abbrev PublicKey := String

/-- `AccountId::len`, in bytes. -/
def AccountId.len (accountId : AccountId) : Nat := accountId.utf8ByteSize

inductive AccessKeyPermissionView where
  | functionCall (allowance : Option Nat) (receiverId : String) (methodNames : List String)
  | fullAccess
  deriving DecidableEq

structure AccessKeyView where
  nonce : Nat
  permission : AccessKeyPermissionView
  deriving DecidableEq

inductive ActionView where
  | createAccount
  | deployContract (code : List UInt8)
  | functionCall (methodName args : String) (gas deposit : Nat)
  | transfer (deposit : Nat)
  | stake (stake : Nat) (publicKey : PublicKey)
  | addKey (publicKey : PublicKey) (accessKey : AccessKeyView)
  | deleteKey (publicKey : PublicKey)
  | deleteAccount (beneficiaryId : AccountId)
  deriving DecidableEq

structure DataReceiverView where
  dataId : CryptoHash
  receiverId : AccountId
  deriving DecidableEq

inductive ReceiptEnumView where
  | action (signerId : AccountId) (signerPublicKey : PublicKey) (gasPrice : Nat)
      (outputDataReceivers : List DataReceiverView) (inputDataIds : List CryptoHash)
      (actions : List ActionView)
  | data (dataId : CryptoHash) (data : Option (List UInt8))
  deriving DecidableEq

structure ReceiptView where
  predecessorId : AccountId
  receiverId : AccountId
  receiptId : CryptoHash
  receipt : ReceiptEnumView
  deriving DecidableEq

namespace ReceiptView

def isAction (receipt : ReceiptView) : Bool :=
  match receipt.receipt with
  | .action .. => true
  | .data .. => false

/-- The data id of a Data receipt. -/
def dataId? (receipt : ReceiptView) : Option CryptoHash :=
  match receipt.receipt with
  | .action .. => none
  | .data dataId _ => some dataId

def outputDataReceivers (receipt : ReceiptView) : List DataReceiverView :=
  match receipt.receipt with
  | .action _ _ _ outputDataReceivers _ _ => outputDataReceivers
  | .data .. => []

def inputDataIds (receipt : ReceiptView) : List CryptoHash :=
  match receipt.receipt with
  | .action _ _ _ _ inputDataIds _ => inputDataIds
  | .data .. => []

def actions (receipt : ReceiptView) : List ActionView :=
  match receipt.receipt with
  | .action _ _ _ _ _ actions => actions
  | .data .. => []

end ReceiptView

inductive ExecutionStatusView where
  | unknown
  | failure
  | successValue
  | successReceiptId
  deriving DecidableEq

structure ExecutionOutcomeView where
  logs : List String
  receiptIds : List CryptoHash
  gasBurnt : Nat
  tokensBurnt : Nat
  executorId : AccountId
  status : ExecutionStatusView
  deriving DecidableEq

structure ExecutionOutcomeWithIdView where
  blockHash : CryptoHash
  id : CryptoHash
  outcome : ExecutionOutcomeView
  deriving DecidableEq

structure IndexerExecutionOutcomeWithReceipt where
  executionOutcome : ExecutionOutcomeWithIdView
  receipt : ReceiptView
  deriving DecidableEq

/-- `SuccessValue` or `SuccessReceiptId`. -/
def IndexerExecutionOutcomeWithReceipt.succeeded (outcome : IndexerExecutionOutcomeWithReceipt) : Bool :=
  match outcome.executionOutcome.outcome.status with
  | .successValue | .successReceiptId => true
  | .unknown | .failure => false

/-! ### Plain receipts, outcomes and transactions -/

/-- An Action receipt of an account to itself. -/
def ReceiptView.plain (receiptId : CryptoHash) (accountId : AccountId) (actions : List ActionView) :
    ReceiptView where
  predecessorId := accountId
  receiverId := accountId
  receiptId := receiptId
  receipt := .action accountId "ed25519:" 1 [] [] actions

/-- The successful outcome of a receipt that was executed in a block. -/
def IndexerExecutionOutcomeWithReceipt.plain (blockHash : CryptoHash) (receipt : ReceiptView)
    (receiptIds : List CryptoHash) : IndexerExecutionOutcomeWithReceipt where
  executionOutcome :=
    { blockHash := blockHash
      id := receipt.receiptId
      outcome :=
        { logs := []
          receiptIds := receiptIds
          gasBurnt := 0
          tokensBurnt := 0
          executorId := receipt.receiverId
          status := .successValue } }
  receipt := receipt

structure SignedTransactionView where
  signerId : AccountId
  publicKey : PublicKey
  nonce : Nat
  receiverId : AccountId
  actions : List ActionView
  signature : String
  hash : CryptoHash
  deriving DecidableEq

/-- A transaction with its conversion outcome, whose `receipt_ids` must contain one receipt id. -/
structure IndexerTransactionWithOutcome where
  transaction : SignedTransactionView
  executionOutcome : ExecutionOutcomeWithIdView
  converted : executionOutcome.outcome.receiptIds ≠ []
  deriving DecidableEq

/-- The receipt the transaction was converted into: the first of its `receipt_ids`. -/
def IndexerTransactionWithOutcome.convertedIntoReceiptId (tx : IndexerTransactionWithOutcome) :
    CryptoHash :=
  tx.executionOutcome.outcome.receiptIds.head tx.converted

/-- A transaction of an account to itself. -/
def IndexerTransactionWithOutcome.plain (blockHash hash receiptId : CryptoHash) (accountId : AccountId) :
    IndexerTransactionWithOutcome where
  transaction :=
    { signerId := accountId
      publicKey := "ed25519:"
      nonce := 1
      receiverId := accountId
      actions := []
      signature := ""
      hash }
  executionOutcome :=
    { blockHash
      id := hash
      outcome :=
        { logs := []
          receiptIds := [receiptId]
          gasBurnt := 0
          tokensBurnt := 0
          executorId := accountId
          status := .successReceiptId } }
  converted := List.cons_ne_nil _ _

structure ChunkHeaderView where
  chunkHash : CryptoHash
  shardId : Nat
  signature : String
  gasLimit : Nat
  gasUsed : Nat
  deriving DecidableEq

structure IndexerChunkView where
  author : AccountId
  header : ChunkHeaderView
  transactions : List IndexerTransactionWithOutcome
  receipts : List ReceiptView
  deriving DecidableEq

inductive StateChangeCauseView where
  | notWritableToDisk
  | initialState
  | transactionProcessing (txHash : CryptoHash)
  | actionReceiptProcessingStarted (receiptHash : CryptoHash)
  | actionReceiptGasReward (receiptHash : CryptoHash)
  | receiptProcessing (receiptHash : CryptoHash)
  | postponedReceipt (receiptHash : CryptoHash)
  | updatedDelayedReceipts
  | validatorAccountsUpdate
  | migration
  | resharding
  deriving DecidableEq

structure AccountView where
  amount : Nat
  locked : Nat
  storageUsage : Nat
  deriving DecidableEq

/-- Changes of access keys, contract data and code are not told apart. -/
inductive StateChangeValueView where
  | accountUpdate (accountId : AccountId) (account : AccountView)
  | accountDeletion (accountId : AccountId)
  | other
  deriving DecidableEq

structure StateChangeWithCauseView where
  cause : StateChangeCauseView
  value : StateChangeValueView
  deriving DecidableEq

structure IndexerShard where
  shardId : Nat
  chunk : Option IndexerChunkView
  receiptExecutionOutcomes : List IndexerExecutionOutcomeWithReceipt
  stateChanges : List StateChangeWithCauseView
  deriving DecidableEq

structure BlockHeaderView where
  height : Nat
  hash : CryptoHash
  prevHash : CryptoHash
  timestamp : Nat
  totalSupply : Nat
  gasPrice : Nat
  deriving DecidableEq

structure BlockView where
  author : AccountId
  header : BlockHeaderView
  deriving DecidableEq

structure StreamerMessage where
  block : BlockView
  shards : List IndexerShard
  deriving DecidableEq

/-- A shard with a chunk. -/
def IndexerShard.plain (chunkHash : CryptoHash) (transactions : List IndexerTransactionWithOutcome)
    (receipts : List ReceiptView) (outcomes : List IndexerExecutionOutcomeWithReceipt) : IndexerShard where
  shardId := 0
  chunk := some
    { author := "validator.near"
      header := { chunkHash, shardId := 0, signature := "", gasLimit := 0, gasUsed := 0 }
      transactions
      receipts }
  receiptExecutionOutcomes := outcomes
  stateChanges := []

/-- `shards.iter().filter_map(|shard| shard.chunk.as_ref())` -/
def chunksOf (shards : List IndexerShard) : List IndexerChunkView := shards.filterMap (·.chunk)

/-- If the lists of some items have no element twice, an element tells the item. -/
theorem eq_of_nodup_flatMap {α β : Type} {f : α → List β} {items : List α} (hnodup : (items.flatMap f).Nodup)
    {a a' : α} {b : β} (ha : a ∈ items) (hb : b ∈ f a) (ha' : a' ∈ items) (hb' : b ∈ f a') : a = a' := by
  by_contra hne
  have hpairwise := (List.nodup_flatMap.mp hnodup).2
  have hsymm : Std.Symm (Function.onFun List.Disjoint f) := ⟨fun _ _ h _ hx hy => h hy hx⟩
  exact hpairwise.forall ha ha' hne hb hb'

namespace StreamerMessage

def transactions (message : StreamerMessage) : List IndexerTransactionWithOutcome :=
  (chunksOf message.shards).flatMap (·.transactions)

def receipts (message : StreamerMessage) : List ReceiptView :=
  (chunksOf message.shards).flatMap (·.receipts)

def outcomes (message : StreamerMessage) : List IndexerExecutionOutcomeWithReceipt :=
  message.shards.flatMap (·.receiptExecutionOutcomes)

/-- What tells the transactions of a stream apart also tells their messages apart. -/
theorem eq_of_nodup_transactions {β : Type} {f : IndexerTransactionWithOutcome → β} {stream : List StreamerMessage}
    (hnodup : ((stream.flatMap (·.transactions)).map f).Nodup) {message message' : StreamerMessage}
    {tx tx' : IndexerTransactionWithOutcome} (hmessage : message ∈ stream) (htx : tx ∈ message.transactions)
    (hmessage' : message' ∈ stream) (htx' : tx' ∈ message'.transactions) (heq : f tx = f tx') :
    message = message' ∧ tx = tx' := by
  have hmem := List.mem_flatMap.mpr ⟨message, hmessage, htx⟩
  have hmem' := List.mem_flatMap.mpr ⟨message', hmessage', htx'⟩
  have hsame : tx = tx' := List.inj_on_of_nodup_map hnodup hmem hmem' heq
  subst hsame
  exact ⟨eq_of_nodup_flatMap (List.Nodup.of_map f hnodup) hmessage htx hmessage' htx', rfl⟩

end StreamerMessage

/-- A record of the genesis; contract data, code and receipts are not told apart. -/
inductive StateRecord where
  | account (accountId : AccountId)
  | accessKey (accountId : AccountId) (publicKey : PublicKey) (accessKey : AccessKeyView)
  | other
  deriving DecidableEq

/-- What the handlers of accounts and of access keys receive of a block. -/
structure BlockOutcomes where
  blockHeight : Nat
  outcomes : List IndexerExecutionOutcomeWithReceipt
  deriving DecidableEq

end ExplorerIndexer

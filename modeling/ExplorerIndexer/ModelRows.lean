import ExplorerIndexer.ModelSerializers

/-! The rows of the database and how they are built from the chain data. A column that holds the text of
a hash holds the hash; a transaction hash is a text, since a suffix may be attached to it. -/

namespace ExplorerIndexer

abbrev ParentTransactionHashString := String

namespace Models

structure Block where
  blockHeight : Nat
  blockHash : CryptoHash
  prevBlockHash : CryptoHash
  blockTimestamp : Nat
  totalSupply : Nat
  gasPrice : Nat
  authorAccountId : AccountId
  deriving DecidableEq

def Block.ofView (block : BlockView) : Block where
  blockHeight := block.header.height
  blockHash := block.header.hash
  prevBlockHash := block.header.prevHash
  blockTimestamp := block.header.timestamp
  totalSupply := block.header.totalSupply
  gasPrice := block.header.gasPrice
  authorAccountId := block.author

structure Chunk where
  includedInBlockHash : CryptoHash
  chunkHash : CryptoHash
  shardId : Nat
  signature : String
  gasLimit : Nat
  gasUsed : Nat
  authorAccountId : AccountId
  deriving DecidableEq

def Chunk.fromChunkView (chunk : IndexerChunkView) (blockHash : CryptoHash) : Chunk where
  includedInBlockHash := blockHash
  chunkHash := chunk.header.chunkHash
  shardId := chunk.header.shardId
  signature := chunk.header.signature
  gasLimit := chunk.header.gasLimit
  gasUsed := chunk.header.gasUsed
  authorAccountId := chunk.author

inductive ExecutionOutcomeStatus where
  | unknown
  | failure
  | successValue
  | successReceiptId
  deriving DecidableEq

def ExecutionOutcomeStatus.ofView : ExecutionStatusView → ExecutionOutcomeStatus
  | .unknown => .unknown
  | .failure => .failure
  | .successValue => .successValue
  | .successReceiptId => .successReceiptId

structure Transaction where
  transactionHash : ParentTransactionHashString
  includedInBlockHash : CryptoHash
  includedInChunkHash : CryptoHash
  indexInChunk : Nat
  blockTimestamp : Nat
  signerAccountId : AccountId
  signerPublicKey : PublicKey
  nonce : Nat
  receiverAccountId : AccountId
  signature : String
  status : ExecutionOutcomeStatus
  convertedIntoReceiptId : CryptoHash
  receiptConversionGasBurnt : Nat
  receiptConversionTokensBurnt : Nat
  deriving DecidableEq

def Transaction.fromIndexerTransaction (tx : IndexerTransactionWithOutcome)
    (transactionHash : ParentTransactionHashString) (convertedIntoReceiptId blockHash chunkHash : CryptoHash)
    (blockTimestamp indexInChunk : Nat) : Transaction where
  transactionHash := transactionHash
  includedInBlockHash := blockHash
  includedInChunkHash := chunkHash
  indexInChunk := indexInChunk
  blockTimestamp := blockTimestamp
  signerAccountId := tx.transaction.signerId
  signerPublicKey := tx.transaction.publicKey
  nonce := tx.transaction.nonce
  receiverAccountId := tx.transaction.receiverId
  signature := tx.transaction.signature
  status := .ofView tx.executionOutcome.outcome.status
  convertedIntoReceiptId := convertedIntoReceiptId
  receiptConversionGasBurnt := tx.executionOutcome.outcome.gasBurnt
  receiptConversionTokensBurnt := tx.executionOutcome.outcome.tokensBurnt

structure TransactionAction where
  transactionHash : ParentTransactionHashString
  indexInTransaction : Nat
  actionKind : ActionKind
  args : Json

def TransactionAction.fromActionView (decoders : Decoders) (transactionHash : ParentTransactionHashString)
    (index : Nat) (action : ActionView) : TransactionAction :=
  let (actionKind, args) := extractActionTypeAndValueFromActionView decoders action
  { transactionHash, indexInTransaction := index, actionKind, args }

inductive ReceiptKind where
  | action
  | data
  deriving DecidableEq

def ReceiptKind.ofView : ReceiptEnumView → ReceiptKind
  | .action .. => .action
  | .data .. => .data

structure Receipt where
  receiptId : CryptoHash
  includedInBlockHash : CryptoHash
  includedInChunkHash : CryptoHash
  indexInChunk : Nat
  includedInBlockTimestamp : Nat
  predecessorAccountId : AccountId
  receiverAccountId : AccountId
  receiptKind : ReceiptKind
  originatedFromTransactionHash : ParentTransactionHashString
  deriving DecidableEq

def Receipt.fromReceiptView (receipt : ReceiptView) (blockHash : CryptoHash)
    (transactionHash : ParentTransactionHashString) (chunkHash : CryptoHash)
    (indexInChunk blockTimestamp : Nat) : Receipt where
  receiptId := receipt.receiptId
  includedInBlockHash := blockHash
  includedInChunkHash := chunkHash
  indexInChunk := indexInChunk
  includedInBlockTimestamp := blockTimestamp
  predecessorAccountId := receipt.predecessorId
  receiverAccountId := receipt.receiverId
  receiptKind := .ofView receipt.receipt
  originatedFromTransactionHash := transactionHash

structure DataReceipt where
  dataId : CryptoHash
  receiptId : CryptoHash
  data : Option (List UInt8)
  deriving DecidableEq

/-- `DataReceipt::try_from(receipt).ok()` -/
def DataReceipt.ofView? (receipt : ReceiptView) : Option DataReceipt :=
  match receipt.receipt with
  | .data dataId data => some { dataId, receiptId := receipt.receiptId, data }
  | .action .. => none

structure ActionReceipt where
  receiptId : CryptoHash
  signerAccountId : AccountId
  signerPublicKey : PublicKey
  gasPrice : Nat
  deriving DecidableEq

/-- `ActionReceipt::try_from(receipt).ok()` -/
def ActionReceipt.ofView? (receipt : ReceiptView) : Option ActionReceipt :=
  match receipt.receipt with
  | .action signerId signerPublicKey gasPrice _ _ _ =>
      some { receiptId := receipt.receiptId, signerAccountId := signerId, signerPublicKey, gasPrice }
  | .data .. => none

structure ActionReceiptAction where
  receiptId : CryptoHash
  indexInActionReceipt : Nat
  actionKind : ActionKind
  args : Json
  receiptPredecessorAccountId : AccountId
  receiptReceiverAccountId : AccountId
  receiptIncludedInBlockTimestamp : Nat

def ActionReceiptAction.fromActionView (decoders : Decoders) (receiptId : CryptoHash) (index : Nat)
    (action : ActionView) (predecessorAccountId receiverAccountId : AccountId) (blockTimestamp : Nat) :
    ActionReceiptAction :=
  let (actionKind, args) := extractActionTypeAndValueFromActionView decoders action
  { receiptId, indexInActionReceipt := index, actionKind, args
    receiptPredecessorAccountId := predecessorAccountId
    receiptReceiverAccountId := receiverAccountId
    receiptIncludedInBlockTimestamp := blockTimestamp }

structure ActionReceiptInputData where
  inputToReceiptId : CryptoHash
  inputDataId : CryptoHash
  deriving DecidableEq

structure ActionReceiptOutputData where
  outputFromReceiptId : CryptoHash
  outputDataId : CryptoHash
  receiverAccountId : AccountId
  deriving DecidableEq

def ActionReceiptOutputData.fromDataReceiver (receiptId : CryptoHash) (receiver : DataReceiverView) :
    ActionReceiptOutputData where
  outputFromReceiptId := receiptId
  outputDataId := receiver.dataId
  receiverAccountId := receiver.receiverId

structure ExecutionOutcome where
  receiptId : CryptoHash
  executedInBlockHash : CryptoHash
  executedInBlockTimestamp : Nat
  indexInChunk : Nat
  gasBurnt : Nat
  tokensBurnt : Nat
  executorAccountId : AccountId
  status : ExecutionOutcomeStatus
  shardId : Nat
  deriving DecidableEq

def ExecutionOutcome.fromExecutionOutcome (outcome : ExecutionOutcomeWithIdView)
    (indexInChunk executedInBlockTimestamp shardId : Nat) : ExecutionOutcome where
  receiptId := outcome.id
  executedInBlockHash := outcome.blockHash
  executedInBlockTimestamp := executedInBlockTimestamp
  indexInChunk := indexInChunk
  gasBurnt := outcome.outcome.gasBurnt
  tokensBurnt := outcome.outcome.tokensBurnt
  executorAccountId := outcome.outcome.executorId
  status := .ofView outcome.outcome.status
  shardId := shardId

structure ExecutionOutcomeReceipt where
  executedReceiptId : CryptoHash
  indexInExecutionOutcome : Nat
  producedReceiptId : CryptoHash
  deriving DecidableEq

structure Account where
  accountId : AccountId
  createdByReceiptId : Option CryptoHash
  deletedByReceiptId : Option CryptoHash
  lastUpdateBlockHeight : Nat
  deriving DecidableEq

def Account.newFromReceipt (accountId : AccountId) (createdByReceiptId : CryptoHash)
    (lastUpdateBlockHeight : Nat) : Account where
  accountId := accountId
  createdByReceiptId := some createdByReceiptId
  deletedByReceiptId := none
  lastUpdateBlockHeight := lastUpdateBlockHeight

def Account.newFromGenesis (accountId : AccountId) (lastUpdateBlockHeight : Nat) : Account where
  accountId := accountId
  createdByReceiptId := none
  deletedByReceiptId := none
  lastUpdateBlockHeight := lastUpdateBlockHeight

inductive AccessKeyPermission where
  | fullAccess
  | functionCall
  deriving DecidableEq

def AccessKeyPermission.ofView : AccessKeyPermissionView → AccessKeyPermission
  | .functionCall .. => .functionCall
  | .fullAccess => .fullAccess

structure AccessKey where
  publicKey : PublicKey
  accountId : AccountId
  createdByReceiptId : Option CryptoHash
  deletedByReceiptId : Option CryptoHash
  permissionKind : AccessKeyPermission
  lastUpdateBlockHeight : Nat
  deriving DecidableEq

def AccessKey.fromActionView (publicKey : PublicKey) (accountId : AccountId) (accessKey : AccessKeyView)
    (createdByReceiptId : CryptoHash) (lastUpdateBlockHeight : Nat) : AccessKey where
  publicKey := publicKey
  accountId := accountId
  createdByReceiptId := some createdByReceiptId
  deletedByReceiptId := none
  permissionKind := .ofView accessKey.permission
  lastUpdateBlockHeight := lastUpdateBlockHeight

def AccessKey.fromGenesis (publicKey : PublicKey) (accountId : AccountId) (accessKey : AccessKeyView)
    (lastUpdateBlockHeight : Nat) : AccessKey where
  publicKey := publicKey
  accountId := accountId
  createdByReceiptId := none
  deletedByReceiptId := none
  permissionKind := .ofView accessKey.permission
  lastUpdateBlockHeight := lastUpdateBlockHeight

inductive StateChangeReasonKind where
  | transactionProcessing
  | actionReceiptProcessingStarted
  | actionReceiptGasReward
  | receiptProcessing
  | postponedReceipt
  | updatedDelayedReceipts
  | validatorAccountsUpdate
  | migration
  | resharding
  deriving DecidableEq

/-- The conversion panics (`none`) on the two causes that are never streamed. -/
def StateChangeReasonKind.ofCause : StateChangeCauseView → Option StateChangeReasonKind
  | .transactionProcessing _ => some .transactionProcessing
  | .actionReceiptProcessingStarted _ => some .actionReceiptProcessingStarted
  | .actionReceiptGasReward _ => some .actionReceiptGasReward
  | .receiptProcessing _ => some .receiptProcessing
  | .postponedReceipt _ => some .postponedReceipt
  | .updatedDelayedReceipts => some .updatedDelayedReceipts
  | .validatorAccountsUpdate => some .validatorAccountsUpdate
  | .migration => some .migration
  | .resharding => some .resharding
  | .notWritableToDisk | .initialState => none

structure AccountChange where
  affectedAccountId : AccountId
  changedInBlockTimestamp : Nat
  changedInBlockHash : CryptoHash
  causedByTransactionHash : Option CryptoHash
  causedByReceiptId : Option CryptoHash
  updateReason : StateChangeReasonKind
  affectedAccountNonstakedBalance : Nat
  affectedAccountStakedBalance : Nat
  affectedAccountStorageUsage : Nat
  indexInBlock : Int
  deriving DecidableEq

/-- The account and, unless it was deleted, its new state; `none` for changes of something else. -/
def accountOfStateChangeValue : StateChangeValueView → Option (AccountId × Option AccountView)
  | .accountUpdate accountId account => some (accountId, some account)
  | .accountDeletion accountId => some (accountId, none)
  | .other => none

def txHashOfCause : StateChangeCauseView → Option CryptoHash
  | .transactionProcessing txHash => some txHash
  | _ => none

def receiptHashOfCause : StateChangeCauseView → Option CryptoHash
  | .actionReceiptProcessingStarted receiptHash => some receiptHash
  | .actionReceiptGasReward receiptHash => some receiptHash
  | .receiptProcessing receiptHash => some receiptHash
  | .postponedReceipt receiptHash => some receiptHash
  | _ => none

/-- What `from_state_change_with_cause` does: nothing to store, a row, or a panic. -/
inductive StateChangeRow where
  | skip
  | row (change : AccountChange)
  | panic

def AccountChange.fromStateChangeWithCause (stateChange : StateChangeWithCauseView)
    (changedInBlockHash : CryptoHash) (changedInBlockTimestamp : Nat) (indexInBlock : Int) : StateChangeRow :=
  match accountOfStateChangeValue stateChange.value, StateChangeReasonKind.ofCause stateChange.cause with
  | none, _ => .skip
  | some _, none => .panic
  | some (accountId, account), some updateReason =>
      .row {
        affectedAccountId := accountId
        changedInBlockTimestamp := changedInBlockTimestamp
        changedInBlockHash := changedInBlockHash
        causedByTransactionHash := txHashOfCause stateChange.cause
        causedByReceiptId := receiptHashOfCause stateChange.cause
        updateReason := updateReason
        affectedAccountNonstakedBalance := (account.map (·.amount)).getD 0
        affectedAccountStakedBalance := (account.map (·.locked)).getD 0
        affectedAccountStorageUsage := (account.map (·.storageUsage)).getD 0
        indexInBlock := indexInBlock }

end Models

end ExplorerIndexer

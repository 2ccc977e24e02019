import ExplorerIndexer.ChainTables
import ExplorerIndexer.StoredActions
import ExplorerIndexer.TransactionActions

/-! What a reader of the database gets to know of the actions of a chain. In a database that is complete, the rows of a
transaction or of a receipt, taken by their positions, are read as its actions: all of them, in order, and no others. -/

namespace ExplorerIndexer

open Async Store Models

namespace Models

def TransactionAction.read (row : TransactionAction) : Option ActionView := readAction row.actionKind row.args

def ActionReceiptAction.read (row : ActionReceiptAction) : Option ActionView := readAction row.actionKind row.args

theorem TransactionAction.read_fromActionView (decoders : Decoders) (transactionHash : ParentTransactionHashString)
    (index : Nat) (action : ActionView) : (fromActionView decoders transactionHash index action).read = some action :=
  readAction_extractActionTypeAndValueFromActionView decoders action

theorem ActionReceiptAction.read_fromActionView (decoders : Decoders) (receiptId : CryptoHash) (index : Nat)
    (action : ActionView) (predecessorAccountId receiverAccountId : AccountId) (blockTimestamp : Nat) :
    (fromActionView decoders receiptId index action predecessorAccountId receiverAccountId blockTimestamp).read =
      some action := readAction_extractActionTypeAndValueFromActionView decoders action

end Models

section Rows

variable {decoders : Decoders} {parent : ReceiptView → ParentTransactionHashString} {chain : List StreamerMessage}

theorem flatMap_zipIdx_fst {α β : Type} (f : α → List β) (items : List α) :
    (items.zipIdx.flatMap fun entry => f entry.1) = items.flatMap f := by
  rw [← List.flatMap_map Prod.fst f, List.zipIdx_map_fst]

/-- The row of an action of a transaction, with its position. -/
def actionRow (decoders : Decoders) (tx : IndexerTransactionWithOutcome) (entry : ActionView × Nat) :
    TransactionAction := .fromActionView decoders tx.transaction.hash.text entry.2 entry.1

theorem transactionActionModels_zipIdx (transactions : List IndexerTransactionWithOutcome) :
    Transactions.transactionActionModels decoders transactions.zipIdx =
      transactions.flatMap fun tx => tx.transaction.actions.zipIdx.map (actionRow decoders tx) :=
  flatMap_zipIdx_fst (fun tx : IndexerTransactionWithOutcome =>
    tx.transaction.actions.zipIdx.map (actionRow decoders tx)) transactions

/-- The actions of the transactions of a chain, by transaction. -/
theorem chainRows_transactionActions :
    chainRows decoders parent chain .transactionActions =
      (chain.flatMap (·.transactions)).flatMap fun tx =>
        tx.transaction.actions.zipIdx.map (actionRow decoders tx) := by
  rw [List.flatMap_assoc]
  refine congrArg (chain.flatMap ·) (funext fun message => ?_)
  rw [StreamerMessage.transactions, List.flatMap_assoc]
  exact congrArg ((chunksOf message.shards).flatMap ·)
    (funext fun chunk => transactionActionModels_zipIdx chunk.transactions)

/-- The receipts of a chain, each with its message. -/
def receiptsWithMessages (chain : List StreamerMessage) : List (StreamerMessage × ReceiptView) :=
  chain.flatMap fun message => message.receipts.map (message, ·)

/-- The row of an action of a receipt, with its position. -/
def receiptActionRow (decoders : Decoders) (source : StreamerMessage × ReceiptView) (entry : ActionView × Nat) :
    ActionReceiptAction :=
  .fromActionView decoders source.2.receiptId entry.2 entry.1 source.2.predecessorId source.2.receiverId
    source.1.block.header.timestamp

theorem map_receiptsWithMessages :
    (receiptsWithMessages chain).map (·.2.receiptId) = (chain.flatMap (·.receipts)).map (·.receiptId) := by
  simp only [receiptsWithMessages, List.map_flatMap, List.map_map, Function.comp_def]

theorem chainRows_actionReceiptActions :
    chainRows decoders parent chain .actionReceiptActions =
      (receiptsWithMessages chain).flatMap fun source =>
        source.2.actions.zipIdx.map (receiptActionRow decoders source) := by
  rw [receiptsWithMessages, List.flatMap_assoc]
  refine congrArg (chain.flatMap ·) (funext fun message => ?_)
  rw [List.flatMap_map]
  rfl

end Rows

/-- After all messages were handled in the strict mode, the rows of a transaction and of a receipt are read, position by
position, as their actions: there is a row for each of them and none behind the last one. -/
theorem actions_read_back (decoders : Decoders) (chain : List StreamerMessage) (hchain : WellFormed decoders chain)
    (genesisHeight : Nat) (records : List StateRecord) (sessions : List Session) (db : Database)
    (h : History decoders chain genesisHeight records sessions db) (hall : AllHandled chain sessions)
    (message : StreamerMessage) (hmessage : message ∈ chain) :
    (∀ tx ∈ message.transactions, ∀ i,
        (db.transactionActions.lookup (tx.transaction.hash.text, i)).map TransactionAction.read =
          tx.transaction.actions[i]?.map some) ∧
      ∀ receipt ∈ message.receipts, ∀ i,
        (db.actionReceiptActions.lookup (receipt.receiptId, i)).map ActionReceiptAction.read =
          receipt.actions[i]?.map some := by
  refine ⟨fun tx htx i => ?_, fun receipt hreceipt i => ?_⟩
  · have hids : ((chain.flatMap (·.transactions)).map (·.transaction.hash.text)).Nodup := by
      have htexts := hchain.distinctHashes.map fun _ _ => CryptoHash.text_injective
      rwa [List.map_map] at htexts
    have hrows := h.lookup_iff hchain hall (show TableName.transactionActions.completed true from rfl) fun _ => ""
    rw [chainRows_transactionActions] at hrows
    have hlookup := Table.lookup_parts hids (fun _ _ => rfl) hrows (List.mem_flatMap.mpr ⟨message, hmessage, htx⟩) i
    rw [show db.transactionActions.lookup _ = _ from hlookup]
    cases tx.transaction.actions[i]? with
    | none => rfl
    | some action => exact congrArg some (TransactionAction.read_fromActionView _ _ _ _)
  · have hids : ((receiptsWithMessages chain).map (·.2.receiptId)).Nodup :=
      map_receiptsWithMessages ▸ hchain.receiptIds
    have hrows := h.lookup_iff hchain hall (show TableName.actionReceiptActions.completed true from rfl) fun _ => ""
    rw [chainRows_actionReceiptActions] at hrows
    have hentry : (message, receipt) ∈ receiptsWithMessages chain :=
      List.mem_flatMap.mpr ⟨message, hmessage, List.mem_map_of_mem hreceipt⟩
    have hlookup := Table.lookup_parts hids (fun _ _ => rfl) hrows hentry i
    rw [show db.actionReceiptActions.lookup _ = _ from hlookup]
    cases receipt.actions[i]? with
    | none => rfl
    | some action => exact congrArg some (ActionReceiptAction.read_fromActionView _ _ _ _ _ _ _)

theorem wellFormed_firstTransfer : WellFormed .silent [Collisions.firstTransfer] :=
  ⟨fun name => by cases name <;> decide, by decide, by decide⟩

theorem actions_read_back_firstTransfer :
    ∃ sessions db, History .silent [Collisions.firstTransfer] 0 [] sessions db ∧
      (db.transactionActions.lookup ("t", 0)).map TransactionAction.read = some (some (.transfer 1)) ∧
        db.transactionActions.lookup ("t", 1) = none := by
  have hfin : Finishes (handleMessage .silent Collisions.firstTransfer true) ⟨.withSize 100000, {}⟩ () _ :=
    finishes_after 1 (by decide)
  obtain ⟨trace, hhistory, hevent⟩ := History.empty.handles List.mem_cons_self hfin
  have hall : AllHandled [Collisions.firstTransfer] [.listenBlocks true trace] := fun message hmessage => by
    obtain rfl := List.mem_singleton.mp hmessage
    exact ⟨trace, List.mem_cons_self, hevent⟩
  obtain ⟨hactions, -⟩ := actions_read_back .silent _ wellFormed_firstTransfer 0 [] _ _ hhistory hall _
    List.mem_cons_self
  exact ⟨_, _, hhistory, hactions _ List.mem_cons_self 0, Option.map_eq_none_iff.mp (hactions _ List.mem_cons_self 1)⟩

end ExplorerIndexer

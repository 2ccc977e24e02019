import ExplorerIndexer.ChainWrites
import ExplorerIndexer.CollidedHashes
import ExplorerIndexer.ParentsSound
import ExplorerIndexer.ReceiptsExit

/-! Chains whose rows are told apart by their primary keys, and on which a receipt has one parent. A database that
stems from such a chain holds plain rows only: no hash of a transaction is ever taken. -/

namespace ExplorerIndexer

open Async Store Models

/-- The rows of a chain in a table, with the given parent transactions of the receipts. -/
def chainRows (decoders : Decoders) (parent : ReceiptView → ParentTransactionHashString) (chain : List StreamerMessage)
    (name : TableName) : List name.Row := chain.flatMap fun message => message.rows decoders parent name

/-- Primary keys tell the rows of the chain apart, a receipt is converted from one transaction at most, and it is
produced by one outcome at most. -/
structure WellFormed (decoders : Decoders) (chain : List StreamerMessage) : Prop where
  keys : ∀ name : TableName, ((chainRows decoders (fun _ => "") chain name).map name.key).Nodup
  converted : ((chain.flatMap (·.transactions)).map (·.convertedIntoReceiptId)).Nodup
  produced : ((chain.flatMap (·.outcomes)).flatMap (·.executionOutcome.outcome.receiptIds)).Nodup

section Rows

variable {decoders : Decoders} {parent parent' : ReceiptView → ParentTransactionHashString}
  {chain : List StreamerMessage}

theorem mem_chainRows {name : TableName} {row : name.Row} : row ∈ chainRows decoders parent chain name ↔
    ∃ message ∈ chain, row ∈ message.rows decoders parent name := List.mem_flatMap

/-- Only the rows of receipts name a parent transaction. -/
theorem rows_parent {name : TableName} (hname : name ≠ .receipts) (message : StreamerMessage) :
    message.rows decoders parent name = message.rows decoders parent' name := by
  cases name <;> first | rfl | exact (hname rfl).elim

/-- No key does. -/
theorem map_key_rows (name : TableName) (message : StreamerMessage) :
    (message.rows decoders parent name).map name.key = (message.rows decoders parent' name).map name.key := by
  by_cases hname : name = .receipts
  · subst hname
    simp only [StreamerMessage.rows, List.map_flatMap, List.map_map]
    rfl
  · rw [rows_parent hname]

theorem map_key_chainRows (name : TableName) :
    (chainRows decoders parent chain name).map name.key = (chainRows decoders parent' chain name).map name.key := by
  unfold chainRows
  rw [List.map_flatMap, List.map_flatMap]
  exact congrArg (chain.flatMap ·) (funext fun message => map_key_rows name message)

/-- A column that does not depend on the positions of the items. -/
theorem map_zipIdx_of_fst {α β : Type} {f : α × Nat → β} {g : α → β} (h : ∀ a i, f (a, i) = g a) (items : List α) :
    items.zipIdx.map f = items.map g := by
  rw [show f = g ∘ Prod.fst from funext fun entry => h entry.1 entry.2, ← List.map_map, List.zipIdx_map_fst]

theorem map_chainRows_transactions {β : Type} {f : Transaction → β} {g : IndexerTransactionWithOutcome → β}
    (h : ∀ (message : StreamerMessage) chunk tx i, f (message.transactionRow "" chunk (tx, i)) = g tx) :
    (chainRows decoders parent chain .transactions).map f = (chain.flatMap (·.transactions)).map g := by
  have hchunk : ∀ (message : StreamerMessage) (chunk : IndexerChunkView), (chunk.transactions.zipIdx.map fun entry =>
      f (message.transactionRow "" chunk entry)) = chunk.transactions.map g :=
    fun message chunk => map_zipIdx_of_fst (h message chunk) _
  simp only [chainRows, StreamerMessage.rows, StreamerMessage.transactions, List.map_flatMap, List.map_map,
    Function.comp_def, hchunk]

theorem map_receiptId_chainRows :
    (chainRows decoders parent chain .receipts).map (·.receiptId) =
      (chain.flatMap (·.receipts)).map (·.receiptId) := by
  have hchunk : ∀ (message : StreamerMessage) (chunk : IndexerChunkView), (chunk.receipts.zipIdx.map fun entry =>
      (message.receiptRow (parent entry.1) chunk entry).receiptId) = chunk.receipts.map (·.receiptId) :=
    fun message chunk => map_zipIdx_of_fst (fun _ _ => rfl) _
  simp only [chainRows, StreamerMessage.rows, StreamerMessage.receipts, List.map_flatMap, List.map_map,
    Function.comp_def, hchunk]

theorem map_produced_chainRows :
    (chainRows decoders parent chain .executionOutcomeReceipts).map (·.producedReceiptId) =
      (chain.flatMap (·.outcomes)).flatMap (·.executionOutcome.outcome.receiptIds) := by
  simp only [chainRows, StreamerMessage.rows, ExecutionOutcomes.outcomeReceiptModels, List.map_flatMap, List.map_map,
    Function.comp_def, List.zipIdx_map_fst, List.flatMap_assoc]

namespace WellFormed

variable (hchain : WellFormed decoders chain)

include hchain

theorem row_eq_of_key {name : TableName} {row row' : name.Row} (hrow : row ∈ chainRows decoders parent chain name)
    (hrow' : row' ∈ chainRows decoders parent chain name) (hkey : name.key row = name.key row') : row = row' := by
  have hnodup := hchain.keys name
  have hkeys : (chainRows decoders (fun _ => "") chain name).map name.key =
      (chainRows decoders parent chain name).map name.key := map_key_chainRows name
  rw [hkeys] at hnodup
  exact List.inj_on_of_nodup_map hnodup hrow hrow' hkey

theorem distinctHashes : Parents.DistinctHashes chain := by
  have hnodup := hchain.keys .transactions
  rw [show TableName.key .transactions = (·.transactionHash) from rfl, map_chainRows_transactions
    (g := fun tx => tx.transaction.hash.text) fun message chunk tx i => Transactions.hashWithSuffix_empty tx] at hnodup
  rw [Parents.DistinctHashes]
  exact List.Nodup.of_map CryptoHash.text (by rwa [List.map_map])

theorem receiptIds : ((chain.flatMap (·.receipts)).map (·.receiptId)).Nodup := by
  have hnodup := hchain.keys .receipts
  rwa [show TableName.key .receipts = (·.receiptId) from rfl, map_receiptId_chainRows] at hnodup

theorem receiptIds_chunk {message : StreamerMessage} (hmessage : message ∈ chain) {chunk : IndexerChunkView}
    (hchunk : chunk ∈ chunksOf message.shards) : (chunk.receipts.map (·.receiptId)).Nodup := by
  have hnodup := hchain.receiptIds
  simp only [StreamerMessage.receipts, List.map_flatMap] at hnodup
  exact (List.nodup_flatMap.mp ((List.nodup_flatMap.mp hnodup).1 message hmessage)).1 chunk hchunk

theorem row_eq_of_converted {row row' : Transaction} (hrow : row ∈ chainRows decoders parent chain .transactions)
    (hrow' : row' ∈ chainRows decoders parent chain .transactions)
    (hconverted : row.convertedIntoReceiptId = row'.convertedIntoReceiptId) : row = row' := by
  have hnodup := hchain.converted
  have hcolumn : (chainRows decoders parent chain .transactions).map (·.convertedIntoReceiptId) =
      (chain.flatMap (·.transactions)).map (·.convertedIntoReceiptId) := map_chainRows_transactions fun _ _ _ _ => rfl
  rw [← hcolumn] at hnodup
  exact List.inj_on_of_nodup_map hnodup hrow hrow' hconverted

theorem row_eq_of_produced {row row' : ExecutionOutcomeReceipt}
    (hrow : row ∈ chainRows decoders parent chain .executionOutcomeReceipts)
    (hrow' : row' ∈ chainRows decoders parent chain .executionOutcomeReceipts)
    (hproduced : row.producedReceiptId = row'.producedReceiptId) : row = row' := by
  have hnodup := hchain.produced
  rw [← show (chainRows decoders parent chain .executionOutcomeReceipts).map (·.producedReceiptId) = _ from
    map_produced_chainRows] at hnodup
  exact List.inj_on_of_nodup_map hnodup hrow hrow' hproduced

end WellFormed

/-! ### Databases that stem from a chain -/

variable {db : Database}

/-- Every stored row is a row of the chain, with some parent transaction. -/
theorem StemsFrom.plain (h : StemsFrom decoders chain db) (hchain : WellFormed decoders chain) {name : TableName}
    {k : name.Key} {row : name.Row} (hrow : (name.get db).lookup k = some row) :
    name.key row = k ∧ ∃ parent, row ∈ chainRows decoders parent chain name := by
  obtain ⟨hkey, message, hmessage, hsource⟩ := h.tables name k row hrow
  refine ⟨hkey, ?_⟩
  cases hsource with
  | plain parent hmem => exact ⟨parent, mem_chainRows.mpr ⟨message, hmessage, hmem⟩⟩
  | @collided _ chunk entry hchunk hentry htaken =>
      -- the row that took the hash is a row of the chain under that hash, so it is that of the transaction itself
      obtain ⟨taker, htaker, hother⟩ := htaken
      obtain ⟨htakerKey, message', hmessage', htakerSource⟩ := h.tables .transactions _ taker htaker
      cases htakerSource with
      | plain parent hmem =>
          have hown : message.transactionRow "" chunk entry ∈ chainRows decoders parent chain .transactions :=
            mem_chainRows.mpr ⟨message, hmessage, List.mem_flatMap.mpr ⟨chunk, hchunk, List.mem_map_of_mem hentry⟩⟩
          obtain rfl := hchain.row_eq_of_key (mem_chainRows.mpr ⟨message', hmessage', hmem⟩) hown
            (htakerKey.trans (Transactions.hashWithSuffix_empty entry.1).symm)
          exact (hother ⟨rfl, rfl⟩).elim
      | collided _ _ _ => exact (Collisions.plainHash_ne_suffixedHash entry.1 message' _ htakerKey.symm).elim

theorem StemsFrom.plain_of_ne (h : StemsFrom decoders chain db) (hchain : WellFormed decoders chain) {name : TableName}
    (hname : name ≠ .receipts) {k : name.Key} {row : name.Row} (hrow : (name.get db).lookup k = some row) :
    name.key row = k ∧ row ∈ chainRows decoders parent chain name := by
  obtain ⟨hkey, parent', hmem⟩ := h.plain hchain hrow
  refine ⟨hkey, ?_⟩
  obtain ⟨message, hmessage, hmem⟩ := mem_chainRows.mp hmem
  exact mem_chainRows.mpr ⟨message, hmessage, rows_parent hname message ▸ hmem⟩

/-- A row of the chain under whose key there is a row is stored itself. -/
theorem StemsFrom.lookup_of_mem (h : StemsFrom decoders chain db) (hchain : WellFormed decoders chain)
    {name : TableName} (hname : name ≠ .receipts) {row : name.Row} (hrow : row ∈ chainRows decoders parent chain name)
    (hkey : name.key row ∈ name.get db) : (name.get db).lookup (name.key row) = some row := by
  obtain ⟨stored, hstored⟩ := Table.mem_iff_lookup.mp hkey
  obtain ⟨hsame, hmem⟩ := h.plain_of_ne hchain hname hstored
  rw [hstored, hchain.row_eq_of_key hmem hrow hsame]

/-- The search for parents finds a receipt once. -/
theorem StemsFrom.foundOnce (h : StemsFrom decoders chain db) (hchain : WellFormed decoders chain) :
    Receipts.FoundOnce db := by
  have houtcome : ∀ {k row}, db.executionOutcomeReceipts.lookup k = some row → ExecutionOutcomeReceipt.key row = k ∧
      row ∈ chainRows decoders (fun _ => "") chain .executionOutcomeReceipts :=
    fun hrow => h.plain_of_ne hchain (show TableName.executionOutcomeReceipts ≠ .receipts from nofun) hrow
  have htransaction : ∀ {k row}, db.transactions.lookup k = some row → row.transactionHash = k ∧
      row ∈ chainRows decoders (fun _ => "") chain .transactions :=
    fun hrow => h.plain_of_ne hchain (show TableName.transactions ≠ .receipts from nofun) hrow
  refine ⟨⟨fun k k' row row' hrow hrow' hproduced => ?_, fun k k' row row' hrow hrow' hconverted => ?_⟩,
    fun k k' row row' hrow hrow' _ hproduced => ?_⟩
  · rw [hchain.row_eq_of_produced (houtcome hrow).2 (houtcome hrow').2 hproduced]
  · obtain rfl := hchain.row_eq_of_converted (htransaction hrow).2 (htransaction hrow').2 hconverted
    exact (htransaction hrow).1.symm.trans (htransaction hrow').1
  · obtain rfl := hchain.row_eq_of_produced (houtcome hrow).2 (houtcome hrow').2 hproduced
    exact (houtcome hrow).1.symm.trans (houtcome hrow').1

/-! ### The true parents -/

/-- The parents that receipts have by a labelling. -/
def parentOf (root : ReceiptOrDataId → CryptoHash) (receipt : ReceiptView) : ParentTransactionHashString :=
  (root (.receiptId receipt.receiptId)).text

/-- If the receipts of a database name their roots, its rows are the rows of the chain with the true parents. -/
theorem StemsFrom.mem_chainRows_root (h : StemsFrom decoders chain db) (hchain : WellFormed decoders chain)
    {root : ReceiptOrDataId → CryptoHash}
    (hroot : ∀ id row, db.receipts.lookup id = some row →
      row.originatedFromTransactionHash = (root (.receiptId id)).text)
    {name : TableName} {k : name.Key} {row : name.Row} (hrow : (name.get db).lookup k = some row) :
    name.key row = k ∧ row ∈ chainRows decoders (parentOf root) chain name := by
  by_cases hname : name = .receipts
  · subst hname
    obtain ⟨hkey, parent', hmem⟩ := h.plain hchain hrow
    refine ⟨hkey, ?_⟩
    obtain ⟨message, hmessage, hmem⟩ := mem_chainRows.mp hmem
    obtain ⟨chunk, hchunk, hmem⟩ := List.mem_flatMap.mp hmem
    obtain ⟨entry, hentry, rfl⟩ := List.mem_map.mp hmem
    have hparent : parent' entry.1 = parentOf root entry.1 := by
      refine (hroot k _ hrow).trans ?_
      rw [← hkey]
      rfl
    rw [hparent]
    exact mem_chainRows.mpr ⟨message, hmessage, List.mem_flatMap.mpr ⟨chunk, hchunk, List.mem_map_of_mem hentry⟩⟩
  · exact h.plain_of_ne hchain hname hrow

end Rows

end ExplorerIndexer

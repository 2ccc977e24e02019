import ExplorerIndexer.AsyncKeeps
import ExplorerIndexer.ListenBlocks

/-! The blocks table while a message is handled: only the insert of the block itself writes to it. -/

namespace ExplorerIndexer

open Async Store Models

structure SameBlocks (w w' : World) : Prop where
  blocks : w'.db.blocks = w.db.blocks

theorem freeBesideBlocks_sameBlocks : FreeBesideBlocks SameBlocks := fun _ _ h => ⟨h⟩

theorem freeParentTables_sameBlocks : FreeParentTables SameBlocks :=
  ⟨fun _ _ => ⟨rfl⟩, fun _ _ => ⟨rfl⟩, fun _ _ => ⟨rfl⟩, fun _ _ => ⟨rfl⟩, fun _ _ => ⟨rfl⟩⟩

/-! ### The adapters with critical sections -/

section Adapters

variable {R : World → World → Prop}

theorem keeps_withCache (h : FreeParentTables R) {β : Type} (act : ReceiptsCache → β × ReceiptsCache) :
    Keeps R (withCache act) := .access (fun w => h.cache w _) fun b => .ret b

theorem Transactions.keeps_storeTransactions (h : FreeParentTables R) (decoders : Decoders)
    (shards : List IndexerShard) (blockHash : CryptoHash) (blockTimestamp blockHeight : Nat) :
    Keeps R (storeTransactions decoders shards blockHash blockTimestamp blockHeight) := by
  have hchunk : ∀ transactions chunkHash suffix, Keeps R
      (storeChunkTransactions decoders transactions chunkHash blockHash blockTimestamp suffix) :=
    fun _ _ _ => (keeps_withCache h _).bind fun _ =>
      ((onlyQueries_await (kept_insertBatch h.transactions)).bind fun _ =>
        onlyQueries_perform (kept_insertBatch h.transactionActions)).keeps
  refine (Keeps.joinAll_map fun chunk => hchunk _ _ _).bind fun _ => ?_
  refine (onlyQueries_collectConvertedToReceiptIds h.refl _).keeps.bind fun insertedReceiptIds => ?_
  split
  · exact .ret ()
  · exact .joinAll_map fun chunk => hchunk _ _ _

theorem Receipts.keeps_storeReceipts (h : FreeParentTables R) (hfree : FreeReceiptTables R) (decoders : Decoders)
    (shards : List IndexerShard) (blockHash : CryptoHash) (blockTimestamp : Nat) (strictMode : Bool) :
    Keeps R (storeReceipts decoders shards blockHash blockTimestamp strictMode) := by
  refine .joinAll_map fun chunk => Keeps.bind ?_ fun txHashes => (keeps_withCache h _).bind fun _ => ?_
  · exact (keeps_withCache h _).bind fun txHashes =>
      (onlyQueries_searchForOthers h.refl strictMode _ txHashes).keeps
  · exact ((onlyQueries_saveReceipts hfree _).bind fun _ =>
      (onlyQueries_storeReceiptActions hfree _ _ _).both (onlyQueries_storeReceiptData hfree _)).keeps

theorem ExecutionOutcomes.keeps_storeExecutionOutcomes (h : FreeParentTables R) (shards : List IndexerShard)
    (blockTimestamp : Nat) : Keeps R (storeExecutionOutcomes shards blockTimestamp) :=
  .joinAll_map fun _ => (keeps_withCache h _).bind fun _ =>
    ((onlyQueries_await (kept_insertBatch h.executionOutcomes)).bind fun _ =>
      onlyQueries_perform (kept_insertBatch h.executionOutcomeReceipts)).keeps

end Adapters

/-- Rows of blocks stay, and only this row is added. -/
structure AddsRow (block : Block) (w w' : World) : Prop where
  kept : ∀ row ∈ w.db.blocks.rows, row ∈ w'.db.blocks.rows
  added : ∀ row ∈ w'.db.blocks.rows, row ∈ w.db.blocks.rows ∨ row = block

/-- Rows of blocks stay, and a row that is added has the height. -/
structure AddsBlock (height : Nat) (w w' : World) : Prop where
  kept : ∀ row ∈ w.db.blocks.rows, row ∈ w'.db.blocks.rows
  added : ∀ row ∈ w'.db.blocks.rows, row ∈ w.db.blocks.rows ∨ row.blockHeight = height

theorem SameBlocks.addsRow {w w' : World} (h : SameBlocks w w') (block : Block) : AddsRow block w w' := by
  refine ⟨fun row hrow => ?_, fun row hrow => .inl ?_⟩
  · rwa [h.blocks]
  · rwa [h.blocks] at hrow

theorem AddsRow.addsBlock {block : Block} {w w' : World} (h : AddsRow block w w') :
    AddsBlock block.blockHeight w w' := by
  refine ⟨h.kept, fun row hrow => (h.added row hrow).imp_right fun heq => ?_⟩
  rw [heq]

theorem Blocks.keeps_storeBlock (block : BlockView) : Keeps (AddsRow (.ofView block)) (storeBlock block) := by
  refine (onlyQueries_perform fun w b w' hok => ?_).keeps
  obtain ⟨db, hdb, rfl⟩ := execute_ok hok
  rw [(insertBatch_ok hdb).1]
  refine ⟨fun row hrow => ?_, fun row hrow => ?_⟩
  · obtain ⟨hash, hlookup⟩ := Table.mem_rows_iff_lookup.mp hrow
    exact Table.mem_rows_iff_lookup.mpr ⟨hash, Table.lookup_insertAllNew_of_some hlookup⟩
  · obtain ⟨hash, hlookup⟩ := Table.mem_rows_iff_lookup.mp hrow
    rcases Table.mem_of_lookup_insertAllNew hlookup with hold | ⟨_, hnew, _⟩
    · exact .inl (Table.mem_rows_iff_lookup.mpr ⟨hash, hold⟩)
    · exact .inr (List.mem_singleton.mp hnew)

/-- A message only adds the row of its block. -/
theorem keeps_handleMessage_row (decoders : Decoders) (strictMode : Bool) (message : StreamerMessage) :
    Keeps (AddsRow (.ofView message.block)) (handleMessage decoders message strictMode) := by
  refine (Blocks.keeps_storeBlock message.block).bind fun _ => ?_
  refine Keeps.mono ?_ fun _ _ h => SameBlocks.addsRow h _
  have hfree := freeBesideBlocks_sameBlocks.freeTables
  refine (Blocks.onlyQueries_storeChunks hfree.chunks _ _).keeps.bind fun _ => ?_
  have hparents := freeParentTables_sameBlocks
  refine Keeps.bind (.both (Transactions.keeps_storeTransactions hparents _ _ _ _ _)
    (Receipts.keeps_storeReceipts hparents freeBesideBlocks_sameBlocks.freeReceiptTables _ _ _ _ _)) fun _ => ?_
  have houtcomes := ExecutionOutcomes.keeps_storeExecutionOutcomes hparents message.shards message.block.header.timestamp
  split
  · exact houtcomes.both (onlyQueries_besideOutcomes hfree decoders message).keeps
  · exact houtcomes.both (onlyQueries_besideOutcomes_of_not_strict hfree decoders message).keeps

theorem keeps_handleMessage (decoders : Decoders) (strictMode : Bool) (message : StreamerMessage) :
    Keeps (AddsBlock message.block.header.height) (handleMessage decoders message strictMode) :=
  (keeps_handleMessage_row decoders strictMode message).mono fun _ _ h => AddsRow.addsBlock h

end ExplorerIndexer

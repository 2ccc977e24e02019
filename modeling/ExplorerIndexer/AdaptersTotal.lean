import ExplorerIndexer.AccountChangesStored
import ExplorerIndexer.AsyncTotal
import ExplorerIndexer.ChainReceipts
import ExplorerIndexer.HandleMessage
import ExplorerIndexer.OutcomesStored
import ExplorerIndexer.ReceiptsRounds

/-! When the adapters can come to their end: as soon as everything is stored that their rows refer to. -/

namespace ExplorerIndexer

open Async Store Models

/-- The block and the chunks that the rows of a message refer to are stored. -/
structure Placed (shards : List IndexerShard) (blockHash : CryptoHash) (db : Database) : Prop where
  block : db.hasBlock blockHash = true
  chunks : ∀ chunk ∈ chunksOf shards, db.hasChunk chunk.header.chunkHash = true

namespace Transactions

variable {shards : List IndexerShard} {blockHash : CryptoHash}

end Transactions

/-! ### Receipts -/

namespace Receipts

theorem InTables.parentHash {w : World} {receipt : ReceiptView} (h : InTables w.db receipt) :
    ∃ hash, ParentHash w receipt hash := by
  rcases h with ⟨haction, ⟨row, hrow, hproduced, hparent⟩ | ⟨row, hrow, hconverted⟩⟩ |
    ⟨dataId, hdata, row, hrow, houtput, hparent⟩
  · obtain ⟨parent, hparent⟩ := Table.mem_iff_lookup.mp hparent
    exact ⟨_, .outcome haction hrow hproduced hparent⟩
  · exact ⟨_, .transaction haction hrow hconverted⟩
  · obtain ⟨parent, hparent⟩ := Table.mem_iff_lookup.mp hparent
    exact ⟨_, .dataOutput hdata hrow houtput hparent⟩

end Receipts

/-! ### Beside the receipts -/

namespace Events

namespace EventTable

variable {ε α ρ : Type} (table : EventTable ε α ρ) [DecidableEq ρ] {rows batch : List ρ}

variable {decoders : Decoders} {chain : List StreamerMessage} {message : StreamerMessage} {shard : IndexerShard}
  {P : World → Prop}

end EventTable

variable {decoders : Decoders} {chain : List StreamerMessage} {message : StreamerMessage}

end Events

/-! ### Account changes -/

end ExplorerIndexer

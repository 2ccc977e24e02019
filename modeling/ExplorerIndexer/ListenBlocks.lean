import ExplorerIndexer.AsyncAlone
import ExplorerIndexer.AsyncStream
import ExplorerIndexer.HandleMessageQueries

/-! The loop that handles the stream. It takes every handled message out of the buffer and drops its result, so a
message that could not be stored is passed over. -/

namespace ExplorerIndexer

open Async Store

/-- A run of `listen_blocks`: the messages are handled with an empty receipts cache at the start. -/
def ListenBlocks (decoders : Decoders) (concurrency : Nat) (strictMode : Bool) (stream : List StreamerMessage)
    (db : Database) (trace : List (StreamEvent StreamerMessage))
    (buffered : Buffered World StreamerMessage) : Prop :=
  StreamRun (handleMessage decoders · strictMode) concurrency ⟨stream, [], ⟨.withSize 100000, db⟩⟩ trace buffered

/-! ### No adapter returns an `Err` of its own -/

theorem errFree_withCache {β : Type} (act : ReceiptsCache → β × ReceiptsCache) : ErrFree (withCache act) :=
  .access fun b => .ret b

namespace Transactions

theorem errFree_storeTransactions (decoders : Decoders) (shards : List IndexerShard) (blockHash : CryptoHash)
    (blockTimestamp blockHeight : Nat) :
    ErrFree (storeTransactions decoders shards blockHash blockTimestamp blockHeight) := by
  have hchunk : ∀ transactions chunkHash suffix, ErrFree
      (storeChunkTransactions decoders transactions chunkHash blockHash blockTimestamp suffix) :=
    fun _ _ _ => (errFree_withCache _).bind fun _ =>
      ((onlyQueries_await sameCache_execute).bind fun _ => onlyQueries_perform sameCache_execute).errFree
  refine (ErrFree.joinAll_map fun chunk => hchunk _ _ _).bind fun _ => ?_
  refine (onlyQueries_collectConvertedToReceiptIds sameCache_refl _).errFree.bind fun insertedReceiptIds => ?_
  split
  · exact .ret ()
  · exact .joinAll_map fun chunk => hchunk _ _ _

end Transactions

theorem Receipts.errFree_storeReceipts (decoders : Decoders) (shards : List IndexerShard) (blockHash : CryptoHash)
    (blockTimestamp : Nat) (strictMode : Bool) :
    ErrFree (storeReceipts decoders shards blockHash blockTimestamp strictMode) := by
  refine .joinAll_map fun chunk => ErrFree.bind ?_ fun txHashes => ?_
  · exact (errFree_withCache _).bind fun txHashes =>
      (onlyQueries_searchForOthers sameCache_refl strictMode _ txHashes).errFree
  · have hfree := freeBesideBlocks_sameCache.freeReceiptTables
    refine (errFree_withCache _).bind fun _ => (onlyQueries_saveReceipts hfree _).errFree.bind fun _ => ?_
    exact ((onlyQueries_storeReceiptActions hfree _ _ _).both (onlyQueries_storeReceiptData hfree _)).errFree

theorem ExecutionOutcomes.errFree_storeExecutionOutcomes (shards : List IndexerShard) (blockTimestamp : Nat) :
    ErrFree (storeExecutionOutcomes shards blockTimestamp) :=
  .joinAll_map fun _ => (errFree_withCache _).bind fun _ =>
    ((onlyQueries_await sameCache_execute).bind fun _ => onlyQueries_perform sameCache_execute).errFree

theorem errFree_handleMessage (decoders : Decoders) (strictMode : Bool) (message : StreamerMessage) :
    ErrFree (handleMessage decoders message strictMode) := by
  have hfree := freeBesideBlocks_sameCache.freeTables
  refine (onlyQueries_perform sameCache_execute).errFree.bind fun _ => ?_
  refine (Blocks.onlyQueries_storeChunks hfree.chunks _ _).errFree.bind fun _ => ?_
  refine ErrFree.bind (.both (Transactions.errFree_storeTransactions _ _ _ _ _)
    (Receipts.errFree_storeReceipts _ _ _ _ _)) fun _ => ?_
  have houtcomes := ExecutionOutcomes.errFree_storeExecutionOutcomes message.shards message.block.header.timestamp
  split
  · exact houtcomes.both (onlyQueries_besideOutcomes hfree decoders message).errFree
  · exact houtcomes.both (onlyQueries_besideOutcomes_of_not_strict hfree decoders message).errFree

/-! ### Skipped blocks -/

/-- With one block at a time in strict mode: between the beginnings of two consecutive blocks `handle_message`
returned `Ok` for the first one, exactly in the runs in which no statement of a block is given up before the next
block is begun. -/
theorem nothingSkipped_iff_nothingGivenUp (decoders : Decoders) (stream : List StreamerMessage) (db : Database)
    (trace : List (StreamEvent StreamerMessage)) (buffered : Buffered World StreamerMessage)
    (h : ListenBlocks decoders 1 true stream db trace buffered) :
    NothingSkipped trace ↔ NothingGivenUp trace :=
  h.nothingSkipped_iff (errFree_handleMessage decoders true)

/-- A block without shards. -/
def quietBlock (height : Nat) (hash prevHash : CryptoHash) : StreamerMessage where
  block :=
    { author := "validator.near"
      header := { height, hash, prevHash, timestamp := height, totalSupply := 0, gasPrice := 0 } }
  shards := []

def block6 : StreamerMessage := quietBlock 6 (.ofText "b6") (.ofText "b5")

def block7 : StreamerMessage := quietBlock 7 (.ofText "b7") (.ofText "b6")

/-- The insert of a block is lost ten times. -/
theorem handleMessage_gives_up (message : StreamerMessage) (w : World) :
    Steps (handleMessage .silent message true) w (List.replicate 10 .lost ++ [.gaveUp]) .fail w :=
  ((Steps.give_up 10 _ _ _ w).bind _).bind _

/-- What happens while the database is out of reach for the first of two blocks. -/
def outageTrace : List (StreamEvent StreamerMessage) :=
  (.began block6 :: (List.replicate 10 Event.lost ++ [Event.gaveUp]).map (.stepped block6)) ++ [.handled block6 false] ++
    [.began block7]

theorem listenBlocks_outage :
    ∃ buffered, ListenBlocks .silent 1 true [block6, block7] {} outageTrace buffered :=
  ⟨_, .passes_over (handleMessage_gives_up _ _) Nat.one_pos⟩

theorem nothingSkipped_iff_outage : NothingSkipped outageTrace ↔ NothingGivenUp outageTrace :=
  listenBlocks_outage.elim fun buffered h =>
    nothingSkipped_iff_nothingGivenUp .silent [block6, block7] {} outageTrace buffered h

/-- A block is passed over during an outage of the database. -/
theorem skips_block_in_outage :
    ¬ ∀ (decoders : Decoders) (stream : List StreamerMessage) (db : Database)
      (trace : List (StreamEvent StreamerMessage)) (buffered : Buffered World StreamerMessage),
      ListenBlocks decoders 1 true stream db trace buffered → NothingSkipped trace := by
  intro hall
  obtain ⟨buffered, hrun⟩ := listenBlocks_outage
  have htrace : outageTrace = [] ++ .began block6 ::
      (((List.replicate 10 Event.lost ++ [Event.gaveUp]).map (.stepped block6) ++ [.handled block6 false]) ++
        .began block7 :: []) := by
    simp only [outageTrace, List.nil_append, List.cons_append, List.append_assoc]
  have hskip := hall _ _ _ _ _ hrun [] _ _ _ [] htrace (by simp)
  simp at hskip

end ExplorerIndexer

import ExplorerIndexer.DatabaseOutlines
import ExplorerIndexer.HandleMessageQueries
import ExplorerIndexer.ReceiptsLookups

/-! The part of a message's handling that has nothing to do with parent transactions: it leaves the receipts cache
and the tables that are searched for parents alone. An assertion about these is kept by the whole handling once it
is kept by the adapters of transactions, receipts and execution outcomes. -/

namespace ExplorerIndexer

open Async Store Models

/-- The receipts cache and the tables searched for parents are the same. -/
structure SameParents (w w' : World) : Prop where
  cache : w'.cache = w.cache
  transactions : w'.db.transactions = w.db.transactions
  receipts : w'.db.receipts = w.db.receipts
  executionOutcomeReceipts : w'.db.executionOutcomeReceipts = w.db.executionOutcomeReceipts
  actionReceiptOutputData : w'.db.actionReceiptOutputData = w.db.actionReceiptOutputData

/-- The transactions are the same, and so are the cached parents of receipts, apart from those driven out. -/
structure SameTransactions (w w' : World) : Prop where
  transactions : w'.db.transactions = w.db.transactions
  cache : ∀ receiptId hash, w'.cache.lookup (.receiptId receiptId) = some hash →
    w.cache.lookup (.receiptId receiptId) = some hash

theorem SameParents.sameTransactions {w w' : World} (h : SameParents w w') : SameTransactions w w' :=
  ⟨h.transactions, fun receiptId hash hlookup => by rwa [h.cache] at hlookup⟩

theorem freeTables_sameParents : FreeTables SameParents :=
  ⟨fun _ _ => ⟨rfl, rfl, rfl, rfl, rfl⟩, fun _ _ => ⟨rfl, rfl, rfl, rfl, rfl⟩, fun _ _ => ⟨rfl, rfl, rfl, rfl, rfl⟩,
    fun _ _ => ⟨rfl, rfl, rfl, rfl, rfl⟩, fun _ _ => ⟨rfl, rfl, rfl, rfl, rfl⟩,
    fun _ _ => ⟨rfl, rfl, rfl, rfl, rfl⟩⟩

theorem sameTransactions_refl (w : World) : SameTransactions w w := ⟨rfl, fun _ _ h => h⟩

theorem freeReceiptTables_sameTransactions : FreeReceiptTables SameTransactions :=
  ⟨fun _ _ => ⟨rfl, fun _ _ h => h⟩, fun _ _ => ⟨rfl, fun _ _ h => h⟩, fun _ _ => ⟨rfl, fun _ _ h => h⟩,
    fun _ _ => ⟨rfl, fun _ _ h => h⟩, fun _ _ => ⟨rfl, fun _ _ h => h⟩, fun _ _ => ⟨rfl, fun _ _ h => h⟩⟩

/-- The state after an insert of transactions. -/
def World.addTransactions (w : World) (batch : List Transaction) : World :=
  { w with db := { w.db with transactions := w.db.transactions.insertAllNew (·.transactionHash) batch } }

section Frame

variable {rely guarantee : World → World → Prop} {P : World → Prop}
  (hG : ∀ w w', SameParents w w' → guarantee w w') (hself : ∀ w w', guarantee w w' → rely w w') (hP : Stable rely P)

include hG hself hP

omit hP in
/-- The transactions of a chunk are cached and then inserted; their actions are stored elsewhere. -/
theorem Transactions.outline_storeChunkTransactions {A B : World → Prop} (decoders : Decoders)
    (transactions : List (IndexerTransactionWithOutcome × Nat)) (chunkHash blockHash : CryptoHash)
    (blockTimestamp : Nat) (suffix : String) (hA : Stable rely A) (hB : Stable rely B)
    (hcache : ∀ w, P w → guarantee w { w with cache := cacheTransactions suffix transactions w.cache } ∧
      A { w with cache := cacheTransactions suffix transactions w.cache })
    (hinsert : ∀ w, A w →
      guarantee w (w.addTransactions (transactionModels transactions chunkHash blockHash blockTimestamp suffix)) ∧
      B (w.addTransactions (transactionModels transactions chunkHash blockHash blockTimestamp suffix))) :
    Outline False rely guarantee P
      (storeChunkTransactions decoders transactions chunkHash blockHash blockTimestamp suffix) fun _ => B := by
  refine Outline.bind (outline_updateCache hcache hA) fun _ => ?_
  refine Outline.bind (outline_insert False.elim (fun w hw _ => hinsert w hw) hB) fun _ => ?_
  exact (onlyQueries_perform (kept_insertBatch fun _ _ => ⟨rfl, rfl, rfl, rfl, rfl⟩)).outline_kept hG hself hB

omit hG hself hP in
/-- What collecting the receipts tells. -/
theorem Transactions.outline_collectConvertedToReceiptIds {M : List CryptoHash → World → Prop}
    {blockHash : CryptoHash} (hread : ∀ w, P w → guarantee w w ∧ M (convertedToReceiptIds blockHash w.db) w)
    (hstable : ∀ ids, Stable rely (M ids)) :
    Outline False rely guarantee P (collectConvertedToReceiptIds blockHash) M := by
  refine .query (M := fun ids => M (ids.getD [])) (fun w ids w' hw hok => ?_)
    (fun _ _ _ _ h => (Bool.false_ne_true h).elim) False.elim (fun _ => hstable _) fun ids => .ret fun w hw => hw
  obtain ⟨rfl, rfl⟩ := selectFrom_ok hok
  exact hread _ hw

theorem ExecutionOutcomes.outline_storeExecutionOutcomes_of_kept {shards : List IndexerShard} {blockTimestamp : Nat}
    (hcache : ∀ shard ∈ shards, ∀ w, P w →
      guarantee w { w with cache := passOnParents shard.receiptExecutionOutcomes w.cache })
    (hinsert : ∀ shard ∈ shards, ∀ w, P w → guarantee w { w with db := { w.db with
      executionOutcomeReceipts := w.db.executionOutcomeReceipts.insertAllNew ExecutionOutcomeReceipt.key
        (outcomeReceiptModels shard.receiptExecutionOutcomes) } }) :
    Outline False rely guarantee P (storeExecutionOutcomes shards blockTimestamp) fun _ => P := by
  refine .joinAll hself hP fun task htask => ?_
  obtain ⟨shard, hshard, rfl⟩ := List.mem_map.mp htask
  refine Outline.bind (outline_updateCache (fun w hw => ?_) hP) fun _ => ?_
  · have hkept := hcache shard hshard w hw
    exact ⟨hkept, hP _ _ hw (hself _ _ hkept)⟩
  refine ((onlyQueries_await (kept_insertBatch fun _ _ =>
    ⟨rfl, rfl, rfl, rfl, rfl⟩)).outline_kept hG hself hP).bind fun _ => ?_
  refine Outline.bind (outline_insert False.elim (fun w hw _ => ?_) hP) fun _ => .ret fun _ hw => hw
  have hkept := hinsert shard hshard w hw
  exact ⟨hkept, hP _ _ hw (hself _ _ hkept)⟩

omit hG in
theorem Receipts.outline_storeReceipts_of_kept (hT : ∀ w w', SameTransactions w w' → guarantee w w')
    (decoders : Decoders) (shards : List IndexerShard) (blockHash : CryptoHash) (blockTimestamp : Nat)
    (strictMode : Bool) :
    Outline False rely guarantee P (storeReceipts decoders shards blockHash blockTimestamp strictMode) fun _ => P := by
  have hstep : ∀ w w', P w → SameTransactions w w' → guarantee w w' ∧ P w' :=
    fun w w' hw h => ⟨hT w w' h, hP w w' hw (hself w w' (hT w w' h))⟩
  refine .joinAll hself hP fun task htask => ?_
  obtain ⟨chunk, _, rfl⟩ := List.mem_map.mp htask
  have hfind : Outline False rely guarantee P (findTxHashesForReceipts strictMode chunk.receipts) fun _ => P := by
    rw [findTxHashesForReceipts_eq]
    refine Outline.bind (outline_withCache (fun w hw => ?_) fun _ => hP) fun txHashes => ?_
    · exact hstep w _ hw ⟨rfl, fun _ _ => of_lookup_askCacheForAll⟩
    · exact (onlyQueries_searchForOthers sameTransactions_refl strictMode _ txHashes).outline_kept hT hself hP
  refine hfind.bind fun txHashes => ?_
  refine Outline.bind (outline_updateCache (fun w hw => ?_) hP) fun _ => ?_
  · exact hstep w _ hw ⟨rfl, fun _ _ => of_lookup_cacheDataIds⟩
  have hfree := freeReceiptTables_sameTransactions
  exact OnlyQueries.outline_kept ((onlyQueries_saveReceipts hfree _).bind fun _ =>
    (onlyQueries_storeReceiptActions hfree _ _ _).both (onlyQueries_storeReceiptData hfree _)) hT hself hP

/-- The whole handling of a message keeps what the three adapters of parent transactions keep. -/
theorem outline_handleMessage (decoders : Decoders) (message : StreamerMessage) (strictMode : Bool)
    (htransactions : Outline False rely guarantee P (Transactions.storeTransactions decoders message.shards
      message.block.header.hash message.block.header.timestamp message.block.header.height) fun _ => P)
    (hreceipts : Outline False rely guarantee P (Receipts.storeReceipts decoders message.shards
      message.block.header.hash message.block.header.timestamp strictMode) fun _ => P)
    (houtcomes : Outline False rely guarantee P
      (ExecutionOutcomes.storeExecutionOutcomes message.shards message.block.header.timestamp) fun _ => P) :
    Outline False rely guarantee P (handleMessage decoders message strictMode) fun _ => P := by
  have hfree := freeTables_sameParents
  have hblock := Blocks.onlyQueries_storeBlock (R := SameParents) (fun _ _ => ⟨rfl, rfl, rfl, rfl, rfl⟩) message.block
  refine (hblock.outline_kept hG hself hP).bind fun _ => ?_
  refine ((Blocks.onlyQueries_storeChunks hfree.chunks _ _).outline_kept hG hself hP).bind fun _ => ?_
  refine Outline.bind ((Outline.both hself hP hP hP htransactions hreceipts).post fun _ _ hw => hw.1) fun _ => ?_
  split
  · have hbeside := (onlyQueries_besideOutcomes hfree decoders message).outline_kept hG hself hP
    exact (Outline.both hself hP hP hP houtcomes hbeside).post fun _ _ hw => hw.1
  · have hbeside := (onlyQueries_besideOutcomes_of_not_strict hfree decoders message).outline_kept hG hself hP
    exact (Outline.both hself hP hP hP houtcomes hbeside).post fun _ _ hw => hw.1

end Frame

end ExplorerIndexer

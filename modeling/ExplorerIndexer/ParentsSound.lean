import ExplorerIndexer.HandleMessageFrame

/-! What ties the receipts cache to the tables. A stream of blocks determines, for every receipt and data id, the
transaction it stems from; transactions and execution outcomes put only such parents into the cache and the
tables. -/

namespace ExplorerIndexer.Parents

open Async Store Models

/-- A labelling of receipts and data ids by the transactions they stem from. -/
structure Labelling (stream : List StreamerMessage) (root : ReceiptOrDataId → CryptoHash) : Prop where
  converted : ∀ message ∈ stream, ∀ tx ∈ message.transactions,
    root (.receiptId tx.convertedIntoReceiptId) = tx.transaction.hash
  produced : ∀ message ∈ stream, ∀ outcome ∈ message.outcomes,
    ∀ receiptId ∈ outcome.executionOutcome.outcome.receiptIds,
      root (.receiptId receiptId) = root (.receiptId outcome.executionOutcome.id)
  output : ∀ message ∈ stream, ∀ receipt ∈ message.receipts, ∀ receiver ∈ receipt.outputDataReceivers,
    root (.dataId receiver.dataId) = root (.receiptId receipt.receiptId)
  data : ∀ message ∈ stream, ∀ receipt ∈ message.receipts, ∀ dataId, receipt.dataId? = some dataId →
    root (.receiptId receipt.receiptId) = root (.dataId dataId)

/-- No two transactions of the stream have the same hash. -/
def DistinctHashes (stream : List StreamerMessage) : Prop :=
  ((stream.flatMap (·.transactions)).map (·.transaction.hash)).Nodup

/-- The row of a transaction, under its own hash. -/
def IsRowOf (message : StreamerMessage) (tx : IndexerTransactionWithOutcome) (row : Transaction) : Prop :=
  row.transactionHash = tx.transaction.hash.text ∧ row.includedInBlockHash = message.block.header.hash ∧
    row.convertedIntoReceiptId = tx.convertedIntoReceiptId

section Soundness

variable (stream : List StreamerMessage) (root : ReceiptOrDataId → CryptoHash)

/-- Found parents are the roots. -/
def SoundHashes (find : ReceiptOrDataId → Option ParentTransactionHashString) : Prop :=
  ∀ key transactionHash, find key = some transactionHash → transactionHash = (root key).text

/-- The invariant that ties the cache to the four tables. -/
structure Sound (w : World) : Prop where
  cache : SoundHashes root w.cache.lookup
  transactions : ∀ hash row, w.db.transactions.lookup hash = some row →
    ∃ message ∈ stream, ∃ tx ∈ message.transactions, hash = tx.transaction.hash.text ∧ IsRowOf message tx row
  receipts : ∀ id row, w.db.receipts.lookup id = some row →
    row.originatedFromTransactionHash = (root (.receiptId id)).text
  outcomeReceipts : ∀ key row, w.db.executionOutcomeReceipts.lookup key = some row →
    root (.receiptId row.producedReceiptId) = root (.receiptId row.executedReceiptId)
  outputData : ∀ key row, w.db.actionReceiptOutputData.lookup key = some row →
    root (.dataId row.outputDataId) = root (.receiptId row.outputFromReceiptId)

/-- What every step does: the invariant is kept and stored transactions stay as they are. -/
structure KeepsSound (w w' : World) : Prop where
  sound : Sound stream root w → Sound stream root w'
  transactions : ∀ hash row, w.db.transactions.lookup hash = some row → w'.db.transactions.lookup hash = some row

end Soundness

variable {stream : List StreamerMessage} {root : ReceiptOrDataId → CryptoHash}

theorem stable_sound : Stable (KeepsSound stream root) (Sound stream root) := fun _ _ hw hkeeps => hkeeps.sound hw

/-- The task knows a fact about its values, and the invariant holds. -/
abbrev Knows {α : Type} (stream : List StreamerMessage) (root : ReceiptOrDataId → CryptoHash) (fact : α → Prop)
    (value : α) (w : World) : Prop := fact value ∧ Sound stream root w

theorem stable_knows {α : Type} (fact : α → Prop) (value : α) :
    Stable (KeepsSound stream root) (Knows stream root fact value) := (Stable.const _ _).and stable_sound

theorem KeepsSound.of_sameParents {w w' : World} (h : SameParents w w') : KeepsSound stream root w w' := by
  refine ⟨fun hw => ⟨?_, ?_, ?_, ?_, ?_⟩, fun hash row hrow => ?_⟩
  · rw [h.cache]
    exact hw.cache
  · rw [h.transactions]
    exact hw.transactions
  · rw [h.receipts]
    exact hw.receipts
  · rw [h.executionOutcomeReceipts]
    exact hw.outcomeReceipts
  · rw [h.actionReceiptOutputData]
    exact hw.outputData
  · rwa [h.transactions]

/-- A step that only touches the cache. -/
theorem KeepsSound.withCache {w : World} {cache : ReceiptsCache} (h : SoundHashes root cache.lookup) :
    KeepsSound stream root w { w with cache := cache } :=
  ⟨fun hw => ⟨h, hw.transactions, hw.receipts, hw.outcomeReceipts, hw.outputData⟩, fun _ _ hrow => hrow⟩

/-! ### The receipts cache -/

theorem SoundHashes.cacheSet {cache : ReceiptsCache} (h : SoundHashes root cache.lookup) {key : ReceiptOrDataId}
    {transactionHash : ParentTransactionHashString} (hkey : transactionHash = (root key).text) :
    SoundHashes root (cache.cacheSet key transactionHash).lookup := by
  intro key' hash hlookup
  rcases SizedCache.of_lookup_cacheSet hlookup with ⟨rfl, rfl⟩ | ⟨_, hlookup⟩
  · exact hkey
  · exact h key' hash hlookup

theorem SoundHashes.cacheRemove {cache : ReceiptsCache} (h : SoundHashes root cache.lookup)
    (key : ReceiptOrDataId) : SoundHashes root (cache.cacheRemove key).2.lookup := by
  intro key' hash hlookup
  rw [SizedCache.lookup_cacheRemove] at hlookup
  split at hlookup
  · cases hlookup
  · exact h key' hash hlookup

/-- A fold of sound changes. -/
theorem SoundHashes.foldl {ι : Type} {items : List ι} {change : ReceiptsCache → ι → ReceiptsCache}
    (hchange : ∀ cache, ∀ item ∈ items, SoundHashes root cache.lookup → SoundHashes root (change cache item).lookup)
    {cache : ReceiptsCache} (h : SoundHashes root cache.lookup) :
    SoundHashes root (items.foldl change cache).lookup :=
  List.foldlRecOn (motive := fun cache => SoundHashes root cache.lookup) items change h
    fun cache hcache item hmem => hchange cache item hmem hcache

/-! ### Execution outcomes -/

theorem sound_passOnParents {executionOutcomes : List IndexerExecutionOutcomeWithReceipt} {cache : ReceiptsCache}
    (hproduced : ∀ outcome ∈ executionOutcomes, ∀ receiptId ∈ outcome.executionOutcome.outcome.receiptIds,
      root (.receiptId receiptId) = root (.receiptId outcome.executionOutcome.id))
    (h : SoundHashes root cache.lookup) :
    SoundHashes root (ExecutionOutcomes.passOnParents executionOutcomes cache).lookup := by
  refine SoundHashes.foldl (fun cache outcome hmem hcache => ?_) h
  unfold ExecutionOutcomes.passOnParent
  rcases hparent : cache.lookup (.receiptId outcome.executionOutcome.id) with _ | transactionHash
  · simp only [SizedCache.cacheRemove, hparent]
    exact hcache.cacheRemove _
  · simp only [SizedCache.cacheRemove, hparent]
    refine SoundHashes.foldl (fun cache' receiptId hid hcache' => hcache'.cacheSet ?_) (hcache.cacheRemove _)
    rw [hproduced outcome hmem receiptId hid]
    exact hcache _ _ hparent

theorem outline_storeExecutionOutcomes {shards : List IndexerShard} {blockTimestamp : Nat}
    (hproduced : ∀ shard ∈ shards, ∀ outcome ∈ shard.receiptExecutionOutcomes,
      ∀ receiptId ∈ outcome.executionOutcome.outcome.receiptIds,
        root (.receiptId receiptId) = root (.receiptId outcome.executionOutcome.id)) :
    Outline False (KeepsSound stream root) (KeepsSound stream root) (Sound stream root)
      (ExecutionOutcomes.storeExecutionOutcomes shards blockTimestamp) fun _ => Sound stream root := by
  refine ExecutionOutcomes.outline_storeExecutionOutcomes_of_kept (fun _ _ => KeepsSound.of_sameParents)
    (fun _ _ h => h) stable_sound (fun shard hshard w hw => ?_) fun shard hshard w _ => ?_
  · exact .withCache (sound_passOnParents (hproduced shard hshard) hw.cache)
  · refine ⟨fun hw => ⟨hw.cache, hw.transactions, hw.receipts, fun key row hrow => ?_, hw.outputData⟩, fun _ _ h => h⟩
    rcases Table.mem_of_lookup_insertAllNew hrow with hold | ⟨_, hnew, _⟩
    · exact hw.outcomeReceipts key row hold
    · obtain ⟨outcome, hmem, entry, hentry, rfl⟩ := ExecutionOutcomes.mem_outcomeReceiptModels.mp hnew
      exact hproduced shard hshard outcome hmem entry.1 (List.fst_mem_of_mem_zipIdx hentry)

/-! ### Transactions -/

/-- A transaction of a message is stored under its own hash. -/
def TransactionStored (message : StreamerMessage) (tx : IndexerTransactionWithOutcome) (w : World) : Prop :=
  ∃ row, w.db.transactions.lookup tx.transaction.hash.text = some row ∧ IsRowOf message tx row

theorem stable_transactionStored (message : StreamerMessage) (tx : IndexerTransactionWithOutcome) :
    Stable (KeepsSound stream root) (TransactionStored message tx) :=
  fun _ _ ⟨row, hrow, his⟩ hkeeps => ⟨row, hkeeps.transactions _ _ hrow, his⟩

theorem sound_cacheTransactions {message : StreamerMessage} (hmessage : message ∈ stream)
    (hroot : Labelling stream root) {transactions : List (IndexerTransactionWithOutcome × Nat)} {suffix : String}
    (hentries : ∀ entry ∈ transactions, entry.1 ∈ message.transactions ∧
      Transactions.hashWithSuffix suffix entry.1 = entry.1.transaction.hash.text)
    {cache : ReceiptsCache} (h : SoundHashes root cache.lookup) :
    SoundHashes root (Transactions.cacheTransactions suffix transactions cache).lookup := by
  refine SoundHashes.foldl (fun cache entry hentry hcache => hcache.cacheSet ?_) h
  rw [hroot.converted message hmessage entry.1 (hentries entry hentry).1]
  exact (hentries entry hentry).2

section ChunkTransactions

variable {message : StreamerMessage} {transactions : List (IndexerTransactionWithOutcome × Nat)} {suffix : String}
  (chunkHash : CryptoHash) (blockTimestamp : Nat)

/-- Inserting transactions of the stream under their own hashes. -/
theorem keepsSound_insertTransactions (hmessage : message ∈ stream)
    (hentries : ∀ entry ∈ transactions, entry.1 ∈ message.transactions ∧
      Transactions.hashWithSuffix suffix entry.1 = entry.1.transaction.hash.text) (w : World) :
    KeepsSound stream root w (w.addTransactions (Transactions.transactionModels transactions chunkHash
      message.block.header.hash blockTimestamp suffix)) := by
  refine ⟨fun hw => ⟨hw.cache, fun hash row hrow => ?_, hw.receipts, hw.outcomeReceipts, hw.outputData⟩,
    fun hash row hrow => Table.lookup_insertAllNew_of_some hrow⟩
  rcases Table.mem_of_lookup_insertAllNew hrow with hold | ⟨_, hnew, hkey⟩
  · exact hw.transactions hash row hold
  · obtain ⟨⟨tx, index⟩, hentry, rfl⟩ := List.mem_map.mp hnew
    obtain ⟨htx, hhash⟩ := hentries _ hentry
    exact ⟨message, hmessage, tx, htx, hkey ▸ hhash, hhash, rfl, rfl⟩

theorem transactionStored_of_insert (hmessage : message ∈ stream) (hdistinct : DistinctHashes stream)
    {w : World} (hw : Sound stream root w) {tx : IndexerTransactionWithOutcome} (htx : tx ∈ message.transactions)
    (hrow : ∃ row, w.db.transactions.lookup tx.transaction.hash.text = some row) :
    TransactionStored message tx w := by
  obtain ⟨row, hrow⟩ := hrow
  obtain ⟨message', hmessage', tx', htx', hhash, his⟩ := hw.transactions _ row hrow
  obtain ⟨rfl, rfl⟩ := StreamerMessage.eq_of_nodup_transactions hdistinct hmessage htx hmessage' htx'
    (CryptoHash.text_injective hhash)
  exact ⟨row, hrow, his⟩

theorem outline_storeChunkTransactions (decoders : Decoders) (hmessage : message ∈ stream)
    (hroot : Labelling stream root) (hdistinct : DistinctHashes stream)
    (hentries : ∀ entry ∈ transactions, entry.1 ∈ message.transactions ∧
      Transactions.hashWithSuffix suffix entry.1 = entry.1.transaction.hash.text) :
    Outline False (KeepsSound stream root) (KeepsSound stream root) (Sound stream root)
      (Transactions.storeChunkTransactions decoders transactions chunkHash message.block.header.hash blockTimestamp
        suffix)
      fun _ w => ∀ entry ∈ transactions, TransactionStored message entry.1 w := by
  have hstable : Stable (KeepsSound stream root) fun w =>
      ∀ entry ∈ transactions, TransactionStored message entry.1 w := fun w w' h hkeeps entry hentry =>
    stable_transactionStored message entry.1 w w' (h entry hentry) hkeeps
  refine Transactions.outline_storeChunkTransactions (fun _ _ => KeepsSound.of_sameParents) (fun _ _ h => h)
    decoders _ _ _ _ _ stable_sound hstable (fun w hw => ?_) fun w hw => ?_
  · have hkeeps : KeepsSound stream root w _ :=
      .withCache (sound_cacheTransactions hmessage hroot hentries hw.cache)
    exact ⟨hkeeps, hkeeps.sound hw⟩
  · have hkeeps : KeepsSound stream root w _ :=
      keepsSound_insertTransactions chunkHash blockTimestamp hmessage hentries w
    refine ⟨hkeeps, fun entry hentry => ?_⟩
    refine transactionStored_of_insert hmessage hdistinct (hkeeps.sound hw) (hentries entry hentry).1 ?_
    have hmodel : Transaction.fromIndexerTransaction entry.1 (Transactions.hashWithSuffix suffix entry.1)
        entry.1.convertedIntoReceiptId message.block.header.hash chunkHash blockTimestamp entry.2 ∈
        Transactions.transactionModels transactions chunkHash message.block.header.hash blockTimestamp suffix :=
      List.mem_map.mpr ⟨entry, hentry, rfl⟩
    have hstored : ∃ row, (w.db.transactions.insertAllNew (·.transactionHash) _).lookup _ = some row :=
      Table.lookup_insertAllNew_of_mem hmodel _
    rw [← (hentries entry hentry).2]
    exact hstored

end ChunkTransactions

theorem mem_transactions_of_chunk {message : StreamerMessage} {chunk : IndexerChunkView}
    (hchunk : chunk ∈ chunksOf message.shards) {entry : IndexerTransactionWithOutcome × Nat}
    (hentry : entry ∈ chunk.transactions.zipIdx) : entry.1 ∈ message.transactions :=
  List.mem_flatMap.mpr ⟨chunk, hchunk, List.fst_mem_of_mem_zipIdx hentry⟩

/-- The second phase never has a transaction to store under a suffix: all of them were stored in the first one. -/
theorem outline_storeTransactions (decoders : Decoders) {message : StreamerMessage} (hmessage : message ∈ stream)
    (hroot : Labelling stream root) (hdistinct : DistinctHashes stream) :
    Outline False (KeepsSound stream root) (KeepsSound stream root) (Sound stream root)
      (Transactions.storeTransactions decoders message.shards message.block.header.hash
        message.block.header.timestamp message.block.header.height) fun _ => Sound stream root := by
  have hfirst : Outline False (KeepsSound stream root) (KeepsSound stream root) (Sound stream root)
      (Prog.joinAll ((chunksOf message.shards).map fun chunk => Transactions.storeChunkTransactions decoders
        chunk.transactions.zipIdx chunk.header.chunkHash message.block.header.hash message.block.header.timestamp ""))
      fun _ w => ∀ chunk ∈ chunksOf message.shards, ∀ entry ∈ chunk.transactions.zipIdx,
        TransactionStored message entry.1 w := by
    refine .joinAll_map (fun _ _ h => h) stable_sound (fun chunk w w' h hkeeps entry hentry => ?_)
      fun chunk hchunk => ?_
    · exact stable_transactionStored message entry.1 w w' (h entry hentry) hkeeps
    · exact outline_storeChunkTransactions _ _ decoders hmessage hroot hdistinct fun entry hentry =>
        ⟨mem_transactions_of_chunk hchunk hentry, Transactions.hashWithSuffix_empty _⟩
  refine Outline.bind (hfirst.keep (fun _ _ h => h) stable_sound) fun _ => ?_
  have hcollect : Outline False (KeepsSound stream root) (KeepsSound stream root)
      (fun w => (∀ chunk ∈ chunksOf message.shards, ∀ entry ∈ chunk.transactions.zipIdx,
        TransactionStored message entry.1 w) ∧ Sound stream root w)
      (Transactions.collectConvertedToReceiptIds message.block.header.hash)
      fun ids w => (∀ tx ∈ message.transactions, tx.convertedIntoReceiptId ∈ ids) ∧ Sound stream root w := by
    refine Transactions.outline_collectConvertedToReceiptIds (fun w hw => ?_) fun ids =>
      (Stable.const _ _).and stable_sound
    refine ⟨.of_sameParents ⟨rfl, rfl, rfl, rfl, rfl⟩, fun tx htx => ?_, hw.2⟩
    obtain ⟨chunk, hchunk, htx⟩ := List.mem_flatMap.mp htx
    obtain ⟨i, hi, rfl⟩ := List.getElem_of_mem htx
    have hentry := List.mk_mem_zipIdx_iff_getElem?.mpr (List.getElem?_eq_getElem hi)
    obtain ⟨row, hrow, _, hblock, hconverted⟩ := hw.1 chunk hchunk _ hentry
    exact Transactions.mem_convertedToReceiptIds.mpr ⟨_, row, hrow, hblock, hconverted⟩
  refine Outline.bind hcollect fun ids => .assume fun hids => ?_
  split
  · exact .ret fun _ hw => hw
  · refine .joinAll (fun _ _ h => h) stable_sound fun task htask => ?_
    obtain ⟨chunk, hchunk, rfl⟩ := List.mem_map.mp htask
    have hnone : Transactions.collidedTransactions ids chunk = [] := by
      refine List.filter_eq_nil_iff.mpr fun entry hentry => ?_
      rw [decide_eq_true_eq, not_not]
      exact hids entry.1 (mem_transactions_of_chunk hchunk hentry)
    rw [hnone]
    refine ((outline_storeChunkTransactions _ _ decoders hmessage hroot hdistinct ?_).keep (fun _ _ h => h)
      stable_sound).post fun _ _ hw => hw.2
    intro entry hentry
    cases hentry

end ExplorerIndexer.Parents

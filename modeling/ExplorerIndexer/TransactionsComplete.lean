import ExplorerIndexer.AsyncCalls
import ExplorerIndexer.CollidedReplay

/-! Calls of `storeTransactions` for the blocks of a chain, next to each other, cut off and repeated. Whenever one
has returned, each transaction of its block has one row, and no row ever changes. -/

namespace ExplorerIndexer.Collisions

open Async Store Models Transactions

/-- A call for the block of a message. -/
def storeTransactionsCall (decoders : Decoders) (message : StreamerMessage) : Prog World Unit :=
  storeTransactions decoders message.shards message.block.header.hash message.block.header.timestamp
    message.block.header.height

/-- The rest of the system changes other tables and the cache. -/
def LeavesTransactions (w w' : World) : Prop := w'.db.transactions = w.db.transactions

/-- Every row is the model of a transaction of the stream, with its position in its chunk. -/
def Modelled (stream : List StreamerMessage) (w : World) : Prop :=
  ∀ hash row, w.db.transactions.lookup hash = some row → ∃ message ∈ stream, ∃ chunk ∈ chunksOf message.shards,
    ∃ entry ∈ chunk.transactions.zipIdx, row = .fromIndexerTransaction entry.1 hash entry.1.convertedIntoReceiptId
      message.block.header.hash chunk.header.chunkHash message.block.header.timestamp entry.2

/-- Whatever is stored next to the models are models. -/
def KeepsModelled (stream : List StreamerMessage) (w w' : World) : Prop := Modelled stream w → Modelled stream w'

section Models

variable {stream : List StreamerMessage} {message : StreamerMessage} {w w' : World}

theorem stable_modelled : Stable (KeepsModelled stream) (Modelled stream) := fun _ _ hw hstep => hstep hw

theorem keepsModelled_of_transactions (h : w'.db.transactions = w.db.transactions) : KeepsModelled stream w w' := by
  intro hw hash row hrow
  rw [h] at hrow
  exact hw hash row hrow

theorem modelled_addTransactions (suffix : String) (hmessage : message ∈ stream) {chunk : IndexerChunkView}
    (hchunk : chunk ∈ chunksOf message.shards) {entries : List (IndexerTransactionWithOutcome × Nat)}
    (hentries : ∀ entry ∈ entries, entry ∈ chunk.transactions.zipIdx) (hw : Modelled stream w) :
    Modelled stream (w.addTransactions (transactionModels entries chunk.header.chunkHash message.block.header.hash
      message.block.header.timestamp suffix)) := by
  intro hash row hrow
  rcases Table.mem_of_lookup_insertAllNew hrow with hold | ⟨_, hnew, hkey⟩
  · exact hw hash row hold
  · obtain ⟨entry, hentry, rfl⟩ := List.mem_map.mp hnew
    obtain rfl : hashWithSuffix suffix entry.1 = hash := hkey
    exact ⟨message, hmessage, chunk, hchunk, entry, hentries entry hentry, rfl⟩

/-- Both phases store models. -/
theorem outline_storeTransactions_modelled (decoders : Decoders) (hmessage : message ∈ stream) :
    Outline False (KeepsModelled stream) (KeepsModelled stream) (Modelled stream)
      (storeTransactionsCall decoders message) fun _ => Modelled stream := by
  have hphase : ∀ (select : IndexerChunkView → List (IndexerTransactionWithOutcome × Nat)) (suffix : String),
      (∀ chunk, ∀ entry ∈ select chunk, entry ∈ chunk.transactions.zipIdx) →
      Outline False (KeepsModelled stream) (KeepsModelled stream) (Modelled stream)
        (Prog.joinAll ((chunksOf message.shards).map fun chunk => storeChunkTransactions decoders (select chunk)
          chunk.header.chunkHash message.block.header.hash message.block.header.timestamp suffix))
        fun _ => Modelled stream := by
    intro select suffix hselect
    refine .joinAll (fun _ _ h => h) stable_modelled fun task htask => ?_
    obtain ⟨chunk, hchunk, rfl⟩ := List.mem_map.mp htask
    refine Transactions.outline_storeChunkTransactions
      (fun _ _ h => keepsModelled_of_transactions h.sameTransactions.transactions) (fun _ _ h => h) decoders _ _ _ _ _
      stable_modelled stable_modelled (fun w hw => ?_) fun w hw => ?_
    · exact ⟨keepsModelled_of_transactions rfl, keepsModelled_of_transactions (w := w) rfl hw⟩
    · have hadded := modelled_addTransactions suffix hmessage hchunk (hselect chunk) hw
      exact ⟨fun _ => hadded, hadded⟩
  refine Outline.bind (hphase _ _ fun _ _ h => h) fun _ => ?_
  refine Outline.bind (M := fun _ => Modelled stream)
    (outline_collectConvertedToReceiptIds (fun w hw => ⟨id, hw⟩) fun _ => stable_modelled) fun ids => ?_
  split
  · exact .ret fun _ hw => hw
  · exact hphase _ _ fun chunk entry hentry => (mem_collidedTransactions.mp hentry).1

end Models

section Calls

variable {decoders : Decoders} {stream : List StreamerMessage} {w : World} {earlier calls : Calls StreamerMessage World}

/-- The calls for blocks of the stream, from an empty table on. -/
abbrev StoringRun (decoders : Decoders) (stream : List StreamerMessage) :
    Calls StreamerMessage World → Calls StreamerMessage World → Prop :=
  CallsRun (storeTransactionsCall decoders) (· ∈ stream) LeavesTransactions

theorem modelled_of_run (hempty : w.db.transactions = ∅) (hrun : StoringRun decoders stream ⟨[], w⟩ calls) :
    Modelled stream calls.state := by
  have hstart : Modelled stream w := by
    intro hash row hrow
    rw [hempty] at hrow
    cases hrow
  exact (hrun.invariant (Q := fun _ => Modelled stream)
    (fun message hmessage => outline_storeTransactions_modelled decoders hmessage) stable_modelled
    (fun _ _ => keepsModelled_of_transactions) hstart).1

theorem wellStored_of_empty (hempty : w.db.transactions = ∅) : WellStored stream w.db := by
  intro hash row hrow
  rw [hempty] at hrow
  cases hrow

/-- What a call that has returned has done. -/
def Stored (stream : List StreamerMessage) (message : StreamerMessage) (w : World) : Prop :=
  message ∈ stream ∧ ∀ tx ∈ message.transactions, Placed message tx w.db

theorem outline_storeTransactionsCall (decoders : Decoders) (hchain : Chain stream) {message : StreamerMessage}
    (hmessage : message ∈ stream) : Outline False (KeepsStored stream) (KeepsStored stream)
      (fun w => WellStored stream w.db) (storeTransactionsCall decoders message) fun _ => Stored stream message :=
  ((outline_storeTransactions decoders hchain hmessage hmessage
    fun _ _ _ => trivial).guarantee_mono fun _ _ h => h.kept).post fun _ _ hw => ⟨hmessage, hw.1⟩

/-- The row of a transaction has its position. -/
theorem index_of_modelled (hchain : Chain stream) (hmodelled : Modelled stream w) {message : StreamerMessage}
    (hmessage : message ∈ stream) {chunk : IndexerChunkView} (hchunk : chunk ∈ chunksOf message.shards)
    {tx : IndexerTransactionWithOutcome} {index : Nat} (htx : chunk.transactions[index]? = some tx)
    {hash : ParentTransactionHashString} {row : Transaction} (hrow : w.db.transactions.lookup hash = some row)
    (hconverted : row.convertedIntoReceiptId = tx.convertedIntoReceiptId) : row.indexInChunk = index := by
  obtain ⟨message', hmessage', chunk', hchunk', entry, hentry, rfl⟩ := hmodelled hash row hrow
  have hmem : ∀ {message : StreamerMessage} {chunk : IndexerChunkView} {tx : IndexerTransactionWithOutcome},
      chunk ∈ chunksOf message.shards → tx ∈ chunk.transactions → tx ∈ message.transactions :=
    fun hchunk htx => List.mem_flatMap.mpr ⟨_, hchunk, htx⟩
  obtain ⟨rfl, hsame⟩ := hchain.eq_of_converted hmessage (hmem hchunk (List.mem_of_getElem? htx)) hmessage'
    (hmem hchunk' (List.fst_mem_of_mem_zipIdx hentry)) hconverted.symm
  have hentry' := List.mem_zipIdx_iff_getElem?.mp hentry
  rw [← hsame] at hentry'
  -- the chunk and the position are those of the transaction, as no transaction is there twice
  have hnodup : ((chunksOf message.shards).flatMap (·.transactions)).Nodup := (hchain.hashes message hmessage).of_map _
  have hchunks : chunk' = chunk := eq_of_nodup_flatMap hnodup hchunk' (List.mem_of_getElem? hentry') hchunk
    (List.mem_of_getElem? htx)
  subst hchunks
  obtain ⟨hlt, hget⟩ := List.getElem?_eq_some_iff.mp hentry'
  obtain ⟨hlt', hget'⟩ := List.getElem?_eq_some_iff.mp htx
  exact ((List.nodup_flatMap.mp hnodup).1 _ hchunk).getElem_inj_iff.mp (hget.trans hget'.symm)

/-- Whenever a call has returned, every transaction of its block has one row, with the block's hash, the receipt it
was converted into and its position in its chunk; and a row that was once stored stays as it is. -/
theorem transactions_stored_once (hchain : Chain stream) (hempty : w.db.transactions = ∅)
    (hstart : StoringRun decoders stream ⟨[], w⟩ earlier) (hrun : StoringRun decoders stream earlier calls) :
    (∀ message, calls.Returned message → ∀ chunk ∈ chunksOf message.shards, ∀ tx index,
      chunk.transactions[index]? = some tx → ∃ hash row, calls.state.db.transactions.lookup hash = some row ∧
        row.includedInBlockHash = message.block.header.hash ∧
        row.convertedIntoReceiptId = tx.convertedIntoReceiptId ∧ row.indexInChunk = index ∧
        ∀ hash' row', calls.state.db.transactions.lookup hash' = some row' →
          row'.convertedIntoReceiptId = tx.convertedIntoReceiptId → hash' = hash) ∧
    ∀ hash row, earlier.state.db.transactions.lookup hash = some row →
      calls.state.db.transactions.lookup hash = some row := by
  have hbody : ∀ message ∈ stream, _ := fun message hmessage =>
    outline_storeTransactionsCall decoders hchain hmessage
  have henvironment : ∀ w w', LeavesTransactions w w' → KeepsStored stream w w' := fun _ _ => .of_transactions
  obtain ⟨hearlier, houtlined, _⟩ :=
    hstart.invariant hbody stable_wellStored henvironment (wellStored_of_empty hempty)
  have hall : StoringRun decoders stream ⟨[], w⟩ calls := hstart.trans hrun
  obtain ⟨hstored, _, hreturned⟩ :=
    hall.invariant hbody stable_wellStored henvironment (wellStored_of_empty hempty)
  refine ⟨fun message hmessage chunk hchunk tx index htx => ?_, fun hash row hrow => ?_⟩
  · obtain ⟨hmem, hplaced⟩ := hreturned message hmessage
    obtain ⟨hash, row, hrow, his⟩ := hplaced tx (List.mem_flatMap.mpr ⟨chunk, hchunk, List.mem_of_getElem? htx⟩)
    have hmodelled := modelled_of_run hempty hall
    refine ⟨hash, row, hrow, his.block, his.converted, ?_, fun hash' row' hrow' hconverted => ?_⟩
    · exact index_of_modelled hchain hmodelled hmem hchunk htx hrow his.converted
    · exact hstored.hash_unique hchain hrow' hrow (hconverted.trans his.converted.symm)
  · have hkept : Stable (KeepsStored stream) fun w => w.db.transactions.lookup hash = some row :=
      fun w w' hw hstep => hstep.rows hash row hw
    exact (hrun.outlined hbody stable_wellStored henvironment hearlier houtlined hkept hrow).1

end Calls

/-! ### The calls for two transactions with one hash -/

/-- The blocks and chunks are stored, but no transaction is. -/
def withoutTransactions : World := { afterSecond with db := { afterSecond.db with transactions := ∅ } }

theorem transactions_stored_once_collided : ∃ calls,
    StoringRun .silent [firstBlock, secondBlock] ⟨[], withoutTransactions⟩ calls ∧
      calls.Returned firstBlock ∧ calls.Returned secondBlock ∧
      ∀ chunk ∈ chunksOf secondBlock.shards, ∀ tx index, chunk.transactions[index]? = some tx →
        ∃ hash row, calls.state.db.transactions.lookup hash = some row ∧
          row.includedInBlockHash = secondBlock.block.header.hash ∧
          row.convertedIntoReceiptId = tx.convertedIntoReceiptId ∧ row.indexInChunk = index ∧
          ∀ hash' row', calls.state.db.transactions.lookup hash' = some row' →
            row'.convertedIntoReceiptId = tx.convertedIntoReceiptId → hash' = hash := by
  obtain ⟨_, hfirst⟩ : Finishes (storeTransactionsCall .silent firstBlock) withoutTransactions () _ :=
    finishes_after 1 (by decide)
  obtain ⟨_, hsecond⟩ : Finishes (storeTransactionsCall .silent secondBlock)
      ((storeTransactionsCall .silent firstBlock).after 1 withoutTransactions) () _ :=
    finishes_after 1 (by decide)
  have hstart : StoringRun .silent [firstBlock, secondBlock] ⟨[], withoutTransactions⟩
      ⟨[] ++ (firstBlock, .ret ()) :: [], _⟩ :=
    .head (.call List.mem_cons_self) (CallsRun.steps hfirst)
  have hrun : StoringRun .silent [firstBlock, secondBlock] ⟨[] ++ (firstBlock, .ret ()) :: [], _⟩
      ⟨[(firstBlock, .ret ())] ++ (secondBlock, .ret ()) :: [], _⟩ :=
    .head (.call (List.mem_cons_of_mem _ List.mem_cons_self))
      (CallsRun.steps hsecond)
  have hreturned : Calls.Returned ⟨[(firstBlock, .ret ()), (secondBlock, .ret ())],
      (storeTransactionsCall .silent secondBlock).after 1
        ((storeTransactionsCall .silent firstBlock).after 1 withoutTransactions)⟩ secondBlock :=
    List.mem_cons_of_mem _ List.mem_cons_self
  exact ⟨_, .trans hstart hrun, List.mem_cons_self, hreturned,
    (transactions_stored_once chain_collided rfl hstart hrun).1 secondBlock hreturned⟩

end ExplorerIndexer.Collisions

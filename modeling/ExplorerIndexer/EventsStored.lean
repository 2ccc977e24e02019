import ExplorerIndexer.AdapterEvents
import ExplorerIndexer.AsyncAlone
import ExplorerIndexer.AsyncCalls
import ExplorerIndexer.NestedLoops
import ExplorerIndexer.StoreBatches

/-! Calls of `storeFtEvents` and `storeNftEvents` for the shards of a chain, by any number of indexers. Each composes
the same rows for a shard and cuts them into the same batches, so that the tables consist of whole batches and a
single duplicate tells that the whole batch was written. -/

namespace ExplorerIndexer.Events

open Async Store Models Nested

/-! ### Rows -/

def ftRow (blockTimestamp shardId : Nat) (entry : FtEntry × IndexerExecutionOutcomeWithReceipt) (index : Nat) :
    FungibleTokenEvent where
  emittedForReceiptId := entry.2.receipt.receiptId
  emittedAtBlockTimestamp := blockTimestamp
  emittedInShardId := shardId
  emittedIndexOfEventEntryInShard := index
  emittedByContractAccountId := entry.2.receipt.receiverId
  amount := entry.1.amount
  eventKind := entry.1.eventKind
  tokenOldOwnerAccountId := escapeDefault entry.1.oldOwner
  tokenNewOwnerAccountId := escapeDefault entry.1.newOwner
  eventMemo := escapeDefault (entry.1.memo.getD "")

def nftRow (blockTimestamp shardId : Nat) (entry : NftEntry × IndexerExecutionOutcomeWithReceipt) (index : Nat) :
    NonFungibleTokenEvent where
  emittedForReceiptId := entry.2.receipt.receiptId
  emittedAtBlockTimestamp := blockTimestamp
  emittedInShardId := shardId
  emittedIndexOfEventEntryInShard := index
  emittedByContractAccountId := entry.2.receipt.receiverId
  tokenId := escapeDefault entry.1.tokenId
  eventKind := entry.1.eventKind
  tokenOldOwnerAccountId := escapeDefault entry.1.oldOwner
  tokenNewOwnerAccountId := escapeDefault entry.1.newOwner
  tokenAuthorizedAccountId := escapeDefault (entry.1.authorizedId.getD "")
  eventMemo := escapeDefault (entry.1.memo.getD "")

def ftRows (decoders : Decoders) (message : StreamerMessage) (shard : IndexerShard) : List FungibleTokenEvent :=
  composeFtDbEvents (eventsWithOutcomes decoders ftEventOf shard) message.block.header.timestamp shard.shardId

def nftRows (decoders : Decoders) (message : StreamerMessage) (shard : IndexerShard) :
    List NonFungibleTokenEvent :=
  composeNftDbEvents (eventsWithOutcomes decoders nftEventOf shard) message.block.header.timestamp shard.shardId

/-- What the adapters of the two standards differ in: the entries of an event, the row of an entry, and the table. The
columns of the second unique constraint are the receipt and the number of the row. -/
structure EventTable (ε α ρ : Type) where
  eventOf : NearEvent → Option ε
  entriesOf : ε → List α
  row : Nat → Nat → α × IndexerExecutionOutcomeWithReceipt → Nat → ρ
  receiptId : ρ → CryptoHash
  index : ρ → Nat
  name : String
  rows : Database → List ρ
  store : Database → List ρ → Database
  receiptId_row : ∀ blockTimestamp shardId entry number,
    receiptId (row blockTimestamp shardId entry number) = entry.2.receipt.receiptId
  index_row : ∀ blockTimestamp shardId entry number, index (row blockTimestamp shardId entry number) = number
  rows_store : ∀ db stored, rows (store db stored) = stored

def ftEventTable : EventTable Nep141EventKind FtEntry FungibleTokenEvent where
  eventOf := ftEventOf
  entriesOf := ftEntries
  row := ftRow
  receiptId := (·.emittedForReceiptId)
  index := (·.emittedIndexOfEventEntryInShard)
  name := ftTable
  rows := (·.fungibleTokenEvents)
  store db fungibleTokenEvents := { db with fungibleTokenEvents }
  receiptId_row _ _ _ _ := rfl
  index_row _ _ _ _ := rfl
  rows_store _ _ := rfl

def nftEventTable : EventTable Nep171EventKind NftEntry NonFungibleTokenEvent where
  eventOf := nftEventOf
  entriesOf := nftEntries
  row := nftRow
  receiptId := (·.emittedForReceiptId)
  index := (·.emittedIndexOfEventEntryInShard)
  name := nftTable
  rows := (·.nonFungibleTokenEvents)
  store db nonFungibleTokenEvents := { db with nonFungibleTokenEvents }
  receiptId_row _ _ _ _ := rfl
  index_row _ _ _ _ := rfl
  rows_store _ _ := rfl

namespace EventTable

variable {ε α ρ : Type} (table : EventTable ε α ρ)

def compose (events : List (ε × IndexerExecutionOutcomeWithReceipt)) (blockTimestamp shardId : Nat) : List ρ :=
  numbered (table.row blockTimestamp shardId)
    (events.flatMap fun (event, outcome) => (table.entriesOf event).map (·, outcome))

/-- The rows of a shard. -/
def rowsOf (decoders : Decoders) (message : StreamerMessage) (shard : IndexerShard) : List ρ :=
  table.compose (eventsWithOutcomes decoders table.eventOf shard) message.block.header.timestamp shard.shardId

def key (row : ρ) : CryptoHash × Nat := (table.receiptId row, table.index row)

def sameEntry (a b : ρ) : Bool := table.receiptId a = table.receiptId b && table.index a = table.index b

theorem sameEntry_iff (a b : ρ) : table.sameEntry a b = true ↔ table.key a = table.key b := by
  simp [sameEntry, key]

variable [DecidableEq ρ]

def insert (batch : List ρ) : Statement World Unit :=
  insertEvents table.sameEntry table.receiptId table.name table.rows table.store batch

def storeRows (rows : List ρ) : Prog World Unit :=
  .forEach (rows.toChunks chunkSizeForBatchInsert) fun chunk =>
    .query (some 10) (table.insert chunk) (detectDbError (table.name ++ "_pkey")) fun _ => .ret ()

end EventTable

/-- The adapters are those of the two tables. -/
theorem storeFtEvents_eq (events : List (Nep141EventKind × IndexerExecutionOutcomeWithReceipt))
    (blockTimestamp shardId : Nat) : storeFtEvents events blockTimestamp shardId =
      ftEventTable.storeRows (ftEventTable.compose events blockTimestamp shardId) := rfl

theorem storeNftEvents_eq (events : List (Nep171EventKind × IndexerExecutionOutcomeWithReceipt))
    (blockTimestamp shardId : Nat) : storeNftEvents events blockTimestamp shardId =
      nftEventTable.storeRows (nftEventTable.compose events blockTimestamp shardId) := rfl

/-! ### The batches of a chain -/

/-- Each receipt is executed in one shard of one block. -/
def ExecutedOnce (stream : List StreamerMessage) : Prop :=
  ∀ message ∈ stream, ∀ shard ∈ message.shards, ∀ outcome ∈ shard.receiptExecutionOutcomes,
    ∀ message' ∈ stream, ∀ shard' ∈ message'.shards, ∀ outcome' ∈ shard'.receiptExecutionOutcomes,
      outcome.receipt.receiptId = outcome'.receipt.receiptId → message = message' ∧ shard = shard'

/-- The batches into which the rows of the chain's shards are cut. -/
def IsBatch {ρ : Type} (rowsOf : StreamerMessage → IndexerShard → List ρ) (stream : List StreamerMessage)
    (batch : List ρ) : Prop :=
  ∃ message ∈ stream, ∃ shard ∈ message.shards, batch ∈ (rowsOf message shard).toChunks chunkSizeForBatchInsert

/-- Rows of different shards are about different receipts, and those of a shard are numbered. -/
theorem batches_of_executedOnce {ρ : Type} {rowsOf : StreamerMessage → IndexerShard → List ρ}
    {key : ρ → CryptoHash × Nat} {stream : List StreamerMessage} (hchain : ExecutedOnce stream)
    (hindex : ∀ message shard, ((rowsOf message shard).map fun row => (key row).2).Nodup)
    (hreceipt : ∀ message shard, ∀ row ∈ rowsOf message shard,
      ∃ outcome ∈ shard.receiptExecutionOutcomes, (key row).1 = outcome.receipt.receiptId) :
    Batches key (IsBatch rowsOf stream) := by
  refine ⟨fun batch hbatch => ?_, fun batch hbatch => ?_, fun batch batch' hbatch hbatch' row hrow row' hrow' heq => ?_⟩
  · obtain ⟨message, _, shard, _, hbatch⟩ := hbatch
    exact ne_nil_of_mem_toChunks hbatch
  · obtain ⟨message, _, shard, _, hbatch⟩ := hbatch
    have hsub : batch.Sublist (rowsOf message shard) := by
      rw [← flatten_toChunks chunkSizeForBatchInsert (rowsOf message shard)]
      exact List.sublist_flatten_of_mem hbatch
    have hnumbered : ((batch.map key).map Prod.snd).Nodup := by
      rw [List.map_map]
      exact (hindex message shard).sublist (hsub.map _)
    exact hnumbered.of_map _
  · obtain ⟨message, hmessage, shard, hshard, hbatch⟩ := hbatch
    obtain ⟨message', hmessage', shard', hshard', hbatch'⟩ := hbatch'
    obtain ⟨outcome, houtcome, hid⟩ := hreceipt message shard row (mem_of_mem_toChunks hbatch hrow)
    obtain ⟨outcome', houtcome', hid'⟩ := hreceipt message' shard' row' (mem_of_mem_toChunks hbatch' hrow')
    have hsameReceipt : outcome.receipt.receiptId = outcome'.receipt.receiptId := by rw [← hid, ← hid', heq]
    obtain ⟨rfl, rfl⟩ := hchain message hmessage shard hshard outcome houtcome message' hmessage' shard' hshard'
      outcome' houtcome' hsameReceipt
    -- one shard: the number tells the row, and the row tells the batch
    have hrows : row = row' := List.inj_on_of_nodup_map (hindex message shard) (mem_of_mem_toChunks hbatch hrow)
      (mem_of_mem_toChunks hbatch' hrow') (congrArg Prod.snd heq)
    subst hrows
    have hnodup : (((rowsOf message shard).toChunks chunkSizeForBatchInsert).flatMap id).Nodup := by
      rw [List.flatMap_id, flatten_toChunks]
      exact (hindex message shard).of_map _
    exact eq_of_nodup_flatMap hnodup hbatch hrow hbatch' hrow'

theorem outcome_of_mem_eventsWithOutcomes {ε : Type} {decoders : Decoders} {shard : IndexerShard}
    {kind : NearEvent → Option ε} {entry : ε × IndexerExecutionOutcomeWithReceipt}
    (h : entry ∈ eventsWithOutcomes decoders kind shard) : entry.2 ∈ shard.receiptExecutionOutcomes := by
  obtain ⟨outcome, houtcome, hentry⟩ := List.mem_flatMap.mp h
  obtain ⟨event, _, rfl⟩ := List.mem_map.mp hentry
  exact houtcome

namespace EventTable

variable {ε α ρ : Type} (table : EventTable ε α ρ) {decoders : Decoders} {message : StreamerMessage}
  {shard : IndexerShard}

theorem outcome_of_mem_rowsOf {row : ρ} (hrow : row ∈ table.rowsOf decoders message shard) :
    ∃ outcome ∈ shard.receiptExecutionOutcomes, table.receiptId row = outcome.receipt.receiptId := by
  obtain ⟨entry, hmem, index, rfl⟩ := of_mem_numbered hrow
  obtain ⟨event, hevent, hentry⟩ := List.mem_flatMap.mp hmem
  obtain ⟨_, _, rfl⟩ := List.mem_map.mp hentry
  exact ⟨event.2, outcome_of_mem_eventsWithOutcomes hevent, table.receiptId_row ..⟩

theorem nodup_index_rowsOf (decoders : Decoders) (message : StreamerMessage) (shard : IndexerShard) :
    ((table.rowsOf decoders message shard).map table.index).Nodup := by
  rw [rowsOf, compose, map_numbered_index (f := id) (table.index_row _ _), List.map_id]
  exact List.nodup_range

theorem batches {stream : List StreamerMessage} (decoders : Decoders) (hchain : ExecutedOnce stream) :
    Batches table.key (IsBatch (table.rowsOf decoders) stream) :=
  batches_of_executedOnce hchain (table.nodup_index_rowsOf decoders) fun _ _ _ => table.outcome_of_mem_rowsOf

end EventTable

/-! ### The insert of a batch -/

section Insert

variable {ρ : Type} [DecidableEq ρ] {sameEntry : ρ → ρ → Bool} {receiptId : ρ → CryptoHash} {name : String}
  {rowsOf : Database → List ρ} {store : Database → List ρ → Database} {batch : List ρ} {w w' : World}

theorem insertEvents_ok {b : Unit}
    (h : insertEvents sameEntry receiptId name rowsOf store batch w = .ok (b, w')) :
    violatedByEvents sameEntry name (rowsOf w.db) batch = none ∧
      (∀ row ∈ batch, w.db.hasReceipt (receiptId row) = true) ∧
      w' = { w with db := store w.db (rowsOf w.db ++ batch) } := by
  obtain ⟨db, hdb, rfl⟩ := execute_ok h
  split at hdb
  · cases hdb
  · rename_i hnone
    cases hdb
    obtain ⟨hviolated, hreceipts⟩ := Option.or_eq_none_iff.mp hnone
    rw [List.findSome?_eq_none_iff] at hreceipts
    exact ⟨hviolated, fun row hrow => requires_eq_none.mp (hreceipts row hrow), rfl⟩

theorem insertEvents_error {error : QueryError}
    (h : insertEvents sameEntry receiptId name rowsOf store batch w = .error error) :
    ∃ constraintName, error = .violates constraintName ∧
      (violatedByEvents sameEntry name (rowsOf w.db) batch = some constraintName ∨
        violatedByEvents sameEntry name (rowsOf w.db) batch = none ∧ constraintName = name ++ "_fk") := by
  unfold insertEvents execute at h
  dsimp only at h
  split at h
  · rename_i constraintName hviolated
    cases h
    refine ⟨constraintName, rfl, ?_⟩
    rcases Option.or_eq_some_iff.mp hviolated with hunique | ⟨hnone, hfk⟩
    · exact .inl hunique
    · obtain ⟨row, _, hrow⟩ := List.exists_of_findSome?_eq_some hfk
      refine .inr ⟨hnone, ?_⟩
      unfold Database.receiptFk requires at hrow
      split at hrow
      · cases hrow
      · exact (Option.some.inj hrow).symm
  · cases h

end Insert

theorem append_left_ne {a b : String} (hne : a ≠ b) (table : String) : table ++ a ≠ table ++ b := by
  intro heq
  exact hne (String.append_right_inj table |>.mp heq)

namespace EventTable

variable {ε α ρ : Type} (table : EventTable ε α ρ) [DecidableEq ρ] {isBatch : List ρ → Prop} {rows batch : List ρ}

theorem violated_of_all (hbatch : batch ≠ []) (hall : ∀ row ∈ batch, row ∈ rows) :
    violatedByEvents table.sameEntry table.name rows batch = some (table.name ++ "_pkey") := by
  cases batch with
  | nil => exact absurd rfl hbatch
  | cons row batch => rw [violatedByEvents, if_pos (hall row List.mem_cons_self)]

theorem violated_of_none (hkeys : (batch.map table.key).Nodup)
    (hnone : ∀ row ∈ batch, ∀ row' ∈ rows, table.key row ≠ table.key row') :
    violatedByEvents table.sameEntry table.name rows batch = none := by
  induction batch generalizing rows with
  | nil => rfl
  | cons row batch ih =>
      obtain ⟨hnot, hnodup⟩ := List.nodup_cons.mp hkeys
      have hrow : row ∉ rows := fun hmem => hnone row List.mem_cons_self row hmem rfl
      have hany : ¬ rows.any (table.sameEntry row) = true := by
        intro h
        obtain ⟨row', hmem, heq⟩ := List.any_eq_true.mp h
        exact hnone row List.mem_cons_self row' hmem ((table.sameEntry_iff row row').mp heq)
      rw [violatedByEvents, if_neg hrow, if_neg hany]
      refine ih hnodup fun row' hmem other hother heq => ?_
      rcases List.mem_cons.mp hother with rfl | hother
      · exact hnot (List.mem_map.mpr ⟨row', hmem, heq⟩)
      · exact hnone row' (List.mem_cons_of_mem _ hmem) other hother heq

/-- A batch of the chain is written without a violation, or its first row is a duplicate. -/
theorem violated_cases (hbatches : Batches table.key isBatch) (hbatch : isBatch batch) (hwhole : Whole isBatch rows) :
    (violatedByEvents table.sameEntry table.name rows batch = some (table.name ++ "_pkey") ∧
        ∀ row ∈ batch, row ∈ rows) ∨
      (violatedByEvents table.sameEntry table.name rows batch = none ∧ Whole isBatch (rows ++ batch)) := by
  rcases hwhole.all_or_none hbatches hbatch with hall | hnone
  · exact .inl ⟨table.violated_of_all (hbatches.nonempty batch hbatch) hall, hall⟩
  · exact .inr ⟨table.violated_of_none (hbatches.keys batch hbatch) hnone, hwhole.append hbatches hbatch hnone⟩

variable {w : World}

/-- No insert of a batch of the chain violates only the second unique constraint. -/
theorem insert_ne_unique (hbatches : Batches table.key isBatch) (hbatch : isBatch batch)
    (hwhole : Whole isBatch (table.rows w.db)) :
    table.insert batch w ≠ .error (.violates (table.name ++ "_unique")) := by
  intro h
  obtain ⟨constraintName, hname, hcases⟩ := insertEvents_error h
  obtain rfl := QueryError.violates.inj hname
  rcases table.violated_cases hbatches hbatch hwhole with ⟨hpkey, _⟩ | ⟨hnone, _⟩
  · rw [hpkey] at hcases
    rcases hcases with heq | ⟨hnone, _⟩
    · exact append_left_ne (by decide) table.name (Option.some.inj heq)
    · cases hnone
  · rw [hnone] at hcases
    rcases hcases with heq | ⟨_, heq⟩
    · cases heq
    · exact append_left_ne (by decide) table.name heq

variable {rely : World → World → Prop} {P : World → Prop}

/-- Storing rows that are cut into batches of the chain: in the end each of them is there. -/
theorem outline_storeRows (hbatches : Batches table.key isBatch)
    (hmem : ∀ batch ∈ rows.toChunks chunkSizeForBatchInsert, isBatch batch) (hP : Stable rely P)
    (hwhole : ∀ w, P w → Whole isBatch (table.rows w.db))
    (hkept : ∀ w w', rely w w' → ∀ row ∈ table.rows w.db, row ∈ table.rows w'.db)
    (hstore : ∀ w batch, P w → Whole isBatch (table.rows w.db ++ batch) →
      rely w { w with db := table.store w.db (table.rows w.db ++ batch) }) :
    Outline False rely rely P (table.storeRows rows) fun _ w => ∀ row ∈ rows, row ∈ table.rows w.db := by
  have hpost : ∀ batch : List ρ, Stable rely fun w => ∀ row ∈ batch, row ∈ table.rows w.db :=
    fun batch w w' hw hstep row hrow => hkept w w' hstep row (hw row hrow)
  have heach : Outline False rely rely P (table.storeRows rows)
      fun _ w => ∀ batch ∈ rows.toChunks chunkSizeForBatchInsert, ∀ row ∈ batch, row ∈ table.rows w.db := by
    refine .forEach_each (fun _ _ h => h) hP hpost fun batch hbatch => ?_
    refine .query (M := fun _ w => ∀ row ∈ batch, row ∈ table.rows w.db) (fun w b w' hw hok => ?_)
      (fun w error hw herror hhandled => ?_) False.elim (fun _ => hpost batch) fun _ => .ret fun _ hw => hw
    · obtain ⟨hnone, -, rfl⟩ := insertEvents_ok hok
      rcases table.violated_cases hbatches (hmem batch hbatch) (hwhole w hw) with ⟨hpkey, _⟩ | ⟨_, happend⟩
      · rw [hpkey] at hnone
        cases hnone
      · refine ⟨hstore w batch hw happend, fun row hrow => ?_⟩
        rw [table.rows_store]
        exact List.mem_append_right _ hrow
    · obtain ⟨constraintName, rfl, hcases⟩ := insertEvents_error herror
      obtain rfl : constraintName = table.name ++ "_pkey" := by simpa [detectDbError] using hhandled
      rcases table.violated_cases hbatches (hmem batch hbatch) (hwhole w hw) with ⟨_, hall⟩ | ⟨hnone, _⟩
      · exact hall
      · rw [hnone] at hcases
        rcases hcases with heq | ⟨_, heq⟩
        · cases heq
        · exact (append_left_ne (by decide) table.name heq).elim
  refine heach.post fun _ w hw row hrow => ?_
  obtain ⟨batch, hbatch, hrow⟩ := exists_chunk_of_mem chunkSizeForBatchInsert hrow
  exact hw batch hbatch row hrow

end EventTable

/-! ### The calls -/

/-- A call for a shard of a message. -/
inductive EventsCall where
  | ft (message : StreamerMessage) (shard : IndexerShard)
  | nft (message : StreamerMessage) (shard : IndexerShard)

def EventsCall.body (decoders : Decoders) : EventsCall → Prog World Unit
  | .ft message shard => storeFtEvents (eventsWithOutcomes decoders ftEventOf shard) message.block.header.timestamp
      shard.shardId
  | .nft message shard => storeNftEvents (eventsWithOutcomes decoders nftEventOf shard)
      message.block.header.timestamp shard.shardId

def EventsCall.OnChain (stream : List StreamerMessage) : EventsCall → Prop
  | .ft message shard | .nft message shard => message ∈ stream ∧ shard ∈ message.shards

/-- The rest of the system leaves the tables of events alone. -/
def LeavesEvents (w w' : World) : Prop :=
  w'.db.fungibleTokenEvents = w.db.fungibleTokenEvents ∧ w'.db.nonFungibleTokenEvents = w.db.nonFungibleTokenEvents

/-- Both tables consist of whole batches. -/
def WholeEvents (decoders : Decoders) (stream : List StreamerMessage) (w : World) : Prop :=
  Whole (IsBatch (ftRows decoders) stream) w.db.fungibleTokenEvents ∧
    Whole (IsBatch (nftRows decoders) stream) w.db.nonFungibleTokenEvents

structure KeepsEvents (decoders : Decoders) (stream : List StreamerMessage) (w w' : World) : Prop where
  whole : WholeEvents decoders stream w → WholeEvents decoders stream w'
  ft : ∀ row ∈ w.db.fungibleTokenEvents, row ∈ w'.db.fungibleTokenEvents
  nft : ∀ row ∈ w.db.nonFungibleTokenEvents, row ∈ w'.db.nonFungibleTokenEvents

/-- What a call that has returned has done. -/
def EventsCall.Done (decoders : Decoders) (w : World) : EventsCall → Prop
  | .ft message shard => ∀ row ∈ ftRows decoders message shard, row ∈ w.db.fungibleTokenEvents
  | .nft message shard => ∀ row ∈ nftRows decoders message shard, row ∈ w.db.nonFungibleTokenEvents

section Calls

variable {decoders : Decoders} {stream : List StreamerMessage} {w : World} {calls : Calls EventsCall World}

abbrev EventsRun (decoders : Decoders) (stream : List StreamerMessage) :
    Calls EventsCall World → Calls EventsCall World → Prop :=
  CallsRun (EventsCall.body decoders) (EventsCall.OnChain stream) LeavesEvents

theorem keepsEvents_of_leaves {w w' : World} (h : LeavesEvents w w') : KeepsEvents decoders stream w w' := by
  obtain ⟨hft, hnft⟩ := h
  refine ⟨fun hw => ?_, fun row hrow => ?_, fun row hrow => ?_⟩
  · unfold WholeEvents
    rwa [hft, hnft]
  · rwa [hft]
  · rwa [hnft]

theorem outline_body (hchain : ExecutedOnce stream) (call : EventsCall) (hcall : call.OnChain stream) :
    Outline False (KeepsEvents decoders stream) (KeepsEvents decoders stream) (WholeEvents decoders stream)
      (call.body decoders) fun _ w => call.Done decoders w := by
  have hP : Stable (KeepsEvents decoders stream) (WholeEvents decoders stream) := fun _ _ hw hstep => hstep.whole hw
  cases call with
  | ft message shard =>
      rw [EventsCall.body, storeFtEvents_eq]
      refine ftEventTable.outline_storeRows (ftEventTable.batches decoders hchain)
        (fun batch hbatch => ⟨message, hcall.1, shard, hcall.2, hbatch⟩) hP (fun _ hw => hw.1)
        (fun _ _ hstep => hstep.ft) fun w batch hw happend => ?_
      exact ⟨fun _ => ⟨happend, hw.2⟩, fun row hrow => List.mem_append_left _ hrow, fun _ hrow => hrow⟩
  | nft message shard =>
      rw [EventsCall.body, storeNftEvents_eq]
      refine nftEventTable.outline_storeRows (nftEventTable.batches decoders hchain)
        (fun batch hbatch => ⟨message, hcall.1, shard, hcall.2, hbatch⟩) hP (fun _ hw => hw.2)
        (fun _ _ hstep => hstep.nft) fun w batch hw happend => ?_
      exact ⟨fun _ => ⟨hw.1, happend⟩, fun _ hrow => hrow, fun row hrow => List.mem_append_left _ hrow⟩

/-- Whenever a call has returned, each row composed for its shard is in the table exactly once; and no insert of the
chain violates only the constraint on the receipt and the index. -/
theorem events_stored_once (hchain : ExecutedOnce stream) (hft : w.db.fungibleTokenEvents = [])
    (hnft : w.db.nonFungibleTokenEvents = []) (hrun : EventsRun decoders stream ⟨[], w⟩ calls) :
    (∀ message shard, calls.Returned (.ft message shard) → ∀ row ∈ ftRows decoders message shard,
      calls.state.db.fungibleTokenEvents.count row = 1) ∧
    (∀ message shard, calls.Returned (.nft message shard) → ∀ row ∈ nftRows decoders message shard,
      calls.state.db.nonFungibleTokenEvents.count row = 1) ∧
    ∀ message ∈ stream, ∀ shard ∈ message.shards,
      (∀ batch ∈ (ftRows decoders message shard).toChunks chunkSizeForBatchInsert,
        insertFtEvents batch calls.state ≠ .error (.violates (ftTable ++ "_unique"))) ∧
      ∀ batch ∈ (nftRows decoders message shard).toChunks chunkSizeForBatchInsert,
        insertNftEvents batch calls.state ≠ .error (.violates (nftTable ++ "_unique")) := by
  have hstart : WholeEvents decoders stream w := by
    unfold WholeEvents
    rw [hft, hnft]
    exact ⟨whole_nil _, whole_nil _⟩
  obtain ⟨⟨hwholeFt, hwholeNft⟩, _, hreturned⟩ := hrun.invariant
    (Q := fun call w => call.Done decoders w) (outline_body hchain) (fun _ _ hw hstep => hstep.whole hw)
    (fun _ _ => keepsEvents_of_leaves) hstart
  refine ⟨fun message shard hdone row hrow => ?_, fun message shard hdone row hrow => ?_,
    fun message hmessage shard hshard => ⟨fun batch hbatch => ?_, fun batch hbatch => ?_⟩⟩
  · have hnodup := (hwholeFt.nodup (ftEventTable.batches decoders hchain)).of_map
    exact List.count_eq_one_of_mem hnodup (hreturned _ hdone row hrow)
  · have hnodup := (hwholeNft.nodup (nftEventTable.batches decoders hchain)).of_map
    exact List.count_eq_one_of_mem hnodup (hreturned _ hdone row hrow)
  · exact ftEventTable.insert_ne_unique (ftEventTable.batches decoders hchain)
      ⟨message, hmessage, shard, hshard, hbatch⟩ hwholeFt
  · exact nftEventTable.insert_ne_unique (nftEventTable.batches decoders hchain)
      ⟨message, hmessage, shard, hshard, hbatch⟩ hwholeNft

end Calls

/-! ### Two indexers and one event -/

/-- Every event in the logs is a mint of one token. -/
def minting : Decoders :=
  { Decoders.silent with nearEventFromStr := fun _ => some (.nep141 (.ftMint [⟨"bob.near", "1", none⟩])) }

def mintingOutcome : IndexerExecutionOutcomeWithReceipt :=
  let outcome : IndexerExecutionOutcomeWithReceipt := .plain (.ofText "b7") (.plain (.ofText "r1") "token.near" []) []
  { outcome with executionOutcome := { outcome.executionOutcome with
      outcome := { outcome.executionOutcome.outcome with logs := ["EVENT_JSON:"] } } }

def mintingShard : IndexerShard := .plain (.ofText "c7") [] [] [mintingOutcome]

def mintingBlock : StreamerMessage where
  block :=
    { author := "validator.near"
      header :=
        { height := 7
          hash := .ofText "b7"
          prevHash := .ofText "b6"
          timestamp := 7
          totalSupply := 0
          gasPrice := 0 } }
  shards := [mintingShard]

def mintingReceipt : Receipt where
  receiptId := .ofText "r1"
  includedInBlockHash := .ofText "b7"
  includedInChunkHash := .ofText "c7"
  indexInChunk := 0
  includedInBlockTimestamp := 7
  predecessorAccountId := "bob.near"
  receiverAccountId := "token.near"
  receiptKind := .action
  originatedFromTransactionHash := "t"

/-- The receipt is stored, but its event is not. -/
def withoutEvents : World where
  cache := .withSize 1
  db := { receipts := (∅ : Table CryptoHash Receipt).insert mintingReceipt.receiptId mintingReceipt }

theorem executedOnce_mintingBlock : ExecutedOnce [mintingBlock] := by
  intro message hmessage shard hshard _ _ message' hmessage' shard' hshard' _ _ _
  rw [List.mem_singleton] at hmessage hmessage'
  subst hmessage hmessage'
  exact ⟨rfl, (List.mem_singleton.mp hshard).trans (List.mem_singleton.mp hshard').symm⟩

theorem events_stored_once_twice : ∃ calls, EventsRun minting [mintingBlock] ⟨[], withoutEvents⟩ calls ∧
    calls.tasks.length = 2 ∧ calls.Returned (.ft mintingBlock mintingShard) ∧
      (ftRows minting mintingBlock mintingShard).length = 1 ∧
      ∀ row ∈ ftRows minting mintingBlock mintingShard, calls.state.db.fungibleTokenEvents.count row = 1 := by
  have hcall : (EventsCall.ft mintingBlock mintingShard).OnChain [mintingBlock] :=
    ⟨List.mem_cons_self, List.mem_cons_self⟩
  obtain ⟨_, hfirst⟩ : Finishes ((EventsCall.ft mintingBlock mintingShard).body minting) withoutEvents () _ :=
    finishes_after 1 (by decide)
  obtain ⟨_, hagain⟩ : Finishes ((EventsCall.ft mintingBlock mintingShard).body minting)
      (((EventsCall.ft mintingBlock mintingShard).body minting).after 1 withoutEvents) () _ :=
    finishes_after 1 (by decide)
  have hstart : EventsRun minting [mintingBlock] ⟨[], withoutEvents⟩
      ⟨[] ++ (.ft mintingBlock mintingShard, .ret ()) :: [], _⟩ :=
    .head (.call hcall) (CallsRun.steps hfirst)
  have hrun : EventsRun minting [mintingBlock] ⟨[] ++ (.ft mintingBlock mintingShard, .ret ()) :: [], _⟩
      ⟨[(.ft mintingBlock mintingShard, .ret ())] ++ (.ft mintingBlock mintingShard, .ret ()) :: [], _⟩ :=
    .head (.call hcall) (CallsRun.steps hagain)
  exact ⟨_, .trans hstart hrun, rfl, List.mem_cons_self, by decide,
    (events_stored_once executedOnce_mintingBlock rfl rfl (.trans hstart hrun)).1 _ _ List.mem_cons_self⟩

end ExplorerIndexer.Events

import ExplorerIndexer.ChainOutlines
import ExplorerIndexer.ReceiptsExit

/-! Proof outlines of the receipts adapter on a chain. When it is ready, every receipt whose parent transaction it has
found is stored with all that belongs to it; in the strict mode it has found the parents of all Action receipts. -/

namespace ExplorerIndexer.Receipts

open Async Store Models

/-- A Data receipt has no parts of an Action receipt. -/
theorem parts_of_isAction_eq_false {receipt : ReceiptView} (h : receipt.isAction = false) :
    ActionReceipt.ofView? receipt = none ∧ receipt.actions = [] ∧ receipt.outputDataReceivers = [] ∧
      receipt.inputDataIds = [] := by
  obtain ⟨predecessorId, receiverId, receiptId, kind⟩ := receipt
  cases kind with
  | action => cases h
  | data => exact ⟨rfl, rfl, rfl, rfl⟩

/-- The receipts that are not skipped. -/
def keptReceipts (receipts : List ReceiptView) (txHashes : TxHashes) : List ReceiptView :=
  receipts.filter fun r => r.receiptId ∉ skippingReceiptIds receipts txHashes

theorem mem_keptReceipts {receipts : List ReceiptView} {txHashes : TxHashes} {receipt : ReceiptView}
    (hdistinct : (receipts.map (·.receiptId)).Nodup) (hreceipt : receipt ∈ receipts)
    (hfound : receiptOrDataId receipt ∈ txHashes) : receipt ∈ keptReceipts receipts txHashes := by
  refine List.mem_filter.mpr ⟨hreceipt, decide_eq_true fun hskipped => ?_⟩
  obtain ⟨other, hother, hid⟩ := List.mem_map.mp hskipped
  obtain ⟨hmem, hnone⟩ := List.mem_filter.mp hother
  obtain rfl := List.inj_on_of_nodup_map hdistinct hmem hreceipt hid
  obtain ⟨hash, hhash⟩ := Table.mem_iff_lookup.mp hfound
  rw [hhash] at hnone
  cases hnone

/-- All that belongs to an Action receipt is stored. -/
structure ActionReceiptsStored (decoders : Decoders) (blockTimestamp : Nat) (receipts : List ReceiptView)
    (db : Database) : Prop where
  actionReceipts : HasRows .actionReceipts (receipts.filterMap ActionReceipt.ofView?) db
  actions : HasRows .actionReceiptActions (receiptActionModels decoders blockTimestamp receipts) db
  outputData : HasRows .actionReceiptOutputData (outputDataModels receipts) db
  inputData : HasRows .actionReceiptInputData (inputDataModels receipts) db

theorem filter_flatMap_of_nil {α β : Type} {p : α → Bool} {f : α → List β} (h : ∀ a, p a = false → f a = [])
    (items : List α) : (items.filter p).flatMap f = items.flatMap f := by
  induction items with
  | nil => rfl
  | cons a items ih =>
      cases ha : p a with
      | true => rw [List.filter_cons_of_pos ha, List.flatMap_cons, List.flatMap_cons, ih]
      | false => rw [List.filter_cons_of_neg (by simp [ha]), List.flatMap_cons, h a ha, List.nil_append, ih]

/-- Data receipts add nothing to it. -/
theorem actionReceiptsStored_filter {decoders : Decoders} {blockTimestamp : Nat} {receipts : List ReceiptView}
    {db : Database} (h : ActionReceiptsStored decoders blockTimestamp (receipts.filter (·.isAction)) db) :
    ActionReceiptsStored decoders blockTimestamp receipts db := by
  have hreceipts : (receipts.filter (·.isAction)).filterMap ActionReceipt.ofView? =
      receipts.filterMap ActionReceipt.ofView? := by
    rw [List.filterMap_eq_flatMap_toList, List.filterMap_eq_flatMap_toList]
    refine filter_flatMap_of_nil (fun receipt hdata => ?_) receipts
    rw [(parts_of_isAction_eq_false hdata).1, Option.toList_none]
  refine ⟨hreceipts ▸ h.actionReceipts, ?_, ?_, ?_⟩
  · have hactions := h.actions
    rwa [receiptActionModels, filter_flatMap_of_nil fun receipt hdata => ?_] at hactions
    rw [(parts_of_isAction_eq_false hdata).2.1, List.zipIdx_nil, List.map_nil]
  · have houtput := h.outputData
    rwa [outputDataModels, filter_flatMap_of_nil fun receipt hdata => ?_] at houtput
    rw [(parts_of_isAction_eq_false hdata).2.2.1, List.map_nil]
  · have hinput := h.inputData
    rwa [inputDataModels, filter_flatMap_of_nil fun receipt hdata => ?_] at hinput
    rw [(parts_of_isAction_eq_false hdata).2.2.2, List.map_nil]

theorem ActionReceiptsStored.mono {decoders : Decoders} {blockTimestamp : Nat} {receipts receipts' : List ReceiptView}
    {db : Database} (h : ActionReceiptsStored decoders blockTimestamp receipts db)
    (hsub : ∀ receipt ∈ receipts', receipt ∈ receipts) :
    ActionReceiptsStored decoders blockTimestamp receipts' db := by
  have hrows : ∀ {β : Type} (f : ReceiptView → List β) row, row ∈ receipts'.flatMap f → row ∈ receipts.flatMap f :=
    fun f row hrow => List.mem_flatMap.mpr ((List.mem_flatMap.mp hrow).imp fun _ h => h.imp_left (hsub _))
  exact ⟨fun row hrow => h.actionReceipts row (List.filterMap_subset _ hsub hrow),
    fun row hrow => h.actions row (hrows _ row hrow), fun row hrow => h.outputData row (hrows _ row hrow),
    fun row hrow => h.inputData row (hrows _ row hrow)⟩

/-- What a chunk leaves in the database with the parent transactions that were found. -/
structure ChunkRecorded (decoders : Decoders) (message : StreamerMessage) (chunk : IndexerChunkView)
    (txHashes : TxHashes) (db : Database) : Prop where
  receipts : HasRows .receipts (receiptModels chunk.receipts message.block.header.hash chunk.header.chunkHash
    message.block.header.timestamp txHashes) db
  actionReceipts : ActionReceiptsStored decoders message.block.header.timestamp
    ((keptReceipts chunk.receipts txHashes).filter (·.isAction)) db
  dataReceipts : HasRows .dataReceipts
    (((keptReceipts chunk.receipts txHashes).filter fun r => !r.isAction).filterMap DataReceipt.ofView?) db

section Chain

variable {decoders : Decoders} {chain : List StreamerMessage} {P : World → Prop}

theorem stable_actionReceiptsStored (blockTimestamp : Nat) (receipts : List ReceiptView) :
    Stable (Evolves decoders chain) fun w => ActionReceiptsStored decoders blockTimestamp receipts w.db :=
  fun w w' h hstep => ⟨stable_hasRows _ _ w w' h.actionReceipts hstep, stable_hasRows _ _ w w' h.actions hstep,
    stable_hasRows _ _ w w' h.outputData hstep, stable_hasRows _ _ w w' h.inputData hstep⟩

section Message

variable {message : StreamerMessage} (hmessage : message ∈ chain)

include hmessage

/-- An insert among the rows of the message, after which an assertion goes on to hold. -/
theorem outline_insertOwn (name : TableName) {batch : List name.Row} {n : Nat}
    (parent : ReceiptView → ParentTransactionHashString) (hP : Stable (Evolves decoders chain) P)
    (hbatch : ∀ row ∈ batch, row ∈ message.rows decoders parent name) :
    Outline False (Evolves decoders chain) (Evolves decoders chain) P
      (awaitRetryOrPanic (execute (insertBatch name.key name.get name.set name.references batch)) (n + 1))
      fun _ w => HasRows name batch w.db ∧ P w :=
  outline_insertRows name hP fun _ _ row hrow => ⟨message, hmessage, .plain parent (hbatch row hrow)⟩

theorem outline_storeReceiptActions_chain {receipts : List ReceiptView}
    (hreceipts : ∀ receipt ∈ receipts, receipt ∈ message.receipts) (hP : Stable (Evolves decoders chain) P) :
    Outline False (Evolves decoders chain) (Evolves decoders chain) P
      (storeReceiptActions decoders receipts message.block.header.timestamp)
      fun _ w => ActionReceiptsStored decoders message.block.header.timestamp receipts w.db := by
  have hrows : ∀ name batch, Stable (Evolves decoders chain) fun w => HasRows name batch w.db := stable_hasRows
  refine (outline_insertOwn hmessage .actionReceipts (fun _ => "") hP fun row hrow => ?_).bind fun _ => ?_
  · obtain ⟨receipt, hreceipt, hrow⟩ := List.mem_filterMap.mp hrow
    exact List.mem_filterMap.mpr ⟨receipt, hreceipts receipt hreceipt, hrow⟩
  refine (outline_insertOwn hmessage .actionReceiptActions (fun _ => "") ((hrows _ _).and hP) fun row hrow => ?_).bind
    fun _ => ?_
  · obtain ⟨receipt, hreceipt, hrow⟩ := List.mem_flatMap.mp hrow
    exact List.mem_flatMap.mpr ⟨receipt, hreceipts receipt hreceipt, hrow⟩
  refine (outline_insertOwn hmessage .actionReceiptOutputData (fun _ => "") ((hrows _ _).and ((hrows _ _).and hP))
    fun row hrow => ?_).bind fun _ => ?_
  · obtain ⟨receipt, hreceipt, hrow⟩ := List.mem_flatMap.mp hrow
    exact List.mem_flatMap.mpr ⟨receipt, hreceipts receipt hreceipt, hrow⟩
  refine (outline_insertOwn hmessage .actionReceiptInputData (fun _ => "")
    ((hrows _ _).and ((hrows _ _).and ((hrows _ _).and hP))) fun row hrow => ?_).bind fun _ => .ret fun w hw => ?_
  · obtain ⟨receipt, hreceipt, hrow⟩ := List.mem_flatMap.mp hrow
    exact List.mem_flatMap.mpr ⟨receipt, hreceipts receipt hreceipt, hrow⟩
  obtain ⟨hinput, houtput, hactions, hreceipts, _⟩ := hw
  exact ⟨hreceipts, hactions, houtput, hinput⟩

/-- What is known of the parents that were found is kept with what is stored. -/
theorem outline_storeChunkReceipts_chain {chunk : IndexerChunkView} (hchunk : chunk ∈ chunksOf message.shards)
    {strictMode : Bool} {K : TxHashes → Prop} (hP : Stable (Evolves decoders chain) P)
    (hfind : Outline False (Evolves decoders chain) (Evolves decoders chain) P
      (findTxHashesForReceipts strictMode chunk.receipts) fun txHashes w => K txHashes ∧ P w) :
    Outline False (Evolves decoders chain) (Evolves decoders chain) P
      (storeChunkReceipts decoders chunk.receipts message.block.header.hash chunk.header.chunkHash
        message.block.header.timestamp strictMode)
      fun _ w => ∃ txHashes, K txHashes ∧ ChunkRecorded decoders message chunk txHashes w.db := by
  refine hfind.bind fun txHashes => .assume fun hfound => ?_
  refine (outline_withCache_chain hP).bind fun _ => ?_
  refine Outline.bind (M := fun _ w => HasRows .receipts (receiptModels chunk.receipts message.block.header.hash
    chunk.header.chunkHash message.block.header.timestamp txHashes) w.db) ?_ fun _ => ?_
  · refine (outline_insertOwn hmessage .receipts
      (fun r => (txHashes.lookup (receiptOrDataId r)).getD "") hP fun row hrow => ?_).bind fun _ =>
        .ret fun w hw => hw.1
    obtain ⟨⟨receipt, index⟩, hentry, hmodel⟩ := List.mem_filterMap.mp hrow
    obtain ⟨hash, hlookup, rfl⟩ := Option.map_eq_some_iff.mp hmodel
    refine List.mem_flatMap.mpr ⟨chunk, hchunk, List.mem_map.mpr ⟨_, hentry, ?_⟩⟩
    simp only [hlookup, Option.getD_some]
    rfl
  have hmem : ∀ p : ReceiptView → Bool, ∀ receipt ∈ (keptReceipts chunk.receipts txHashes).filter p,
      receipt ∈ message.receipts := fun p receipt hreceipt =>
    List.mem_flatMap.mpr ⟨chunk, hchunk, (List.mem_filter.mp (List.mem_filter.mp hreceipt).1).1⟩
  have hrows : Stable (Evolves decoders chain) fun w => HasRows .receipts (receiptModels chunk.receipts
    message.block.header.hash chunk.header.chunkHash message.block.header.timestamp txHashes) w.db := stable_hasRows _ _
  rw [List.partition_eq_filter_filter]
  refine ((Outline.both (fun _ _ h => h) hrows (stable_actionReceiptsStored _ _) (stable_hasRows _ _)
    (outline_storeReceiptActions_chain hmessage (hmem _) hrows)
    ((outline_insertOwn hmessage .dataReceipts (fun _ => "") hrows fun row hrow => ?_).bind fun _ =>
      .ret fun _ hw => hw.1)).keep (fun _ _ h => h) hrows).post fun _ w hw => ⟨txHashes, hfound, hw.2, hw.1.1, hw.1.2⟩
  obtain ⟨receipt, hreceipt, hrow⟩ := List.mem_filterMap.mp hrow
  exact List.mem_filterMap.mpr ⟨receipt, hmem _ receipt hreceipt, hrow⟩

end Message

end Chain

end ExplorerIndexer.Receipts

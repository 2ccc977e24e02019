import ExplorerIndexer.ChainKeys
import ExplorerIndexer.ChainReceipts

/-! A message that is handled is stored: when its handling is ready, its rows are in the tables that the mode completes,
next to whatever else is being handled. In the non-strict mode that says nothing of its receipts and account changes, in
neither mode anything of its Data receipts, accounts, access keys and token events. -/

namespace ExplorerIndexer

open Async Store Models

/-- The tables that get all their rows of a message. Receipts without a known parent do not get to the tables of
receipts, and in the strict mode that may happen to Data receipts only. -/
def TableName.completed (strictMode : Bool) : TableName → Bool
  | receipts | dataReceipts => false
  | actionReceipts | actionReceiptActions | actionReceiptInputData | actionReceiptOutputData => strictMode
  | blocks | chunks | transactions | transactionActions | executionOutcomes | executionOutcomeReceipts => true

namespace Receipts

/-- The Action receipts of a list are stored with all that belongs to them. -/
structure ReceiptsStored (decoders : Decoders) (blockTimestamp : Nat) (receipts : List ReceiptView) (db : Database) :
    Prop where
  stored : ∀ receipt ∈ receipts, receipt.isAction = true → receipt.receiptId ∈ db.receipts
  parts : ActionReceiptsStored decoders blockTimestamp receipts db

section Chain

variable {decoders : Decoders} {chain : List StreamerMessage} {P : World → Prop} {message : StreamerMessage}

theorem stable_receiptsStored (blockTimestamp : Nat) (receipts : List ReceiptView) :
    Stable (Evolves decoders chain) fun w => ReceiptsStored decoders blockTimestamp receipts w.db := by
  intro w w' h hstep
  refine ⟨fun receipt hreceipt haction => ?_, stable_actionReceiptsStored _ _ w w' h.parts hstep⟩
  exact hstep.grows.receipts (h.stored receipt hreceipt haction)

/-- If all parents are found, no Action receipt of the chunk is skipped. -/
theorem ChunkRecorded.receiptsStored {chunk : IndexerChunkView} {txHashes : TxHashes} {db : Database}
    (h : ChunkRecorded decoders message chunk txHashes db) (hdistinct : (chunk.receipts.map (·.receiptId)).Nodup)
    (hfound : ∀ receipt ∈ chunk.receipts, HasEntry txHashes receipt) :
    ReceiptsStored decoders message.block.header.timestamp chunk.receipts db := by
  have hentry : ∀ receipt ∈ chunk.receipts, receipt.isAction = true → receiptOrDataId receipt ∈ txHashes := by
    intro receipt hreceipt haction
    rw [receiptOrDataId_of_isAction haction]
    refine (hfound receipt hreceipt).resolve_right ?_
    rintro ⟨dataId, hdata, _⟩
    rw [isAction_eq_false.mpr ⟨dataId, hdata⟩] at haction
    cases haction
  refine ⟨fun receipt hreceipt haction => ?_,
    actionReceiptsStored_filter (h.actionReceipts.mono fun receipt hmem => ?_)⟩
  · obtain ⟨hash, hhash⟩ := Table.mem_iff_lookup.mp (hentry receipt hreceipt haction)
    obtain ⟨row, hrow, hid⟩ := exists_receiptModel hreceipt hhash
    exact hid ▸ h.receipts row hrow
  · obtain ⟨hreceipt, haction⟩ := List.mem_filter.mp hmem
    exact List.mem_filter.mpr ⟨mem_keptReceipts hdistinct hreceipt (hentry receipt hreceipt haction), haction⟩

variable (hmessage : message ∈ chain)

include hmessage

/-- In the strict mode the search finds the parents of all receipts of the chunk, however long it takes. -/
theorem outline_find_strict_chain (hchain : WellFormed decoders chain) {chunk : IndexerChunkView}
    (hchunk : chunk ∈ chunksOf message.shards) :
    Outline False (Evolves decoders chain) (Evolves decoders chain) (fun w => Recorded decoders chain w.db)
      (findTxHashesForReceipts true chunk.receipts)
      fun txHashes w => (∀ receipt ∈ chunk.receipts, HasEntry txHashes receipt) ∧ Recorded decoders chain w.db := by
  have hfind : Outline False (fun w w' => Evolves decoders chain w w' ∧ FoundOnce w'.db) (Evolves decoders chain)
      (fun w => FoundOnce w.db) (findTxHashesForReceipts true chunk.receipts)
      (Known fun txHashes => ∀ receipt ∈ chunk.receipts, HasEntry txHashes receipt) :=
    outline_findTxHashesForReceipts_entries (fun _ _ _ hstep => hstep.2) (fun _ _ => .inl rfl)
      (hchain.receiptIds_chunk hmessage hchunk)
  refine ((hfind.within stable_recorded stable_recorded (fun w w' hw hstep => ⟨hstep, ?_⟩) fun _ _ _ h => h).pre
    fun w hw => ⟨?_, hw⟩).post fun _ w hw => ⟨hw.1.1, hw.2⟩
  · exact (stable_recorded w w' hw hstep).stems.foundOnce hchain
  · exact hw.stems.foundOnce hchain

theorem outline_storeReceipts_strict_chain (hchain : WellFormed decoders chain) :
    Outline False (Evolves decoders chain) (Evolves decoders chain) (fun w => Recorded decoders chain w.db)
      (storeReceipts decoders message.shards message.block.header.hash message.block.header.timestamp true)
      fun _ w => ∀ chunk ∈ chunksOf message.shards,
        ReceiptsStored decoders message.block.header.timestamp chunk.receipts w.db := by
  refine (Outline.joinAll_map (fun _ _ h => h) stable_recorded
    (fun chunk => stable_receiptsStored message.block.header.timestamp chunk.receipts) fun chunk hchunk => ?_).post
    fun _ w hw chunk hchunk => ?_
  · have hmem := (List.mem_filter.mp hchunk).1
    refine (outline_storeChunkReceipts_chain hmessage hmem stable_recorded
      (outline_find_strict_chain hmessage hchain hmem)).post fun _ w ⟨txHashes, hfound, hrecorded⟩ => ?_
    exact hrecorded.receiptsStored (hchain.receiptIds_chunk hmessage hmem) hfound
  · by_cases hempty : chunk.receipts = []
    · rw [hempty]
      exact ⟨nofun, nofun, nofun, nofun, nofun⟩
    · refine hw chunk (List.mem_filter.mpr ⟨hchunk, ?_⟩)
      rwa [Bool.not_eq_true', ← Bool.not_eq_true, List.isEmpty_iff]

/-- In every mode. -/
theorem evolves_storeReceipts (hP : Stable (Evolves decoders chain) P) (strictMode : Bool) :
    Outline False (Evolves decoders chain) (Evolves decoders chain) P
      (storeReceipts decoders message.shards message.block.header.hash message.block.header.timestamp strictMode)
      fun _ => P := by
  refine .joinAll (fun _ _ h => h) hP fun task htask => ?_
  obtain ⟨chunk, hchunk, rfl⟩ := List.mem_map.mp htask
  refine ((outline_storeChunkReceipts_chain hmessage (List.mem_filter.mp hchunk).1 hP (K := fun _ => True) ?_).keep
    (fun _ _ h => h) hP).post fun _ _ hw => hw.2
  refine (outline_withCache_chain hP).bind fun txHashes => ?_
  exact (outline_evolves (onlyQueries_searchForOthers (fun _ => .inl rfl) strictMode _ txHashes) hP).post
    fun _ _ hw => ⟨trivial, hw⟩

theorem outline_storeReceipts_chain (hchain : WellFormed decoders chain) (strictMode : Bool) :
    Outline False (Evolves decoders chain) (Evolves decoders chain) (fun w => Recorded decoders chain w.db)
      (storeReceipts decoders message.shards message.block.header.hash message.block.header.timestamp strictMode)
      fun _ w => strictMode = true → ∀ chunk ∈ chunksOf message.shards,
        ReceiptsStored decoders message.block.header.timestamp chunk.receipts w.db := by
  cases strictMode with
  | true => exact (outline_storeReceipts_strict_chain hmessage hchain).post fun _ _ hw _ => hw
  | false =>
      refine (evolves_storeReceipts hmessage stable_recorded false).post fun _ _ _ hstrict => ?_
      cases hstrict

end Chain

end Receipts

/-- What the handling of a message has stored in the tables that the mode completes: the rows of the message and, in the
strict mode, its Action receipts and account changes. Data receipts, accounts, access keys and token events are left
out. -/
structure MessageStored (decoders : Decoders) (strictMode : Bool) (message : StreamerMessage) (db : Database) :
    Prop where
  rows : ∀ name : TableName, name.completed strictMode = true →
    HasRows name (message.rows decoders (fun _ => "") name) db
  receipts : strictMode = true → ∀ receipt ∈ message.receipts, receipt.isAction = true → receipt.receiptId ∈ db.receipts
  accountChanges : strictMode = true → AccountChanges.ChangesStored message db

section Handled

variable {decoders : Decoders} {chain : List StreamerMessage} {P : World → Prop} {message : StreamerMessage}

/-- The rows of the message are in the table. -/
def OwnRows (decoders : Decoders) (message : StreamerMessage) (name : TableName) (w : World) : Prop :=
  HasRows name (message.rows decoders (fun _ => "") name) w.db

theorem stable_ownRows (name : TableName) : Stable (Evolves decoders chain) (OwnRows decoders message name) :=
  stable_hasRows name _

/-- The Action receipts of the message are stored, in the strict mode. -/
def OwnReceipts (decoders : Decoders) (strictMode : Bool) (message : StreamerMessage) (w : World) : Prop :=
  strictMode = true → ∀ chunk ∈ chunksOf message.shards,
    Receipts.ReceiptsStored decoders message.block.header.timestamp chunk.receipts w.db

theorem stable_ownReceipts (strictMode : Bool) :
    Stable (Evolves decoders chain) (OwnReceipts decoders strictMode message) :=
  fun w w' h hstep hstrict chunk hchunk => Receipts.stable_receiptsStored _ _ w w' (h hstrict chunk hchunk) hstep

/-- The parts of Action receipts, chunk by chunk. -/
theorem OwnReceipts.parts {w : World} (h : OwnReceipts decoders true message w) :
    OwnRows decoders message .actionReceipts w ∧ OwnRows decoders message .actionReceiptActions w ∧
      OwnRows decoders message .actionReceiptInputData w ∧ OwnRows decoders message .actionReceiptOutputData w := by
  have hrows : ∀ {β : Type} {f : ReceiptView → List β} {row}, row ∈ message.receipts.flatMap f →
      ∃ chunk ∈ chunksOf message.shards, row ∈ chunk.receipts.flatMap f := by
    intro β f row hrow
    obtain ⟨receipt, hreceipt, hrow⟩ := List.mem_flatMap.mp hrow
    obtain ⟨chunk, hchunk, hreceipt⟩ := List.mem_flatMap.mp hreceipt
    exact ⟨chunk, hchunk, List.mem_flatMap.mpr ⟨receipt, hreceipt, hrow⟩⟩
  refine ⟨fun row hrow => ?_, fun row hrow => ?_, fun row hrow => ?_, fun row hrow => ?_⟩
  · have hrow : row ∈ message.receipts.filterMap ActionReceipt.ofView? := hrow
    rw [List.filterMap_eq_flatMap_toList] at hrow
    obtain ⟨chunk, hchunk, hrow⟩ := hrows hrow
    rw [← List.filterMap_eq_flatMap_toList] at hrow
    exact (h rfl chunk hchunk).parts.actionReceipts row hrow
  · obtain ⟨chunk, hchunk, hrow⟩ := hrows hrow
    exact (h rfl chunk hchunk).parts.actions row hrow
  · obtain ⟨chunk, hchunk, hrow⟩ := hrows hrow
    exact (h rfl chunk hchunk).parts.inputData row hrow
  · obtain ⟨chunk, hchunk, hrow⟩ := hrows hrow
    exact (h rfl chunk hchunk).parts.outputData row hrow

/-- What is known before the execution outcomes are stored; `R` is what is known of the receipts. -/
structure Preceding (decoders : Decoders) (chain : List StreamerMessage) (R : World → Prop) (message : StreamerMessage)
    (w : World) : Prop where
  blocks : OwnRows decoders message .blocks w
  chunks : OwnRows decoders message .chunks w
  transactions : OwnRows decoders message .transactions w
  transactionActions : OwnRows decoders message .transactionActions w
  receipts : R w
  recorded : Recorded decoders chain w.db

theorem stable_preceding {R : World → Prop} (hR : Stable (Evolves decoders chain) R) (message : StreamerMessage) :
    Stable (Evolves decoders chain) (Preceding decoders chain R message) := fun w w' h hstep =>
  ⟨stable_ownRows _ w w' h.blocks hstep, stable_ownRows _ w w' h.chunks hstep,
    stable_ownRows _ w w' h.transactions hstep, stable_ownRows _ w w' h.transactionActions hstep,
    hR w w' h.receipts hstep, stable_recorded w w' h.recorded hstep⟩

/-- What is known when a message is handled. -/
structure Handled (decoders : Decoders) (strictMode : Bool) (R : World → Prop) (message : StreamerMessage) (w : World) :
    Prop where
  rows : ∀ name : TableName, name.completed false = true → OwnRows decoders message name w
  receipts : R w
  accountChanges : strictMode = true → AccountChanges.ChangesStored message w.db

theorem Preceding.handled {R : World → Prop} {strictMode : Bool} {w : World}
    (h : Preceding decoders chain R message w) (houtcomes : OwnRows decoders message .executionOutcomes w)
    (houtcomeReceipts : OwnRows decoders message .executionOutcomeReceipts w)
    (hchanges : strictMode = true → AccountChanges.ChangesStored message w.db) :
    Handled decoders strictMode R message w := by
  refine ⟨fun name hname => ?_, h.receipts, hchanges⟩
  cases name with
  | blocks => exact h.blocks
  | chunks => exact h.chunks
  | transactions => exact h.transactions
  | transactionActions => exact h.transactionActions
  | executionOutcomes => exact houtcomes
  | executionOutcomeReceipts => exact houtcomeReceipts
  | receipts | dataReceipts | actionReceipts | actionReceiptActions | actionReceiptInputData
  | actionReceiptOutputData => cases hname

theorem Handled.messageStored {strictMode : Bool} {w : World}
    (h : Handled decoders strictMode (OwnReceipts decoders strictMode message) message w) :
    MessageStored decoders strictMode message w.db := by
  refine ⟨fun name hname => ?_, fun hstrict receipt hreceipt haction => ?_, h.accountChanges⟩
  · cases hfalse : name.completed false with
    | true => exact h.rows name hfalse
    | false =>
        -- one of the tables that only the strict mode completes
        have hreceipts := h.receipts
        cases name with
        | actionReceipts =>
            obtain rfl : strictMode = true := hname
            exact hreceipts.parts.1
        | actionReceiptActions =>
            obtain rfl : strictMode = true := hname
            exact hreceipts.parts.2.1
        | actionReceiptInputData =>
            obtain rfl : strictMode = true := hname
            exact hreceipts.parts.2.2.1
        | actionReceiptOutputData =>
            obtain rfl : strictMode = true := hname
            exact hreceipts.parts.2.2.2
        | receipts | dataReceipts => cases hname
        | blocks | chunks | transactions | transactionActions | executionOutcomes | executionOutcomeReceipts =>
            cases hfalse
  · obtain ⟨chunk, hchunk, hreceipt⟩ := List.mem_flatMap.mp hreceipt
    exact (h.receipts hstrict chunk hchunk).stored receipt hreceipt haction

theorem evolves_accountsFuture (message : StreamerMessage) :
    OnlyQueries (Evolves decoders chain) (Prog.joinAll (message.shards.map fun shard =>
      Accounts.handleAccounts shard.receiptExecutionOutcomes message.block.header.height)) :=
  .joinAll_map fun _ => Accounts.evolves_handleAccounts _ _

variable (hmessage : message ∈ chain)

include hmessage

/-- Beside the execution outcomes, in the strict mode. -/
theorem outline_besideOutcomes_chain (hP : Stable (Evolves decoders chain) P) :
    Outline False (Evolves decoders chain) (Evolves decoders chain) P (Prog.joinAll
      [Prog.joinAll (message.shards.map fun shard =>
          Accounts.handleAccounts shard.receiptExecutionOutcomes message.block.header.height),
        Prog.joinAll (message.shards.map fun shard =>
          AccessKeys.handleAccessKeys decoders shard.receiptExecutionOutcomes message.block.header.height),
        Events.storeEvents decoders message,
        AccountChanges.storeAccountChanges message.shards message.block.header.hash message.block.header.timestamp])
      fun _ w => AccountChanges.ChangesStored message w.db := by
  have hself : ∀ w w', Evolves decoders chain w w' → Evolves decoders chain w w' := fun _ _ h => h
  have hchanges : Stable (Evolves decoders chain) fun w => AccountChanges.ChangesStored message w.db :=
    AccountChanges.stable_exists_conflicting _
  have hleft : ∀ p : Prog World Unit, OnlyQueries (Evolves decoders chain) p →
      Outline False (Evolves decoders chain) (Evolves decoders chain) P p fun _ => P :=
    fun p hp => outline_evolves hp hP
  refine (Outline.both hself hP hP hchanges (hleft _ (evolves_accountsFuture message)) ?_).post fun _ _ hw => hw.2
  refine (Outline.both hself hP hP hchanges (hleft _ (.joinAll_map fun _ =>
    AccessKeys.evolves_handleAccessKeys _ _)) ?_).post fun _ _ hw => hw.2
  refine (Outline.both hself hP hP hchanges (hleft _ (Events.evolves_storeEvents hmessage)) ?_).post fun _ _ hw => hw.2
  exact (Outline.both hself hP hchanges hP (AccountChanges.outline_storeAccountChanges_chain hmessage hP)
    (.ret fun _ hw => hw)).post fun _ _ hw => hw.1

/-- The handling of a message on a chain, with what its receipts adapter tells. -/
theorem outline_handleMessage_of_receipts {R : World → Prop} {strictMode : Bool}
    (hR : Stable (Evolves decoders chain) R)
    (hreceipts : Outline False (Evolves decoders chain) (Evolves decoders chain) (fun w => Recorded decoders chain w.db)
      (Receipts.storeReceipts decoders message.shards message.block.header.hash message.block.header.timestamp
        strictMode) fun _ => R) :
    Outline False (Evolves decoders chain) (Evolves decoders chain) (fun w => Recorded decoders chain w.db)
      (handleMessage decoders message strictMode) fun _ => Handled decoders strictMode R message := by
  have hself : ∀ w w', Evolves decoders chain w w' → Evolves decoders chain w w' := fun _ _ h => h
  have hblock : Stable (Evolves decoders chain) fun w =>
      OwnRows decoders message .blocks w ∧ Recorded decoders chain w.db := (stable_ownRows _).and stable_recorded
  have hchunks : Stable (Evolves decoders chain) fun w =>
      OwnRows decoders message .chunks w ∧ OwnRows decoders message .blocks w ∧ Recorded decoders chain w.db :=
    (stable_ownRows _).and hblock
  refine (Blocks.outline_storeBlock hmessage stable_recorded fun _ => "").bind fun _ => ?_
  refine (Blocks.outline_storeChunks hmessage hblock fun _ => "").bind fun _ => ?_
  have hboth := (Outline.both hself hchunks ((stable_ownRows _).and (stable_ownRows _)) hR
    (Transactions.outline_storeTransactions_chain hmessage hchunks fun _ => "")
    (hreceipts.pre fun _ hw => hw.2.2)).keep hself hchunks
  refine Outline.bind (M := fun _ => Preceding decoders chain R message) (hboth.post fun _ w hw => ?_) fun _ => ?_
  · obtain ⟨⟨⟨htx, hactions⟩, hreceipts⟩, hchunk, hblock, hrecorded⟩ := hw
    exact ⟨hblock, hchunk, htx, hactions, hreceipts, hrecorded⟩
  have hpreceding := stable_preceding hR message
  have houtcomes := ExecutionOutcomes.outline_storeExecutionOutcomes_chain hmessage hpreceding fun _ => ""
  have hrows : Stable (Evolves decoders chain) fun w =>
      OwnRows decoders message .executionOutcomes w ∧ OwnRows decoders message .executionOutcomeReceipts w :=
    (stable_ownRows _).and (stable_ownRows _)
  split
  · have hchanges : Stable (Evolves decoders chain) fun w => AccountChanges.ChangesStored message w.db :=
      AccountChanges.stable_exists_conflicting _
    exact ((Outline.both hself hpreceding hrows hchanges houtcomes
      (outline_besideOutcomes_chain hmessage hpreceding)).keep hself hpreceding).post fun _ w hw =>
        hw.2.handled hw.1.1.1 hw.1.1.2 fun _ => hw.1.2
  · rename_i hnot
    have hbeside := outline_evolves ((evolves_accountsFuture message).both ((Events.evolves_storeEvents hmessage).both
      (.ret ()))) hpreceding
    exact (Outline.both hself hpreceding hrows hpreceding houtcomes hbeside).post fun _ w hw =>
      hw.2.handled hw.1.1 hw.1.2 fun hstrict => absurd hstrict hnot

/-- On any chain, the handling of a message keeps to the chain. -/
theorem outline_handleMessage_evolves (strictMode : Bool) :
    Outline False (Evolves decoders chain) (Evolves decoders chain) (fun w => Recorded decoders chain w.db)
      (handleMessage decoders message strictMode) fun _ w => Handled decoders strictMode (fun _ => True) message w :=
  outline_handleMessage_of_receipts hmessage (.const _ True)
    ((Receipts.evolves_storeReceipts hmessage stable_recorded strictMode).post fun _ _ _ => trivial)

/-- On a well-formed chain, a message that is handled is stored. -/
theorem outline_handleMessage_chain (hchain : WellFormed decoders chain) (strictMode : Bool) :
    Outline False (Evolves decoders chain) (Evolves decoders chain) (fun w => Recorded decoders chain w.db)
      (handleMessage decoders message strictMode) fun _ w => MessageStored decoders strictMode message w.db :=
  (outline_handleMessage_of_receipts hmessage (stable_ownReceipts strictMode)
    (Receipts.outline_storeReceipts_chain hmessage hchain strictMode)).post fun _ _ hw => hw.messageStored

end Handled

end ExplorerIndexer

import ExplorerIndexer.AdapterExecutionOutcomes
import ExplorerIndexer.AdapterReceipts
import ExplorerIndexer.AsyncAlone
import ExplorerIndexer.DatabaseOutlines

/-! Storing execution outcomes next to skipped receipts. The outcomes of a shard go into one insert, under a foreign
key to the table of receipts: one executed receipt without a row keeps the outcomes of all others out. -/

namespace ExplorerIndexer.ExecutionOutcomes

open Async Store Models

/-- What the schema promises about the executed receipts of stored outcomes. -/
def OutcomesHaveReceipts (db : Database) : Prop := ∀ id, id ∈ db.executionOutcomes → db.hasReceipt id

/-- The block and the receipt that the rows of an outcome refer to. -/
def Referable (db : Database) (outcome : IndexerExecutionOutcomeWithReceipt) : Prop :=
  db.hasBlock outcome.executionOutcome.blockHash ∧ db.hasReceipt outcome.executionOutcome.id

/-- The rows of an outcome. -/
def OutcomeStored (outcome : IndexerExecutionOutcomeWithReceipt) (db : Database) : Prop :=
  outcome.executionOutcome.id ∈ db.executionOutcomes ∧
    ∀ entry ∈ outcome.executionOutcome.outcome.receiptIds.zipIdx,
      (outcome.executionOutcome.id, entry.2, entry.1) ∈ db.executionOutcomeReceipts

/-- What the tasks of the shards do to the tables of each other. -/
structure OutcomesGrow (w w' : World) : Prop where
  blocks : w'.db.blocks = w.db.blocks
  receipts : w'.db.receipts = w.db.receipts
  outcomes : ∀ id, id ∈ w.db.executionOutcomes → id ∈ w'.db.executionOutcomes
  outcomeReceipts : ∀ key, key ∈ w.db.executionOutcomeReceipts → key ∈ w'.db.executionOutcomeReceipts
  checked : ∀ id, id ∈ w'.db.executionOutcomes → id ∈ w.db.executionOutcomes ∨ w'.db.hasReceipt id

/-- The tables that outcomes refer to are those of a given database, and the schema holds. -/
structure Settled (db₀ : Database) (w : World) : Prop where
  blocks : w.db.blocks = db₀.blocks
  receipts : w.db.receipts = db₀.receipts
  consistent : OutcomesHaveReceipts w.db

theorem stable_settled (db₀ : Database) : Stable OutcomesGrow (Settled db₀) := by
  intro w w' hw hgrow
  refine ⟨hgrow.blocks.trans hw.blocks, hgrow.receipts.trans hw.receipts, fun id hid => ?_⟩
  rcases hgrow.checked id hid with hold | hreceipt
  · have := hw.consistent id hold
    rwa [Database.hasReceipt, hgrow.receipts]
  · exact hreceipt

/-! ### The task of one shard -/

theorem outcomesGrow_insertExecutionOutcomes {w : World} {batch : List ExecutionOutcome}
    (hrefs : ∀ row ∈ Table.inserted (·.receiptId) batch w.db.executionOutcomes,
      w.db.executionOutcomeReferences row = none) :
    OutcomesGrow w { w with db := { w.db with
      executionOutcomes := w.db.executionOutcomes.insertAllNew (·.receiptId) batch } } := by
  refine ⟨rfl, rfl, fun id hid => Table.mem_insertAllNew.mpr (.inl hid), fun _ h => h, fun id hid => ?_⟩
  by_cases hold : id ∈ w.db.executionOutcomes
  · exact .inl hold
  · obtain ⟨row, hrow, rfl⟩ := (Table.mem_insertAllNew.mp hid).resolve_left hold
    obtain ⟨row', hmem, hkey⟩ := Table.exists_inserted hrow hold
    have hreferences := hrefs row' hmem
    rw [Database.executionOutcomeReferences, Option.or_eq_none_iff, requires_eq_none, requires_eq_none,
      hkey] at hreferences
    exact .inr hreferences.2

theorem outcomesGrow_insertExecutionOutcomeReceipts (w : World) (batch : List ExecutionOutcomeReceipt) :
    OutcomesGrow w { w with db := { w.db with
      executionOutcomeReceipts :=
        w.db.executionOutcomeReceipts.insertAllNew ExecutionOutcomeReceipt.key batch } } :=
  ⟨rfl, rfl, fun _ h => h, fun _ h => Table.mem_insertAllNew.mpr (.inl h), fun _ h => .inl h⟩

/-- The outcomes of a shard have rows. -/
def HasOutcomes (executionOutcomes : List IndexerExecutionOutcomeWithReceipt) (w : World) : Prop :=
  ∀ outcome ∈ executionOutcomes, outcome.executionOutcome.id ∈ w.db.executionOutcomes

def AllStored (executionOutcomes : List IndexerExecutionOutcomeWithReceipt) (w : World) : Prop :=
  ∀ outcome ∈ executionOutcomes, OutcomeStored outcome w.db

theorem stable_hasOutcomes (executionOutcomes : List IndexerExecutionOutcomeWithReceipt) :
    Stable OutcomesGrow (HasOutcomes executionOutcomes) :=
  fun _ _ h hgrow outcome hmem => hgrow.outcomes _ (h outcome hmem)

theorem stable_allStored (executionOutcomes : List IndexerExecutionOutcomeWithReceipt) :
    Stable OutcomesGrow (AllStored executionOutcomes) :=
  fun _ _ h hgrow outcome hmem =>
    ⟨hgrow.outcomes _ (h outcome hmem).1,
      fun entry hentry => hgrow.outcomeReceipts _ ((h outcome hmem).2 entry hentry)⟩

/-- If the task of a shard is ready, its outcomes are stored; if all rows can be referred to, it gets ready. -/
theorem outline_storeExecutionOutcomesForChunk (db₀ : Database)
    (executionOutcomes : List IndexerExecutionOutcomeWithReceipt) (shardId blockTimestamp : Nat) :
    Outline (∀ outcome ∈ executionOutcomes, Referable db₀ outcome) OutcomesGrow OutcomesGrow (Settled db₀)
      (storeExecutionOutcomesForChunk executionOutcomes shardId blockTimestamp)
      fun _ w => Settled db₀ w ∧ AllStored executionOutcomes w := by
  refine Outline.bind (outline_updateCache (fun w hw =>
    ⟨⟨rfl, rfl, fun _ h => h, fun _ h => h, fun _ h => .inl h⟩, ⟨hw.blocks, hw.receipts, hw.consistent⟩⟩)
    (stable_settled db₀)) fun _ => ?_
  refine Outline.bind (outline_insert (P := Settled db₀)
    (M := fun w => Settled db₀ w ∧ HasOutcomes executionOutcomes w) ?_ ?_
    ((stable_settled db₀).and (stable_hasOutcomes executionOutcomes))) fun _ => ?_
  · intro htotal w hw row hrow
    obtain ⟨outcome, hmem, hid, hblock⟩ := mem_outcomeModels (Table.mem_inserted hrow).1
    obtain ⟨hhasBlock, hhasReceipt⟩ := htotal outcome hmem
    rw [Database.executionOutcomeReferences, Option.or_eq_none_iff, requires_eq_none, requires_eq_none, hid, hblock]
    rw [Database.hasBlock, Database.hasReceipt] at *
    rw [hw.blocks, hw.receipts]
    exact ⟨hhasBlock, hhasReceipt⟩
  · intro w hw hrefs
    have hgrow := outcomesGrow_insertExecutionOutcomes hrefs
    refine ⟨hgrow, stable_settled db₀ _ _ hw hgrow, fun outcome hmem => ?_⟩
    obtain ⟨row, hrow, hid⟩ := exists_outcomeModel hmem shardId blockTimestamp
    exact Table.mem_insertAllNew.mpr (.inr ⟨row, hrow, hid⟩)
  refine Outline.bind (outline_insert (M := fun w => Settled db₀ w ∧ AllStored executionOutcomes w) ?_ ?_
    ((stable_settled db₀).and (stable_allStored executionOutcomes))) fun _ => .ret fun _ h => h
  · rintro - w ⟨hw, hhas⟩ row hrow
    obtain ⟨outcome, hmem, entry, _, rfl⟩ := mem_outcomeReceiptModels.mp (Table.mem_inserted hrow).1
    rw [Database.executionOutcomeReceiptReferences, Option.or_eq_none_iff, requires_eq_none, requires_eq_none,
      decide_eq_true_eq]
    exact ⟨hhas outcome hmem, hw.consistent _ (hhas outcome hmem)⟩
  · rintro w ⟨hw, hhas⟩ -
    have hgrow := outcomesGrow_insertExecutionOutcomeReceipts w (outcomeReceiptModels executionOutcomes)
    refine ⟨hgrow, stable_settled db₀ _ _ hw hgrow, fun outcome hmem => ⟨hhas outcome hmem, ?_⟩⟩
    intro entry hentry
    have hmodel := mem_outcomeReceiptModels.mpr ⟨outcome, hmem, entry, hentry, rfl⟩
    exact Table.mem_insertAllNew.mpr (.inr ⟨_, hmodel, rfl⟩)

/-! ### The tasks of all shards -/

/-- The outcomes of a block. -/
def outcomesOf (shards : List IndexerShard) : List IndexerExecutionOutcomeWithReceipt :=
  shards.flatMap (·.receiptExecutionOutcomes)

theorem outline_storeExecutionOutcomes (db₀ : Database) (shards : List IndexerShard) (blockTimestamp : Nat) :
    Outline (∀ outcome ∈ outcomesOf shards, Referable db₀ outcome) OutcomesGrow OutcomesGrow (Settled db₀)
      (storeExecutionOutcomes shards blockTimestamp)
      fun _ w => ∀ shard ∈ shards, Settled db₀ w ∧ AllStored shard.receiptExecutionOutcomes w := by
  refine Outline.joinAll_map (fun _ _ h => h) (stable_settled db₀)
    (fun shard => (stable_settled db₀).and (stable_allStored _)) ?_
  intro shard hshard
  refine (outline_storeExecutionOutcomesForChunk db₀ _ shard.shardId blockTimestamp).total_mono ?_
  intro htotal outcome hmem
  exact htotal outcome (List.mem_flatMap.mpr ⟨shard, hshard, hmem⟩)

/-- `store_execution_outcomes` gets by with the receipts that have a row: as long as no statement is lost it can go
on to `Ok`, and once it is ready the outcomes of these receipts are stored. -/
def Tolerates (shards : List IndexerShard) (blockTimestamp : Nat) (w : World) : Prop :=
  (∀ events q w', Steps (storeExecutionOutcomes shards blockTimestamp) w events q w' → Event.lost ∉ events →
      ∃ w'', Finishes q w' () w'') ∧
    ∀ w', Finishes (storeExecutionOutcomes shards blockTimestamp) w () w' →
      ∀ outcome ∈ outcomesOf shards, w.db.hasReceipt outcome.executionOutcome.id → OutcomeStored outcome w'.db

section Tolerance

variable {shards : List IndexerShard} {blockTimestamp : Nat} {w : World}

/-- Once all tasks are ready, all outcomes are stored. -/
theorem stored_of_finishes (hschema : OutcomesHaveReceipts w.db) {w' : World}
    (hfin : Finishes (storeExecutionOutcomes shards blockTimestamp) w () w') :
    ∀ outcome ∈ outcomesOf shards, Settled w.db w' ∧ OutcomeStored outcome w'.db := by
  intro outcome hmem
  obtain ⟨shard, hshard, hmem⟩ := List.mem_flatMap.mp hmem
  have hsettled : Settled w.db w := ⟨rfl, rfl, hschema⟩
  have houtline := outline_storeExecutionOutcomes w.db shards blockTimestamp
  obtain ⟨hsettled', hstored⟩ := houtline.finishes hsettled (stable_settled _) hfin shard hshard
  exact ⟨hsettled', hstored outcome hmem⟩

theorem hasReceipt_of_tolerates (hschema : OutcomesHaveReceipts w.db) (h : Tolerates shards blockTimestamp w) :
    ∀ outcome ∈ outcomesOf shards, w.db.hasReceipt outcome.executionOutcome.id := by
  intro outcome hmem
  obtain ⟨w', hfin⟩ := h.1 [] _ w .refl List.not_mem_nil
  -- a stored outcome has a receipt, and no task of the block stores receipts
  obtain ⟨hsettled, hstored⟩ := stored_of_finishes hschema hfin outcome hmem
  have hreceipt := hsettled.consistent _ hstored.1
  rwa [Database.hasReceipt, hsettled.receipts] at hreceipt

theorem tolerates_of_hasReceipt (hschema : OutcomesHaveReceipts w.db)
    (hblock : ∀ outcome ∈ outcomesOf shards, w.db.hasBlock outcome.executionOutcome.blockHash)
    (hreceipts : ∀ outcome ∈ outcomesOf shards, w.db.hasReceipt outcome.executionOutcome.id) :
    Tolerates shards blockTimestamp w := by
  refine ⟨fun events q w' hsteps hcalm => ?_, fun w' hfin outcome hmem _ =>
    (stored_of_finishes hschema hfin outcome hmem).2⟩
  have hsettled : Settled w.db w := ⟨rfl, rfl, hschema⟩
  have houtline := outline_storeExecutionOutcomes w.db shards blockTimestamp
  obtain ⟨P', hout, _, hw'⟩ := houtline.steps hsettled (stable_settled _) hsteps fun _ => hcalm
  obtain ⟨_, w'', hfin, _⟩ := hout.completes (fun outcome hmem => ⟨hblock outcome hmem, hreceipts outcome hmem⟩) hw'
  exact ⟨w'', hfin⟩

end Tolerance

/-- In a database that holds the block and obeys its schema, skipped receipts are tolerated exactly if none of them
is executed in the block. -/
theorem tolerates_iff (shards : List IndexerShard) (blockTimestamp : Nat) (w : World)
    (hschema : OutcomesHaveReceipts w.db)
    (hblock : ∀ outcome ∈ outcomesOf shards, w.db.hasBlock outcome.executionOutcome.blockHash) :
    Tolerates shards blockTimestamp w ↔
      ∀ outcome ∈ outcomesOf shards, w.db.hasReceipt outcome.executionOutcome.id :=
  ⟨hasReceipt_of_tolerates hschema, tolerates_of_hasReceipt hschema hblock⟩

/-! ### A skipped receipt -/

/-- A block with two receipts that are executed at once. -/
def twoReceipts : List IndexerShard :=
  let known := ReceiptView.plain (.ofText "r1") "bob.near" []
  let unknown := ReceiptView.plain (.ofText "r2") "eve.near" []
  [.plain (.ofText "c7") [] [known, unknown]
    [.plain (.ofText "b7") known [], .plain (.ofText "b7") unknown []]]

/-- The block and its chunk are stored, and the parent transaction of the first receipt is known. -/
def worldWithOneParent : World where
  cache := (SizedCache.withSize 10).cacheSet (.receiptId (.ofText "r1")) "t1"
  db :=
    { blocks := (∅ : Table CryptoHash Block).insert (.ofText "b7")
        ⟨7, .ofText "b7", .ofText "b6", 7, 0, 0, "validator.near"⟩
      chunks := (∅ : Table CryptoHash Chunk).insert (.ofText "c7")
        ⟨.ofText "b7", .ofText "c7", 0, "", 0, 0, "validator.near"⟩
      transactions := (∅ : Table ParentTransactionHashString Transaction).insert "t1"
        (.fromIndexerTransaction (.plain (.ofText "b6") (.ofText "t1") (.ofText "r1") "bob.near") "t1"
          (.ofText "r1") (.ofText "b6") (.ofText "c6") 6 0) }

def storeTwoReceipts : Prog World Unit :=
  Receipts.storeReceipts .silent twoReceipts (.ofText "b7") 7 false

/-- The second receipt is skipped, after the retries of the non-strict mode. -/
def worldAfterSkip : World := storeTwoReceipts.after 6 worldWithOneParent

theorem finishes_storeTwoReceipts : Finishes storeTwoReceipts worldWithOneParent () worldAfterSkip :=
  finishes_after 6 (by decide)

theorem outcomesHaveReceipts_afterSkip : OutcomesHaveReceipts worldAfterSkip.db := by
  have hempty : worldAfterSkip.db.executionOutcomes = ∅ := by rfl
  intro id hid
  rw [hempty] at hid
  exact (AList.notMem_empty id hid).elim

/-- The first receipt alone can be executed. -/
theorem tolerates_first_receipt :
    Tolerates [.plain (.ofText "c8") [] [] [.plain (.ofText "b7") (.plain (.ofText "r1") "bob.near" []) []]]
      8 worldAfterSkip :=
  (tolerates_iff _ 8 worldAfterSkip outcomesHaveReceipts_afterSkip (by decide)).mpr (by decide)

/-- The skipped receipt keeps the outcome of the other one out. -/
theorem skipped_receipt_not_tolerated :
    ¬ ∀ (decoders : Decoders) (shards : List IndexerShard) (blockHash : CryptoHash) (blockTimestamp : Nat)
      (w w' : World), OutcomesHaveReceipts w'.db →
      (∀ outcome ∈ outcomesOf shards, w'.db.hasBlock outcome.executionOutcome.blockHash) →
      Finishes (Receipts.storeReceipts decoders shards blockHash blockTimestamp false) w () w' →
      Tolerates shards blockTimestamp w' := by
  intro hall
  have htolerates := hall _ _ _ _ _ _ outcomesHaveReceipts_afterSkip (by decide) finishes_storeTwoReceipts
  have hreceipts := hasReceipt_of_tolerates outcomesHaveReceipts_afterSkip htolerates
  revert hreceipts
  decide

end ExplorerIndexer.ExecutionOutcomes

import ExplorerIndexer.Database

/-! The execution outcomes adapter. The parent transaction of an executed receipt is taken out of the receipts
cache and put under every receipt that the execution produced. -/

namespace ExplorerIndexer.ExecutionOutcomes

open Async Store Models

/-- The produced receipts take over the parent of the executed one. -/
def passOnParent (outcome : ExecutionOutcomeWithIdView) (cache : ReceiptsCache) : ReceiptsCache :=
  let (parentTransactionHash, cache) := cache.cacheRemove (.receiptId outcome.id)
  match parentTransactionHash with
  | some transactionHash =>
      outcome.outcome.receiptIds.foldl (fun cache receiptId => cache.cacheSet (.receiptId receiptId) transactionHash)
        cache
  | none => cache

def passOnParents (executionOutcomes : List IndexerExecutionOutcomeWithReceipt) (cache : ReceiptsCache) :
    ReceiptsCache :=
  executionOutcomes.foldl (fun cache outcome => passOnParent outcome.executionOutcome cache) cache

def outcomeModels (executionOutcomes : List IndexerExecutionOutcomeWithReceipt) (shardId blockTimestamp : Nat) :
    List ExecutionOutcome :=
  executionOutcomes.zipIdx.map fun (outcome, indexInChunk) =>
    .fromExecutionOutcome outcome.executionOutcome indexInChunk blockTimestamp shardId

theorem mem_outcomeModels {executionOutcomes : List IndexerExecutionOutcomeWithReceipt} {shardId blockTimestamp : Nat}
    {row : ExecutionOutcome} (h : row ∈ outcomeModels executionOutcomes shardId blockTimestamp) :
    ∃ outcome ∈ executionOutcomes, row.receiptId = outcome.executionOutcome.id ∧
      row.executedInBlockHash = outcome.executionOutcome.blockHash := by
  obtain ⟨⟨outcome, index⟩, hmem, rfl⟩ := List.mem_map.mp h
  exact ⟨outcome, (List.mem_zipIdx' hmem).2 ▸ List.getElem_mem _, rfl, rfl⟩

theorem exists_outcomeModel {executionOutcomes : List IndexerExecutionOutcomeWithReceipt}
    {outcome : IndexerExecutionOutcomeWithReceipt} (h : outcome ∈ executionOutcomes) (shardId blockTimestamp : Nat) :
    ∃ row ∈ outcomeModels executionOutcomes shardId blockTimestamp, row.receiptId = outcome.executionOutcome.id := by
  obtain ⟨i, hi, rfl⟩ := List.getElem_of_mem h
  refine ⟨_, List.mem_map.mpr ⟨(executionOutcomes[i], i), ?_, rfl⟩, rfl⟩
  exact List.mk_mem_zipIdx_iff_getElem?.mpr (List.getElem?_eq_getElem hi)

def outcomeReceiptModels (executionOutcomes : List IndexerExecutionOutcomeWithReceipt) :
    List ExecutionOutcomeReceipt :=
  executionOutcomes.flatMap fun outcome =>
    outcome.executionOutcome.outcome.receiptIds.zipIdx.map fun (receiptId, index) =>
      { executedReceiptId := outcome.executionOutcome.id
        indexInExecutionOutcome := index
        producedReceiptId := receiptId }

theorem mem_outcomeReceiptModels {executionOutcomes : List IndexerExecutionOutcomeWithReceipt}
    {row : ExecutionOutcomeReceipt} :
    row ∈ outcomeReceiptModels executionOutcomes ↔ ∃ outcome ∈ executionOutcomes,
      ∃ entry ∈ outcome.executionOutcome.outcome.receiptIds.zipIdx,
        row = ⟨outcome.executionOutcome.id, entry.2, entry.1⟩ := by
  unfold outcomeReceiptModels
  simp only [List.mem_flatMap, List.mem_map, eq_comm]

def insertExecutionOutcomes (batch : List ExecutionOutcome) : Statement World Unit :=
  execute (insertBatch (·.receiptId) (·.executionOutcomes)
    (fun db executionOutcomes => { db with executionOutcomes }) Database.executionOutcomeReferences batch)

def insertExecutionOutcomeReceipts (batch : List ExecutionOutcomeReceipt) : Statement World Unit :=
  execute (insertBatch ExecutionOutcomeReceipt.key (·.executionOutcomeReceipts)
    (fun db executionOutcomeReceipts => { db with executionOutcomeReceipts })
    Database.executionOutcomeReceiptReferences batch)

/-- Saves the execution outcomes and then the receipts they produced. -/
def storeExecutionOutcomesForChunk (executionOutcomes : List IndexerExecutionOutcomeWithReceipt)
    (shardId blockTimestamp : Nat) : Prog World Unit := do
  let _ ← withCache fun cache => ((), passOnParents executionOutcomes cache)
  let _ ← awaitRetryOrPanic
    (insertExecutionOutcomes (outcomeModels executionOutcomes shardId blockTimestamp)) 10
  let _ ← awaitRetryOrPanic (insertExecutionOutcomeReceipts (outcomeReceiptModels executionOutcomes)) 10

def storeExecutionOutcomes (shards : List IndexerShard) (blockTimestamp : Nat) : Prog World Unit :=
  Prog.joinAll (shards.map fun shard =>
    storeExecutionOutcomesForChunk shard.receiptExecutionOutcomes shard.shardId blockTimestamp)

end ExplorerIndexer.ExecutionOutcomes

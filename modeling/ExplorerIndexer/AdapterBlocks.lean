import ExplorerIndexer.Database

/-! The adapters of blocks, chunks and account changes: one insert each. -/

namespace ExplorerIndexer.Blocks

open Async Store Models

def insertBlocks (batch : List Block) : Statement World Unit :=
  execute (insertBatch (·.blockHash) (·.blocks) (fun db blocks => { db with blocks }) (fun _ _ => none) batch)

def insertChunks (batch : List Chunk) : Statement World Unit :=
  execute (insertBatch (·.chunkHash) (·.chunks) (fun db chunks => { db with chunks })
    Database.chunkReferences batch)

def storeBlock (block : BlockView) : Prog World Unit := do
  let _ ← awaitRetryOrPanic (insertBlocks [.ofView block]) 10

def storeChunks (shards : List IndexerShard) (blockHash : CryptoHash) : Prog World Unit :=
  let chunkModels := (chunksOf shards).map fun chunk => Chunk.fromChunkView chunk blockHash
  if chunkModels.isEmpty then .ret ()
  else do
    let _ ← awaitRetryOrPanic (insertChunks chunkModels) 10

end ExplorerIndexer.Blocks

namespace ExplorerIndexer.AccountChanges

open Async Store Models

/-- Two rows that one of the three unique indexes keeps from being stored both. The indexes differ in the cause
they cover: a transaction, a receipt or neither. -/
def sameChange (a b : AccountChange) : Bool :=
  !(a.causedByTransactionHash.isSome && a.causedByReceiptId.isSome) &&
    decide (a.affectedAccountId = b.affectedAccountId) && decide (a.changedInBlockHash = b.changedInBlockHash) &&
    decide (a.causedByTransactionHash = b.causedByTransactionHash) &&
    decide (a.causedByReceiptId = b.causedByReceiptId) && decide (a.updateReason = b.updateReason) &&
    decide (a.affectedAccountNonstakedBalance = b.affectedAccountNonstakedBalance) &&
    decide (a.affectedAccountStakedBalance = b.affectedAccountStakedBalance) &&
    decide (a.affectedAccountStorageUsage = b.affectedAccountStorageUsage)

/-- The rows of a batch that `ON CONFLICT DO NOTHING` adds. -/
def newChanges : List AccountChange → List AccountChange → List AccountChange
  | [], _ => []
  | row :: batch, rows =>
      if rows.any (sameChange row) then newChanges batch rows else row :: newChanges batch (row :: rows)

def insertAccountChanges (batch : List AccountChange) : Statement World Unit :=
  execute fun db =>
    match (newChanges batch db.accountChanges).findSome? db.accountChangeReferences with
    | some constraintName => .error (.violates constraintName)
    | none => .ok ((), { db with accountChanges := db.accountChanges ++ newChanges batch db.accountChanges })

/-- `as i32` -/
def asI32 (n : Nat) : Int := Int.bmod n 4294967296

theorem asI32_of_lt {n : Nat} (h : n < 2147483648) : asI32 n = n := by
  unfold asI32
  rw [Int.bmod_def]
  omega

/-- The rows of a shard; `none` if a conversion panics. -/
def accountChangesModels (stateChanges : List StateChangeWithCauseView) (blockHash : CryptoHash)
    (blockTimestamp : Nat) : Option (List AccountChange) :=
  stateChanges.zipIdx.foldr
    (fun (stateChange, indexInBlock) rows =>
      match AccountChange.fromStateChangeWithCause stateChange blockHash blockTimestamp (asI32 indexInBlock) with
      | .skip => rows
      | .row change => rows.map (change :: ·)
      | .panic => none)
    (some [])

def storeAccountChangesForShard (stateChanges : List StateChangeWithCauseView) (blockHash : CryptoHash)
    (blockTimestamp : Nat) : Prog World Unit :=
  if stateChanges.isEmpty then .ret ()
  else
    match accountChangesModels stateChanges blockHash blockTimestamp with
    | some batch => do
        let _ ← awaitRetryOrPanic (insertAccountChanges batch) 10
    | none => .panic

def storeAccountChanges (shards : List IndexerShard) (blockHash : CryptoHash) (blockTimestamp : Nat) :
    Prog World Unit :=
  Prog.joinAll (shards.map fun shard => storeAccountChangesForShard shard.stateChanges blockHash blockTimestamp)

end ExplorerIndexer.AccountChanges

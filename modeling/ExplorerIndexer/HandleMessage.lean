import ExplorerIndexer.AdapterAccessKeys
import ExplorerIndexer.AdapterBlocks
import ExplorerIndexer.AdapterEvents
import ExplorerIndexer.AdapterExecutionOutcomes
import ExplorerIndexer.AdapterReceipts
import ExplorerIndexer.AdapterTransactions

/-! The handling of one message of the stream, and the loop that handles the stream. -/

namespace ExplorerIndexer

open Async

def handleMessage (decoders : Decoders) (message : StreamerMessage) (strictMode : Bool) : Prog World Unit := do
  let header := message.block.header
  let _ ← Blocks.storeBlock message.block
  let _ ← Blocks.storeChunks message.shards header.hash
  let _ ← Prog.both
    (Transactions.storeTransactions decoders message.shards header.hash header.timestamp header.height)
    (Receipts.storeReceipts decoders message.shards header.hash header.timestamp strictMode)
  let executionOutcomesFuture := ExecutionOutcomes.storeExecutionOutcomes message.shards header.timestamp
  let accountsFuture := Prog.joinAll (message.shards.map fun shard =>
    Accounts.handleAccounts shard.receiptExecutionOutcomes header.height)
  let assetsEventsFuture := Events.storeEvents decoders message
  if strictMode then
    let accessKeysFuture := Prog.joinAll (message.shards.map fun shard =>
      AccessKeys.handleAccessKeys decoders shard.receiptExecutionOutcomes header.height)
    let accountChangesFuture :=
      AccountChanges.storeAccountChanges message.shards header.hash header.timestamp
    Prog.joinAll
      [executionOutcomesFuture, accountsFuture, accessKeysFuture, assetsEventsFuture, accountChangesFuture]
  else Prog.joinAll [executionOutcomesFuture, accountsFuture, assetsEventsFuture]

end ExplorerIndexer

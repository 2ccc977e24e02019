import ExplorerIndexer.Database
import Mathlib.Data.List.Defs

/-! The adapter of token events. Contracts write them to the logs of their receipts; the events of a shard are
numbered through and stored in batches, without ignoring conflicts: a batch that is there already is recognised
by the constraint it violates. -/

namespace ExplorerIndexer.Events

open Async Store Models

/-- `char::is_whitespace` -/
def isWhitespace (c : Char) : Bool :=
  let n := c.toNat
  (9 ≤ n && n ≤ 13) || (0x2000 ≤ n && n ≤ 0x200a) ||
    [0x20, 0x85, 0xa0, 0x1680, 0x2028, 0x2029, 0x202f, 0x205f, 0x3000].contains n

/-- `str::trim` -/
def trim (s : List Char) : List Char :=
  ((s.dropWhile isWhitespace).reverse.dropWhile isWhitespace).reverse

def eventPrefix : List Char := "EVENT_JSON:".toList

/-- The event in a log; other logs are ignored. -/
def eventOfLog (decoders : Decoders) (untrimmedLog : String) : Option NearEvent :=
  let log := trim untrimmedLog.toList
  if eventPrefix.isPrefixOf log then
    decoders.nearEventFromStr (String.ofList (trim (log.drop eventPrefix.length)))
  else none

def extractEvents (decoders : Decoders) (outcome : IndexerExecutionOutcomeWithReceipt) : List NearEvent :=
  outcome.executionOutcome.outcome.logs.filterMap (eventOfLog decoders)

/-! ### Rows -/

/-- What a row takes from its event, apart from the receipt that emitted it. -/
structure FtEntry where
  amount : String
  eventKind : FtEventKind
  oldOwner : String
  newOwner : String
  memo : Option String

def ftEntries : Nep141EventKind → List FtEntry
  | .ftMint data => data.map fun event => ⟨event.amount, .mint, "", event.ownerId, event.memo⟩
  | .ftTransfer data =>
      data.map fun event => ⟨event.amount, .transfer, event.oldOwnerId, event.newOwnerId, event.memo⟩
  | .ftBurn data => data.map fun event => ⟨event.amount, .burn, event.ownerId, "", event.memo⟩

def composeFtDbEvents (eventsWithOutcomes : List (Nep141EventKind × IndexerExecutionOutcomeWithReceipt))
    (blockTimestamp shardId : Nat) : List FungibleTokenEvent :=
  (eventsWithOutcomes.flatMap fun (event, outcome) => (ftEntries event).map (·, outcome)).zipIdx.map
    fun ((entry, outcome), index) =>
      { emittedForReceiptId := outcome.receipt.receiptId
        emittedAtBlockTimestamp := blockTimestamp
        emittedInShardId := shardId
        emittedIndexOfEventEntryInShard := index
        emittedByContractAccountId := outcome.receipt.receiverId
        amount := entry.amount
        eventKind := entry.eventKind
        tokenOldOwnerAccountId := escapeDefault entry.oldOwner
        tokenNewOwnerAccountId := escapeDefault entry.newOwner
        eventMemo := escapeDefault (entry.memo.getD "") }

structure NftEntry where
  tokenId : String
  eventKind : NftEventKind
  oldOwner : String
  newOwner : String
  authorizedId : Option String
  memo : Option String

def nftEntries : Nep171EventKind → List NftEntry
  | .nftMint data => data.flatMap fun event =>
      event.tokenIds.map fun tokenId => ⟨tokenId, .mint, "", event.ownerId, none, event.memo⟩
  | .nftTransfer data => data.flatMap fun event =>
      event.tokenIds.map fun tokenId =>
        ⟨tokenId, .transfer, event.oldOwnerId, event.newOwnerId, event.authorizedId, event.memo⟩
  | .nftBurn data => data.flatMap fun event =>
      event.tokenIds.map fun tokenId => ⟨tokenId, .burn, event.ownerId, "", event.authorizedId, event.memo⟩

def composeNftDbEvents (eventsWithOutcomes : List (Nep171EventKind × IndexerExecutionOutcomeWithReceipt))
    (blockTimestamp shardId : Nat) : List NonFungibleTokenEvent :=
  (eventsWithOutcomes.flatMap fun (event, outcome) => (nftEntries event).map (·, outcome)).zipIdx.map
    fun ((entry, outcome), index) =>
      { emittedForReceiptId := outcome.receipt.receiptId
        emittedAtBlockTimestamp := blockTimestamp
        emittedInShardId := shardId
        emittedIndexOfEventEntryInShard := index
        emittedByContractAccountId := outcome.receipt.receiverId
        tokenId := escapeDefault entry.tokenId
        eventKind := entry.eventKind
        tokenOldOwnerAccountId := escapeDefault entry.oldOwner
        tokenNewOwnerAccountId := escapeDefault entry.newOwner
        tokenAuthorizedAccountId := escapeDefault (entry.authorizedId.getD "")
        eventMemo := escapeDefault (entry.memo.getD "") }

/-! ### Statements -/

/-- The first unique constraint that a batch violates. The primary key covers all columns and is checked first. -/
def violatedByEvents {ρ : Type} [DecidableEq ρ] (sameEntry : ρ → ρ → Bool) (table : String) :
    List ρ → List ρ → Option String
  | _, [] => none
  | rows, row :: batch =>
      if row ∈ rows then some (table ++ "_pkey")
      else if rows.any (sameEntry row) then some (table ++ "_unique")
      else violatedByEvents sameEntry table (row :: rows) batch

/-- `INSERT` of a batch of events, without `ON CONFLICT`. -/
def insertEvents {ρ : Type} [DecidableEq ρ] (sameEntry : ρ → ρ → Bool) (receiptId : ρ → CryptoHash)
    (table : String) (rows : Database → List ρ) (store : Database → List ρ → Database) (batch : List ρ) :
    Statement World Unit :=
  execute fun db =>
    match (violatedByEvents sameEntry table (rows db) batch).or
        (batch.findSome? fun row => db.receiptFk (table ++ "_fk") (receiptId row)) with
    | some constraintName => .error (.violates constraintName)
    | none => .ok ((), store db (rows db ++ batch))

def ftTable : String := "assets__fungible_token_events"

def nftTable : String := "assets__non_fungible_token_events"

def insertFtEvents (batch : List FungibleTokenEvent) : Statement World Unit :=
  insertEvents
    (fun a b => a.emittedForReceiptId = b.emittedForReceiptId &&
      a.emittedIndexOfEventEntryInShard = b.emittedIndexOfEventEntryInShard)
    (·.emittedForReceiptId) ftTable (·.fungibleTokenEvents)
    (fun db fungibleTokenEvents => { db with fungibleTokenEvents }) batch

def insertNftEvents (batch : List NonFungibleTokenEvent) : Statement World Unit :=
  insertEvents
    (fun a b => a.emittedForReceiptId = b.emittedForReceiptId &&
      a.emittedIndexOfEventEntryInShard = b.emittedIndexOfEventEntryInShard)
    (·.emittedForReceiptId) nftTable (·.nonFungibleTokenEvents)
    (fun db nonFungibleTokenEvents => { db with nonFungibleTokenEvents }) batch

/-- An error that means the batch was written before. -/
def detectDbError (duplicateConstraintName : String) (error : QueryError) : Bool :=
  error == .violates duplicateConstraintName

/-! ### Futures -/

def chunkSizeForBatchInsert : Nat := 500

def storeFtEvents (eventsWithOutcomes : List (Nep141EventKind × IndexerExecutionOutcomeWithReceipt))
    (blockTimestamp shardId : Nat) : Prog World Unit :=
  .forEach ((composeFtDbEvents eventsWithOutcomes blockTimestamp shardId).toChunks chunkSizeForBatchInsert)
    fun chunk => .query (some 10) (insertFtEvents chunk) (detectDbError (ftTable ++ "_pkey")) fun _ => .ret ()

def storeNftEvents (eventsWithOutcomes : List (Nep171EventKind × IndexerExecutionOutcomeWithReceipt))
    (blockTimestamp shardId : Nat) : Prog World Unit :=
  .forEach ((composeNftDbEvents eventsWithOutcomes blockTimestamp shardId).toChunks chunkSizeForBatchInsert)
    fun chunk => .query (some 10) (insertNftEvents chunk) (detectDbError (nftTable ++ "_pkey")) fun _ => .ret ()

def ftEventOf : NearEvent → Option Nep141EventKind
  | .nep141 eventKind => some eventKind
  | .nep171 _ => none

def nftEventOf : NearEvent → Option Nep171EventKind
  | .nep171 eventKind => some eventKind
  | .nep141 _ => none

def eventsWithOutcomes {ε : Type} (decoders : Decoders) (kind : NearEvent → Option ε) (shard : IndexerShard) :
    List (ε × IndexerExecutionOutcomeWithReceipt) :=
  shard.receiptExecutionOutcomes.flatMap fun outcome =>
    ((extractEvents decoders outcome).filterMap kind).map (·, outcome)

def collectAndStoreEvents (decoders : Decoders) (shard : IndexerShard) (blockTimestamp : Nat) : Prog World Unit :=
  .both (storeFtEvents (eventsWithOutcomes decoders ftEventOf shard) blockTimestamp shard.shardId)
    (storeNftEvents (eventsWithOutcomes decoders nftEventOf shard) blockTimestamp shard.shardId)

def storeEvents (decoders : Decoders) (message : StreamerMessage) : Prog World Unit :=
  Prog.joinAll (message.shards.map fun shard =>
    collectAndStoreEvents decoders shard message.block.header.timestamp)

end ExplorerIndexer.Events

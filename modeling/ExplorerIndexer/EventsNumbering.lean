import ExplorerIndexer.AdapterBlocks
import ExplorerIndexer.EventsStored

/-! The numbering of token events. The loops over outcomes, logs, entries and tokens push rows that are numbered by
the length of the vector they are pushed to, for each of the two standards on its own. -/

namespace ExplorerIndexer.Events

open AccountChanges Models Nested

/-! ### The loops of the source -/

namespace Loops

def collectEvent (outcome : IndexerExecutionOutcomeWithReceipt)
    (collected : List (Nep141EventKind × IndexerExecutionOutcomeWithReceipt) ×
      List (Nep171EventKind × IndexerExecutionOutcomeWithReceipt)) (event : NearEvent) :
    List (Nep141EventKind × IndexerExecutionOutcomeWithReceipt) ×
      List (Nep171EventKind × IndexerExecutionOutcomeWithReceipt) :=
  match event with
  | .nep141 ftEvent => (collected.1 ++ [(ftEvent, outcome)], collected.2)
  | .nep171 nftEvent => (collected.1, collected.2 ++ [(nftEvent, outcome)])

/-- The two vectors that `collect_and_store_events` fills. -/
def collectEvents (decoders : Decoders) (shard : IndexerShard) :
    List (Nep141EventKind × IndexerExecutionOutcomeWithReceipt) ×
      List (Nep171EventKind × IndexerExecutionOutcomeWithReceipt) :=
  shard.receiptExecutionOutcomes.foldl
    (fun collected outcome => (extractEvents decoders outcome).foldl (collectEvent outcome) collected) ([], [])

def composeFtDbEvents (eventsWithOutcomes : List (Nep141EventKind × IndexerExecutionOutcomeWithReceipt))
    (blockTimestamp shardId : Nat) : List FungibleTokenEvent :=
  eventsWithOutcomes.foldl
    (fun ftEvents (event, outcome) =>
      match event with
      | .ftMint mintEvents => mintEvents.foldl (fun ftEvents mintEvent => ftEvents ++ [
          { emittedForReceiptId := outcome.receipt.receiptId
            emittedAtBlockTimestamp := blockTimestamp
            emittedInShardId := shardId
            emittedIndexOfEventEntryInShard := ftEvents.length
            emittedByContractAccountId := outcome.receipt.receiverId
            amount := mintEvent.amount
            eventKind := .mint
            tokenOldOwnerAccountId := ""
            tokenNewOwnerAccountId := escapeDefault mintEvent.ownerId
            eventMemo := escapeDefault (mintEvent.memo.getD "") }]) ftEvents
      | .ftTransfer transferEvents => transferEvents.foldl (fun ftEvents transferEvent => ftEvents ++ [
          { emittedForReceiptId := outcome.receipt.receiptId
            emittedAtBlockTimestamp := blockTimestamp
            emittedInShardId := shardId
            emittedIndexOfEventEntryInShard := ftEvents.length
            emittedByContractAccountId := outcome.receipt.receiverId
            amount := transferEvent.amount
            eventKind := .transfer
            tokenOldOwnerAccountId := escapeDefault transferEvent.oldOwnerId
            tokenNewOwnerAccountId := escapeDefault transferEvent.newOwnerId
            eventMemo := escapeDefault (transferEvent.memo.getD "") }]) ftEvents
      | .ftBurn burnEvents => burnEvents.foldl (fun ftEvents burnEvent => ftEvents ++ [
          { emittedForReceiptId := outcome.receipt.receiptId
            emittedAtBlockTimestamp := blockTimestamp
            emittedInShardId := shardId
            emittedIndexOfEventEntryInShard := ftEvents.length
            emittedByContractAccountId := outcome.receipt.receiverId
            amount := burnEvent.amount
            eventKind := .burn
            tokenOldOwnerAccountId := escapeDefault burnEvent.ownerId
            tokenNewOwnerAccountId := ""
            eventMemo := escapeDefault (burnEvent.memo.getD "") }]) ftEvents)
    []

def composeNftDbEvents (eventsWithOutcomes : List (Nep171EventKind × IndexerExecutionOutcomeWithReceipt))
    (blockTimestamp shardId : Nat) : List NonFungibleTokenEvent :=
  eventsWithOutcomes.foldl
    (fun nftEvents (event, outcome) =>
      match event with
      | .nftMint mintEvents => mintEvents.foldl (fun nftEvents mintEvent =>
          mintEvent.tokenIds.foldl (fun nftEvents tokenId => nftEvents ++ [
            { emittedForReceiptId := outcome.receipt.receiptId
              emittedAtBlockTimestamp := blockTimestamp
              emittedInShardId := shardId
              emittedIndexOfEventEntryInShard := nftEvents.length
              emittedByContractAccountId := outcome.receipt.receiverId
              tokenId := escapeDefault tokenId
              eventKind := .mint
              tokenOldOwnerAccountId := ""
              tokenNewOwnerAccountId := escapeDefault mintEvent.ownerId
              tokenAuthorizedAccountId := ""
              eventMemo := escapeDefault (mintEvent.memo.getD "") }]) nftEvents) nftEvents
      | .nftTransfer transferEvents => transferEvents.foldl (fun nftEvents transferEvent =>
          transferEvent.tokenIds.foldl (fun nftEvents tokenId => nftEvents ++ [
            { emittedForReceiptId := outcome.receipt.receiptId
              emittedAtBlockTimestamp := blockTimestamp
              emittedInShardId := shardId
              emittedIndexOfEventEntryInShard := nftEvents.length
              emittedByContractAccountId := outcome.receipt.receiverId
              tokenId := escapeDefault tokenId
              eventKind := .transfer
              tokenOldOwnerAccountId := escapeDefault transferEvent.oldOwnerId
              tokenNewOwnerAccountId := escapeDefault transferEvent.newOwnerId
              tokenAuthorizedAccountId := escapeDefault (transferEvent.authorizedId.getD "")
              eventMemo := escapeDefault (transferEvent.memo.getD "") }]) nftEvents) nftEvents
      | .nftBurn burnEvents => burnEvents.foldl (fun nftEvents burnEvent =>
          burnEvent.tokenIds.foldl (fun nftEvents tokenId => nftEvents ++ [
            { emittedForReceiptId := outcome.receipt.receiptId
              emittedAtBlockTimestamp := blockTimestamp
              emittedInShardId := shardId
              emittedIndexOfEventEntryInShard := nftEvents.length
              emittedByContractAccountId := outcome.receipt.receiverId
              tokenId := escapeDefault tokenId
              eventKind := .burn
              tokenOldOwnerAccountId := escapeDefault burnEvent.ownerId
              tokenNewOwnerAccountId := ""
              tokenAuthorizedAccountId := escapeDefault (burnEvent.authorizedId.getD "")
              eventMemo := escapeDefault (burnEvent.memo.getD "") }]) nftEvents) nftEvents)
    []

end Loops

/-! ### What the loops compute -/

/-- The entries of an event, each with what makes a row of it: a fungible one makes a single row. -/
def ftGroups (event : Nep141EventKind) : List (List FtEntry) := (ftEntries event).map ([·])

/-- A non-fungible entry makes a row for each of its tokens. -/
def nftGroups : Nep171EventKind → List (List NftEntry)
  | .nftMint data => data.map fun event =>
      event.tokenIds.map fun tokenId => ⟨tokenId, .mint, "", event.ownerId, none, event.memo⟩
  | .nftTransfer data => data.map fun event =>
      event.tokenIds.map fun tokenId =>
        ⟨tokenId, .transfer, event.oldOwnerId, event.newOwnerId, event.authorizedId, event.memo⟩
  | .nftBurn data => data.map fun event =>
      event.tokenIds.map fun tokenId => ⟨tokenId, .burn, event.ownerId, "", event.authorizedId, event.memo⟩

theorem flatten_ftGroups (event : Nep141EventKind) : (ftGroups event).flatten = ftEntries event := by
  rw [ftGroups, ← List.flatMap_def, List.flatMap_singleton']

theorem flatten_nftGroups (event : Nep171EventKind) : (nftGroups event).flatten = nftEntries event := by
  cases event <;> rfl

section Loops

variable {decoders : Decoders} {shard : IndexerShard} {blockTimestamp shardId : Nat}

theorem foldl_collectEvent (outcome : IndexerExecutionOutcomeWithReceipt) (events : List NearEvent)
    (ft : List (Nep141EventKind × IndexerExecutionOutcomeWithReceipt))
    (nft : List (Nep171EventKind × IndexerExecutionOutcomeWithReceipt)) :
    events.foldl (Loops.collectEvent outcome) (ft, nft) =
      (ft ++ (events.filterMap ftEventOf).map (·, outcome), nft ++ (events.filterMap nftEventOf).map (·, outcome)) := by
  induction events generalizing ft nft with
  | nil => simp
  | cons event events ih =>
      rw [List.foldl_cons]
      cases event with
      | nep141 ftEvent =>
          rw [Loops.collectEvent, ih]
          simp [List.filterMap_cons, ftEventOf, nftEventOf]
      | nep171 nftEvent =>
          rw [Loops.collectEvent, ih]
          simp [List.filterMap_cons, ftEventOf, nftEventOf]

/-- The stream of events is split into the events of the two standards, each in order. -/
theorem collectEvents_eq (decoders : Decoders) (shard : IndexerShard) :
    Loops.collectEvents decoders shard =
      (eventsWithOutcomes decoders ftEventOf shard, eventsWithOutcomes decoders nftEventOf shard) := by
  have houtcomes : ∀ (outcomes : List IndexerExecutionOutcomeWithReceipt)
      (ft : List (Nep141EventKind × IndexerExecutionOutcomeWithReceipt))
      (nft : List (Nep171EventKind × IndexerExecutionOutcomeWithReceipt)),
      outcomes.foldl
        (fun collected outcome => (extractEvents decoders outcome).foldl (Loops.collectEvent outcome) collected)
        (ft, nft) =
      (ft ++ outcomes.flatMap fun outcome => ((extractEvents decoders outcome).filterMap ftEventOf).map (·, outcome),
        nft ++ outcomes.flatMap fun outcome =>
          ((extractEvents decoders outcome).filterMap nftEventOf).map (·, outcome)) := by
    intro outcomes
    induction outcomes with
    | nil => simp
    | cons outcome outcomes ih =>
        intro ft nft
        rw [List.foldl_cons, foldl_collectEvent, ih]
        simp only [List.flatMap_cons, List.append_assoc]
  exact houtcomes shard.receiptExecutionOutcomes [] []

/-- Every branch pushes the rows of its entries. -/
theorem composeFtDbEvents_loops
    (eventsWithOutcomes : List (Nep141EventKind × IndexerExecutionOutcomeWithReceipt)) :
    Loops.composeFtDbEvents eventsWithOutcomes blockTimestamp shardId =
      Events.composeFtDbEvents eventsWithOutcomes blockTimestamp shardId := by
  refine foldl_numbered (ftRow blockTimestamp shardId) ?_ eventsWithOutcomes []
  rintro items ⟨event, outcome⟩
  cases event with
  | ftMint mintEvents =>
      simp only [ftEntries, List.map_map]
      exact foldl_push (ftRow blockTimestamp shardId) _ (by exact fun _ _ => rfl) mintEvents items
  | ftTransfer transferEvents =>
      simp only [ftEntries, List.map_map]
      exact foldl_push (ftRow blockTimestamp shardId) _ (by exact fun _ _ => rfl) transferEvents items
  | ftBurn burnEvents =>
      simp only [ftEntries, List.map_map]
      exact foldl_push (ftRow blockTimestamp shardId) _ (by exact fun _ _ => rfl) burnEvents items

theorem composeNftDbEvents_loops
    (eventsWithOutcomes : List (Nep171EventKind × IndexerExecutionOutcomeWithReceipt)) :
    Loops.composeNftDbEvents eventsWithOutcomes blockTimestamp shardId =
      Events.composeNftDbEvents eventsWithOutcomes blockTimestamp shardId := by
  refine foldl_numbered (nftRow blockTimestamp shardId) ?_ eventsWithOutcomes []
  rintro items ⟨event, outcome⟩
  -- the loop over the tokens of an entry, inside the loop over the entries
  cases event with
  | nftMint mintEvents =>
      simp only [nftEntries, List.map_flatMap, List.map_map]
      refine foldl_numbered (nftRow blockTimestamp shardId) (fun items mintEvent => ?_) mintEvents items
      exact foldl_push (nftRow blockTimestamp shardId) _ (by exact fun _ _ => rfl) mintEvent.tokenIds items
  | nftTransfer transferEvents =>
      simp only [nftEntries, List.map_flatMap, List.map_map]
      refine foldl_numbered (nftRow blockTimestamp shardId) (fun items transferEvent => ?_) transferEvents items
      exact foldl_push (nftRow blockTimestamp shardId) _ (by exact fun _ _ => rfl) transferEvent.tokenIds items
  | nftBurn burnEvents =>
      simp only [nftEntries, List.map_flatMap, List.map_map]
      refine foldl_numbered (nftRow blockTimestamp shardId) (fun items burnEvent => ?_) burnEvents items
      exact foldl_push (nftRow blockTimestamp shardId) _ (by exact fun _ _ => rfl) burnEvent.tokenIds items

end Loops

/-! ### Positions -/

/-- The outcome in its shard, the log in its outcome, the entry in its event and the token in its entry, compared in
this order. -/
abbrev Position := ((Nat ×ₗ Nat) ×ₗ Nat) ×ₗ Nat

def position (outcomeIndex logIndex entryIndex tokenIndex : Nat) : Position :=
  toLex (toLex (toLex (outcomeIndex, logIndex), entryIndex), tokenIndex)

section Emissions

variable {ε α ρ : Type} {decoders : Decoders} {kind : NearEvent → Option ε} {groupsOf : ε → List (List α)}
  {shard : IndexerShard}

/-- The entry is what an outcome of the shard has emitted at a position. -/
def Emits (decoders : Decoders) (kind : NearEvent → Option ε) (groupsOf : ε → List (List α)) (shard : IndexerShard)
    (outcomeIndex logIndex entryIndex tokenIndex : Nat) (entry : α × IndexerExecutionOutcomeWithReceipt) : Prop :=
  shard.receiptExecutionOutcomes[outcomeIndex]? = some entry.2 ∧
    ∃ log, entry.2.executionOutcome.outcome.logs[logIndex]? = some log ∧
      ∃ event, (eventOfLog decoders log).bind kind = some event ∧
        ∃ group, (groupsOf event)[entryIndex]? = some group ∧ group[tokenIndex]? = some entry.1

/-- Everything that a shard emits for one of the standards. -/
def emissions (decoders : Decoders) (kind : NearEvent → Option ε) (groupsOf : ε → List (List α))
    (shard : IndexerShard) : List (Position × (α × IndexerExecutionOutcomeWithReceipt)) :=
  inner (fun (group, outcome) => group.map (·, outcome))
    (inner (fun (event, outcome) => (groupsOf event).map (·, outcome))
      (kept (fun (log, outcome) => ((eventOfLog decoders log).bind kind).map (·, outcome))
        (inner (fun outcome => outcome.executionOutcome.outcome.logs.map (·, outcome))
          (outer shard.receiptExecutionOutcomes))))

theorem inOrder_emissions (decoders : Decoders) (kind : NearEvent → Option ε) (groupsOf : ε → List (List α))
    (shard : IndexerShard) : InOrder (emissions decoders kind groupsOf shard) :=
  inOrder_inner _ (inOrder_inner _ (inOrder_kept _ (inOrder_inner _ (inOrder_outer _))))

theorem mem_emissions {outcomeIndex logIndex entryIndex tokenIndex : Nat}
    {entry : α × IndexerExecutionOutcomeWithReceipt} :
    (position outcomeIndex logIndex entryIndex tokenIndex, entry) ∈ emissions decoders kind groupsOf shard ↔
      Emits decoders kind groupsOf shard outcomeIndex logIndex entryIndex tokenIndex entry := by
  obtain ⟨entry, outcome⟩ := entry
  simp only [emissions, position, mem_inner, mem_kept, mem_outer, Emits, Prod.exists, List.getElem?_map,
    Option.map_eq_some_iff, Prod.mk.injEq]
  constructor
  · rintro ⟨_, _, ⟨_, _, ⟨_, _, ⟨_, houtcome, log, hlog, rfl, rfl⟩, event, hevent, rfl, rfl⟩, group, hgroup, rfl, rfl⟩,
      _, hentry, rfl, rfl⟩
    exact ⟨houtcome, log, hlog, event, hevent, group, hgroup, hentry⟩
  · rintro ⟨houtcome, log, hlog, event, hevent, group, hgroup, hentry⟩
    exact ⟨group, outcome, ⟨event, outcome, ⟨log, outcome, ⟨outcome, houtcome, log, hlog, rfl, rfl⟩, event, hevent, rfl,
      rfl⟩, group, hgroup, rfl, rfl⟩, entry, hentry, rfl, rfl⟩

/-- The entries in the order in which the loops visit them. -/
theorem map_snd_emissions (decoders : Decoders) (kind : NearEvent → Option ε) (groupsOf : ε → List (List α))
    (shard : IndexerShard) :
    (emissions decoders kind groupsOf shard).map Prod.snd =
      (eventsWithOutcomes decoders kind shard).flatMap fun (event, outcome) =>
        (groupsOf event).flatten.map (·, outcome) := by
  have hevents : ∀ outcome : IndexerExecutionOutcomeWithReceipt,
      (outcome.executionOutcome.outcome.logs.map (·, outcome)).filterMap
        (fun (log, outcome) => ((eventOfLog decoders log).bind kind).map (·, outcome)) =
      ((extractEvents decoders outcome).filterMap kind).map (·, outcome) := by
    intro outcome
    rw [extractEvents, List.filterMap_filterMap, List.filterMap_map, List.map_filterMap]
    rfl
  simp only [emissions, map_snd_inner, map_snd_kept, map_snd_outer]
  rw [List.filterMap_flatMap, List.flatMap_assoc]
  simp only [hevents]
  rw [eventsWithOutcomes]
  refine List.flatMap_congr fun entry _ => ?_
  rw [List.flatMap_map, List.map_flatten, List.flatMap_def]

/-- The entries of an event are those of its groups, one after the other. -/
theorem EventTable.compose_eq_numbered (table : EventTable ε α ρ)
    (hgroups : ∀ event, (groupsOf event).flatten = table.entriesOf event) {blockTimestamp shardId : Nat} :
    table.compose (eventsWithOutcomes decoders table.eventOf shard) blockTimestamp shardId =
      numbered (table.row blockTimestamp shardId)
        ((emissions decoders table.eventOf groupsOf shard).map Prod.snd) := by
  rw [EventTable.compose, map_snd_emissions]
  simp only [hgroups]

end Emissions

/-! ### Numbers -/

/-- The columns that the tables of the two standards share. -/
structure EventColumns (ρ : Type) where
  receiptId : ρ → CryptoHash
  contract : ρ → AccountId
  index : ρ → Int

/-- The length of the vector is cast to the 32 bits of the column. -/
def ftColumns : EventColumns FungibleTokenEvent where
  receiptId := (·.emittedForReceiptId)
  contract := (·.emittedByContractAccountId)
  index row := asI32 row.emittedIndexOfEventEntryInShard

def nftColumns : EventColumns NonFungibleTokenEvent where
  receiptId := (·.emittedForReceiptId)
  contract := (·.emittedByContractAccountId)
  index row := asI32 row.emittedIndexOfEventEntryInShard

/-- One row for each thing emitted, in order, with the receipt and the contract of its outcome; their numbers run from
zero without a gap, and tell which row was emitted first. -/
structure NumberedInOrder {α ρ : Type} (columns : EventColumns ρ)
    (row : α × IndexerExecutionOutcomeWithReceipt → Nat → ρ)
    (emitted : List (Position × (α × IndexerExecutionOutcomeWithReceipt))) (rows : List ρ) : Prop where
  inOrder : InOrder emitted
  each : rows = numbered row (emitted.map Prod.snd)
  running : rows.map columns.index = (List.range rows.length).map Nat.cast
  receipts : rows.map columns.receiptId = emitted.map fun entry => entry.2.2.receipt.receiptId
  contracts : rows.map columns.contract = emitted.map fun entry => entry.2.2.receipt.receiverId
  distinct : (rows.map fun row => (columns.receiptId row, columns.index row)).Nodup
  refines : ∀ a ∈ rows.zip emitted, ∀ b ∈ rows.zip emitted,
    columns.index a.1 < columns.index b.1 ↔ a.2.1 < b.2.1

section Numbers

variable {α ρ : Type} {columns : EventColumns ρ} {row : α × IndexerExecutionOutcomeWithReceipt → Nat → ρ}
  {emitted : List (Position × (α × IndexerExecutionOutcomeWithReceipt))}

theorem numberedInOrder_of_fit
    (hreceipt : ∀ entry index, columns.receiptId (row entry index) = entry.2.receipt.receiptId)
    (hcontract : ∀ entry index, columns.contract (row entry index) = entry.2.receipt.receiverId)
    (hindex : ∀ entry index, columns.index (row entry index) = asI32 index) (horder : InOrder emitted)
    (hfit : (numbered row (emitted.map Prod.snd)).length < 2147483648) :
    NumberedInOrder columns row emitted (numbered row (emitted.map Prod.snd)) := by
  have hrunning : (numbered row (emitted.map Prod.snd)).map columns.index =
      (List.range (numbered row (emitted.map Prod.snd)).length).map Nat.cast := by
    rw [map_numbered_index hindex, length_numbered]
    rw [length_numbered] at hfit
    refine List.map_congr_left fun index hindex => asI32_of_lt ?_
    exact (List.mem_range.mp hindex).trans hfit
  have hnumber : ∀ {index : Nat} {r : ρ}, (numbered row (emitted.map Prod.snd))[index]? = some r →
      columns.index r = index := by
    intro index r hr
    obtain ⟨hlt, _⟩ := List.getElem?_eq_some_iff.mp hr
    have hcolumn := congrArg (fun column => column[index]?) hrunning
    rw [List.getElem?_map, List.getElem?_map, hr, List.getElem?_range hlt] at hcolumn
    exact Option.some.inj hcolumn
  refine ⟨horder, rfl, hrunning, ?_, ?_, ?_, ?_⟩
  · rw [map_numbered_item hreceipt, List.map_map]
    rfl
  · rw [map_numbered_item hcontract, List.map_map]
    rfl
  · refine List.Nodup.of_map Prod.snd ?_
    rw [List.map_map]
    show ((numbered row (emitted.map Prod.snd)).map columns.index).Nodup
    rw [hrunning]
    exact List.nodup_range.map fun _ _ heq => Int.ofNat.inj heq
  · intro a ha b hb
    obtain ⟨n, hn⟩ := List.mem_iff_getElem?.mp ha
    obtain ⟨m, hm⟩ := List.mem_iff_getElem?.mp hb
    obtain ⟨hrow, hentry⟩ := List.getElem?_zip_eq_some.mp hn
    obtain ⟨hrow', hentry'⟩ := List.getElem?_zip_eq_some.mp hm
    rw [hnumber hrow, hnumber hrow', Int.ofNat_lt]
    exact horder.lt_iff hentry hentry'

end Numbers

/-- The rows of a shard, as the source composes them. -/
def Loops.ftRows (decoders : Decoders) (shard : IndexerShard) (blockTimestamp : Nat) : List FungibleTokenEvent :=
  Loops.composeFtDbEvents (Loops.collectEvents decoders shard).1 blockTimestamp shard.shardId

def Loops.nftRows (decoders : Decoders) (shard : IndexerShard) (blockTimestamp : Nat) : List NonFungibleTokenEvent :=
  Loops.composeNftDbEvents (Loops.collectEvents decoders shard).2 blockTimestamp shard.shardId

section Shards

variable {decoders : Decoders} {shard : IndexerShard} {blockTimestamp : Nat}

/-- These are the rows that are stored. -/
theorem ftRows_loops : Loops.ftRows decoders shard blockTimestamp =
    composeFtDbEvents (eventsWithOutcomes decoders ftEventOf shard) blockTimestamp shard.shardId := by
  rw [Loops.ftRows, collectEvents_eq, composeFtDbEvents_loops]

theorem nftRows_loops : Loops.nftRows decoders shard blockTimestamp =
    composeNftDbEvents (eventsWithOutcomes decoders nftEventOf shard) blockTimestamp shard.shardId := by
  rw [Loops.nftRows, collectEvents_eq, composeNftDbEvents_loops]

theorem ftRows_eq_numbered : Loops.ftRows decoders shard blockTimestamp =
    numbered (ftRow blockTimestamp shard.shardId) ((emissions decoders ftEventOf ftGroups shard).map Prod.snd) :=
  ftRows_loops.trans (ftEventTable.compose_eq_numbered flatten_ftGroups)

theorem nftRows_eq_numbered : Loops.nftRows decoders shard blockTimestamp =
    numbered (nftRow blockTimestamp shard.shardId) ((emissions decoders nftEventOf nftGroups shard).map Prod.snd) :=
  nftRows_loops.trans (nftEventTable.compose_eq_numbered flatten_nftGroups)

/-- The rows of a shard are, for each of the two standards, exactly its entries in order, numbered through. -/
theorem events_numbered (hft : (Loops.ftRows decoders shard blockTimestamp).length < 2147483648)
    (hnft : (Loops.nftRows decoders shard blockTimestamp).length < 2147483648) :
    (∃ emitted, (∀ outcomeIndex logIndex entryIndex tokenIndex entry,
        (position outcomeIndex logIndex entryIndex tokenIndex, entry) ∈ emitted ↔
          Emits decoders ftEventOf ftGroups shard outcomeIndex logIndex entryIndex tokenIndex entry) ∧
      NumberedInOrder ftColumns (ftRow blockTimestamp shard.shardId) emitted
        (Loops.ftRows decoders shard blockTimestamp)) ∧
    ∃ emitted, (∀ outcomeIndex logIndex entryIndex tokenIndex entry,
        (position outcomeIndex logIndex entryIndex tokenIndex, entry) ∈ emitted ↔
          Emits decoders nftEventOf nftGroups shard outcomeIndex logIndex entryIndex tokenIndex entry) ∧
      NumberedInOrder nftColumns (nftRow blockTimestamp shard.shardId) emitted
        (Loops.nftRows decoders shard blockTimestamp) := by
  refine ⟨⟨emissions decoders ftEventOf ftGroups shard, fun _ _ _ _ _ => mem_emissions, ?_⟩,
    ⟨emissions decoders nftEventOf nftGroups shard, fun _ _ _ _ _ => mem_emissions, ?_⟩⟩
  · rw [ftRows_eq_numbered] at hft ⊢
    refine numberedInOrder_of_fit ?_ ?_ ?_ (inOrder_emissions _ _ _ _) hft <;>
      simp only [ftColumns, ftRow, implies_true]
  · rw [nftRows_eq_numbered] at hnft ⊢
    refine numberedInOrder_of_fit ?_ ?_ ?_ (inOrder_emissions _ _ _ _) hnft <;>
      simp only [nftColumns, nftRow, implies_true]

end Shards

/-- Logs of one letter name an event of either standard. -/
def twoStandards : Decoders :=
  { Decoders.silent with nearEventFromStr }
where
  nearEventFromStr (text : String) : Option NearEvent :=
    if text = "f" then some (.nep141 (.ftMint [⟨"bob.near", "1", none⟩]))
    else some (.nep171 (.nftBurn [⟨none, "bob.near", ["t1", "t2"], none⟩]))

def outcomeOfLogs (receiptId : String) (logs : List String) : IndexerExecutionOutcomeWithReceipt :=
  let outcome : IndexerExecutionOutcomeWithReceipt :=
    .plain (.ofText "b7") (.plain (.ofText receiptId) "token.near" []) []
  { outcome with executionOutcome := { outcome.executionOutcome with
      outcome := { outcome.executionOutcome.outcome with logs } } }

def mixedShard : IndexerShard :=
  .plain (.ofText "c7") [] [] [outcomeOfLogs "r1" ["EVENT_JSON:f", "EVENT_JSON:n"],
    outcomeOfLogs "r2" ["transferred", "EVENT_JSON:n", "EVENT_JSON:f"]]

theorem events_numbered_mixed :
    (Loops.ftRows twoStandards mixedShard 7).length = 2 ∧ (Loops.nftRows twoStandards mixedShard 7).length = 4 ∧
      (∃ emitted, NumberedInOrder ftColumns (ftRow 7 mixedShard.shardId) emitted
        (Loops.ftRows twoStandards mixedShard 7)) ∧
      ∃ emitted, NumberedInOrder nftColumns (nftRow 7 mixedShard.shardId) emitted
        (Loops.nftRows twoStandards mixedShard 7) := by
  have hft : (Loops.ftRows twoStandards mixedShard 7).length = 2 := by decide
  have hnft : (Loops.nftRows twoStandards mixedShard 7).length = 4 := by decide
  obtain ⟨⟨_, _, hfirst⟩, _, _, hsecond⟩ := events_numbered (hft.trans_lt (by decide)) (hnft.trans_lt (by decide))
  exact ⟨hft, hnft, ⟨_, hfirst⟩, _, hsecond⟩

end ExplorerIndexer.Events

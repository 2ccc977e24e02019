import ExplorerIndexer.ChainClosed
import ExplorerIndexer.ChainRestarts
import ExplorerIndexer.HandleMessageState
import ExplorerIndexer.NullCharacters

/-! What the database insists on and the statements leave out: the foreign keys of accounts and access keys, and texts
without null characters. On a closed chain no statement would be refused for the former, as in the strict mode a receipt
is stored before the rows that name it are written; and for the latter only if the chain itself has such texts. -/

namespace ExplorerIndexer

open Async Store Models
open BlockOrder (accountAction accountLifespan keyAction keyLifespan)

/-- The foreign keys of accounts and access keys hold. -/
structure StateReferencesHold (db : Database) : Prop where
  accounts : ∀ row ∈ db.accounts.rows, db.accountReferences row = none
  accessKeys : ∀ row ∈ db.accessKeys.rows, db.accessKeyReferences row = none

/-! ### The receipts of actions -/

section Actions

variable {known : CryptoHash → Prop} {steps : List (ReceiptView × ActionView)}
  (hknown : ∀ step ∈ steps, known step.1.receiptId)

include hknown

end Actions

/-! ### The foreign keys as facts on rows -/

/-- The receipts that the message executes are stored. -/
def ExecutedStored (message : StreamerMessage) (w : World) : Prop :=
  ∀ outcome ∈ message.outcomes, w.db.hasReceipt outcome.receipt.receiptId = true

/-- The messages that come first are stored, next to whatever else of the chain. -/
structure FirstStored (decoders : Decoders) (chain first : List StreamerMessage) (w : World) : Prop where
  recorded : Recorded decoders chain w.db
  messages : ∀ message ∈ first, MessageStored decoders true message w.db

section Message

variable {decoders : Decoders} {chain : List StreamerMessage} {message : StreamerMessage} {shard : IndexerShard}
  {w w' : World}

theorem ExecutedStored.steps (h : ExecutedStored message w) (hshard : shard ∈ message.shards) :
    ∀ step ∈ Accounts.successfulActions shard.receiptExecutionOutcomes, w.db.hasReceipt step.1.receiptId = true := by
  intro step hstep
  obtain ⟨receipt, hreceipt, haction⟩ := List.mem_flatMap.mp hstep
  obtain ⟨outcome, houtcome, rfl⟩ := List.mem_map.mp hreceipt
  obtain ⟨_, _, rfl⟩ := List.mem_map.mp haction
  exact h outcome (List.mem_flatMap.mpr ⟨shard, hshard, (List.mem_filter.mp houtcome).1⟩)

theorem FirstStored.add {first : List StreamerMessage} (h : FirstStored decoders chain first w)
    (hmessage : MessageStored decoders true message w.db) : FirstStored decoders chain (first ++ [message]) w :=
  ⟨h.recorded, List.forall_mem_append.mpr ⟨h.messages, List.forall_mem_singleton.mpr hmessage⟩⟩

variable {records : List StateRecord} {past rest : List StreamerMessage}

end Message

/-! ### The life of an indexer -/

section Lives

variable {decoders : Decoders} {chain : List StreamerMessage} {genesisHeight : Nat} {records : List StateRecord}
  {sessions : List Session} {db : Database}

/-- The rows of the genesis name no receipts. -/
theorem StateReferencesHold.imported {batches : List Genesis.Batch} (h : StateReferencesHold db)
    (hbatches : batches <+: Genesis.batchesOf genesisHeight records) :
    StateReferencesHold (Genesis.importInto (Genesis.accountsOf batches) (Genesis.accessKeysOf batches) db) := by
  constructor
  · intro row hrow
    obtain ⟨accountId, hlookup⟩ := Table.mem_rows_iff_lookup.mp hrow
    rcases Table.mem_of_lookup_insertAllNew hlookup with hold | ⟨_, hnew, _⟩
    · exact h.accounts row (Table.mem_rows_iff_lookup.mpr ⟨accountId, hold⟩)
    · obtain ⟨record, _, hrecord⟩ := List.mem_filterMap.mp ((Genesis.accountsOf_beginning hbatches).subset hnew)
      cases record <;> cases hrecord
      rfl
  · intro row hrow
    obtain ⟨key, hlookup⟩ := Table.mem_rows_iff_lookup.mp hrow
    rcases Table.mem_of_lookup_insertAllNew hlookup with hold | ⟨_, hnew, _⟩
    · exact h.accessKeys row (Table.mem_rows_iff_lookup.mpr ⟨key, hold⟩)
    · obtain ⟨record, _, hrecord⟩ := List.mem_filterMap.mp ((Genesis.accessKeysOf_beginning hbatches).subset hnew)
      cases record <;> cases hrecord
      rfl

/-- The messages that a run leaves out are stored. -/
theorem Life.leftOut_handled {homeDir : String} {args : RunArgs} {start : Nat}
    (h : Life decoders chain genesisHeight records sessions db)
    (hheights : chain.Pairwise fun a b => a.block.header.height < b.block.header.height)
    (hstart : StartedAt chain db homeDir args start) : ∀ message ∈ leftOut chain start,
      HandledIn sessions true message := by
  intro message hmessage
  obtain ⟨hmem, hlt⟩ := List.mem_filter.mp hmessage
  by_contra hunhandled
  exact Nat.not_le_of_lt (of_decide_eq_true hlt) ((h.handledBelow hheights).start_le hstart hmem hunhandled)

/-- The rows of a message have no null characters in the texts that come from outside: the arguments of its actions and
the events in its logs. The other texts are hashes, public keys, account ids and names of kinds. -/
structure StreamerMessage.Storable (decoders : Decoders) (message : StreamerMessage) : Prop where
  transactionActions : ∀ row ∈ message.rows decoders (fun _ => "") .transactionActions, row.args.NullFree
  receiptActions : ∀ row ∈ message.rows decoders (fun _ => "") .actionReceiptActions, row.args.NullFree
  ftEvents : ∀ row ∈ message.ftEventRows decoders, ∀ text ∈ Events.textsOfFtRow row, NullFree text
  nftEvents : ∀ row ∈ message.nftEventRows decoders, ∀ text ∈ Events.textsOfNftRow row, NullFree text

/-- No text that is stored has null characters. -/
structure TextsHold (db : Database) : Prop where
  transactionActions : ∀ row ∈ db.transactionActions.rows, row.args.NullFree
  receiptActions : ∀ row ∈ db.actionReceiptActions.rows, row.args.NullFree
  ftEvents : ∀ row ∈ db.fungibleTokenEvents, ∀ text ∈ Events.textsOfFtRow row, NullFree text
  nftEvents : ∀ row ∈ db.nonFungibleTokenEvents, ∀ text ∈ Events.textsOfNftRow row, NullFree text

theorem StemsFrom.texts (h : StemsFrom decoders chain db) (hstorable : ∀ message ∈ chain, message.Storable decoders) :
    TextsHold db where
  transactionActions row hrow := by
    obtain ⟨key, hlookup⟩ := Table.mem_rows_iff_lookup.mp hrow
    obtain ⟨-, message, hmessage, hsource⟩ := h.tables .transactionActions key row hlookup
    cases hsource with
    | plain _ hrow => exact (hstorable message hmessage).transactionActions row hrow
  receiptActions row hrow := by
    obtain ⟨key, hlookup⟩ := Table.mem_rows_iff_lookup.mp hrow
    obtain ⟨-, message, hmessage, hsource⟩ := h.tables .actionReceiptActions key row hlookup
    cases hsource with
    | plain _ hrow => exact (hstorable message hmessage).receiptActions row hrow
  ftEvents row hrow := by
    obtain ⟨message, hmessage, hrow⟩ := h.fungibleTokenEvents row hrow
    exact (hstorable message hmessage).ftEvents row hrow
  nftEvents row hrow := by
    obtain ⟨message, hmessage, hrow⟩ := h.nonFungibleTokenEvents row hrow
    exact (hstorable message hmessage).nftEvents row hrow

end Lives

end ExplorerIndexer

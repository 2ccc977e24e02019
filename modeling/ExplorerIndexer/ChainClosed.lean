import ExplorerIndexer.AdaptersTotal
import ExplorerIndexer.BlockOrder
import ExplorerIndexer.ChainHistories

/-! Chains that are told from their beginning. Their messages refer to nothing but what the genesis, the messages before
them and they themselves have brought, so that there is a message to wait for whenever a row has to wait. -/

namespace ExplorerIndexer

open Async Store Models

/-- A successful action of the message creates the account. -/
def StreamerMessage.Creates (message : StreamerMessage) (accountId : AccountId) : Prop :=
  ∃ shard ∈ message.shards, ∃ step ∈ Accounts.successfulActions shard.receiptExecutionOutcomes,
    BlockOrder.createsAccount accountId step = true

/-- Some message has an Action receipt with the id. -/
def Included (messages : List StreamerMessage) (receiptId : CryptoHash) : Prop :=
  ∃ message ∈ messages, ∃ receipt ∈ message.receipts, receipt.isAction = true ∧ receipt.receiptId = receiptId

/-- Some message has a transaction with the hash. -/
def Submitted (messages : List StreamerMessage) (hash : CryptoHash) : Prop :=
  ∃ message ∈ messages, ∃ tx ∈ message.transactions, tx.transaction.hash = hash

/-- What a receipt of a message comes from: a transaction, of the same block at the latest, or the execution of a
receipt in an earlier block. -/
inductive HasSource (past : List StreamerMessage) (message : StreamerMessage) (receipt : ReceiptView) : Prop
  | converted {other : StreamerMessage} {tx : IndexerTransactionWithOutcome} (haction : receipt.isAction = true)
      (hother : other ∈ past ++ [message]) (htx : tx ∈ other.transactions)
      (hconverted : tx.convertedIntoReceiptId = receipt.receiptId) : HasSource past message receipt
  | produced {other : StreamerMessage} {outcome : IndexerExecutionOutcomeWithReceipt}
      (haction : receipt.isAction = true) (hother : other ∈ past) (houtcome : outcome ∈ other.outcomes)
      (hproduced : receipt.receiptId ∈ outcome.executionOutcome.outcome.receiptIds) : HasSource past message receipt
  | dataOutput {other : StreamerMessage} {parent : ReceiptView} {receiver : DataReceiverView}
      (hdata : receipt.dataId? = some receiver.dataId) (hother : other ∈ past) (hparent : parent ∈ other.receipts)
      (hreceiver : receiver ∈ parent.outputDataReceivers) : HasSource past message receipt

/-- What the change of an account names is known: the account, and the transaction or receipt that caused it. -/
structure ChangeGrounded (records : List StateRecord) (messages : List StreamerMessage) (accountId : AccountId)
    (cause : StateChangeCauseView) : Prop where
  account : .account accountId ∈ records ∨ ∃ message ∈ messages, message.Creates accountId
  streamed : StateChangeReasonKind.ofCause cause ≠ none
  transaction : ∀ hash, txHashOfCause cause = some hash → Submitted messages hash
  receipt : ∀ receiptId, receiptHashOfCause cause = some receiptId → Included messages receiptId

/-- All that a message refers to is in the genesis, in the messages before it or in itself. -/
structure Grounded (records : List StateRecord) (past : List StreamerMessage) (message : StreamerMessage) : Prop where
  sources : ∀ receipt ∈ message.receipts, HasSource past message receipt
  executed : ∀ outcome ∈ message.outcomes, outcome.executionOutcome.id = outcome.receipt.receiptId ∧
    outcome.executionOutcome.blockHash = message.block.header.hash ∧
      Included (past ++ [message]) outcome.receipt.receiptId
  changes : ∀ shard ∈ message.shards, ∀ stateChange ∈ shard.stateChanges, ∀ change,
    accountOfStateChangeValue stateChange.value = some change →
      ChangeGrounded records (past ++ [message]) change.1 stateChange.cause

def Closed (records : List StateRecord) (chain : List StreamerMessage) : Prop :=
  ∀ past message rest, chain = past ++ message :: rest → Grounded records past message

section Chain

variable {records : List StateRecord} {chain messages past rest : List StreamerMessage} {message : StreamerMessage}
  {root : ReceiptOrDataId → CryptoHash}

theorem Included.mono {messages' : List StreamerMessage} {receiptId : CryptoHash} (h : Included messages receiptId)
    (hsub : ∀ message ∈ messages, message ∈ messages') : Included messages' receiptId :=
  h.imp fun message h => h.imp_left (hsub message)

theorem hasReceipt_of_included {db : Database} (h : ∀ message ∈ messages, ∀ receipt ∈ message.receipts,
      receipt.isAction = true → receipt.receiptId ∈ db.receipts) {receiptId : CryptoHash}
    (hincluded : Included messages receiptId) : db.hasReceipt receiptId = true := by
  obtain ⟨message, hmessage, receipt, hreceipt, haction, rfl⟩ := hincluded
  exact decide_eq_true (h message hmessage receipt hreceipt haction)

/-- The receipts that some of the first messages execute are among those of the first messages. -/
theorem Closed.executed_of_first (hclosed : Closed records chain) (hfirst : messages <+: chain)
    (hmessage : message ∈ messages) {outcome : IndexerExecutionOutcomeWithReceipt}
    (houtcome : outcome ∈ message.outcomes) :
    outcome.executionOutcome.id = outcome.receipt.receiptId ∧ Included messages outcome.receipt.receiptId := by
  obtain ⟨past, rest, rfl⟩ := List.append_of_mem hmessage
  obtain ⟨later, rfl⟩ := hfirst
  obtain ⟨hid, -, hincluded⟩ := (hclosed past message (rest ++ later) (by simp)).executed outcome houtcome
  exact ⟨hid, hincluded.mono fun other hother => by simp only [List.mem_append, List.mem_cons] at hother ⊢; tauto⟩

/-- The primary key of execution outcomes: a receipt is executed once. -/
theorem Closed.executedOnce {decoders : Decoders} (hclosed : Closed records chain)
    (hchain : WellFormed decoders chain) : Events.ExecutedOnce chain := by
  let executed : IndexerShard → List CryptoHash := fun shard =>
    shard.receiptExecutionOutcomes.map (·.executionOutcome.id)
  have hnodup : (chain.flatMap fun message => message.shards.flatMap executed).Nodup := by
    have hshard : ∀ (shard : IndexerShard) (blockTimestamp : Nat), (ExecutionOutcomes.outcomeModels
        shard.receiptExecutionOutcomes shard.shardId blockTimestamp).map (·.receiptId) = executed shard := by
      intro shard blockTimestamp
      rw [ExecutionOutcomes.outcomeModels, List.map_map]
      exact map_zipIdx_of_fst (fun _ _ => rfl) _
    have hkeys := hchain.keys .executionOutcomes
    simp only [chainRows, StreamerMessage.rows, List.map_flatMap] at hkeys
    simpa only [show TableName.key .executionOutcomes = (·.receiptId) from rfl, hshard] using hkeys
  intro message hmessage shard hshard outcome houtcome message' hmessage' shard' hshard' outcome' houtcome' hsame
  have hid : ∀ {message shard outcome}, message ∈ chain → shard ∈ message.shards →
      outcome ∈ shard.receiptExecutionOutcomes → outcome.receipt.receiptId ∈ executed shard := by
    intro message shard outcome hmessage hshard houtcome
    have hmem := List.mem_flatMap.mpr ⟨shard, hshard, houtcome⟩
    rw [← (hclosed.executed_of_first (List.prefix_refl chain) hmessage hmem).1]
    exact List.mem_map_of_mem houtcome
  have hfirst := hid hmessage hshard houtcome
  have hsecond : outcome.receipt.receiptId ∈ executed shard' := hsame ▸ hid hmessage' hshard' houtcome'
  obtain rfl := eq_of_nodup_flatMap hnodup hmessage (List.mem_flatMap.mpr ⟨shard, hshard, hfirst⟩) hmessage'
    (List.mem_flatMap.mpr ⟨shard', hshard', hsecond⟩)
  exact ⟨rfl, eq_of_nodup_flatMap ((List.nodup_flatMap.mp hnodup).1 message hmessage) hshard hfirst hshard' hsecond⟩

end Chain

/-! ### Account changes -/

namespace AccountChanges

variable {blockHash : CryptoHash} {blockTimestamp : Nat}

end AccountChanges

/-! ### The accounts that a message creates -/

/-- The accounts that the message creates have rows. -/
def CreatedStored (message : StreamerMessage) (db : Database) : Prop :=
  ∀ accountId, message.Creates accountId → accountId ∈ db.accounts

theorem CreatedStored.grows {message : StreamerMessage} {db db' : Database} (h : CreatedStored message db)
    (hgrows : DatabaseGrows db db') : CreatedStored message db' :=
  fun accountId hcreates => hgrows.accounts accountId (h accountId hcreates)

namespace Accounts

/-- An account that some action creates has an entry with a creator. -/
theorem exists_created {accountId : AccountId} {outcomes : List IndexerExecutionOutcomeWithReceipt} (blockHeight : Nat)
    {step : ReceiptView × ActionView} (hstep : step ∈ successfulActions outcomes)
    (hcreates : BlockOrder.createsAccount accountId step = true) :
    ∃ entry, (collectAccounts outcomes blockHeight).lookup accountId = some entry ∧
      entry.createdByReceiptId.isSome = true := by
  have hcolumns := BlockOrder.entryOf_columns accountId blockHeight (successfulActions outcomes)
  have htouches : BlockOrder.touchesAccount accountId step = true := by simp [BlockOrder.touchesAccount, hcreates]
  rw [← lookup_collectAccounts] at hcolumns
  cases hlast : lastStep (BlockOrder.touchesAccount accountId) (successfulActions outcomes) with
  | none => simp [lastStep_eq_none.mp hlast step hstep] at htouches
  | some last =>
      rw [hlast] at hcolumns
      obtain ⟨entry, hentry, hpair⟩ := Option.map_eq_some_iff.mp hcolumns
      refine ⟨entry, hentry, ?_⟩
      have hcreated : entry.createdByReceiptId =
          lastReceipt (BlockOrder.createsAccount accountId) (successfulActions outcomes) := congrArg Prod.fst hpair
      rw [hcreated, Option.isSome_iff_ne_none]
      intro hnone
      simp [lastReceipt_eq_none.mp hnone step hstep] at hcreates

section Chain

variable {decoders : Decoders} {chain : List StreamerMessage} {P : World → Prop}

theorem stable_mem (accountIds : AccountId → Prop) :
    Stable (Evolves decoders chain) fun w => ∀ accountId, accountIds accountId → accountId ∈ w.db.accounts :=
  stable_of_grows (P := fun db => ∀ accountId, accountIds accountId → accountId ∈ db.accounts)
    fun _ _ hgrows h accountId hid => hgrows.accounts accountId (h accountId hid)

/-- The entries with a creator go into one insert, before any of them is updated. -/
theorem outline_handleAccounts_created (outcomes : List IndexerExecutionOutcomeWithReceipt) (blockHeight : Nat)
    (hP : Stable (Evolves decoders chain) P) :
    Outline False (Evolves decoders chain) (Evolves decoders chain) P (handleAccounts outcomes blockHeight)
      fun _ w => ∀ accountId, (∃ step ∈ successfulActions outcomes,
        BlockOrder.createsAccount accountId step = true) → accountId ∈ w.db.accounts := by
  unfold handleAccounts
  split
  · rename_i hempty
    rw [List.isEmpty_iff.mp hempty]
    exact .ret fun _ _ accountId ⟨step, hstep, _⟩ => (List.not_mem_nil hstep).elim
  refine .anyOrder fun values hvalues => ?_
  have hcreated : Stable (Evolves decoders chain) fun w => ∀ accountId, (∃ step ∈ successfulActions outcomes,
      BlockOrder.createsAccount accountId step = true) → accountId ∈ w.db.accounts := stable_mem _
  have hinserted : ∀ w : World, ∀ accountId, (∃ step ∈ successfulActions outcomes,
      BlockOrder.createsAccount accountId step = true) → accountId ∈ w.db.accounts.insertAllNew (·.accountId)
        (values.filter (·.createdByReceiptId.isSome)) := by
    rintro w accountId ⟨step, hstep, hcreates⟩
    obtain ⟨entry, hentry, hcreator⟩ := exists_created blockHeight hstep hcreates
    refine Table.mem_insertAllNew.mpr (.inr ⟨entry, ?_, keyed_collectAccounts _ _ accountId entry hentry⟩)
    exact List.mem_filter.mpr ⟨Table.mem_of_lookup hvalues hentry, hcreator⟩
  rw [List.partition_eq_filter_filter]
  refine (Outline.both (fun _ _ h => h) hP hP hcreated
    (outline_evolves (evolves_updates .delete (fun _ _ _ => mem_updateWhere) _) hP) ?_).post fun _ _ hw => hw.2
  refine (outline_insert False.elim (fun w _ _ =>
    ⟨.inr (.accounts fun _ hid => Table.mem_insertAllNew.mpr (.inl hid)), hinserted w⟩) hcreated).bind fun _ => ?_
  exact outline_evolves ((evolves_updates .recreate (fun _ _ _ => mem_updateWhere) _).bind fun _ =>
    evolves_updates .update (fun _ _ _ => mem_updateWhere) _) hcreated

end Chain

end Accounts

section Created

variable {decoders : Decoders} {chain : List StreamerMessage} {P : World → Prop} {message : StreamerMessage}

theorem stable_createdStored (message : StreamerMessage) :
    Stable (Evolves decoders chain) fun w => CreatedStored message w.db :=
  stable_of_grows fun _ _ hgrows h => h.grows hgrows

theorem outline_accountsFuture (message : StreamerMessage) (hP : Stable (Evolves decoders chain) P) :
    Outline False (Evolves decoders chain) (Evolves decoders chain) P (Prog.joinAll (message.shards.map fun shard =>
      Accounts.handleAccounts shard.receiptExecutionOutcomes message.block.header.height))
      fun _ w => CreatedStored message w.db :=
  (Outline.joinAll_map (fun _ _ h => h) hP (fun _ => Accounts.stable_mem _) fun shard _ =>
    Accounts.outline_handleAccounts_created shard.receiptExecutionOutcomes _ hP).post
    fun _ _ hw accountId ⟨shard, hshard, hcreates⟩ => hw shard hshard accountId hcreates

section Message

variable (hmessage : message ∈ chain)

include hmessage

theorem outline_both_chain (strictMode : Bool) :
    Outline False (Evolves decoders chain) (Evolves decoders chain) (fun _ => True) (Prog.both
      (Transactions.storeTransactions decoders message.shards message.block.header.hash message.block.header.timestamp
        message.block.header.height)
      (Receipts.storeReceipts decoders message.shards message.block.header.hash message.block.header.timestamp
        strictMode)) fun _ _ => True := by
  have htrue : Stable (Evolves decoders chain) fun _ => True := .const _ True
  exact (Outline.both (fun _ _ h => h) htrue htrue htrue
    ((Transactions.outline_storeTransactions_chain hmessage htrue fun _ => "").post fun _ _ _ => trivial)
    (Receipts.evolves_storeReceipts hmessage htrue strictMode)).post fun _ _ _ => trivial

/-- In either mode, a message that is handled has rows for the accounts that it creates. -/
theorem outline_handleMessage_created (strictMode : Bool) :
    Outline False (Evolves decoders chain) (Evolves decoders chain) (fun _ => True)
      (handleMessage decoders message strictMode) fun _ w => CreatedStored message w.db := by
  have hself : ∀ w w', Evolves decoders chain w w' → Evolves decoders chain w w' := fun _ _ h => h
  have htrue : Stable (Evolves decoders chain) fun _ => True := .const _ True
  have hcreated : Stable (Evolves decoders chain) fun w => CreatedStored message w.db := stable_createdStored message
  refine ((Blocks.outline_storeBlock hmessage htrue fun _ => "").post fun _ _ hw => hw.2).bind fun _ => ?_
  refine ((Blocks.outline_storeChunks hmessage htrue fun _ => "").post fun _ _ hw => hw.2).bind fun _ => ?_
  refine (outline_both_chain hmessage strictMode).bind fun _ => ?_
  have houtcomes : Outline False (Evolves decoders chain) (Evolves decoders chain) (fun _ => True)
      (ExecutionOutcomes.storeExecutionOutcomes message.shards message.block.header.timestamp) fun _ _ => True :=
    (ExecutionOutcomes.outline_storeExecutionOutcomes_chain hmessage htrue fun _ => "").post fun _ _ _ => trivial
  have hbeside : ∀ tasks, (∀ task ∈ tasks, Outline False (Evolves decoders chain) (Evolves decoders chain)
      (fun _ => True) task fun _ _ => True) → Outline False (Evolves decoders chain) (Evolves decoders chain)
        (fun _ => True) (Prog.joinAll (_ :: _ :: tasks)) fun _ w => CreatedStored message w.db := fun tasks htasks =>
    (Outline.both hself htrue htrue hcreated houtcomes (((Outline.both hself htrue hcreated htrue
      (outline_accountsFuture message htrue) (.joinAll hself htrue htasks))).post fun _ _ hw => hw.1)).post
        fun _ _ hw => hw.2
  split
  · refine hbeside _ fun task htask => ?_
    simp only [List.mem_cons, List.not_mem_nil, or_false] at htask
    rcases htask with rfl | rfl | rfl
    · exact outline_evolves (.joinAll_map fun _ => AccessKeys.evolves_handleAccessKeys _ _) htrue
    · exact outline_evolves (Events.evolves_storeEvents hmessage) htrue
    · exact (AccountChanges.outline_storeAccountChanges_chain hmessage htrue).post fun _ _ _ => trivial
  · refine hbeside _ fun task htask => ?_
    rw [List.mem_singleton.mp htask]
    exact outline_evolves (Events.evolves_storeEvents hmessage) htrue

end Message

/-- Whatever was handled in a history, the accounts that it creates have rows. -/
theorem History.created {genesisHeight : Nat} {records : List StateRecord} {sessions : List Session} {db : Database}
    {strictMode : Bool} (h : History decoders chain genesisHeight records sessions db)
    (hhandled : HandledIn sessions strictMode message) : CreatedStored message db := by
  obtain ⟨trace, hmem, hevent⟩ := hhandled
  induction h with
  | empty => exact (List.not_mem_nil hmem).elim
  | storeGenesis _ hrun _ ih =>
      rcases List.mem_append.mp hmem with hmem | hmem
      · obtain ⟨_, _, rfl⟩ := Genesis.steps_storeGenesisRecords hrun
        exact fun accountId hcreates => Table.mem_insertAllNew.mpr (.inl (ih hmem accountId hcreates))
      · cases List.mem_singleton.mp hmem
  | listenBlocks _ hstream hrun ih =>
      have hsettling := hrun.settling (P := fun _ => True) trivial (.const (Evolves decoders chain) True)
        stable_createdStored fun _ hitem => outline_handleMessage_created (hstream _ hitem) _
      rcases List.mem_append.mp hmem with hmem | hmem
      · exact (ih hmem).grows (grows_of_evolves hsettling.steps)
      · cases List.mem_singleton.mp hmem
        exact hsettling.handled message hevent

end Created

end ExplorerIndexer

import ExplorerIndexer.AccountChangesStored
import ExplorerIndexer.ChainWrites
import ExplorerIndexer.EventsStored
import ExplorerIndexer.HandleMessageFrame

/-! Proof outlines of the adapters on a chain: each of their statements is one of the chain's, and when they are ready
the rows of their message are stored. -/

namespace ExplorerIndexer

open Async Store Models

/-- The table has a row under the key of each row of the batch. -/
def HasRows (name : TableName) (batch : List name.Row) (db : Database) : Prop :=
  ∀ row ∈ batch, name.key row ∈ name.get db

section Chain

variable {decoders : Decoders} {chain : List StreamerMessage} {P : World → Prop}

theorem stable_hasRows (name : TableName) (batch : List name.Row) :
    Stable (Evolves decoders chain) fun w => HasRows name batch w.db :=
  stable_of_grows fun _ _ hgrows h row hrow => Tables.Extends.mem hgrows.tables (h row hrow)

/-- A critical section of the receipts cache. -/
theorem outline_withCache_chain {β : Type} {act : ReceiptsCache → β × ReceiptsCache}
    (hP : Stable (Evolves decoders chain) P) :
    Outline False (Evolves decoders chain) (Evolves decoders chain) P (withCache act) fun _ => P :=
  outline_withCache (fun w hw => ⟨.inl rfl, hP w _ hw (.inl rfl)⟩) fun _ => hP

/-- An insert of rows with sources. -/
theorem outline_insertRows (name : TableName) {batch : List name.Row} {n : Nat}
    (hP : Stable (Evolves decoders chain) P)
    (hsource : ∀ w, P w → ∀ row ∈ batch, OfChain decoders chain name w.db row) :
    Outline False (Evolves decoders chain) (Evolves decoders chain) P
      (awaitRetryOrPanic (execute (insertBatch name.key name.get name.set name.references batch)) (n + 1))
      fun _ w => HasRows name batch w.db ∧ P w := by
  refine outline_insert False.elim (fun w hw hrefs => ?_) ((stable_hasRows name batch).and hP)
  have hevolves : Evolves decoders chain w { w with db := tables.insert name batch w.db } :=
    .inr (.insert (hsource w hw) hrefs)
  exact ⟨hevolves, fun row hrow => Tables.mem_insert (T := tables) hrow w.db, hP w _ hw hevolves⟩

/-- Statements that are only known to belong to the chain. -/
theorem outline_evolves {α : Type} {p : Prog World α} (hp : OnlyQueries (Evolves decoders chain) p)
    (hP : Stable (Evolves decoders chain) P) :
    Outline False (Evolves decoders chain) (Evolves decoders chain) P p fun _ => P :=
  hp.outline_kept (fun _ _ h => h) (fun _ _ h => h) hP

/-! ### Tables that are updated -/

theorem mem_updateWhere {κ ρ : Type} [DecidableEq κ] {p : κ → ρ → Bool} {f : ρ → ρ} {t : Table κ ρ} {k : κ}
    (hk : k ∈ t) : k ∈ t.updateWhere p f := by
  obtain ⟨row, hrow⟩ := Table.mem_iff_lookup.mp hk
  exact Table.mem_iff_lookup.mpr ⟨_, by rw [Table.lookup_updateWhere, hrow, Option.map_some]⟩

theorem Accounts.evolves_updates (write : Account → Write)
    (hkept : ∀ value t accountId, accountId ∈ t → accountId ∈ (write value).apply t) (values : List Account) :
    OnlyQueries (Evolves decoders chain) (Prog.forEach values fun value => do
      let _ ← awaitRetryOrPanic (updateAccounts (write value).apply) 10) :=
  .forEach fun value => onlyQueries_perform (kept_updateSet fun w => .inr (.accounts (hkept value w.db.accounts)))

theorem Accounts.evolves_handleAccounts (outcomes : List IndexerExecutionOutcomeWithReceipt) (blockHeight : Nat) :
    OnlyQueries (Evolves decoders chain) (handleAccounts outcomes blockHeight) := by
  unfold handleAccounts
  split
  · exact .ret ()
  · refine .anyOrder fun values => .both (evolves_updates .delete (fun _ _ _ => mem_updateWhere) _) ?_
    refine (onlyQueries_await fun w b w' hok => ?_).bind fun _ =>
      (evolves_updates .recreate (fun _ _ _ => mem_updateWhere) _).bind fun _ =>
        evolves_updates .update (fun _ _ _ => mem_updateWhere) _
    obtain ⟨db, hdb, rfl⟩ := execute_ok hok
    rw [(insertBatch_ok hdb).1]
    exact .inr (.accounts fun _ hid => Table.mem_insertAllNew.mpr (.inl hid))

theorem AccessKeys.evolves_handleAccessKeys (outcomes : List IndexerExecutionOutcomeWithReceipt) (blockHeight : Nat) :
    OnlyQueries (Evolves decoders chain) (handleAccessKeys decoders outcomes blockHeight) := by
  have hupdate : ∀ write : Write, (∀ t key, key ∈ t → key ∈ write.apply t) →
      OnlyQueries (Evolves decoders chain) (do let _ ← awaitRetryOrPanic (updateAccessKeys write.apply) 10) :=
    fun write hkept => onlyQueries_perform (kept_updateSet fun w => .inr (.accessKeys (hkept w.db.accessKeys)))
  unfold handleAccessKeys
  split
  · exact .ret ()
  · refine .anyOrder fun values => .anyOrder fun deletedAccounts => .both (.forEach fun deleted => ?_)
      (.both (.forEach fun value => ?_) ?_)
    · exact hupdate (.sweep blockHeight deleted.1 deleted.2) fun _ _ => mem_updateWhere
    · exact hupdate (.update value) fun _ _ => mem_updateWhere
    · refine (onlyQueries_await fun w b w' hok => ?_).bind fun _ => .forEach fun value => ?_
      · obtain ⟨db, hdb, rfl⟩ := execute_ok hok
        rw [(insertBatch_ok hdb).1]
        exact .inr (.accessKeys fun _ hkey => Table.mem_insertAllNew.mpr (.inl hkey))
      · exact hupdate (.recreate value) fun _ _ => mem_updateWhere

theorem Events.evolves_storeEvents {message : StreamerMessage} (hmessage : message ∈ chain) :
    OnlyQueries (Evolves decoders chain) (storeEvents decoders message) := by
  refine .joinAll fun task htask => ?_
  obtain ⟨shard, hshard, rfl⟩ := List.mem_map.mp htask
  refine .both (.forEach_mem fun batch hbatch => .query (fun w b w' hok => ?_) fun _ => .ret ())
    (.forEach_mem fun batch hbatch => .query (fun w b w' hok => ?_) fun _ => .ret ())
  · obtain ⟨-, hadmits, rfl⟩ := insertEvents_ok hok
    refine .inr (.fungibleTokenEvents (fun row hrow => ⟨message, hmessage, ?_⟩) hadmits)
    exact List.mem_flatMap.mpr ⟨shard, hshard, mem_of_mem_toChunks hbatch hrow⟩
  · obtain ⟨-, hadmits, rfl⟩ := insertEvents_ok hok
    refine .inr (.nonFungibleTokenEvents (fun row hrow => ⟨message, hmessage, ?_⟩) hadmits)
    exact List.mem_flatMap.mpr ⟨shard, hshard, mem_of_mem_toChunks hbatch hrow⟩

namespace AccountChanges

/-- Every change of the message has a row in its place. -/
def ChangesStored (message : StreamerMessage) (db : Database) : Prop :=
  ∀ row ∈ message.accountChangeRows, ∃ stored ∈ db.accountChanges, conflict row stored = true

theorem stable_exists_conflicting (batch : List AccountChange) : Stable (Evolves decoders chain) fun w =>
    ∀ row ∈ batch, ∃ stored ∈ w.db.accountChanges, conflict row stored = true := by
  refine stable_of_grows (P := fun db => ∀ row ∈ batch, ∃ stored ∈ db.accountChanges, conflict row stored = true)
    fun db db' hgrows h row hrow => ?_
  obtain ⟨stored, hstored, hconflict⟩ := h row hrow
  exact ⟨stored, hgrows.accountChanges.subset hstored, hconflict⟩

/-- The changes of each shard go into one insert. -/
theorem outline_storeAccountChanges_chain {message : StreamerMessage} (hmessage : message ∈ chain)
    (hP : Stable (Evolves decoders chain) P) :
    Outline False (Evolves decoders chain) (Evolves decoders chain) P
      (storeAccountChanges message.shards message.block.header.hash message.block.header.timestamp)
      fun _ w => ChangesStored message w.db := by
  have hshards : Outline False (Evolves decoders chain) (Evolves decoders chain) P
      (storeAccountChanges message.shards message.block.header.hash message.block.header.timestamp)
      fun _ w => ∀ shard ∈ message.shards, ∀ row ∈ (accountChangesModels shard.stateChanges message.block.header.hash
        message.block.header.timestamp).getD [], ∃ stored ∈ w.db.accountChanges, conflict row stored = true := by
    refine .joinAll_map (fun _ _ h => h) hP (fun shard => stable_exists_conflicting _) fun shard hshard => ?_
    unfold storeAccountChangesForShard
    split
    · rename_i hempty
      rw [List.isEmpty_iff.mp hempty]
      exact .ret fun _ _ row hrow => (List.not_mem_nil hrow).elim
    cases hbatch : accountChangesModels shard.stateChanges message.block.header.hash message.block.header.timestamp with
    | none => exact .panic id
    | some batch =>
        refine .query (fun w b w' hw hok => ?_) (fun w error _ _ hhandled => by cases hhandled) False.elim
          (fun _ => stable_exists_conflicting batch) fun _ => .ret fun w hw => hw
        obtain ⟨db, hdb, rfl⟩ := execute_ok hok
        split at hdb
        · cases hdb
        · rename_i hnone
          cases hdb
          rw [List.findSome?_eq_none_iff] at hnone
          refine ⟨.inr (.accountChanges (fun row hrow => ⟨message, hmessage, ?_⟩) hnone), fun row hrow => ?_⟩
          · rw [newChanges_eq] at hrow
            refine List.mem_flatMap.mpr ⟨shard, hshard, ?_⟩
            rw [hbatch]
            exact mem_of_mem_newRows hrow
          · obtain ⟨stateChange, position, _, hchange⟩ := (mem_models_iff hbatch).mp hrow
            rw [newChanges_eq]
            exact exists_conflicting hrow (conflict_self hchange)
  refine hshards.post fun _ w hw row hrow => ?_
  obtain ⟨shard, hshard, hrow⟩ := List.mem_flatMap.mp hrow
  exact hw shard hshard row hrow

end AccountChanges

/-! ### Blocks and chunks -/

namespace Blocks

theorem outline_storeBlock {message : StreamerMessage} (hmessage : message ∈ chain)
    (hP : Stable (Evolves decoders chain) P) (parent : ReceiptView → ParentTransactionHashString) :
    Outline False (Evolves decoders chain) (Evolves decoders chain) P (storeBlock message.block)
      fun _ w => HasRows .blocks (message.rows decoders parent .blocks) w.db ∧ P w :=
  (outline_insertRows .blocks hP fun _ _ _ hrow => ⟨message, hmessage, .plain parent hrow⟩).bind fun _ =>
    .ret fun _ hw => hw

theorem outline_storeChunks {message : StreamerMessage} (hmessage : message ∈ chain)
    (hP : Stable (Evolves decoders chain) P) (parent : ReceiptView → ParentTransactionHashString) :
    Outline False (Evolves decoders chain) (Evolves decoders chain) P
      (storeChunks message.shards message.block.header.hash)
      fun _ w => HasRows .chunks (message.rows decoders parent .chunks) w.db ∧ P w := by
  unfold storeChunks
  dsimp only
  split
  · rename_i hempty
    refine .ret fun w hw => ⟨fun row hrow => ?_, hw⟩
    rw [show message.rows decoders parent .chunks = [] from List.isEmpty_iff.mp hempty] at hrow
    exact (List.not_mem_nil hrow).elim
  · exact (outline_insertRows .chunks hP fun _ _ _ hrow => ⟨message, hmessage, .plain parent hrow⟩).bind fun _ =>
      .ret fun _ hw => hw

end Blocks

/-! ### Execution outcomes -/

theorem ExecutionOutcomes.outline_storeExecutionOutcomes_chain {message : StreamerMessage} (hmessage : message ∈ chain)
    (hP : Stable (Evolves decoders chain) P) (parent : ReceiptView → ParentTransactionHashString) :
    Outline False (Evolves decoders chain) (Evolves decoders chain) P
      (storeExecutionOutcomes message.shards message.block.header.timestamp)
      fun _ w => HasRows .executionOutcomes (message.rows decoders parent .executionOutcomes) w.db ∧
        HasRows .executionOutcomeReceipts (message.rows decoders parent .executionOutcomeReceipts) w.db := by
  have hshards : Outline False (Evolves decoders chain) (Evolves decoders chain) P
      (storeExecutionOutcomes message.shards message.block.header.timestamp)
      fun _ w => ∀ shard ∈ message.shards,
        HasRows .executionOutcomes (outcomeModels shard.receiptExecutionOutcomes shard.shardId
          message.block.header.timestamp) w.db ∧
        HasRows .executionOutcomeReceipts (outcomeReceiptModels shard.receiptExecutionOutcomes) w.db := by
    refine .joinAll_map (fun _ _ h => h) hP (fun shard => (stable_hasRows _ _).and (stable_hasRows _ _))
      fun shard hshard => ?_
    refine (outline_withCache_chain hP).bind fun _ => ?_
    refine (outline_insertRows .executionOutcomes hP fun _ _ row hrow => ⟨message, hmessage, .plain parent ?_⟩).bind
      fun _ => ?_
    · exact List.mem_flatMap.mpr ⟨shard, hshard, hrow⟩
    refine (outline_insertRows .executionOutcomeReceipts (stable_hasRows _ _) fun _ _ row hrow =>
      ⟨message, hmessage, .plain parent ?_⟩).pre (fun w hw => hw.1) |>.bind fun _ => .ret fun _ hw => ⟨hw.2, hw.1⟩
    obtain ⟨outcome, houtcome, entry, hentry, rfl⟩ := mem_outcomeReceiptModels.mp hrow
    exact mem_outcomeReceiptModels.mpr
      ⟨outcome, List.mem_flatMap.mpr ⟨shard, hshard, houtcome⟩, entry, hentry, rfl⟩
  refine hshards.post fun _ w hw => ⟨fun row hrow => ?_, fun row hrow => ?_⟩
  · obtain ⟨shard, hshard, hrow⟩ := List.mem_flatMap.mp hrow
    exact (hw shard hshard).1 row hrow
  · obtain ⟨outcome, houtcome, entry, hentry, rfl⟩ := mem_outcomeReceiptModels.mp hrow
    obtain ⟨shard, hshard, houtcome⟩ := List.mem_flatMap.mp houtcome
    exact (hw shard hshard).2 _ (mem_outcomeReceiptModels.mpr ⟨outcome, houtcome, entry, hentry, rfl⟩)

/-! ### Transactions -/

namespace Transactions

section Transactions

variable {message : StreamerMessage} (hmessage : message ∈ chain)

include hmessage

theorem outline_storeChunkTransactions_chain {chunk : IndexerChunkView} (hchunk : chunk ∈ chunksOf message.shards)
    {entries : List (IndexerTransactionWithOutcome × Nat)} {suffix : String}
    (hentries : ∀ entry ∈ entries, entry ∈ chunk.transactions.zipIdx) (hP : Stable (Evolves decoders chain) P)
    (hsource : ∀ w, P w → ∀ entry ∈ entries,
      message.RowOf decoders .transactions w.db (message.transactionRow suffix chunk entry)) :
    Outline False (Evolves decoders chain) (Evolves decoders chain) P
      (storeChunkTransactions decoders entries chunk.header.chunkHash message.block.header.hash
        message.block.header.timestamp suffix)
      fun _ w => HasRows .transactions (entries.map (message.transactionRow suffix chunk)) w.db ∧
        HasRows .transactionActions (transactionActionModels decoders entries) w.db := by
  refine (outline_withCache_chain hP).bind fun _ => ?_
  refine (outline_insertRows .transactions hP fun w hw row hrow => ?_).bind fun _ => ?_
  · obtain ⟨entry, hentry, rfl⟩ := List.mem_map.mp hrow
    exact ⟨message, hmessage, hsource w hw entry hentry⟩
  refine (outline_insertRows .transactionActions (stable_hasRows _ _) fun _ _ row hrow =>
    ⟨message, hmessage, .plain (fun _ => "") ?_⟩).pre (fun w hw => hw.1) |>.bind fun _ => .ret fun _ hw => ⟨hw.2, hw.1⟩
  obtain ⟨entry, hentry, hrow⟩ := List.mem_flatMap.mp hrow
  exact List.mem_flatMap.mpr ⟨chunk, hchunk, List.mem_flatMap.mpr ⟨entry, hentries entry hentry, hrow⟩⟩

/-- Each transaction that is collected as missing has a hash that another row has taken. -/
def MissingTaken (message : StreamerMessage) (ids : List CryptoHash) (db : Database) : Prop :=
  ∀ tx ∈ message.transactions, tx.convertedIntoReceiptId ∉ ids → message.HashTaken tx db

omit hmessage in
theorem stable_missingTaken (ids : List CryptoHash) :
    Stable (Evolves decoders chain) fun w => MissingTaken message ids w.db := by
  refine stable_of_grows fun db db' hgrows h tx htx hmissing => ?_
  obtain ⟨row, hrow, hother⟩ := h tx htx hmissing
  exact ⟨row, hgrows.tables .transactions _ row hrow, hother⟩

omit hmessage in
/-- After the first pass each hash has a row; if it is that of the transaction itself, it is collected. -/
theorem missingTaken_of_hasRows {parent : ReceiptView → ParentTransactionHashString} {db : Database}
    (h : HasRows .transactions (message.rows decoders parent .transactions) db) :
    MissingTaken message (convertedToReceiptIds message.block.header.hash db) db := by
  intro tx htx hmissing
  obtain ⟨chunk, hchunk, htx⟩ := List.mem_flatMap.mp htx
  obtain ⟨index, hindex, rfl⟩ := List.getElem_of_mem htx
  have hentry := List.mk_mem_zipIdx_iff_getElem?.mpr (List.getElem?_eq_getElem hindex)
  have hkey := h (message.transactionRow "" chunk (chunk.transactions[index], index))
    (List.mem_flatMap.mpr ⟨chunk, hchunk, List.mem_map_of_mem hentry⟩)
  rw [show TableName.key .transactions (message.transactionRow "" chunk (chunk.transactions[index], index)) =
    chunk.transactions[index].transaction.hash.text from hashWithSuffix_empty _] at hkey
  obtain ⟨row, hrow⟩ := Table.mem_iff_lookup.mp hkey
  refine ⟨row, hrow, fun hsame => hmissing ?_⟩
  exact mem_convertedToReceiptIds.mpr ⟨_, row, hrow, hsame.1, hsame.2⟩

/-- Every transaction has a row under its hash, its own or that of the transaction that took the hash. -/
theorem outline_storeTransactions_chain (hP : Stable (Evolves decoders chain) P)
    (parent : ReceiptView → ParentTransactionHashString) :
    Outline False (Evolves decoders chain) (Evolves decoders chain) P
      (storeTransactions decoders message.shards message.block.header.hash message.block.header.timestamp
        message.block.header.height)
      fun _ w => HasRows .transactions (message.rows decoders parent .transactions) w.db ∧
        HasRows .transactionActions (message.rows decoders parent .transactionActions) w.db := by
  have hrows : Stable (Evolves decoders chain) fun w =>
      HasRows .transactions (message.rows decoders parent .transactions) w.db ∧
        HasRows .transactionActions (message.rows decoders parent .transactionActions) w.db :=
    (stable_hasRows _ _).and (stable_hasRows _ _)
  have hfirst : Outline False (Evolves decoders chain) (Evolves decoders chain) P
      (Prog.joinAll ((chunksOf message.shards).map fun chunk => storeChunkTransactions decoders
        chunk.transactions.zipIdx chunk.header.chunkHash message.block.header.hash message.block.header.timestamp ""))
      fun _ w => HasRows .transactions (message.rows decoders parent .transactions) w.db ∧
        HasRows .transactionActions (message.rows decoders parent .transactionActions) w.db := by
    refine (Outline.joinAll_map (fun _ _ h => h) hP (fun chunk => (stable_hasRows .transactions _).and
      (stable_hasRows .transactionActions _)) fun chunk hchunk =>
        outline_storeChunkTransactions_chain hmessage hchunk (fun _ h => h) hP fun w _ entry hentry => ?_).post
      fun _ w hw => ⟨fun row hrow => ?_, fun row hrow => ?_⟩
    · exact .plain parent (List.mem_flatMap.mpr ⟨chunk, hchunk, List.mem_map_of_mem hentry⟩)
    · obtain ⟨chunk, hchunk, hrow⟩ := List.mem_flatMap.mp hrow
      exact (hw chunk hchunk).1 row hrow
    · obtain ⟨chunk, hchunk, hrow⟩ := List.mem_flatMap.mp hrow
      exact (hw chunk hchunk).2 row hrow
  refine hfirst.bind fun _ => ?_
  have hcollect : Outline False (Evolves decoders chain) (Evolves decoders chain)
      (fun w => HasRows .transactions (message.rows decoders parent .transactions) w.db ∧
        HasRows .transactionActions (message.rows decoders parent .transactionActions) w.db)
      (collectConvertedToReceiptIds message.block.header.hash) fun ids w => MissingTaken message ids w.db ∧
        HasRows .transactions (message.rows decoders parent .transactions) w.db ∧
          HasRows .transactionActions (message.rows decoders parent .transactionActions) w.db :=
    outline_collectConvertedToReceiptIds (fun w hw => ⟨.inl rfl, missingTaken_of_hasRows hw.1, hw⟩)
      fun ids => (stable_missingTaken ids).and hrows
  refine Outline.bind hcollect fun ids => ?_
  split
  · exact .ret fun _ hw => hw.2
  refine (Outline.joinAll (fun _ _ h => h) ((stable_missingTaken ids).and hrows) fun task htask => ?_).post
    fun _ _ hw => hw.2
  obtain ⟨chunk, hchunk, rfl⟩ := List.mem_map.mp htask
  have hpast : Stable (Evolves decoders chain) fun w => MissingTaken message ids w.db ∧
      HasRows .transactions (message.rows decoders parent .transactions) w.db ∧
        HasRows .transactionActions (message.rows decoders parent .transactionActions) w.db :=
    (stable_missingTaken ids).and hrows
  refine ((outline_storeChunkTransactions_chain hmessage hchunk
    (fun entry hentry => (mem_collidedTransactions.mp hentry).1) hpast fun w hw entry hentry => ?_).keep
    (fun _ _ h => h) hpast).post fun _ _ hw => hw.2
  obtain ⟨hmem, hmissing⟩ := mem_collidedTransactions.mp hentry
  exact .collided hchunk hmem
    (hw.1 entry.1 (List.mem_flatMap.mpr ⟨chunk, hchunk, List.fst_mem_of_mem_zipIdx hmem⟩) hmissing)

end Transactions

end Transactions

end Chain

end ExplorerIndexer

import ExplorerIndexer.AsyncRecord
import ExplorerIndexer.HandleMessage

/-! The parts of a message's handling that have no critical section of the receipts cache, only statements. Which
tables they write is stated once, for every relation between states that allows it. -/

namespace ExplorerIndexer

open Async Store

structure SameCache (w w' : World) : Prop where
  cache : w'.cache = w.cache

/-- A statement leaves the receipts cache alone. -/
theorem sameCache_execute {β : Type} {stmt : Database → Except QueryError (β × Database)} (w : World) (b : β)
    (w' : World) (hok : execute stmt w = .ok (b, w')) : SameCache w w' := by
  obtain ⟨db, _, rfl⟩ := execute_ok hok
  exact ⟨rfl⟩

/-- Every change of the database is allowed that leaves the blocks alone. -/
def FreeBesideBlocks (R : World → World → Prop) : Prop :=
  ∀ w db, db.blocks = w.db.blocks → R w { w with db := db }

/-- Every change is allowed of the tables that have nothing to do with transactions and receipts. -/
structure FreeTables (R : World → World → Prop) : Prop where
  chunks : ∀ w t, R w { w with db := { w.db with chunks := t } }
  accounts : ∀ w t, R w { w with db := { w.db with accounts := t } }
  accessKeys : ∀ w t, R w { w with db := { w.db with accessKeys := t } }
  accountChanges : ∀ w l, R w { w with db := { w.db with accountChanges := l } }
  fungibleTokenEvents : ∀ w l, R w { w with db := { w.db with fungibleTokenEvents := l } }
  nonFungibleTokenEvents : ∀ w l, R w { w with db := { w.db with nonFungibleTokenEvents := l } }

/-- Every change is allowed of the tables of receipts. -/
structure FreeReceiptTables (R : World → World → Prop) : Prop where
  receipts : ∀ w t, R w { w with db := { w.db with receipts := t } }
  actionReceipts : ∀ w t, R w { w with db := { w.db with actionReceipts := t } }
  actionReceiptActions : ∀ w t, R w { w with db := { w.db with actionReceiptActions := t } }
  actionReceiptOutputData : ∀ w t, R w { w with db := { w.db with actionReceiptOutputData := t } }
  actionReceiptInputData : ∀ w t, R w { w with db := { w.db with actionReceiptInputData := t } }
  dataReceipts : ∀ w t, R w { w with db := { w.db with dataReceipts := t } }

/-- Every change is allowed of the receipts cache and of the tables of transactions and execution outcomes. -/
structure FreeParentTables (R : World → World → Prop) : Prop where
  cache : ∀ w c, R w { w with cache := c }
  transactions : ∀ w t, R w { w with db := { w.db with transactions := t } }
  transactionActions : ∀ w t, R w { w with db := { w.db with transactionActions := t } }
  executionOutcomes : ∀ w t, R w { w with db := { w.db with executionOutcomes := t } }
  executionOutcomeReceipts : ∀ w t, R w { w with db := { w.db with executionOutcomeReceipts := t } }

variable {R : World → World → Prop}

theorem FreeParentTables.refl (h : FreeParentTables R) (w : World) : R w w := h.cache w w.cache

theorem FreeBesideBlocks.freeTables (h : FreeBesideBlocks R) : FreeTables R :=
  ⟨fun w _ => h w _ rfl, fun w _ => h w _ rfl, fun w _ => h w _ rfl, fun w _ => h w _ rfl, fun w _ => h w _ rfl,
    fun w _ => h w _ rfl⟩

theorem FreeBesideBlocks.freeReceiptTables (h : FreeBesideBlocks R) : FreeReceiptTables R :=
  ⟨fun w _ => h w _ rfl, fun w _ => h w _ rfl, fun w _ => h w _ rfl, fun w _ => h w _ rfl, fun w _ => h w _ rfl,
    fun w _ => h w _ rfl⟩

theorem sameCache_refl (w : World) : SameCache w w := ⟨rfl⟩

theorem freeBesideBlocks_sameCache : FreeBesideBlocks SameCache := fun _ _ _ => ⟨rfl⟩

/-! ### Statements -/

theorem kept_insertBatch {κ ρ : Type} [DecidableEq κ] {key : ρ → κ} {table : Database → Table κ ρ}
    {store : Database → Table κ ρ → Database} {references : Database → ρ → Option String} {batch : List ρ}
    (h : ∀ w t, R w { w with db := store w.db t }) (w : World) (b : Unit) (w' : World)
    (hok : execute (insertBatch key table store references batch) w = .ok (b, w')) : R w w' := by
  obtain ⟨db, hdb, rfl⟩ := execute_ok hok
  rw [(insertBatch_ok hdb).1]
  exact h w _

theorem kept_updateSet {update : Database → Database} (h : ∀ w, R w { w with db := update w.db }) (w : World)
    (b : Unit) (w' : World) (hok : updateSet update w = .ok (b, w')) : R w w' := updateSet_ok hok ▸ h w

theorem kept_selectFrom {β : Type} {read : Database → β} (h : ∀ w, R w w) (w : World) (b : β) (w' : World)
    (hok : selectFrom read w = .ok (b, w')) : R w w' := (selectFrom_ok hok).2 ▸ h w

theorem Events.kept_insertEvents {ρ : Type} [DecidableEq ρ] {sameEntry : ρ → ρ → Bool} {receiptId : ρ → CryptoHash}
    {table : String} {rows : Database → List ρ} {store : Database → List ρ → Database} {batch : List ρ}
    (h : ∀ w l, R w { w with db := store w.db l }) (w : World) (b : Unit) (w' : World)
    (hok : insertEvents sameEntry receiptId table rows store batch w = .ok (b, w')) : R w w' := by
  obtain ⟨db, hdb, rfl⟩ := execute_ok hok
  split at hdb
  · cases hdb
  · cases hdb
    exact h w _

theorem AccountChanges.kept_insertAccountChanges
    (h : ∀ w l, R w { w with db := { w.db with accountChanges := l } }) (batch : List Models.AccountChange) (w : World)
    (b : Unit) (w' : World) (hok : insertAccountChanges batch w = .ok (b, w')) : R w w' := by
  obtain ⟨db, hdb, rfl⟩ := execute_ok hok
  split at hdb
  · cases hdb
  · cases hdb
    exact h w _

theorem onlyQueries_await {β : Type} {stmt : Statement World β} {n : Nat}
    (hstmt : ∀ w b w', stmt w = .ok (b, w') → R w w') : OnlyQueries R (awaitRetryOrPanic stmt n) :=
  .query hstmt fun b => .ret b

/-- A retried statement for its effect. -/
theorem onlyQueries_perform {β : Type} {stmt : Statement World β} {n : Nat}
    (hstmt : ∀ w b w', stmt w = .ok (b, w') → R w w') :
    OnlyQueries R (do let _ ← awaitRetryOrPanic stmt n) := (onlyQueries_await hstmt).bind fun _ => .ret ()

/-! ### The adapters -/

theorem Blocks.onlyQueries_storeBlock (h : ∀ w t, R w { w with db := { w.db with blocks := t } }) (block : BlockView) :
    OnlyQueries R (storeBlock block) := onlyQueries_perform (kept_insertBatch h)

theorem Blocks.onlyQueries_storeChunks (h : ∀ w t, R w { w with db := { w.db with chunks := t } })
    (shards : List IndexerShard) (blockHash : CryptoHash) : OnlyQueries R (storeChunks shards blockHash) := by
  unfold storeChunks
  dsimp only
  split
  · exact .ret ()
  · exact onlyQueries_perform (kept_insertBatch h)

theorem Transactions.onlyQueries_collectConvertedToReceiptIds (h : ∀ w, R w w) (blockHash : CryptoHash) :
    OnlyQueries R (collectConvertedToReceiptIds blockHash) := .query (kept_selectFrom h) fun _ => .ret _

namespace Receipts

theorem onlyQueries_round (h : ∀ w, R w w) (strictMode : Bool) (search : Search) :
    OnlyQueries R (search.round strictMode) := by
  have hover : ∀ (stage : Search ⊕ TxHashes) (next : Search → Prog World (Search ⊕ TxHashes)),
      (∀ search, OnlyQueries R (next search)) → OnlyQueries R (Search.unlessOver stage next) := by
    intro stage next hnext
    cases stage with
    | inl search => exact hnext search
    | inr txHashes => exact .ret _
  have hask : OnlyQueries R search.askDataOutput := by
    unfold Search.askDataOutput
    split
    · exact .ret _
    · exact .query (kept_selectFrom h) fun rows => .anyOrder fun rows => .ret _
  refine hask.bind fun stage => hover _ _ fun search => ?_
  refine OnlyQueries.bind ?_ fun stage => hover _ _ fun search => ?_
  · exact (onlyQueries_await (kept_selectFrom h)).bind fun rows => .anyOrder fun rows => .ret _
  · refine OnlyQueries.bind ?_ fun stage => hover _ _ fun search => .ret _
    exact (onlyQueries_await (kept_selectFrom h)).bind fun rows => .anyOrder fun rows => .ret _

/-- What `findTxHashesForReceipts` does after it has asked the cache. -/
def searchForOthers (strictMode : Bool) (receipts : List ReceiptView) (txHashes : TxHashes) : Prog World TxHashes :=
  let receipts := receipts.filter fun r => receiptOrDataId r ∉ txHashes
  if receipts.isEmpty then .ret txHashes
  else .loop (Search.round strictMode) { txHashes, receipts, retriesLeft := 4 } .ret

theorem findTxHashesForReceipts_eq (strictMode : Bool) (receipts : List ReceiptView) :
    findTxHashesForReceipts strictMode receipts =
      (withCache (askCacheForAll receipts)).bind (searchForOthers strictMode receipts) := rfl

theorem onlyQueries_searchForOthers (h : ∀ w, R w w) (strictMode : Bool) (receipts : List ReceiptView)
    (txHashes : TxHashes) : OnlyQueries R (searchForOthers strictMode receipts txHashes) := by
  unfold searchForOthers
  dsimp only
  split
  · exact .ret _
  · exact .loop (onlyQueries_round h strictMode) fun txHashes => .ret _

theorem onlyQueries_saveReceipts (h : FreeReceiptTables R) (rows : List Models.Receipt) :
    OnlyQueries R (saveReceipts rows) := onlyQueries_perform (kept_insertBatch h.receipts)

theorem onlyQueries_storeReceiptActions (h : FreeReceiptTables R) (decoders : Decoders) (receipts : List ReceiptView)
    (blockTimestamp : Nat) : OnlyQueries R (storeReceiptActions decoders receipts blockTimestamp) :=
  (onlyQueries_await (kept_insertBatch h.actionReceipts)).bind fun _ =>
    (onlyQueries_await (kept_insertBatch h.actionReceiptActions)).bind fun _ =>
      (onlyQueries_await (kept_insertBatch h.actionReceiptOutputData)).bind fun _ =>
        onlyQueries_perform (kept_insertBatch h.actionReceiptInputData)

theorem onlyQueries_storeReceiptData (h : FreeReceiptTables R) (receipts : List ReceiptView) :
    OnlyQueries R (storeReceiptData receipts) := onlyQueries_perform (kept_insertBatch h.dataReceipts)

end Receipts

theorem Accounts.onlyQueries_handleAccounts (h : FreeTables R) (outcomes : List IndexerExecutionOutcomeWithReceipt)
    (blockHeight : Nat) : OnlyQueries R (handleAccounts outcomes blockHeight) := by
  have hupdate : ∀ change, OnlyQueries R (do let _ ← awaitRetryOrPanic (updateAccounts change) 10) :=
    fun change => onlyQueries_perform (kept_updateSet fun w => h.accounts w _)
  unfold handleAccounts
  split
  · exact .ret ()
  · refine .anyOrder fun values => .both (.forEach fun value => hupdate _) ?_
    exact (onlyQueries_await (kept_insertBatch h.accounts)).bind fun _ =>
      (OnlyQueries.forEach fun value => hupdate _).bind fun _ => .forEach fun value => hupdate _

theorem AccessKeys.onlyQueries_handleAccessKeys (h : FreeTables R) (decoders : Decoders)
    (outcomes : List IndexerExecutionOutcomeWithReceipt) (blockHeight : Nat) :
    OnlyQueries R (handleAccessKeys decoders outcomes blockHeight) := by
  have hupdate : ∀ change, OnlyQueries R (do let _ ← awaitRetryOrPanic (updateAccessKeys change) 10) :=
    fun change => onlyQueries_perform (kept_updateSet fun w => h.accessKeys w _)
  unfold handleAccessKeys
  split
  · exact .ret ()
  · refine .anyOrder fun values => .anyOrder fun deletedAccounts => ?_
    refine .both (.forEach fun deleted => hupdate _) (.both (.forEach fun value => hupdate _) ?_)
    exact (onlyQueries_await (kept_insertBatch h.accessKeys)).bind fun _ => .forEach fun value => hupdate _

theorem Events.onlyQueries_storeEvents (hft : ∀ w l, R w { w with db := { w.db with fungibleTokenEvents := l } })
    (hnft : ∀ w l, R w { w with db := { w.db with nonFungibleTokenEvents := l } }) (decoders : Decoders)
    (message : StreamerMessage) : OnlyQueries R (storeEvents decoders message) :=
  .joinAll_map fun _ => .both
    (.forEach fun _ => .query (kept_insertEvents hft) fun _ => .ret ())
    (.forEach fun _ => .query (kept_insertEvents hnft) fun _ => .ret ())

theorem AccountChanges.onlyQueries_storeAccountChanges
    (h : ∀ w l, R w { w with db := { w.db with accountChanges := l } }) (shards : List IndexerShard)
    (blockHash : CryptoHash) (blockTimestamp : Nat) :
    OnlyQueries R (storeAccountChanges shards blockHash blockTimestamp) := by
  refine .joinAll_map fun shard => ?_
  unfold storeAccountChangesForShard
  split
  · exact .ret ()
  · split
    · exact onlyQueries_perform (kept_insertAccountChanges h _)
    · exact .panic

/-! ### What runs beside the execution outcomes -/

section Beside

variable (h : FreeTables R) (decoders : Decoders) (message : StreamerMessage)

include h

theorem onlyQueries_accounts : OnlyQueries R (Prog.joinAll (message.shards.map fun shard =>
    Accounts.handleAccounts shard.receiptExecutionOutcomes message.block.header.height)) :=
  .joinAll_map fun _ => Accounts.onlyQueries_handleAccounts h _ _

theorem onlyQueries_besideOutcomes : OnlyQueries R (Prog.joinAll
    [Prog.joinAll (message.shards.map fun shard =>
        Accounts.handleAccounts shard.receiptExecutionOutcomes message.block.header.height),
      Prog.joinAll (message.shards.map fun shard =>
        AccessKeys.handleAccessKeys decoders shard.receiptExecutionOutcomes message.block.header.height),
      Events.storeEvents decoders message,
      AccountChanges.storeAccountChanges message.shards message.block.header.hash message.block.header.timestamp]) :=
  (onlyQueries_accounts h message).both <|
    .both (.joinAll_map fun _ => AccessKeys.onlyQueries_handleAccessKeys h _ _ _) <|
    .both (Events.onlyQueries_storeEvents h.fungibleTokenEvents h.nonFungibleTokenEvents _ _) <|
    .both (AccountChanges.onlyQueries_storeAccountChanges h.accountChanges _ _ _) (.ret ())

theorem onlyQueries_besideOutcomes_of_not_strict : OnlyQueries R (Prog.joinAll
    [Prog.joinAll (message.shards.map fun shard =>
        Accounts.handleAccounts shard.receiptExecutionOutcomes message.block.header.height),
      Events.storeEvents decoders message]) :=
  (onlyQueries_accounts h message).both <|
    .both (Events.onlyQueries_storeEvents h.fungibleTokenEvents h.nonFungibleTokenEvents _ _) (.ret ())

end Beside

end ExplorerIndexer

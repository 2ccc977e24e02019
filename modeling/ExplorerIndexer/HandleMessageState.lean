import ExplorerIndexer.HandleMessageBlocks
import ExplorerIndexer.ShardedMessages
import ExplorerIndexer.StoreResumption

/-! What the handling of a message does to the accounts and the access keys. Whatever else runs, a part of it leaves
each row alone or does to it what the message does, and the whole of it leaves nothing to do for another time. -/

namespace ExplorerIndexer

open Async Store Models
open Accounts (successfulActions deletesAccount lastReceipt)

/-- The rows of accounts and of access keys. -/
abbrev StateRows : Type := (AccountId → Option Account) × (PublicKey × AccountId → Option AccessKey)

def Database.stateRows (db : Database) : StateRows := (db.accounts.lookup, db.accessKeys.lookup)

/-- What a message does to them. -/
def stateEffects (decoders : Decoders) : Effects StateRows StreamerMessage :=
  bothEffects (rowEffects Accounts.effectsOf) (rowEffects (AccessKeys.effectsOf decoders))

theorem lawful_stateEffects (decoders : Decoders) : (stateEffects decoders).Lawful fun message next =>
    message.block.header.height ≤ next.block.header.height :=
  lawful_bothEffects (lawful_rowEffects Accounts.guarded_effectsOf)
    (lawful_rowEffects (AccessKeys.guarded_effectsOf decoders))

/-- A part of the handling of a message, as a relation of the worlds. -/
abbrev StateStep (decoders : Decoders) (message : StreamerMessage) : World → World → Prop :=
  (stateEffects decoders).step (·.db.stateRows) message

section Message

variable {decoders : Decoders} {message : StreamerMessage} {shard : IndexerShard} {w w' : World}

/-! ### Accounts -/

theorem StateStep.guarded_accounts (h : StateStep decoders message w w') (accountId : AccountId) :
    w'.db.accounts.lookup accountId = w.db.accounts.lookup accountId ∨
      ∃ f, Guarded Account.lastUpdateBlockHeight message.block.header.height f ∧
        w'.db.accounts.lookup accountId = f (w.db.accounts.lookup accountId) :=
  guarded_of_part Accounts.guarded_effectsOf h.1 accountId

/-- A shard of the message has nothing left to do for the accounts. -/
def AccountsHandled (message : StreamerMessage) (shard : IndexerShard) (w : World) : Prop :=
  ∀ accountId, Accounts.blockEffect accountId (message.shardOutcomes shard) (w.db.accounts.lookup accountId) =
    w.db.accounts.lookup accountId

theorem stable_accountsHandled : Stable (StateStep decoders message) (AccountsHandled message shard) := by
  intro w w' hw hstep accountId
  rcases hstep.guarded_accounts accountId with hsame | ⟨f, hf, hact⟩
  · rw [hsame, hw accountId]
  · rw [hact, (Accounts.guarded_block accountId (message.shardOutcomes shard)).after_later hf (Nat.le_refl _)
      (hw accountId)]

theorem outline_handleAccounts_state (hsharded : Sharded message) (hshard : shard ∈ message.shards) :
    Outline False (StateStep decoders message) (StateStep decoders message) (fun _ => True)
      (Accounts.handleAccounts shard.receiptExecutionOutcomes message.block.header.height)
      fun _ => AccountsHandled message shard := by
  refine Accounts.outline_of_rowWrites fun _ writes hwrites hcall => ?_
  have hrows : ∀ write ∈ writes, ∀ (w : World) accountId, (write.run w).db.accounts.lookup accountId =
      write.effect accountId message.block.header.height (w.db.accounts.lookup accountId) :=
    fun write hwrite w accountId => Accounts.lookup_run (hwrites.atHeight write hwrite) w
  have hkeeps : ∀ write ∈ writes, ∀ w, StateStep decoders message w (write.run w) := by
    refine fun write hwrite w => ⟨fun accountId => ?_, fun _ => .inl rfl⟩
    show (write.run w).db.accounts.lookup accountId = w.db.accounts.lookup accountId ∨
      ∃ f ∈ Accounts.effectsOf message accountId,
        (write.run w).db.accounts.lookup accountId = f (w.db.accounts.lookup accountId)
    rw [hrows write hwrite]
    rcases hwrites.effect write hwrite accountId (w.db.accounts.lookup accountId) with hsame | hact
    · exact .inl hsame
    · rcases (Accounts.sharded_blockEffect hsharded accountId).1 shard hshard with hid | hall
      · exact .inl (hact.trans (congrFun hid _))
      · exact .inr ⟨_, List.mem_cons_self, hact.trans (congrFun hall _)⟩
  refine (outline_of_guarded (fun w => w.db.accounts.lookup) hcall hrows
    (fun write hwrite accountId => Accounts.guarded_effect (hwrites.atHeight write hwrite)) hkeeps
    fun w w' hstep => hstep.guarded_accounts).post fun _ w hidle accountId => ?_
  rcases hwrites.acts accountId (w.db.accounts.lookup accountId) with hsame | ⟨write, hwrite, hact⟩
  · exact hsame.symm
  · exact hact.symm.trans (hidle write hwrite accountId)

/-- The shards together leave nothing to do for the accounts. -/
theorem outline_accounts_state (hsharded : Sharded message) :
    Outline False (StateStep decoders message) (StateStep decoders message) (fun _ => True)
      (Prog.joinAll (message.shards.map fun shard =>
        Accounts.handleAccounts shard.receiptExecutionOutcomes message.block.header.height))
      fun _ w => (rowEffects Accounts.effectsOf).settled message w.db.accounts.lookup := by
  refine (Outline.joinAll_map (fun _ _ h => h) (.const _ True) (fun _ => stable_accountsHandled)
    fun shard hshard => outline_handleAccounts_state hsharded hshard).post fun _ w hw accountId f hf => ?_
  rw [List.mem_singleton.mp hf]
  rcases (Accounts.sharded_blockEffect hsharded accountId).2 with hid | ⟨shard, hshard, hall⟩
  · exact congrFun hid _
  · exact hall ▸ hw shard hshard accountId

/-! ### Access keys -/

theorem StateStep.guarded_accessKeys (h : StateStep decoders message w w') (key : PublicKey × AccountId) :
    w'.db.accessKeys.lookup key = w.db.accessKeys.lookup key ∨
      ∃ f, Guarded AccessKey.lastUpdateBlockHeight message.block.header.height f ∧
        w'.db.accessKeys.lookup key = f (w.db.accessKeys.lookup key) :=
  guarded_of_part (AccessKeys.guarded_effectsOf decoders) h.2 key

/-- A shard of the message has nothing left to do for the access keys. -/
def AccessKeysHandled (decoders : Decoders) (message : StreamerMessage) (shard : IndexerShard) (w : World) : Prop :=
  ∀ key, AccessKeys.Settled decoders (message.shardOutcomes shard) key (w.db.accessKeys.lookup key)

theorem stable_accessKeysHandled :
    Stable (StateStep decoders message) (AccessKeysHandled decoders message shard) := by
  intro w w' hw hstep key
  rcases hstep.guarded_accessKeys key with hsame | ⟨f, hf, hact⟩
  · rw [hsame]
    exact hw key
  · rw [hact]
    exact ⟨(AccessKeys.guarded_sweepEffect _ _).after_later hf (Nat.le_refl _) (hw key).1,
      (AccessKeys.guarded_entryEffect fun e he => (AccessKeys.wellFormed_entryOf he).height).after_later hf
        (Nat.le_refl _) (hw key).2⟩

theorem outline_handleAccessKeys_state (hsharded : Sharded message) (hshard : shard ∈ message.shards) :
    Outline False (StateStep decoders message) (StateStep decoders message) (fun _ => True)
      (AccessKeys.handleAccessKeys decoders shard.receiptExecutionOutcomes message.block.header.height)
      fun _ => AccessKeysHandled decoders message shard := by
  refine AccessKeys.outline_of_rowWrites fun _ writes hwrites hcall => ?_
  have hrows : ∀ write ∈ writes, ∀ (w : World) key, (write.run w).db.accessKeys.lookup key =
      write.effect key message.block.header.height (w.db.accessKeys.lookup key) :=
    fun write hwrite w key => AccessKeys.lookup_run (hwrites.atHeight write hwrite) w
  have hkeeps : ∀ write ∈ writes, ∀ w, StateStep decoders message w (write.run w) := by
    refine fun write hwrite w => ⟨fun _ => .inl rfl, fun key => ?_⟩
    show (write.run w).db.accessKeys.lookup key = w.db.accessKeys.lookup key ∨
      ∃ f ∈ AccessKeys.effectsOf decoders message key,
        (write.run w).db.accessKeys.lookup key = f (w.db.accessKeys.lookup key)
    rw [hrows write hwrite]
    exact AccessKeys.sharded_effects hsharded key hshard (hwrites.effect write hwrite key _)
  refine (outline_of_guarded (fun w => w.db.accessKeys.lookup) hcall hrows
    (fun write hwrite key => hwrites.guarded key write hwrite) hkeeps
    fun w w' hstep => hstep.guarded_accessKeys).post fun _ w hidle key => ⟨?_, ?_⟩
  · rcases hwrites.sweeps key (w.db.accessKeys.lookup key) with hsame | ⟨write, hwrite, hact⟩
    · exact hsame.symm
    · exact hact.symm.trans (hidle write hwrite key)
  · rcases hwrites.enters key (w.db.accessKeys.lookup key) with hsame | ⟨write, hwrite, hact⟩
    · exact hsame.symm
    · exact hact.symm.trans (hidle write hwrite key)

/-- The shards together leave nothing to do for the access keys. -/
theorem outline_accessKeys_state (hsharded : Sharded message) :
    Outline False (StateStep decoders message) (StateStep decoders message) (fun _ => True)
      (Prog.joinAll (message.shards.map fun shard =>
        AccessKeys.handleAccessKeys decoders shard.receiptExecutionOutcomes message.block.header.height))
      fun _ w => (rowEffects (AccessKeys.effectsOf decoders)).settled message w.db.accessKeys.lookup :=
  (Outline.joinAll_map (fun _ _ h => h) (.const _ True) (fun _ => stable_accessKeysHandled)
    fun _ hshard => outline_handleAccessKeys_state hsharded hshard).post fun _ _ hw key =>
      AccessKeys.settled_effectsOf.mpr
        (AccessKeys.settled_of_shards hsharded key fun shard hshard => hw shard hshard key)

/-! ### The whole message -/

/-- The rows of accounts and of access keys stay. -/
structure SameState (w w' : World) : Prop where
  rows : w'.db.stateRows = w.db.stateRows

theorem SameState.step (h : SameState w w') : StateStep decoders message w w' := by
  show (stateEffects decoders).part message w.db.stateRows w'.db.stateRows
  rw [h.rows]
  exact (lawful_stateEffects decoders).refl message _

theorem freeParentTables_sameState : FreeParentTables SameState :=
  ⟨fun _ _ => ⟨rfl⟩, fun _ _ => ⟨rfl⟩, fun _ _ => ⟨rfl⟩, fun _ _ => ⟨rfl⟩, fun _ _ => ⟨rfl⟩⟩

theorem freeReceiptTables_sameState : FreeReceiptTables SameState :=
  ⟨fun _ _ => ⟨rfl⟩, fun _ _ => ⟨rfl⟩, fun _ _ => ⟨rfl⟩, fun _ _ => ⟨rfl⟩, fun _ _ => ⟨rfl⟩, fun _ _ => ⟨rfl⟩⟩

/-- A task that leaves the rows alone. -/
theorem outline_of_sameState {α : Type} {p : Prog World α} (hp : Keeps SameState p) :
    Outline False (StateStep decoders message) (StateStep decoders message) (fun _ => True) p fun _ _ => True :=
  (hp.outline _).guarantee_mono fun _ _ h => h.step

/-- The handling of a message goes through parts of what the message does, and does it all. -/
theorem outline_handleMessage_state (decoders : Decoders) (hsharded : Sharded message) :
    Outline False (StateStep decoders message) (StateStep decoders message) (fun _ => True)
      (handleMessage decoders message true) fun _ w => (stateEffects decoders).settled message w.db.stateRows := by
  have hparents := freeParentTables_sameState
  have hreceipts := freeReceiptTables_sameState
  have hself : ∀ w w', StateStep decoders message w w' → StateStep decoders message w w' := fun _ _ h => h
  have htrue : Stable (StateStep decoders message) fun _ => True := .const _ True
  have haccounts : Stable (StateStep decoders message) fun w =>
      (rowEffects Accounts.effectsOf).settled message w.db.accounts.lookup := fun w w' hw hstep =>
    (lawful_rowEffects Accounts.guarded_effectsOf).later message message _ _ (Nat.le_refl _) hw hstep.1
  have haccessKeys : Stable (StateStep decoders message) fun w =>
      (rowEffects (AccessKeys.effectsOf decoders)).settled message w.db.accessKeys.lookup := fun w w' hw hstep =>
    (lawful_rowEffects (AccessKeys.guarded_effectsOf decoders)).later message message _ _ (Nat.le_refl _) hw hstep.2
  refine Outline.bind (outline_of_sameState (Blocks.onlyQueries_storeBlock (fun _ _ => ⟨rfl⟩) _).keeps) fun _ => ?_
  refine Outline.bind (outline_of_sameState (Blocks.onlyQueries_storeChunks (fun _ _ => ⟨rfl⟩) _ _).keeps) fun _ => ?_
  refine Outline.bind (outline_of_sameState (.both (Transactions.keeps_storeTransactions hparents _ _ _ _ _)
    (Receipts.keeps_storeReceipts hparents hreceipts _ _ _ _ _))) fun _ => ?_
  rw [if_pos rfl]
  refine (Outline.both hself htrue htrue (haccounts.and haccessKeys)
    (outline_of_sameState (ExecutionOutcomes.keeps_storeExecutionOutcomes hparents _ _)) ?_).post fun _ _ hw => hw.2
  refine Outline.both hself htrue haccounts haccessKeys (outline_accounts_state hsharded) ?_
  refine (Outline.both hself htrue haccessKeys htrue (outline_accessKeys_state hsharded) ?_).post fun _ _ hw => hw.1
  refine outline_of_sameState (.both ?_ (.both ?_ (.ret ())))
  · exact (Events.onlyQueries_storeEvents (fun _ _ => ⟨rfl⟩) (fun _ _ => ⟨rfl⟩) decoders message).keeps
  · exact (AccountChanges.onlyQueries_storeAccountChanges (fun _ _ => ⟨rfl⟩) _ _ _).keeps

end Message

end ExplorerIndexer

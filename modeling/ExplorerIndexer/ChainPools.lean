import ExplorerIndexer.ChainHandled
import ExplorerIndexer.GenesisImports
import ExplorerIndexer.ParentsRoots

/-! What any number of indexers of a chain can reach together, with messages in flight in any order and in either mode
and imports of the genesis, killed and restarted anywhere: apart from those of accounts and access keys, rows only get
into the database from the chain, refer to rows that are stored, and never change. -/

namespace ExplorerIndexer

open Async Store Models

/-! ### The import of the genesis beside messages -/

section Genesis

variable {decoders : Decoders} {chain : List StreamerMessage} {genesisHeight : Nat} {records : List StateRecord}
  {accounts : List Account} {accessKeys : List AccessKey}

theorem evolves_importInto (w : World) :
    Relation.ReflTransGen (Evolves decoders chain) w
      { w with db := Genesis.importInto accounts accessKeys w.db } := by
  have haccounts : Writes decoders chain w.db
      { w.db with accounts := w.db.accounts.insertAllNew (·.accountId) accounts } :=
    .accounts fun _ hid => Table.mem_insertAllNew.mpr (.inl hid)
  have hfirst : Evolves decoders chain w
      { w with db := { w.db with accounts := w.db.accounts.insertAllNew (·.accountId) accounts } } := .inr haccounts
  refine (Relation.ReflTransGen.single hfirst).tail (.inr ?_)
  exact .accessKeys fun _ hkey => Table.mem_insertAllNew.mpr (.inl hkey)

theorem Genesis.evolves_storeGenesisRecords :
    OnlyQueries (Evolves decoders chain) (storeGenesisRecords genesisHeight records) := by
  rw [storeGenesisRecords_eq]
  refine .forEach fun batch => ?_
  cases batch with
  | accounts batch =>
      refine onlyQueries_perform fun w b w' hok => ?_
      obtain ⟨db, hdb, rfl⟩ := execute_ok hok
      rw [(insertBatch_ok hdb).1]
      exact .inr (.accounts fun _ hid => Table.mem_insertAllNew.mpr (.inl hid))
  | accessKeys batch =>
      refine onlyQueries_perform fun w b w' hok => ?_
      rw [AccessKeys.insertAccessKeys_ok hok]
      exact .inr (.accessKeys fun _ hkey => Table.mem_insertAllNew.mpr (.inl hkey))

theorem sound_importInto {root : ReceiptOrDataId → CryptoHash} {w : World} (h : Parents.Sound chain root w) :
    Parents.Sound chain root { w with db := Genesis.importInto accounts accessKeys w.db } :=
  ⟨h.cache, h.transactions, h.receipts, h.outcomeReceipts, h.outputData⟩

/-- The accounts and access keys of the genesis are there. -/
structure GenesisStored (genesisHeight : Nat) (records : List StateRecord) (db : Database) : Prop where
  accounts : ∀ row ∈ records.filterMap (Genesis.accountOf genesisHeight), row.accountId ∈ db.accounts
  accessKeys : ∀ row ∈ records.filterMap (Genesis.accessKeyOf genesisHeight), row.key ∈ db.accessKeys

theorem genesisStored_imported (db : Database) :
    GenesisStored genesisHeight records (Genesis.imported genesisHeight records db) :=
  ⟨fun row hrow => Table.mem_insertAllNew.mpr (.inr ⟨row, hrow, rfl⟩),
    fun row hrow => Table.mem_insertAllNew.mpr (.inr ⟨row, hrow, rfl⟩)⟩

theorem GenesisStored.grows {db db' : Database} (h : GenesisStored genesisHeight records db)
    (hgrows : DatabaseGrows db db') :
    GenesisStored genesisHeight records db' :=
  ⟨fun row hrow => hgrows.accounts _ (h.accounts row hrow), fun row hrow => hgrows.accessKeys _ (h.accessKeys row hrow)⟩

end Genesis

theorem recorded_empty (decoders : Decoders) (chain : List StreamerMessage) : Recorded decoders chain {} := by
  have hnone : ∀ (name : TableName) k row, (name.get {}).lookup k ≠ some row := by
    intro name k row hrow
    cases name <;> cases hrow
  exact ⟨⟨fun name k row hrow => (hnone name k row hrow).elim, nofun, nofun, nofun⟩,
    ⟨fun name k row hrow => (hnone name k row hrow).elim, nofun, nofun, nofun⟩⟩

/-! ### Any number of indexers -/

/-- The tasks of indexers of the stream: messages that are handled and imports of the genesis. -/
def Indexes (decoders : Decoders) (stream : List StreamerMessage) (genesisHeight : Nat) (records : List StateRecord)
    (p : Prog World Unit) : Prop :=
  Handles decoders stream p ∨ p = Genesis.storeGenesisRecords genesisHeight records

/-- What indexers of the stream can reach together from an empty database. -/
def IndexersReach (decoders : Decoders) (stream : List StreamerMessage) (genesisHeight : Nat)
    (records : List StateRecord) (pool : Pool World) : Prop :=
  ∃ cache : ReceiptsCache, cache.entries = ∅ ∧
    PoolReachable (Indexes decoders stream genesisHeight records) Restarts ⟨cache, {}⟩ pool

section Pools

variable {decoders : Decoders} {stream : List StreamerMessage} {genesisHeight : Nat} {records : List StateRecord}
  {w w' : World}

theorem outline_indexes (p : Prog World Unit) (hp : Indexes decoders stream genesisHeight records p) :
    Outline False (Evolves decoders stream) (Evolves decoders stream) (fun w => Recorded decoders stream w.db) p
      fun _ _ => True := by
  rcases hp with ⟨message, hmessage, strictMode, rfl⟩ | rfl
  · exact (outline_handleMessage_evolves hmessage strictMode).post fun _ _ _ => trivial
  · exact (outline_evolves Genesis.evolves_storeGenesisRecords stable_recorded).post fun _ _ _ => trivial

theorem Restarts.recorded (h : Restarts w w') (hw : Recorded decoders stream w.db) : Recorded decoders stream w'.db :=
  h.2 ▸ hw

theorem Moves.grows (h : Moves (Evolves decoders stream) Restarts w w') : DatabaseGrows w.db w'.db := by
  rcases h with rfl | hstep | hrestart
  · exact .refl _
  · exact hstep.grows
  · exact hrestart.2 ▸ .refl _

theorem grows_of_moves (h : Relation.ReflTransGen (Moves (Evolves decoders stream) Restarts) w w') :
    DatabaseGrows w.db w'.db := by
  induction h with
  | refl => exact .refl _
  | tail _ hmoves ih => exact ih.trans (Moves.grows hmoves)

/-- Whatever the indexers do and wherever they are interrupted, each row of the tables whose rows are not updated is
under its own key, stems from a message of the stream and refers to rows that are stored. -/
theorem recorded_of_reachable (decoders : Decoders) (stream : List StreamerMessage) (genesisHeight : Nat)
    (records : List StateRecord) (pool : Pool World) (h : IndexersReach decoders stream genesisHeight records pool) :
    Recorded decoders stream pool.state.db := by
  obtain ⟨cache, _, hreach⟩ := h
  exact (hreach.invariant (recorded_empty decoders stream) stable_recorded (fun _ _ => Restarts.recorded)
    outline_indexes).1

/-- A message that is handled while nothing else happens. -/
theorem handleLocalReceipt_runs :
    Relation.ReflTransGen (PoolStep (Indexes .silent [Parents.localReceipt] 0 []) Restarts) ⟨[], emptyWorld⟩
      ⟨[], Parents.handleLocalReceipt.after 1 emptyWorld⟩ :=
  poolSteps_of_finishes (.inl ⟨_, List.mem_singleton_self _, true, rfl⟩) (finishes_after 1 (by decide))

theorem recorded_localReceipt :
    Recorded .silent [Parents.localReceipt] (Parents.handleLocalReceipt.after 1 emptyWorld).db :=
  recorded_of_reachable .silent [Parents.localReceipt] 0 [] ⟨[], Parents.handleLocalReceipt.after 1 emptyWorld⟩
    ⟨.withSize 10, rfl, PoolReachable.start.later handleLocalReceipt_runs⟩

/-- From any moment to any later one, over all interleavings, interruptions and restarts, no row of a table is changed
or taken out, no account or access key goes away, and the changes and events are only appended to. -/
theorem grows_of_reachable (decoders : Decoders) (stream : List StreamerMessage) (genesisHeight : Nat)
    (records : List StateRecord) (pool pool' : Pool World)
    (h : IndexersReach decoders stream genesisHeight records pool)
    (hlater : Relation.ReflTransGen (PoolStep (Indexes decoders stream genesisHeight records) Restarts) pool pool') :
    DatabaseGrows pool.state.db pool'.state.db := by
  obtain ⟨cache, _, hreach⟩ := h
  exact grows_of_moves (hreach.moves (recorded_empty decoders stream) stable_recorded (fun _ _ => Restarts.recorded)
    outline_indexes hlater)

theorem grows_localReceipt : DatabaseGrows {} (Parents.handleLocalReceipt.after 1 emptyWorld).db :=
  grows_of_reachable .silent [Parents.localReceipt] 0 [] ⟨[], emptyWorld⟩
    ⟨[], Parents.handleLocalReceipt.after 1 emptyWorld⟩ ⟨.withSize 10, rfl, .start⟩ handleLocalReceipt_runs

end Pools

end ExplorerIndexer

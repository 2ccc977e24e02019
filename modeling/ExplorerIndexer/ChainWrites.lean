import ExplorerIndexer.AsyncOutline
import ExplorerIndexer.ChainRows

/-! What a statement may do to the database while messages of a chain are handled, said once for all statements, and
what every statement keeps: rows stay, foreign keys hold, and each row has a message it stems from. -/

namespace ExplorerIndexer

open Async Store Models

/-- The changes of the database by the statements that handle messages of a chain. -/
inductive Writes (decoders : Decoders) (chain : List StreamerMessage) : Database → Database → Prop
  | insert {name : TableName} {batch : List name.Row} {db : Database}
      (hsource : ∀ row ∈ batch, OfChain decoders chain name db row) (hadmits : schema.Admits name batch db) :
      Writes decoders chain db (tables.insert name batch db)
  | accounts {t : Table AccountId Account} {db : Database} (hkept : ∀ accountId ∈ db.accounts, accountId ∈ t) :
      Writes decoders chain db { db with accounts := t }
  | accessKeys {t : Table (PublicKey × AccountId) AccessKey} {db : Database} (hkept : ∀ key ∈ db.accessKeys, key ∈ t) :
      Writes decoders chain db { db with accessKeys := t }
  | accountChanges {batch : List AccountChange} {db : Database}
      (hsource : ∀ row ∈ batch, ∃ message ∈ chain, row ∈ message.accountChangeRows)
      (hadmits : ∀ row ∈ batch, db.accountChangeReferences row = none) :
      Writes decoders chain db { db with accountChanges := db.accountChanges ++ batch }
  | fungibleTokenEvents {batch : List FungibleTokenEvent} {db : Database}
      (hsource : ∀ row ∈ batch, ∃ message ∈ chain, row ∈ message.ftEventRows decoders)
      (hadmits : ∀ row ∈ batch, db.hasReceipt row.emittedForReceiptId) :
      Writes decoders chain db { db with fungibleTokenEvents := db.fungibleTokenEvents ++ batch }
  | nonFungibleTokenEvents {batch : List NonFungibleTokenEvent} {db : Database}
      (hsource : ∀ row ∈ batch, ∃ message ∈ chain, row ∈ message.nftEventRows decoders)
      (hadmits : ∀ row ∈ batch, db.hasReceipt row.emittedForReceiptId) :
      Writes decoders chain db { db with nonFungibleTokenEvents := db.nonFungibleTokenEvents ++ batch }

/-- What was stored stays: rows as they are, accounts and access keys at least with some row. -/
structure DatabaseGrows (db db' : Database) : Prop where
  tables : tables.Extends db db'
  accounts : ∀ accountId ∈ db.accounts, accountId ∈ db'.accounts
  accessKeys : ∀ key ∈ db.accessKeys, key ∈ db'.accessKeys
  accountChanges : db.accountChanges <+: db'.accountChanges
  fungibleTokenEvents : db.fungibleTokenEvents <+: db'.fungibleTokenEvents
  nonFungibleTokenEvents : db.nonFungibleTokenEvents <+: db'.nonFungibleTokenEvents

/-- Every row obeys the foreign keys of its table. -/
structure ReferencesHold (db : Database) : Prop where
  tables : schema.Consistent db
  accountChanges : ∀ row ∈ db.accountChanges, db.accountChangeReferences row = none
  fungibleTokenEvents : ∀ row ∈ db.fungibleTokenEvents, db.hasReceipt row.emittedForReceiptId
  nonFungibleTokenEvents : ∀ row ∈ db.nonFungibleTokenEvents, db.hasReceipt row.emittedForReceiptId

/-- Every row stems from a message of the chain. -/
structure StemsFrom (decoders : Decoders) (chain : List StreamerMessage) (db : Database) : Prop where
  tables : tables.Sourced (OfChain decoders chain) db
  accountChanges : ∀ row ∈ db.accountChanges, ∃ message ∈ chain, row ∈ message.accountChangeRows
  fungibleTokenEvents : ∀ row ∈ db.fungibleTokenEvents, ∃ message ∈ chain, row ∈ message.ftEventRows decoders
  nonFungibleTokenEvents :
    ∀ row ∈ db.nonFungibleTokenEvents, ∃ message ∈ chain, row ∈ message.nftEventRows decoders

theorem DatabaseGrows.refl (db : Database) : DatabaseGrows db db :=
  ⟨.refl db, fun _ h => h, fun _ h => h, List.prefix_refl _, List.prefix_refl _, List.prefix_refl _⟩

theorem DatabaseGrows.trans {db db' db'' : Database} (h : DatabaseGrows db db') (h' : DatabaseGrows db' db'') :
    DatabaseGrows db db'' :=
  ⟨h.tables.trans h'.tables, fun _ hmem => h'.accounts _ (h.accounts _ hmem),
    fun _ hmem => h'.accessKeys _ (h.accessKeys _ hmem), h.accountChanges.trans h'.accountChanges,
    h.fungibleTokenEvents.trans h'.fungibleTokenEvents, h.nonFungibleTokenEvents.trans h'.nonFungibleTokenEvents⟩

theorem DatabaseGrows.receipts {db db' : Database} (h : DatabaseGrows db db') {receiptId : CryptoHash}
    (hmem : receiptId ∈ db.receipts) : receiptId ∈ db'.receipts := by
  obtain ⟨row, hrow⟩ := Table.mem_iff_lookup.mp hmem
  exact Table.mem_iff_lookup.mpr ⟨row, h.tables .receipts receiptId row hrow⟩

/-- An insert into one of the tables leaves the rest of the database alone. -/
structure SameBeside (db db' : Database) : Prop where
  accounts : db'.accounts = db.accounts
  accessKeys : db'.accessKeys = db.accessKeys
  accountChanges : db'.accountChanges = db.accountChanges
  fungibleTokenEvents : db'.fungibleTokenEvents = db.fungibleTokenEvents
  nonFungibleTokenEvents : db'.nonFungibleTokenEvents = db.nonFungibleTokenEvents

theorem sameBeside_insert (name : TableName) (batch : List name.Row) (db : Database) :
    SameBeside db (tables.insert name batch db) := by
  cases name <;> exact ⟨rfl, rfl, rfl, rfl, rfl⟩

section Writes

variable {decoders : Decoders} {chain : List StreamerMessage} {db db' : Database}

/-- On the tables, a statement is a step of the schema. -/
theorem Writes.step (h : Writes decoders chain db db') : schema.Step (OfChain decoders chain) db db' := by
  cases h with
  | insert hsource hadmits => exact .insert hsource hadmits
  | accounts _ => exact .aside fun name => by cases name <;> rfl
  | accessKeys _ => exact .aside fun name => by cases name <;> rfl
  | accountChanges _ _ => exact .aside fun name => by cases name <;> rfl
  | fungibleTokenEvents _ _ => exact .aside fun name => by cases name <;> rfl
  | nonFungibleTokenEvents _ _ => exact .aside fun name => by cases name <;> rfl

theorem Writes.grows (h : Writes decoders chain db db') : DatabaseGrows db db' := by
  have htables := h.step.extends
  cases h with
  | insert _ _ =>
      obtain ⟨haccounts, haccessKeys, hchanges, hft, hnft⟩ := sameBeside_insert _ _ db
      refine ⟨htables, fun _ hmem => ?_, fun _ hmem => ?_, ?_, ?_, ?_⟩
      · rwa [haccounts]
      · rwa [haccessKeys]
      · exact hchanges.symm ▸ List.prefix_refl _
      · exact hft.symm ▸ List.prefix_refl _
      · exact hnft.symm ▸ List.prefix_refl _
  | accounts hkept => exact { DatabaseGrows.refl db with tables := htables, accounts := hkept }
  | accessKeys hkept => exact { DatabaseGrows.refl db with tables := htables, accessKeys := hkept }
  | accountChanges _ _ =>
      exact { DatabaseGrows.refl db with tables := htables, accountChanges := List.prefix_append _ _ }
  | fungibleTokenEvents _ _ =>
      exact { DatabaseGrows.refl db with tables := htables, fungibleTokenEvents := List.prefix_append _ _ }
  | nonFungibleTokenEvents _ _ =>
      exact { DatabaseGrows.refl db with tables := htables, nonFungibleTokenEvents := List.prefix_append _ _ }

theorem hasReceipt_extends {receiptId : CryptoHash} (hgrows : DatabaseGrows db db')
    (h : db.hasReceipt receiptId = true) :
    db'.hasReceipt receiptId = true := decide_mem_extends hgrows.tables .receipts receiptId h

/-- Rows that obey the foreign keys do so after a statement that keeps everything and adds such rows. -/
theorem ReferencesHold.grows (h : ReferencesHold db) (hgrows : DatabaseGrows db db') (htables : schema.Consistent db')
    (hchanges : ∀ row ∈ db'.accountChanges, row ∈ db.accountChanges ∨ db.accountChangeReferences row = none)
    (hft : ∀ row ∈ db'.fungibleTokenEvents,
      row ∈ db.fungibleTokenEvents ∨ db.hasReceipt row.emittedForReceiptId = true)
    (hnft : ∀ row ∈ db'.nonFungibleTokenEvents,
      row ∈ db.nonFungibleTokenEvents ∨ db.hasReceipt row.emittedForReceiptId = true) : ReferencesHold db' := by
  refine ⟨htables, fun row hrow => ?_, fun row hrow => ?_, fun row hrow => ?_⟩
  · exact accountChangeReferences_extends hgrows.tables hgrows.accounts
      ((hchanges row hrow).elim (h.accountChanges row) id)
  · exact hasReceipt_extends hgrows ((hft row hrow).elim (h.fungibleTokenEvents row) id)
  · exact hasReceipt_extends hgrows ((hnft row hrow).elim (h.nonFungibleTokenEvents row) id)

theorem Writes.referencesHold (h : Writes decoders chain db db') (hdb : ReferencesHold db) : ReferencesHold db' := by
  have hgrows := h.grows
  have htables := h.step.consistent hdb.tables
  cases h with
  | insert _ _ =>
      obtain ⟨_, _, hchanges, hft, hnft⟩ := sameBeside_insert _ _ db
      exact hdb.grows hgrows htables (fun row hrow => .inl (hchanges ▸ hrow)) (fun row hrow => .inl (hft ▸ hrow))
        fun row hrow => .inl (hnft ▸ hrow)
  | accounts _ => exact hdb.grows hgrows htables (fun _ => .inl) (fun _ => .inl) fun _ => .inl
  | accessKeys _ => exact hdb.grows hgrows htables (fun _ => .inl) (fun _ => .inl) fun _ => .inl
  | accountChanges _ hadmits =>
      refine hdb.grows hgrows htables (fun row hrow => ?_) (fun _ => .inl) fun _ => .inl
      exact (List.mem_append.mp hrow).imp_right (hadmits row)
  | fungibleTokenEvents _ hadmits =>
      refine hdb.grows hgrows htables (fun _ => .inl) (fun row hrow => ?_) fun _ => .inl
      exact (List.mem_append.mp hrow).imp_right (hadmits row)
  | nonFungibleTokenEvents _ hadmits =>
      refine hdb.grows hgrows htables (fun _ => .inl) (fun _ => .inl) fun row hrow => ?_
      exact (List.mem_append.mp hrow).imp_right (hadmits row)

theorem Writes.stemsFrom (h : Writes decoders chain db db') (hdb : StemsFrom decoders chain db) :
    StemsFrom decoders chain db' := by
  have htables := h.step.sourced (lasting_ofChain decoders chain) hdb.tables
  cases h with
  | insert _ _ =>
      obtain ⟨_, _, hchanges, hft, hnft⟩ := sameBeside_insert _ _ db
      exact ⟨htables, hchanges ▸ hdb.accountChanges, hft ▸ hdb.fungibleTokenEvents,
        hnft ▸ hdb.nonFungibleTokenEvents⟩
  | accounts _ => exact { hdb with tables := htables }
  | accessKeys _ => exact { hdb with tables := htables }
  | accountChanges hsource _ =>
      refine { hdb with tables := htables, accountChanges := fun row hrow => ?_ }
      exact (List.mem_append.mp hrow).elim (hdb.accountChanges row) (hsource row)
  | fungibleTokenEvents hsource _ =>
      refine { hdb with tables := htables, fungibleTokenEvents := fun row hrow => ?_ }
      exact (List.mem_append.mp hrow).elim (hdb.fungibleTokenEvents row) (hsource row)
  | nonFungibleTokenEvents hsource _ =>
      refine { hdb with tables := htables, nonFungibleTokenEvents := fun row hrow => ?_ }
      exact (List.mem_append.mp hrow).elim (hdb.nonFungibleTokenEvents row) (hsource row)

end Writes

/-! ### The invariant of the database -/

/-- Foreign keys hold and rows stem from the chain. -/
structure Recorded (decoders : Decoders) (chain : List StreamerMessage) (db : Database) : Prop where
  references : ReferencesHold db
  stems : StemsFrom decoders chain db

/-- What tasks that handle messages of a chain do to the state they share. -/
def Evolves (decoders : Decoders) (chain : List StreamerMessage) (w w' : World) : Prop :=
  w'.db = w.db ∨ Writes decoders chain w.db w'.db

variable {decoders : Decoders} {chain : List StreamerMessage}

theorem Evolves.grows {w w' : World} (h : Evolves decoders chain w w') : DatabaseGrows w.db w'.db := by
  rcases h with hsame | hwrites
  · exact hsame ▸ .refl w.db
  · exact hwrites.grows

/-- An assertion on the database that no statement breaks. -/
theorem stable_evolves {P : Database → Prop} (h : ∀ db db', Writes decoders chain db db' → P db → P db') :
    Stable (Evolves decoders chain) fun w => P w.db := by
  rintro w w' hw (hsame | hwrites)
  · rwa [hsame]
  · exact h _ _ hwrites hw

theorem stable_recorded : Stable (Evolves decoders chain) fun w => Recorded decoders chain w.db :=
  stable_evolves fun _ _ h hdb => ⟨h.referencesHold hdb.references, h.stemsFrom hdb.stems⟩

/-- What is stored stays stored. -/
theorem stable_of_grows {P : Database → Prop} (h : ∀ db db', DatabaseGrows db db' → P db → P db') :
    Stable (Evolves decoders chain) fun w => P w.db := fun _ _ hw hevolves => h _ _ hevolves.grows hw

end ExplorerIndexer

import ExplorerIndexer.TransactionsComplete

/-! The actions of stored transactions. Both phases insert the actions of a transaction under its hash without the
suffix, so the actions of a transaction with a collided hash are not under the hash of its row. -/

namespace ExplorerIndexer.Collisions

open Async Store Models Transactions

/-- The table of actions has these under a hash: one row for each, in order, and no others. -/
def HasActions (decoders : Decoders) (db : Database) (hash : ParentTransactionHashString) (actions : List ActionView) :
    Prop :=
  ∀ index, db.transactionActions.lookup (hash, index) =
    actions[index]?.map fun action => .fromActionView decoders hash index action

/-- The transaction of a message has a row, and its actions are under the hash of this row. -/
def StoredWithActions (decoders : Decoders) (message : StreamerMessage) (tx : IndexerTransactionWithOutcome)
    (db : Database) : Prop :=
  ∃ hash row, db.transactions.lookup hash = some row ∧ IsRow message tx hash row ∧
    HasActions decoders db hash tx.transaction.actions

/-- A database in which every stored transaction has its actions, and every action its transaction. -/
structure ActionsComplete (decoders : Decoders) (stream : List StreamerMessage) (db : Database) : Prop where
  wellStored : WellStored stream db
  references : ∀ hash index, (hash, index) ∈ db.transactionActions → hash ∈ db.transactions
  actions : ∀ message ∈ stream, ∀ tx ∈ message.transactions, ∀ hash row, db.transactions.lookup hash = some row →
    IsRow message tx hash row → HasActions decoders db hash tx.transaction.actions

/-- What storing the transactions of a message makes of the tables of a database: what was there stays, new rows are
of its transactions, and their actions are under the hashes without a suffix. -/
structure AddsTo (decoders : Decoders) (message : StreamerMessage) (db : Database) (w : World) : Prop where
  transactions : ∀ hash row, w.db.transactions.lookup hash = some row → db.transactions.lookup hash = some row ∨
    ∃ tx ∈ message.transactions, row.convertedIntoReceiptId = tx.convertedIntoReceiptId ∧
      (hash = plainHash tx ∨ hash = suffixedHash message tx)
  kept : ∀ key row, db.transactionActions.lookup key = some row → w.db.transactionActions.lookup key = some row
  actions : ∀ hash index row, w.db.transactionActions.lookup (hash, index) = some row →
    db.transactionActions.lookup (hash, index) = some row ∨ ∃ tx ∈ message.transactions, hash = plainHash tx ∧
      tx.transaction.actions[index]?.map (fun action => .fromActionView decoders hash index action) = some row

/-- A step of the storing: what was added stays. -/
structure Adding (decoders : Decoders) (message : StreamerMessage) (db : Database) (w w' : World) : Prop where
  addsTo : AddsTo decoders message db w → AddsTo decoders message db w'
  kept : ∀ key, key ∈ w.db.transactionActions → key ∈ w'.db.transactionActions

section Storing

variable {decoders : Decoders} {message : StreamerMessage} {db : Database} {w w' : World}

theorem stable_addsTo : Stable (Adding decoders message db) (AddsTo decoders message db) :=
  fun _ _ hw hstep => hstep.addsTo hw

theorem Adding.of_tables (htransactions : w'.db.transactions = w.db.transactions)
    (hactions : w'.db.transactionActions = w.db.transactionActions) : Adding decoders message db w w' := by
  refine ⟨fun hw => ⟨?_, ?_, ?_⟩, fun key hkey => by rwa [hactions]⟩
  · rw [htransactions]
    exact hw.transactions
  · rw [hactions]
    exact hw.kept
  · rw [hactions]
    exact hw.actions

theorem adding_addTransactions {suffix : String} {entries : List (IndexerTransactionWithOutcome × Nat)}
    {chunkHash blockHash : CryptoHash} {blockTimestamp : Nat}
    (hentries : ∀ entry ∈ entries, entry.1 ∈ message.transactions)
    (hsuffix : suffix = "" ∨ suffix = issue84Suffix message.block.header.height) : Adding decoders message db w
      (w.addTransactions (transactionModels entries chunkHash blockHash blockTimestamp suffix)) := by
  refine ⟨fun hw => ⟨fun hash row hrow => ?_, hw.kept, hw.actions⟩, fun _ hkey => hkey⟩
  rcases of_lookup_addTransactions hrow with hold | ⟨entry, hentry, rfl, rfl⟩
  · exact hw.transactions hash row hold
  · refine .inr ⟨entry.1, hentries entry hentry, rfl, ?_⟩
    rcases hsuffix with rfl | rfl
    · exact .inl (hashWithSuffix_empty entry.1)
    · exact .inr rfl

/-- The model of an action is under the hash of its transaction and its position. -/
theorem mem_transactionActionModels {entries : List (IndexerTransactionWithOutcome × Nat)} {row : TransactionAction} :
    row ∈ transactionActionModels decoders entries ↔ ∃ entry ∈ entries, ∃ index action,
      entry.1.transaction.actions[index]? = some action ∧
        row = .fromActionView decoders (plainHash entry.1) index action := by
  simp only [transactionActionModels, List.mem_flatMap, List.mem_map]
  constructor
  · rintro ⟨entry, hentry, ⟨action, index⟩, hzip, rfl⟩
    exact ⟨entry, hentry, index, action, List.mem_zipIdx_iff_getElem?.mp hzip, rfl⟩
  · rintro ⟨entry, hentry, index, action, haction, rfl⟩
    exact ⟨entry, hentry, (action, index), List.mem_zipIdx_iff_getElem?.mpr haction, rfl⟩

/-- The state after an insert of actions. -/
def addActions (batch : List TransactionAction) (w : World) : World :=
  { w with db := { w.db with
    transactionActions := w.db.transactionActions.insertAllNew TransactionAction.key batch } }

theorem adding_addActions {entries : List (IndexerTransactionWithOutcome × Nat)}
    (hentries : ∀ entry ∈ entries, entry.1 ∈ message.transactions) :
    Adding decoders message db w (addActions (transactionActionModels decoders entries) w) := by
  refine ⟨fun hw => ⟨hw.transactions, fun key row hrow => ?_, fun hash index row hrow => ?_⟩, fun key hkey => ?_⟩
  · exact Table.lookup_insertAllNew_of_some (hw.kept key row hrow)
  · rcases Table.mem_of_lookup_insertAllNew hrow with hold | ⟨_, hnew, hkey⟩
    · exact hw.actions hash index row hold
    · obtain ⟨entry, hentry, position, action, haction, rfl⟩ := mem_transactionActionModels.mp hnew
      have hboth : (plainHash entry.1, position) = (hash, index) := hkey
      obtain ⟨rfl, rfl⟩ := Prod.mk.inj hboth
      exact .inr ⟨entry.1, hentries entry hentry, rfl, by rw [haction]; rfl⟩
  · exact Table.mem_insertAllNew.mpr (.inl hkey)

theorem mem_addActions {entries : List (IndexerTransactionWithOutcome × Nat)}
    {entry : IndexerTransactionWithOutcome × Nat} (hentry : entry ∈ entries) {index : Nat}
    (hindex : index < entry.1.transaction.actions.length) :
    (plainHash entry.1, index) ∈ (addActions (transactionActionModels decoders entries) w).db.transactionActions :=
  Table.mem_insertAllNew.mpr (.inr ⟨_, mem_transactionActionModels.mpr
    ⟨entry, hentry, index, _, List.getElem?_eq_getElem hindex, rfl⟩, rfl⟩)

/-- The actions of a transaction are all under its hash, or those of another one are. -/
def ActionsPresent (tx : IndexerTransactionWithOutcome) (w : World) : Prop :=
  ∀ index < tx.transaction.actions.length, (plainHash tx, index) ∈ w.db.transactionActions

theorem stable_actionsPresent (tx : IndexerTransactionWithOutcome) :
    Stable (Adding decoders message db) (ActionsPresent tx) :=
  fun _ _ hw hstep index hindex => hstep.kept _ (hw index hindex)

theorem outline_storeChunkActions {suffix : String} {entries : List (IndexerTransactionWithOutcome × Nat)}
    {chunkHash blockHash : CryptoHash} {blockTimestamp : Nat}
    (hentries : ∀ entry ∈ entries, entry.1 ∈ message.transactions)
    (hsuffix : suffix = "" ∨ suffix = issue84Suffix message.block.header.height) :
    Outline False (Adding decoders message db) (Adding decoders message db) (AddsTo decoders message db)
      (storeChunkTransactions decoders entries chunkHash blockHash blockTimestamp suffix)
      fun _ w => AddsTo decoders message db w ∧ ∀ entry ∈ entries, ActionsPresent entry.1 w := by
  have hpost : Stable (Adding decoders message db) fun w =>
      AddsTo decoders message db w ∧ ∀ entry ∈ entries, ActionsPresent entry.1 w :=
    stable_addsTo.and fun w w' hw hstep entry hentry => stable_actionsPresent entry.1 w w' (hw entry hentry) hstep
  refine Outline.bind (outline_updateCache (fun w hw => ?_) stable_addsTo) fun _ => ?_
  · have hstep : Adding decoders message db w { w with cache := cacheTransactions suffix entries w.cache } :=
      .of_tables rfl rfl
    exact ⟨hstep, hstep.addsTo hw⟩
  refine Outline.bind (outline_insert False.elim (fun w hw _ => ?_) stable_addsTo) fun _ => ?_
  · have hstep : Adding decoders message db w
        (w.addTransactions (transactionModels entries chunkHash blockHash blockTimestamp suffix)) :=
      adding_addTransactions hentries hsuffix
    exact ⟨hstep, hstep.addsTo hw⟩
  refine Outline.bind (outline_insert False.elim (fun w hw _ => ?_) hpost) fun _ => .ret fun _ h => h
  have hstep : Adding decoders message db w (addActions (transactionActionModels decoders entries) w) :=
    adding_addActions hentries
  exact ⟨hstep, hstep.addsTo hw, fun entry hentry index hindex => mem_addActions hentry hindex⟩

/-- The first phase inserts the actions of every transaction, the second none that are not there. -/
theorem outline_storeTransactions_actions : Outline False (Adding decoders message db) (Adding decoders message db)
    (AddsTo decoders message db) (storeTransactionsCall decoders message)
    fun _ w => AddsTo decoders message db w ∧ ∀ tx ∈ message.transactions, ActionsPresent tx w := by
  have hpresent : Stable (Adding decoders message db) fun w => ∀ tx ∈ message.transactions, ActionsPresent tx w :=
    fun w w' hw hstep tx htx => stable_actionsPresent tx w w' (hw tx htx) hstep
  have hmem : ∀ chunk ∈ chunksOf message.shards, ∀ entry ∈ chunk.transactions.zipIdx,
      entry.1 ∈ message.transactions :=
    fun chunk hchunk entry hentry => List.mem_flatMap.mpr ⟨chunk, hchunk, List.fst_mem_of_mem_zipIdx hentry⟩
  refine Outline.bind (M := fun _ w => AddsTo decoders message db w ∧
    ∀ tx ∈ message.transactions, ActionsPresent tx w) ?_ fun _ => ?_
  · have hpost : ∀ chunk : { chunk // chunk ∈ chunksOf message.shards }, Stable (Adding decoders message db)
        fun w => ∀ entry ∈ chunk.1.transactions.zipIdx, ActionsPresent entry.1 w :=
      fun chunk w w' hw hstep entry hentry => stable_actionsPresent entry.1 w w' (hw entry hentry) hstep
    rw [← List.attach_map_subtype_val (chunksOf message.shards), List.map_map]
    refine (((Outline.joinAll_map (fun _ _ h => h) stable_addsTo hpost fun chunk _ =>
      (outline_storeChunkActions (hmem chunk.1 chunk.2) (.inl rfl)).post fun _ _ hw => hw.2).frame stable_addsTo
      stable_addsTo).pre fun _ hw => ⟨hw, hw⟩).post fun _ w hw => ⟨hw.2, fun tx htx => ?_⟩
    obtain ⟨chunk, hchunk, htx⟩ := List.mem_flatMap.mp htx
    obtain ⟨i, hi⟩ := List.mem_iff_getElem?.mp htx
    exact hw.1 ⟨chunk, hchunk⟩ (List.mem_attach _ _) (tx, i) (List.mk_mem_zipIdx_iff_getElem?.mpr hi)
  refine Outline.bind (outline_collectConvertedToReceiptIds (fun w hw => ⟨.of_tables rfl rfl, hw⟩)
    fun _ => stable_addsTo.and hpresent) fun ids => ?_
  split
  · exact .ret fun _ h => h
  · refine (Outline.frame (Outline.joinAll (fun _ _ h => h) stable_addsTo fun task htask => ?_) hpresent
      hpresent).post fun _ _ hw => hw
    obtain ⟨chunk, hchunk, rfl⟩ := List.mem_map.mp htask
    refine (outline_storeChunkActions (fun entry hentry => ?_) (.inr rfl)).post fun _ _ hw => hw.1
    exact hmem chunk hchunk entry (mem_collidedTransactions.mp hentry).1

end Storing

/-! ### The actions of a block -/

section Block

variable {decoders : Decoders} {stream : List StreamerMessage} {message : StreamerMessage}
  {tx : IndexerTransactionWithOutcome} {db : Database} {w : World}

/-- Under the hash of a transaction are the actions that were there before, or else its own. -/
theorem AddsTo.lookup_plainHash (hchain : Chain stream) (hmessage : message ∈ stream) (htx : tx ∈ message.transactions)
    (h : AddsTo decoders message db w) (hpresent : ActionsPresent tx w) (index : Nat) :
    w.db.transactionActions.lookup (plainHash tx, index) =
      (db.transactionActions.lookup (plainHash tx, index)).or
        (tx.transaction.actions[index]?.map fun action => .fromActionView decoders (plainHash tx) index action) := by
  cases hbefore : db.transactionActions.lookup (plainHash tx, index) with
  | some row => rw [h.kept _ row hbefore, Option.some_or]
  | none =>
      rw [Option.none_or]
      have hnew : ∀ row, w.db.transactionActions.lookup (plainHash tx, index) = some row →
          tx.transaction.actions[index]?.map (fun action => .fromActionView decoders (plainHash tx) index action) =
            some row := by
        intro row hrow
        rcases h.actions _ _ _ hrow with hold | ⟨tx', htx', hhash, hmodel⟩
        · rw [hbefore] at hold
          cases hold
        · obtain rfl : tx = tx' := List.inj_on_of_nodup_map (hchain.hashes message hmessage) htx htx'
            (CryptoHash.text_injective hhash)
          exact hmodel
      cases hafter : w.db.transactionActions.lookup (plainHash tx, index) with
      | some row => exact (hnew row hafter).symm
      | none =>
          have hlength : tx.transaction.actions.length ≤ index := by
            by_contra hlt
            obtain ⟨row, hrow⟩ := Table.mem_iff_lookup.mp (hpresent index (not_le.mp hlt))
            rw [hafter] at hrow
            cases hrow
          rw [List.getElem?_eq_none hlength, Option.map_none]

/-- Nothing is added under a hash that no transaction of the block has. -/
theorem AddsTo.lookup_other (h : AddsTo decoders message db w) {hash : ParentTransactionHashString}
    (hother : ∀ tx ∈ message.transactions, hash ≠ plainHash tx) (index : Nat) :
    w.db.transactionActions.lookup (hash, index) = db.transactionActions.lookup (hash, index) := by
  cases hafter : w.db.transactionActions.lookup (hash, index) with
  | some row =>
      rcases h.actions _ _ _ hafter with hold | ⟨tx, htx, hhash, _⟩
      · exact hold.symm
      · exact (hother tx htx hhash).elim
  | none =>
      cases hbefore : db.transactionActions.lookup (hash, index) with
      | none => rfl
      | some row =>
          rw [h.kept _ row hbefore] at hafter
          cases hafter

theorem AddsTo.lookup_suffixedHash (h : AddsTo decoders message db w) (index : Nat) :
    w.db.transactionActions.lookup (suffixedHash message tx, index) =
      db.transactionActions.lookup (suffixedHash message tx, index) :=
  h.lookup_other (fun tx' _ hhash => plainHash_ne_suffixedHash tx' message tx hhash.symm) index

/-- A hash that is taken in the end was taken before: the transactions of the block have different hashes. -/
theorem AddsTo.taken_iff (hchain : Chain stream) (hmessage : message ∈ stream) (htx : tx ∈ message.transactions)
    (h : AddsTo decoders message db w)
    (hrows : ∀ hash row, db.transactions.lookup hash = some row → w.db.transactions.lookup hash = some row) :
    Taken tx w.db ↔ Taken tx db := by
  constructor
  · rintro ⟨row, hrow, hne⟩
    rcases h.transactions _ row hrow with hold | ⟨tx', htx', hconverted, hplain | hsuffixed⟩
    · exact ⟨row, hold, hne⟩
    · have hsame : tx = tx' := List.inj_on_of_nodup_map (hchain.hashes message hmessage) htx htx'
        (CryptoHash.text_injective hplain)
      exact absurd (hsame ▸ hconverted) hne
    · exact (plainHash_ne_suffixedHash tx message tx' hsuffixed).elim
  · rintro ⟨row, hrow, hne⟩
    exact ⟨row, hrows _ row hrow, hne⟩

/-- No action is stored without its transaction. -/
theorem ActionsComplete.lookup_eq_none (hcomplete : ActionsComplete decoders stream db)
    {hash : ParentTransactionHashString} (hnot : hash ∉ db.transactions) (index : Nat) :
    db.transactionActions.lookup (hash, index) = none :=
  AList.lookup_eq_none.mpr fun hmem => hnot (hcomplete.references hash index hmem)

/-- A row that was there before has its actions. -/
theorem ActionsComplete.hasActions (hcomplete : ActionsComplete decoders stream db) (hmessage : message ∈ stream)
    (htx : tx ∈ message.transactions) {hash : ParentTransactionHashString} {row : Transaction}
    (hmem : hash ∈ db.transactions) (hrow : w.db.transactions.lookup hash = some row) (his : IsRow message tx hash row)
    (hrows : ∀ hash row, db.transactions.lookup hash = some row → w.db.transactions.lookup hash = some row) :
    HasActions decoders db hash tx.transaction.actions := by
  obtain ⟨before, hbefore⟩ := Table.mem_iff_lookup.mp hmem
  obtain rfl : before = row := Option.some.inj ((hrows hash before hbefore).symm.trans hrow)
  exact hcomplete.actions message hmessage tx htx hash before hbefore his

/-- A transaction of the block has its actions if it is stored under its hash, or with a suffix from before, or if it
has none. -/
theorem storedWithActions_iff (hchain : Chain stream) (hmessage : message ∈ stream) (htx : tx ∈ message.transactions)
    (hcomplete : ActionsComplete decoders stream db) (h : AddsTo decoders message db w)
    (hpresent : ActionsPresent tx w) (hplaced : Placed message tx w.db) (hstored : WellStored stream w.db)
    (hrows : ∀ hash row, db.transactions.lookup hash = some row → w.db.transactions.lookup hash = some row) :
    StoredWithActions decoders message tx w.db ↔
      (Taken tx db → suffixedHash message tx ∈ db.transactions ∨ tx.transaction.actions = []) := by
  constructor
  · rintro ⟨hash, row, hrow, his, hactions⟩ ⟨other, hother, hne⟩
    rcases (hstored.of_converted hchain hmessage htx hrow his.converted).2 with rfl | ⟨rfl, _⟩
    · -- the row of the other transaction is still there
      obtain rfl : other = row := Option.some.inj ((hrows _ other hother).symm.trans hrow)
      exact absurd his.converted hne
    · by_cases hmem : suffixedHash message tx ∈ db.transactions
      · exact .inl hmem
      · have hfirst := hactions 0
        rw [h.lookup_suffixedHash, hcomplete.lookup_eq_none hmem] at hfirst
        have hlength := List.getElem?_eq_none_iff.mp (Option.map_eq_none_iff.mp hfirst.symm)
        exact .inr (List.eq_nil_of_length_eq_zero (Nat.le_zero.mp hlength))
  · intro hcondition
    obtain ⟨hash, row, hrow, his⟩ := hplaced
    refine ⟨hash, row, hrow, his, fun index => ?_⟩
    rcases (hstored.of_converted hchain hmessage htx hrow his.converted).2 with rfl | ⟨rfl, htaken⟩
    · rw [h.lookup_plainHash hchain hmessage htx hpresent]
      by_cases hmem : plainHash tx ∈ db.transactions
      · rw [hcomplete.hasActions hmessage htx hmem hrow his hrows index, Option.or_self]
      · rw [hcomplete.lookup_eq_none hmem, Option.none_or]
    · rw [h.lookup_suffixedHash]
      by_cases hmem : suffixedHash message tx ∈ db.transactions
      · exact hcomplete.hasActions hmessage htx hmem hrow his hrows index
      · have hnone := (hcondition ((h.taken_iff hchain hmessage htx hrows).mp htaken)).resolve_left hmem
        rw [hcomplete.lookup_eq_none hmem, hnone, List.getElem?_nil, Option.map_none]

/-- What a call that has returned has done to the two tables. -/
structure Stores (decoders : Decoders) (stream : List StreamerMessage) (message : StreamerMessage) (w w' : World) :
    Prop where
  wellStored : WellStored stream w'.db
  placed : ∀ tx ∈ message.transactions, Placed message tx w'.db
  rows : ∀ hash row, w.db.transactions.lookup hash = some row → w'.db.transactions.lookup hash = some row
  addsTo : AddsTo decoders message w.db w'
  present : ∀ tx ∈ message.transactions, ActionsPresent tx w'

theorem stores_of_finishes (hchain : Chain stream) (hmessage : message ∈ stream) (hstored : WellStored stream w.db)
    {w' : World} (hrun : Finishes (storeTransactionsCall decoders message) w () w') :
    Stores decoders stream message w w' := by
  have hrows : Stable (KeepsStored stream) fun w' =>
      ∀ hash row, w.db.transactions.lookup hash = some row → w'.db.transactions.lookup hash = some row :=
    fun _ _ hw hstep hash row hrow => hstep.rows hash row (hw hash row hrow)
  have hstoring := ((outline_storeTransactions decoders hchain hmessage hmessage
    fun _ _ _ => trivial).guarantee_mono fun _ _ h => h.kept).frame hrows hrows
  obtain ⟨⟨hplaced, hstored'⟩, hkept⟩ :=
    hstoring.finishes ⟨hstored, fun _ _ h => h⟩ (stable_wellStored.and hrows) hrun
  have hstart : AddsTo decoders message w.db w := ⟨fun _ _ h => .inl h, fun _ _ h => h, fun _ _ _ h => .inl h⟩
  obtain ⟨hadds, hpresent⟩ := outline_storeTransactions_actions.finishes hstart stable_addsTo hrun
  exact ⟨hstored', hplaced, hkept, hadds, hpresent⟩

/-- After the transactions of a block were stored, each of them has its actions under the hash of its row, exactly when
those with a collided hash were stored with their suffix and their actions before, or have no actions. -/
theorem stored_with_actions_iff (hchain : Chain stream) (hmessage : message ∈ stream)
    (hcomplete : ActionsComplete decoders stream w.db) {w' : World}
    (hrun : Finishes (storeTransactions decoders message.shards message.block.header.hash
      message.block.header.timestamp message.block.header.height) w () w') :
    (∀ tx ∈ message.transactions, StoredWithActions decoders message tx w'.db) ↔
      ∀ tx ∈ message.transactions, Taken tx w.db →
        suffixedHash message tx ∈ w.db.transactions ∨ tx.transaction.actions = [] := by
  have hstores : Stores decoders stream message w w' := stores_of_finishes hchain hmessage hcomplete.wellStored hrun
  refine forall₂_congr fun tx htx => ?_
  exact storedWithActions_iff hchain hmessage htx hcomplete hstores.addsTo (hstores.present tx htx)
    (hstores.placed tx htx) hstores.wellStored hstores.rows

/-- As long as no hash collides, every stored transaction keeps its actions and every action its transaction. -/
theorem Stores.complete_of_apart (hchain : Chain stream) (hmessage : message ∈ stream)
    (hcomplete : ActionsComplete decoders stream w.db) {w' : World} (hstores : Stores decoders stream message w w')
    (hapart : ∀ tx ∈ message.transactions, ¬ Taken tx w.db) : ActionsComplete decoders stream w'.db := by
  have huntaken : ∀ tx ∈ message.transactions, ¬ Taken tx w'.db := fun tx htx htaken =>
    hapart tx htx ((hstores.addsTo.taken_iff hchain hmessage htx hstores.rows).mp htaken)
  refine ⟨hstores.wellStored, fun hash index hmem => ?_, fun message' hmessage' tx htx hash row hrow his => ?_⟩
  · obtain ⟨row, hrow⟩ := Table.mem_iff_lookup.mp hmem
    rcases hstores.addsTo.actions hash index row hrow with hold | ⟨tx, htx, rfl, _⟩
    · obtain ⟨before, hbefore⟩ := Table.mem_iff_lookup.mp
        (hcomplete.references hash index (Table.mem_iff_lookup.mpr ⟨row, hold⟩))
      exact Table.mem_iff_lookup.mpr ⟨before, hstores.rows hash before hbefore⟩
    · obtain ⟨hash, row, hrow, his⟩ := hstores.placed tx htx
      rcases (hstores.wellStored.of_converted hchain hmessage htx hrow his.converted).2 with rfl | ⟨_, htaken⟩
      · exact Table.mem_iff_lookup.mpr ⟨row, hrow⟩
      · exact (huntaken tx htx htaken).elim
  · by_cases hown : tx ∈ message.transactions
    · obtain ⟨hash', row', hrow', his', hactions⟩ := (storedWithActions_iff hchain hmessage hown hcomplete
        hstores.addsTo (hstores.present tx hown) (hstores.placed tx hown) hstores.wellStored hstores.rows).mpr
        fun htaken => (hapart tx hown htaken).elim
      obtain rfl : hash = hash' := hstores.wellStored.hash_unique hchain hrow hrow'
        (his.converted.trans his'.converted.symm)
      exact hactions
    · -- a row of another block was there before, and none of this block's actions is under its hash
      rcases hstores.addsTo.transactions hash row hrow with hold | ⟨tx', htx', hconverted, _⟩
      · have hother : ∀ tx' ∈ message.transactions, hash ≠ plainHash tx' := by
          rintro tx' htx' rfl
          refine hapart tx' htx' ⟨row, hold, fun hconverted => hown ?_⟩
          exact (hchain.eq_of_converted hmessage' htx hmessage htx' (his.converted.symm.trans hconverted)).2 ▸ htx'
        intro index
        rw [hstores.addsTo.lookup_other hother]
        exact hcomplete.actions message' hmessage' tx htx hash row hold his index
      · refine (hown ?_).elim
        exact (hchain.eq_of_converted hmessage' htx hmessage htx' (his.converted.symm.trans hconverted)).2 ▸ htx'

end Block

/-! ### Two transfers with one hash -/

/-- A transaction with an action, in a block of its own. -/
def transferBlock (height : Nat) (blockHash chunkHash receiptId : CryptoHash) : StreamerMessage :=
  let tx := IndexerTransactionWithOutcome.plain blockHash (.ofText "t") receiptId "bob.near"
  { collidedBlock height blockHash chunkHash receiptId with
    shards := [.plain chunkHash [{ tx with transaction := { tx.transaction with actions := [.transfer 1] } }] [] []] }

def firstTransfer : StreamerMessage := transferBlock 6 (.ofText "b6") (.ofText "c6") (.ofText "r6")

def secondTransfer : StreamerMessage := transferBlock 7 (.ofText "b7") (.ofText "c7") (.ofText "r7")

theorem chain_transfers : Chain [firstTransfer, secondTransfer] := ⟨by decide, by decide, by decide, by decide⟩

def afterFirstTransfer : World := (storeTransactionsCall .silent firstTransfer).after 1 withoutTransactions

theorem finishes_firstTransfer :
    Finishes (storeTransactionsCall .silent firstTransfer) withoutTransactions () afterFirstTransfer :=
  finishes_after 1 (by decide)

theorem complete_withoutTransactions :
    ActionsComplete .silent [firstTransfer, secondTransfer] withoutTransactions.db := by
  have hkeys : withoutTransactions.db.transactionActions.keys = [] := by decide
  refine ⟨wellStored_of_empty rfl, fun hash index hmem => ?_, fun _ _ _ _ hash row hrow => ?_⟩
  · rw [AList.mem_keys, hkeys] at hmem
    exact (List.not_mem_nil hmem).elim
  · cases hrow

theorem complete_afterFirstTransfer :
    ActionsComplete .silent [firstTransfer, secondTransfer] afterFirstTransfer.db := by
  refine (stores_of_finishes chain_transfers List.mem_cons_self complete_withoutTransactions.wellStored
    finishes_firstTransfer).complete_of_apart chain_transfers List.mem_cons_self complete_withoutTransactions ?_
  rintro tx _ ⟨row, hrow, _⟩
  cases hrow

/-- The first transfer is stored with its action. -/
theorem first_transfer_with_action : firstTransfer.transactions ≠ [] ∧
    ∀ tx ∈ firstTransfer.transactions, StoredWithActions .silent firstTransfer tx afterFirstTransfer.db := by
  refine ⟨List.cons_ne_nil _ _, ?_⟩
  refine (stored_with_actions_iff chain_transfers List.mem_cons_self complete_withoutTransactions
    finishes_firstTransfer).mpr ?_
  rintro tx _ ⟨row, hrow, _⟩
  cases hrow

def afterSecondTransfer : World := (storeTransactionsCall .silent secondTransfer).after 1 afterFirstTransfer

/-- The second one is stored with a suffix, and no action is under this hash. -/
theorem second_transfer_without_action :
    ¬ ∀ (stream : List StreamerMessage) (message : StreamerMessage) (w w' : World), Chain stream →
      message ∈ stream → ActionsComplete .silent stream w.db →
      Finishes (storeTransactions .silent message.shards message.block.header.hash message.block.header.timestamp
        message.block.header.height) w () w' →
      ∀ tx ∈ message.transactions, StoredWithActions .silent message tx w'.db := by
  intro h
  have hkeys : afterSecondTransfer.db.transactionActions.keys = [("t", 0)] := by decide
  have hrows : ∀ row ∈ afterSecondTransfer.db.transactions.rows, row.convertedIntoReceiptId = .ofText "r7" →
      row.transactionHash = "t_issue84_7" := by decide
  obtain ⟨hash, row, hrow, his, hactions⟩ := h _ secondTransfer _ afterSecondTransfer chain_transfers
    (List.mem_cons_of_mem _ List.mem_cons_self) complete_afterFirstTransfer (finishes_after 1 (by decide)) _
    List.mem_cons_self
  obtain rfl : hash = "t_issue84_7" :=
    his.transactionHash.symm.trans (hrows row (Table.mem_rows_iff_lookup.mpr ⟨hash, hrow⟩) his.converted)
  have hmem := Table.mem_iff_lookup.mpr ⟨_, hactions 0⟩
  rw [AList.mem_keys, hkeys] at hmem
  revert hmem
  decide

end ExplorerIndexer.Collisions

import ExplorerIndexer.AsyncAlone
import ExplorerIndexer.AsyncRounds
import ExplorerIndexer.ReceiptsSearch

/-! When the search for parent transactions ends. It compares the number of rows that a query returns with the number
of receipts that are left, so it depends on a row being returned once for a receipt. -/

namespace ExplorerIndexer.Receipts

open Async Store Models

/-! ### Databases -/

/-- A receipt is produced by at most one stored outcome and converted from at most one stored transaction. -/
structure ParentsOnce (db : Database) : Prop where
  outcome : ∀ k k' row row', db.executionOutcomeReceipts.lookup k = some row →
    db.executionOutcomeReceipts.lookup k' = some row' → row.producedReceiptId = row'.producedReceiptId →
      row.executedReceiptId = row'.executedReceiptId
  transaction : ∀ k k' row row', db.transactions.lookup k = some row → db.transactions.lookup k' = some row' →
    row.convertedIntoReceiptId = row'.convertedIntoReceiptId → k = k'

/-- No outcome lists a receipt twice. -/
def ListedOnce (db : Database) : Prop :=
  ∀ k k' row row', db.executionOutcomeReceipts.lookup k = some row →
    db.executionOutcomeReceipts.lookup k' = some row' → row.executedReceiptId = row'.executedReceiptId →
      row.producedReceiptId = row'.producedReceiptId → k = k'

/-- What the others do to the tables that the search reads: they add rows. -/
structure SearchedTablesGrow (db db' : Database) : Prop where
  receipts : ∀ k row, db.receipts.lookup k = some row → db'.receipts.lookup k = some row
  transactions : ∀ k row, db.transactions.lookup k = some row → db'.transactions.lookup k = some row
  outcomes : ∀ k row, db.executionOutcomeReceipts.lookup k = some row →
    db'.executionOutcomeReceipts.lookup k = some row
  dataOutput : ∀ k row, db.actionReceiptOutputData.lookup k = some row →
    db'.actionReceiptOutputData.lookup k = some row

/-- The database grows and stays as it should be, and the cache keeps what it has on the receipts. -/
structure Growing (receipts : List ReceiptView) (wellFormed : Database → Prop) (w w' : World) : Prop where
  grows : SearchedTablesGrow w.db w'.db
  wellFormed : wellFormed w'.db
  cache : ∀ r ∈ receipts, ∀ hash, w.cache.lookup (receiptOrDataId r) = some hash →
    w'.cache.lookup (receiptOrDataId r) = some hash

section Databases

variable {db db' : Database} {receipt : ReceiptView}

theorem HasOutcome.mono (h : HasOutcome db receipt) (hgrows : SearchedTablesGrow db db') : HasOutcome db' receipt := by
  obtain ⟨row, hrow, hproduced, hparent⟩ := h
  exact ⟨row, Table.mem_rows_mono hgrows.outcomes hrow, hproduced, Table.mem_mono hgrows.receipts hparent⟩

theorem HasTransaction.mono (h : HasTransaction db receipt) (hgrows : SearchedTablesGrow db db') :
    HasTransaction db' receipt := by
  obtain ⟨row, hrow, hconverted⟩ := h
  exact ⟨row, Table.mem_rows_mono hgrows.transactions hrow, hconverted⟩

theorem HasDataOutput.mono {dataId : CryptoHash} (h : HasDataOutput db dataId) (hgrows : SearchedTablesGrow db db') :
    HasDataOutput db' dataId := by
  obtain ⟨row, hrow, houtput, hparent⟩ := h
  exact ⟨row, Table.mem_rows_mono hgrows.dataOutput hrow, houtput, Table.mem_mono hgrows.receipts hparent⟩

theorem InTables.mono (h : InTables db receipt) (hgrows : SearchedTablesGrow db db') : InTables db' receipt := by
  rcases h with ⟨haction, houtcome | htransaction⟩ | ⟨dataId, hdata, houtput⟩
  · exact .inl ⟨haction, .inl (houtcome.mono hgrows)⟩
  · exact .inl ⟨haction, .inr (htransaction.mono hgrows)⟩
  · exact .inr ⟨dataId, hdata, houtput.mono hgrows⟩

end Databases

/-! ### What the queries return -/

/-- A list of partial values of some items has the keys of some items. -/
theorem sublist_map_filterMap {α β γ : Type} {f : α → Option β} {key : α → γ} {key' : β → γ}
    (h : ∀ a b, f a = some b → key' b = key a) (l : List α) : ((l.filterMap f).map key').Sublist (l.map key) := by
  induction l with
  | nil => exact .slnil
  | cons a l ih =>
      rw [List.filterMap_cons, List.map_cons]
      cases hfa : f a with
      | none => exact ih.cons _
      | some b =>
          rw [List.map_cons, h a b hfa]
          exact ih.cons_cons _

section Queries

variable {db : Database}

theorem nodup_viaOutcomes (hparents : ParentsOnce db) (hlisted : ListedOnce db) (ids : List CryptoHash) :
    ((viaOutcomes ids db).map Prod.fst).Nodup := by
  have hrows : (db.executionOutcomeReceipts.rows.map (·.producedReceiptId)).Nodup :=
    Table.nodup_map_rows fun k k' row row' hk hk' heq =>
      hlisted k k' row row' hk hk' (hparents.outcome k k' row row' hk hk' heq) heq
  refine (hrows.sublist ?_)
  refine (sublist_map_filterMap (fun row entry h => ?_) _).trans (List.filter_sublist.map _)
  obtain ⟨parent, _, rfl⟩ := Option.map_eq_some_iff.mp h
  rfl

theorem nodup_viaTransactions (hparents : ParentsOnce db) (ids : List CryptoHash) :
    ((viaTransactions ids db).map Prod.fst).Nodup := by
  have hrows : (db.transactions.rows.map (·.convertedIntoReceiptId)).Nodup := Table.nodup_map_rows hparents.transaction
  rw [viaTransactions, List.map_map]
  exact hrows.sublist (List.filter_sublist.map _)

theorem sublist_ofDataIds (search : Search) (rows : List (CryptoHash × ParentTransactionHashString)) :
    ((search.ofDataIds rows).map Prod.fst).Sublist (search.receipts.map (·.receiptId)) := by
  refine sublist_map_filterMap (fun r entry h => ?_) search.receipts
  obtain ⟨dataId, _, hfound⟩ := Option.bind_eq_some_iff.mp h
  obtain ⟨hash, _, rfl⟩ := Option.map_eq_some_iff.mp hfound
  rfl

end Queries

/-! ### What is found in the strict mode -/

/-- The map has an entry for the receipt, under its id or, for a Data receipt, its data id. -/
def HasEntry (txHashes : TxHashes) (receipt : ReceiptView) : Prop :=
  .receiptId receipt.receiptId ∈ txHashes ∨ ∃ dataId, receipt.dataId? = some dataId ∧ .dataId dataId ∈ txHashes

/-- Each receipt is left or found. -/
structure Covering (receipts : List ReceiptView) (search : Search) : Prop where
  distinct : (search.receipts.map (·.receiptId)).Nodup
  covered : ∀ r ∈ receipts, r ∈ search.receipts ∨ HasEntry search.txHashes r

/-- A search that is not over goes on with each receipt left or found, one that is over has found all of them. -/
def Covered (receipts : List ReceiptView) : Search ⊕ TxHashes → Prop :=
  Sum.elim (Covering receipts) fun txHashes => ∀ r ∈ receipts, HasEntry txHashes r

section Strict

variable {receipts : List ReceiptView} {search : Search} {txHashes : TxHashes}
  {found : List (CryptoHash × ParentTransactionHashString)}

theorem hasEntry_of_mem {receipt : ReceiptView} (h : receiptOrDataId receipt ∈ txHashes) :
    HasEntry txHashes receipt := by
  cases haction : receipt.isAction with
  | true =>
      rw [receiptOrDataId_of_isAction haction] at h
      exact .inl h
  | false =>
      obtain ⟨dataId, hdata⟩ := isAction_eq_false.mp haction
      rw [receiptOrDataId_of_dataId? hdata] at h
      exact .inr ⟨dataId, hdata, h⟩

theorem HasEntry.addFound {receipt : ReceiptView} (h : HasEntry txHashes receipt) :
    HasEntry (addFound txHashes found) receipt :=
  h.imp (fun h => Table.mem_foldl_insert.mpr (.inr h)) fun ⟨dataId, hdata, hmem⟩ =>
    ⟨dataId, hdata, Table.mem_foldl_insert.mpr (.inr hmem)⟩

/-- If each receipt is found once, as many rows as receipts are left mean that all are found. -/
theorem Covering.extend (h : Covering receipts search) (hdistinct : (found.map Prod.fst).Nodup)
    (hleft : ∀ entry ∈ found, entry.1 ∈ search.receipts.map (·.receiptId)) :
    Covered receipts (search.extend found) := by
  have hsub : (found.map Prod.fst).Subperm (search.receipts.map (·.receiptId)) := by
    refine List.subperm_of_subset hdistinct fun id hid => ?_
    obtain ⟨entry, hentry, rfl⟩ := List.mem_map.mp hid
    exact hleft entry hentry
  rw [Search.extend_eq]
  split
  · rename_i hlength
    intro r hr
    rcases h.covered r hr with hmem | hfound
    · have hperm := hsub.perm_of_length_le (by rw [List.length_map, List.length_map, hlength])
      obtain ⟨entry, hentry, hid⟩ := List.mem_map.mp (hperm.mem_iff.mpr (List.mem_map_of_mem hmem))
      exact .inl (receiptId_mem_addFound.mpr (.inl ⟨entry, hentry, hid⟩))
    · exact hfound.addFound
  · refine ⟨h.distinct.sublist (List.filter_sublist.map _), fun r hr => ?_⟩
    rcases h.covered r hr with hmem | hfound
    · by_cases hnew : ReceiptOrDataId.receiptId r.receiptId ∈ Receipts.addFound search.txHashes found
      · exact .inr (.inl hnew)
      · exact .inl (List.mem_filter.mpr ⟨hmem, decide_eq_true hnew⟩)
    · exact .inr hfound.addFound

theorem mem_left_of_mem_actionReceiptIds {id : CryptoHash} (h : id ∈ search.actionReceiptIds) :
    id ∈ search.receipts.map (·.receiptId) := by
  obtain ⟨r, hr, _, rfl⟩ := mem_actionReceiptIds_iff.mp h
  exact List.mem_map_of_mem hr

theorem Covering.dataOutput (h : Covering receipts search) (rows : List (CryptoHash × ParentTransactionHashString)) :
    Covered receipts (search.extend (search.ofDataIds rows)) := by
  have hsub := sublist_ofDataIds search rows
  exact h.extend (h.distinct.sublist hsub) fun entry hentry => hsub.subset (List.mem_map_of_mem hentry)

theorem Covering.outcomes {db : Database} (h : Covering receipts search) (hparents : ParentsOnce db)
    (hlisted : ListedOnce db) (hperm : found.Perm (viaOutcomes search.actionReceiptIds db)) :
    Covered receipts (search.extend found) := by
  refine h.extend ((hperm.map _).nodup_iff.mpr (nodup_viaOutcomes hparents hlisted _)) fun entry hentry => ?_
  obtain ⟨row, _, hasked, hid, _⟩ := mem_viaOutcomes.mp (hperm.mem_iff.mp hentry)
  exact mem_left_of_mem_actionReceiptIds (hid ▸ hasked)

theorem Covering.transactions {db : Database} (h : Covering receipts search) (hparents : ParentsOnce db)
    (hperm : found.Perm (viaTransactions search.actionReceiptIds db)) : Covered receipts (search.extend found) := by
  refine h.extend ((hperm.map _).nodup_iff.mpr (nodup_viaTransactions hparents _)) fun entry hentry => ?_
  obtain ⟨row, _, hasked, hid, _⟩ := mem_viaTransactions.mp (hperm.mem_iff.mp hentry)
  exact mem_left_of_mem_actionReceiptIds (hid ▸ hasked)

/-- Each receipt that an outcome produces is found once. -/
def FoundOnce (db : Database) : Prop := ParentsOnce db ∧ ListedOnce db

/-- What is known of a search, and that the database is as it should be. -/
def Known {α : Type} (K : α → Prop) (a : α) (w : World) : Prop := K a ∧ FoundOnce w.db

theorem stable_foundOnce : Stable (Growing receipts FoundOnce) fun w => FoundOnce w.db := fun _ _ _ h => h.wellFormed

section Others

variable {rely guarantee : World → World → Prop} (hrely : Stable rely fun w => FoundOnce w.db)
  (hG : ∀ w cache, guarantee w { w with cache })

include hrely

theorem stable_known {α : Type} (K : α → Prop) (a : α) : Stable rely (Known K a) := (Stable.const _ _).and hrely

include hG

theorem outline_askOnce {attempts : Option Nat} {read : Database → List (CryptoHash × ParentTransactionHashString)}
    {next : List (CryptoHash × ParentTransactionHashString) → Search ⊕ TxHashes} {K : Search ⊕ TxHashes → Prop}
    (hK : ∀ db, FoundOnce db → ∀ rows, rows.Perm (read db) → K (next rows)) :
    Outline False rely guarantee (fun w => FoundOnce w.db)
      (.query attempts (selectFrom read) (fun _ => false) fun rows =>
        .anyOrder (rows.getD []) fun rows => .ret (next rows)) (Known K) :=
  outline_rows (fun w hw => ⟨hG w w.cache, fun rows hperm => ⟨hK w.db hw rows hperm, hw⟩⟩) (stable_known hrely K)

theorem outline_askDataOutput_covering (h : Covering receipts search) :
    Outline False rely guarantee (fun w => FoundOnce w.db) search.askDataOutput (Known (Covered receipts)) := by
  exact outline_askDataOutput (fun _ _ hw => ⟨h, hw⟩)
    (fun w hw => ⟨hG w w.cache, fun rows _ => ⟨h.dataOutput rows, hw⟩⟩) (stable_known hrely _)

/-- In the strict mode a round ends the search only with every receipt found. -/
theorem outline_round_covering (h : Covering receipts search) :
    Outline False rely guarantee (fun w => FoundOnce w.db) (search.round true) (Known (Covered receipts)) := by
  refine outline_round (outline_askDataOutput_covering hrely hG h) (C := Known (Covered receipts))
    (E := Known (Covered receipts)) (fun search => .assume fun hsearch => ?_) (fun search => .assume fun hsearch => ?_)
    (fun txHashes w h => ?_) fun search w hw => hw
  · exact outline_askOnce hrely hG fun db hdb rows hperm => Covering.outcomes hsearch hdb.1 hdb.2 hperm
  · exact outline_askOnce hrely hG fun db hdb rows hperm => Covering.transactions hsearch hdb.1 hperm
  · rcases h with h | h | h <;> exact h

/-- In the strict mode the search returns only with every receipt found, whatever the others do to the cache. -/
theorem outline_findTxHashesForReceipts_entries (hdistinct : (receipts.map (·.receiptId)).Nodup) :
    Outline False rely guarantee (fun w => FoundOnce w.db) (findTxHashesForReceipts true receipts)
      (Known fun txHashes => ∀ r ∈ receipts, HasEntry txHashes r) := by
  refine Outline.bind (outline_withCache (M := Known fun _ => True) (fun w hw => ⟨hG w _, trivial, hw⟩)
    (stable_known hrely _)) fun txHashes => .assume fun _ => ?_
  have hcovered : ∀ r ∈ receipts, r ∈ receipts.filter (fun r => receiptOrDataId r ∉ txHashes) ∨ HasEntry txHashes r := by
    intro r hr
    by_cases hmem : receiptOrDataId r ∈ txHashes
    · exact .inr (hasEntry_of_mem hmem)
    · exact .inl (List.mem_filter.mpr ⟨hr, decide_eq_true hmem⟩)
  refine outline_searchForOthers (I := Known (Covering receipts)) (fun hempty w hw => ⟨fun r hr => ?_, hw⟩)
    (fun w hw => ⟨⟨hdistinct.sublist (List.filter_sublist.map _), hcovered⟩, hw⟩) (stable_known hrely _)
    (stable_known hrely _) fun search => .assume fun hsearch => ?_
  · refine (hcovered r hr).resolve_left ?_
    rw [hempty]
    exact List.not_mem_nil
  · refine (outline_round_covering hrely hG hsearch).post fun stage w hw => ?_
    cases stage with
    | inl search => exact hw
    | inr txHashes => exact hw

end Others

theorem outline_findTxHashesForReceipts_found (hdistinct : (receipts.map (·.receiptId)).Nodup) :
    Outline False (Growing receipts FoundOnce) (fun _ _ => True) (fun w => FoundOnce w.db)
      (findTxHashesForReceipts true receipts) (Known fun txHashes => ∀ r ∈ receipts, HasEntry txHashes r) :=
  outline_findTxHashesForReceipts_entries stable_foundOnce (fun _ _ => trivial) hdistinct

end Strict

end ExplorerIndexer.Receipts

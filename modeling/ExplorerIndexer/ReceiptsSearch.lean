import ExplorerIndexer.ReceiptsLookups
import ExplorerIndexer.ReceiptsOutlines

/-! What the search for parent transactions finds in the strict mode, for a chunk whose receipts all have a parent
somewhere: the parents of the receipts that the cache does not know are found in the database, but for those that a
stage of the search believes to have found already. -/

namespace ExplorerIndexer.Receipts

open Async Store Models

/-! ### Parents -/

/-- The transaction hashes that the cache and the database offer for a receipt. -/
inductive ParentHash (w : World) (receipt : ReceiptView) : ParentTransactionHashString → Prop
  | cached {hash : ParentTransactionHashString}
      (hlookup : w.cache.lookup (receiptOrDataId receipt) = some hash) : ParentHash w receipt hash
  | outcome {row : ExecutionOutcomeReceipt} {parent : Receipt} (haction : receipt.isAction = true)
      (hrow : row ∈ w.db.executionOutcomeReceipts.rows) (hproduced : row.producedReceiptId = receipt.receiptId)
      (hparent : w.db.receipts.lookup row.executedReceiptId = some parent) :
      ParentHash w receipt parent.originatedFromTransactionHash
  | transaction {row : Transaction} (haction : receipt.isAction = true) (hrow : row ∈ w.db.transactions.rows)
      (hconverted : row.convertedIntoReceiptId = receipt.receiptId) : ParentHash w receipt row.transactionHash
  | dataOutput {row : ActionReceiptOutputData} {parent : Receipt} {dataId : CryptoHash}
      (hdata : receipt.dataId? = some dataId) (hrow : row ∈ w.db.actionReceiptOutputData.rows)
      (houtput : row.outputDataId = dataId)
      (hparent : w.db.receipts.lookup row.outputFromReceiptId = some parent) :
      ParentHash w receipt parent.originatedFromTransactionHash

/-- The execution of a stored receipt produced this one. -/
def HasOutcome (db : Database) (receipt : ReceiptView) : Prop :=
  ∃ row ∈ db.executionOutcomeReceipts.rows, row.producedReceiptId = receipt.receiptId ∧
    row.executedReceiptId ∈ db.receipts

def HasTransaction (db : Database) (receipt : ReceiptView) : Prop :=
  ∃ row ∈ db.transactions.rows, row.convertedIntoReceiptId = receipt.receiptId

def HasDataOutput (db : Database) (dataId : CryptoHash) : Prop :=
  ∃ row ∈ db.actionReceiptOutputData.rows, row.outputDataId = dataId ∧ row.outputFromReceiptId ∈ db.receipts

/-- The database has a parent of the receipt. -/
def InTables (db : Database) (receipt : ReceiptView) : Prop :=
  receipt.isAction = true ∧ (HasOutcome db receipt ∨ HasTransaction db receipt) ∨
    ∃ dataId, receipt.dataId? = some dataId ∧ HasDataOutput db dataId

section Tables

variable {db : Database}

theorem exists_viaDataOutput {dataId : CryptoHash} {ids : List CryptoHash} (h : HasDataOutput db dataId)
    (hasked : dataId ∈ ids) : ∃ hash, (dataId, hash) ∈ viaDataOutput ids db := by
  obtain ⟨row, hrow, houtput, hparent⟩ := h
  obtain ⟨parent, hparent⟩ := Table.mem_iff_lookup.mp hparent
  refine ⟨parent.originatedFromTransactionHash, mem_viaDataOutput.mpr ?_⟩
  exact ⟨row, hrow, houtput ▸ hasked, houtput, parent, hparent, rfl⟩

theorem exists_viaOutcomes {receipt : ReceiptView} {ids : List CryptoHash} (h : HasOutcome db receipt)
    (hasked : receipt.receiptId ∈ ids) : ∃ entry ∈ viaOutcomes ids db, entry.1 = receipt.receiptId := by
  obtain ⟨row, hrow, hproduced, hparent⟩ := h
  obtain ⟨parent, hparent⟩ := Table.mem_iff_lookup.mp hparent
  refine ⟨(receipt.receiptId, parent.originatedFromTransactionHash), mem_viaOutcomes.mpr ?_, rfl⟩
  exact ⟨row, hrow, hproduced ▸ hasked, hproduced, parent, hparent, rfl⟩

theorem exists_viaTransactions {receipt : ReceiptView} {ids : List CryptoHash} (h : HasTransaction db receipt)
    (hasked : receipt.receiptId ∈ ids) : ∃ entry ∈ viaTransactions ids db, entry.1 = receipt.receiptId := by
  obtain ⟨row, hrow, hconverted⟩ := h
  refine ⟨(receipt.receiptId, row.transactionHash), mem_viaTransactions.mpr ?_, rfl⟩
  exact ⟨row, hrow, hconverted ▸ hasked, hconverted, rfl⟩

/-- A parent is in the cache or in the tables. -/
theorem ParentHash.cases_tables {w : World} {receipt : ReceiptView} {hash : ParentTransactionHashString}
    (h : ParentHash w receipt hash) :
    w.cache.lookup (receiptOrDataId receipt) = some hash ∨ InTables w.db receipt := by
  cases h with
  | cached hlookup => exact .inl hlookup
  | @outcome row parent haction hrow hproduced hparent =>
      exact .inr (.inl ⟨haction, .inl ⟨row, hrow, hproduced, Table.mem_iff_lookup.mpr ⟨parent, hparent⟩⟩⟩)
  | @transaction row haction hrow hconverted => exact .inr (.inl ⟨haction, .inr ⟨row, hrow, hconverted⟩⟩)
  | @dataOutput row parent dataId hdata hrow houtput hparent =>
      exact .inr (.inr ⟨dataId, hdata, row, hrow, houtput, Table.mem_iff_lookup.mpr ⟨parent, hparent⟩⟩)

end Tables

/-! ### The receipts that are searched for -/

/-- The receipts that the cache does not know. -/
def uncached (w : World) (receipts : List ReceiptView) : List ReceiptView :=
  receipts.filter fun r => (w.cache.lookup (receiptOrDataId r)).isNone

def uncachedActions (w : World) (receipts : List ReceiptView) : List ReceiptView :=
  (uncached w receipts).filter (·.isAction)

section Found

variable {w : World} {receipts : List ReceiptView}

theorem mem_uncached {receipt : ReceiptView} :
    receipt ∈ uncached w receipts ↔ receipt ∈ receipts ∧ w.cache.lookup (receiptOrDataId receipt) = none := by
  rw [uncached, List.mem_filter, Option.isNone_iff_eq_none]

theorem mem_uncachedActions {receipt : ReceiptView} :
    receipt ∈ uncachedActions w receipts ↔ receipt ∈ uncached w receipts ∧ receipt.isAction = true :=
  List.mem_filter

theorem filter_not_fromCache {txHashes : TxHashes} (h : ∀ key, txHashes.lookup key = fromCache receipts w.cache key) :
    (receipts.filter fun r => receiptOrDataId r ∉ txHashes) = uncached w receipts := by
  refine List.filter_congr fun receipt hreceipt => ?_
  rw [Bool.eq_iff_iff, decide_eq_true_eq, Option.isNone_iff_eq_none, ← AList.lookup_eq_none, h, fromCache,
    if_pos ⟨receipt, hreceipt, rfl⟩]

variable (hdistinct : (receipts.map (·.receiptId)).Nodup)

include hdistinct

theorem eq_of_receiptId {receipt receipt' : ReceiptView} (hreceipt : receipt ∈ uncached w receipts)
    (hreceipt' : receipt' ∈ uncached w receipts) (heq : receipt.receiptId = receipt'.receiptId) :
    receipt = receipt' :=
  List.inj_on_of_nodup_map hdistinct (mem_uncached.mp hreceipt).1 (mem_uncached.mp hreceipt').1 heq

/-- The cache names no receipt that is searched for. -/
theorem fromCache_uncached {receipt : ReceiptView} (hreceipt : receipt ∈ uncached w receipts) :
    fromCache receipts w.cache (.receiptId receipt.receiptId) = none := by
  obtain ⟨hmem, hnone⟩ := mem_uncached.mp hreceipt
  unfold fromCache
  split
  · rename_i hasked
    obtain ⟨receipt', hreceipt', hkey⟩ := hasked
    have hsame : receipt' = receipt :=
      List.inj_on_of_nodup_map hdistinct hreceipt' hmem (of_receiptOrDataId_eq hkey).2
    rw [← hkey, hsame]
    exact hnone
  · rfl

end Found

/-- A map that adds parents of receipts that are searched for to what the cache had: those Action receipts for which
`found` holds are in it. -/
structure Stage (w : World) (receipts : List ReceiptView) (found : ReceiptView → Prop) (txHashes : TxHashes) :
    Prop where
  kept : ∀ key, (∀ r ∈ uncached w receipts, key ≠ .receiptId r.receiptId) →
    txHashes.lookup key = fromCache receipts w.cache key
  sound : ∀ r ∈ uncachedActions w receipts, ∀ hash, txHashes.lookup (.receiptId r.receiptId) = some hash →
    ParentHash w r hash
  found : ∀ r ∈ uncachedActions w receipts, ReceiptOrDataId.receiptId r.receiptId ∈ txHashes ↔ found r

section Stages

variable {w : World} {receipts : List ReceiptView} {p q : ReceiptView → Prop} {txHashes : TxHashes}

theorem Stage.congr (h : Stage w receipts p txHashes) (hfound : ∀ r ∈ uncachedActions w receipts, p r ↔ q r) :
    Stage w receipts q txHashes :=
  ⟨h.kept, h.sound, fun r hr => (h.found r hr).trans (hfound r hr)⟩

theorem receiptId_not_mem_fromCache (hdistinct : (receipts.map (·.receiptId)).Nodup)
    (h : ∀ key, txHashes.lookup key = fromCache receipts w.cache key) {r : ReceiptView}
    (hr : r ∈ uncached w receipts) : ReceiptOrDataId.receiptId r.receiptId ∉ txHashes := by
  rw [← AList.lookup_eq_none, h]
  exact fromCache_uncached hdistinct hr

theorem Stage.start (hdistinct : (receipts.map (·.receiptId)).Nodup)
    (h : ∀ key, txHashes.lookup key = fromCache receipts w.cache key) :
    Stage w receipts (fun _ => False) txHashes := by
  have hnot : ∀ r ∈ uncachedActions w receipts, ReceiptOrDataId.receiptId r.receiptId ∉ txHashes :=
    fun r hr => receiptId_not_mem_fromCache hdistinct h (mem_uncachedActions.mp hr).1
  refine ⟨fun key _ => h key, fun r hr hash hlookup => ?_, fun r hr => iff_of_false (hnot r hr) id⟩
  exact (hnot r hr (Table.mem_iff_lookup.mpr ⟨hash, hlookup⟩)).elim

/-- A stage adds parents of receipts that are searched for. -/
theorem Stage.addFound (hdistinct : (receipts.map (·.receiptId)).Nodup) (h : Stage w receipts p txHashes)
    {found : List (CryptoHash × ParentTransactionHashString)}
    (hfound : ∀ entry ∈ found, ∃ r ∈ uncached w receipts, r.receiptId = entry.1 ∧
      (r.isAction = true → ParentHash w r entry.2)) :
    Stage w receipts (fun r => (∃ entry ∈ found, entry.1 = r.receiptId) ∨ p r) (addFound txHashes found) := by
  refine ⟨fun key hkey => ?_, fun r hr hash hlookup => ?_, fun r hr => ?_⟩
  · refine (Table.lookup_foldl_insert_of_ne fun entry hentry heq => ?_).trans (h.kept key hkey)
    obtain ⟨r, hr, hid, _⟩ := hfound entry hentry
    exact hkey r hr (by rw [← heq, hid])
  · rcases Table.of_lookup_foldl_insert hlookup with ⟨entry, hentry, hkey, rfl⟩ | hold
    · obtain ⟨r', hr', hid, hparent⟩ := hfound entry hentry
      obtain ⟨hmem, haction⟩ := mem_uncachedActions.mp hr
      have hsame : r' = r := eq_of_receiptId hdistinct hr' hmem (hid.trans (ReceiptOrDataId.receiptId.inj hkey))
      subst hsame
      exact hparent haction
    · exact h.sound r hr hash hold
  · rw [receiptId_mem_addFound, h.found r hr]

/-! ### One stage after the other -/

/-- The database has as many produced receipts as there are Action receipts to search for, so that the search ends
with the execution outcomes. -/
def EndsWithOutcomes (w : World) (receipts : List ReceiptView) : Prop :=
  (viaOutcomes ((uncachedActions w receipts).map (·.receiptId)) w.db).length = (uncachedActions w receipts).length

def AfterDataOutput (w : World) (receipts : List ReceiptView) : Search ⊕ TxHashes → Prop
  | .inl search => Stage w receipts (fun _ => False) search.txHashes ∧ search.receipts = uncachedActions w receipts
  | .inr txHashes => Stage w receipts (fun _ => False) txHashes ∧ uncachedActions w receipts = []

def AfterOutcomes (w : World) (receipts : List ReceiptView) : Search ⊕ TxHashes → Prop
  | .inl search => Stage w receipts (HasOutcome w.db) search.txHashes ∧ ¬ EndsWithOutcomes w receipts ∧
      ∀ r, r ∈ search.receipts ↔ r ∈ uncachedActions w receipts ∧ ¬ HasOutcome w.db r
  | .inr txHashes => Stage w receipts (HasOutcome w.db) txHashes ∧ EndsWithOutcomes w receipts

def AfterTransactions (w : World) (receipts : List ReceiptView) : Search ⊕ TxHashes → Prop
  | .inl search => Stage w receipts (fun _ => True) search.txHashes ∧ ¬ EndsWithOutcomes w receipts ∧
      search.receipts = []
  | .inr txHashes => Stage w receipts (fun _ => True) txHashes ∧ ¬ EndsWithOutcomes w receipts

/-- If all data ids were found, so are the parents of all Data receipts. -/
theorem map_fst_ofDataIds {search : Search} {rows : List (CryptoHash × ParentTransactionHashString)}
    (hrows : ∀ r ∈ search.receipts, ∀ dataId, r.dataId? = some dataId → ∃ hash, (dataId, hash) ∈ rows) :
    (search.ofDataIds rows).map Prod.fst = (search.receipts.filter fun r => !r.isAction).map (·.receiptId) := by
  unfold Search.ofDataIds
  dsimp only
  generalize search.receipts = left at hrows ⊢
  induction left with
  | nil => rfl
  | cons receipt rest ih =>
      have hrest := ih fun r hr => hrows r (List.mem_cons_of_mem _ hr)
      rw [List.filterMap_cons, List.filter_cons]
      cases hdata : receipt.dataId? with
      | none =>
          have haction : receipt.isAction = true := by
            rw [← Bool.not_eq_false, isAction_eq_false, hdata]
            simp
          rw [haction]
          exact hrest
      | some dataId =>
          obtain ⟨hash, hmem⟩ := hrows receipt List.mem_cons_self dataId hdata
          obtain ⟨hash', hlookup⟩ := exists_lookup_of_found hmem
          rw [Option.bind_some, hlookup, isAction_eq_false.mpr ⟨dataId, hdata⟩]
          exact congrArg (List.cons receipt.receiptId) hrest

/-- Each Data receipt that is searched for gets an entry. -/
theorem map_fst_ofDataIds_linked (hlinked : ∀ r ∈ receipts, ∃ hash, ParentHash w r hash) {search : Search}
    (hreceipts : search.receipts = uncached w receipts)
    {rows : List (CryptoHash × ParentTransactionHashString)} (hperm : rows.Perm (viaDataOutput search.dataIds w.db)) :
    (search.ofDataIds rows).map Prod.fst =
      ((uncached w receipts).filter fun r => !r.isAction).map (·.receiptId) := by
  rw [← hreceipts]
  refine map_fst_ofDataIds fun r hr dataId hdata => ?_
  obtain ⟨hmem, hnone⟩ := mem_uncached.mp (hreceipts ▸ hr)
  obtain ⟨hash, hparent⟩ := hlinked r hmem
  have hnot : r.isAction = false := isAction_eq_false.mpr ⟨dataId, hdata⟩
  rcases hparent.cases_tables with hlookup | ⟨haction, _⟩ | ⟨dataId', hdata', houtput⟩
  · rw [hnone] at hlookup
    cases hlookup
  · rw [hnot] at haction
    cases haction
  · obtain rfl : dataId = dataId' := Option.some.inj (hdata.symm.trans hdata')
    obtain ⟨hash, hfound⟩ := exists_viaDataOutput houtput (List.mem_filterMap.mpr ⟨r, hr, hdata⟩)
    exact ⟨hash, hperm.mem_iff.mpr hfound⟩

/-- The other receipts that are searched for get none. -/
theorem exists_entry_iff_isAction (hdistinct : (receipts.map (·.receiptId)).Nodup)
    {found : List (CryptoHash × ParentTransactionHashString)}
    (hids : found.map Prod.fst = ((uncached w receipts).filter fun r => !r.isAction).map (·.receiptId))
    {r : ReceiptView} (hr : r ∈ uncached w receipts) :
    (∃ entry ∈ found, entry.1 = r.receiptId) ↔ r.isAction = false := by
  rw [← List.mem_map, hids, List.mem_map]
  constructor
  · rintro ⟨r', hr', heq⟩
    obtain ⟨hmem, hnot⟩ := List.mem_filter.mp hr'
    rw [← eq_of_receiptId hdistinct hmem hr heq]
    exact Bool.not_eq_true' _ |>.mp hnot
  · exact fun hnot => ⟨r, List.mem_filter.mpr ⟨hr, by rw [hnot]; rfl⟩, rfl⟩

theorem afterDataOutput (hdistinct : (receipts.map (·.receiptId)).Nodup)
    (hlinked : ∀ r ∈ receipts, ∃ hash, ParentHash w r hash) {search : Search}
    (hstart : ∀ key, search.txHashes.lookup key = fromCache receipts w.cache key)
    (hreceipts : search.receipts = uncached w receipts)
    {rows : List (CryptoHash × ParentTransactionHashString)} (hperm : rows.Perm (viaDataOutput search.dataIds w.db)) :
    AfterDataOutput w receipts (search.extend (search.ofDataIds rows)) := by
  have hids := map_fst_ofDataIds_linked hlinked hreceipts hperm
  have hstage : Stage w receipts (fun _ => False) (addFound search.txHashes (search.ofDataIds rows)) := by
    refine ((Stage.start hdistinct hstart).addFound hdistinct fun entry hmem => ?_).congr fun r hr => ?_
    · obtain ⟨r, hr, hid, hnot⟩ := of_mem_ofDataIds hmem
      exact ⟨r, hreceipts ▸ hr, hid, fun h => (Bool.false_ne_true (hnot.symm.trans h)).elim⟩
    · obtain ⟨hmem, haction⟩ := mem_uncachedActions.mp hr
      rw [exists_entry_iff_isAction hdistinct hids hmem, haction]
      simp
  rw [Search.extend_eq]
  split
  · rename_i hlength
    refine ⟨hstage, List.filter_eq_nil_iff.mpr fun r hr haction => ?_⟩
    rw [← List.length_map Prod.fst, hids, List.length_map, hreceipts] at hlength
    have hall := List.length_filter_eq_length_iff.mp hlength r hr
    rw [haction] at hall
    exact Bool.false_ne_true hall
  · refine ⟨hstage, ?_⟩
    rw [hreceipts, uncachedActions]
    refine List.filter_congr fun r hr => ?_
    rw [Bool.eq_iff_iff, decide_eq_true_eq, receiptId_mem_addFound, exists_entry_iff_isAction hdistinct hids hr,
      or_iff_left (receiptId_not_mem_fromCache hdistinct hstart hr), Bool.not_eq_false]

theorem afterNoDataIds (hdistinct : (receipts.map (·.receiptId)).Nodup) {search : Search}
    (hstart : ∀ key, search.txHashes.lookup key = fromCache receipts w.cache key)
    (hreceipts : search.receipts = uncached w receipts)
    (hempty : search.dataIds = []) : AfterDataOutput w receipts (.inl search) := by
  refine ⟨Stage.start hdistinct hstart, ?_⟩
  rw [hreceipts, uncachedActions, List.filter_eq_self.mpr]
  intro r hr
  rw [← Bool.not_eq_false, isAction_eq_false]
  rintro ⟨dataId, hdata⟩
  have hmem : dataId ∈ search.dataIds := List.mem_filterMap.mpr ⟨r, hreceipts ▸ hr, hdata⟩
  rw [hempty] at hmem
  cases hmem

theorem afterOutcomes (hdistinct : (receipts.map (·.receiptId)).Nodup) {search : Search}
    (h : AfterDataOutput w receipts (.inl search)) {rows : List (CryptoHash × ParentTransactionHashString)}
    (hperm : rows.Perm (viaOutcomes search.actionReceiptIds w.db)) :
    AfterOutcomes w receipts (search.extend rows) := by
  obtain ⟨hbefore, hreceipts⟩ := h
  rw [actionReceiptIds_of_isAction (fun r hr => (mem_uncachedActions.mp (hreceipts ▸ hr)).2), hreceipts] at hperm
  have hentry : ∀ r ∈ uncachedActions w receipts, (∃ entry ∈ rows, entry.1 = r.receiptId) ↔ HasOutcome w.db r := by
    intro r hr
    constructor
    · rintro ⟨⟨receiptId, hash⟩, hmem, rfl⟩
      obtain ⟨row, hrow, _, hproduced, parent, hparent, _⟩ := mem_viaOutcomes.mp (hperm.mem_iff.mp hmem)
      exact ⟨row, hrow, hproduced, Table.mem_iff_lookup.mpr ⟨parent, hparent⟩⟩
    · intro houtcome
      obtain ⟨entry, hfound, hid⟩ := exists_viaOutcomes houtcome (List.mem_map_of_mem hr)
      exact ⟨entry, hperm.mem_iff.mpr hfound, hid⟩
  have hstage : Stage w receipts (HasOutcome w.db) (addFound search.txHashes rows) := by
    refine (hbefore.addFound hdistinct fun entry hmem => ?_).congr fun r hr => by rw [hentry r hr, or_false]
    obtain ⟨receiptId, hash⟩ := entry
    obtain ⟨row, hrow, hasked, rfl, parent, hparent, rfl⟩ := mem_viaOutcomes.mp (hperm.mem_iff.mp hmem)
    obtain ⟨r, hr, hid⟩ := List.mem_map.mp hasked
    exact ⟨r, (mem_uncachedActions.mp hr).1, hid, fun haction => .outcome haction hrow hid.symm hparent⟩
  have hends : EndsWithOutcomes w receipts ↔ rows.length = search.receipts.length := by
    rw [EndsWithOutcomes, hperm.length_eq, hreceipts]
  rw [Search.extend_eq]
  split
  · rename_i hlength
    exact ⟨hstage, hends.mpr hlength⟩
  · rename_i hlength
    refine ⟨hstage, mt hends.mp hlength, fun r => ?_⟩
    rw [List.mem_filter, hreceipts, decide_eq_true_eq]
    exact and_congr_right fun hr => not_congr (hstage.found r hr)

theorem afterTransactions (hdistinct : (receipts.map (·.receiptId)).Nodup)
    (hlinked : ∀ r ∈ receipts, ∃ hash, ParentHash w r hash) {search : Search}
    (h : AfterOutcomes w receipts (.inl search)) {rows : List (CryptoHash × ParentTransactionHashString)}
    (hperm : rows.Perm (viaTransactions search.actionReceiptIds w.db)) :
    AfterTransactions w receipts (search.extend rows) := by
  obtain ⟨hbefore, hends, hleft⟩ := h
  have hactions : ∀ r ∈ search.receipts, r.isAction = true :=
    fun r hr => (mem_uncachedActions.mp ((hleft r).mp hr).1).2
  rw [actionReceiptIds_of_isAction hactions] at hperm
  have hentry : ∀ r ∈ uncachedActions w receipts, ¬ HasOutcome w.db r → ∃ entry ∈ rows, entry.1 = r.receiptId := by
    intro r hr hnot
    obtain ⟨hmem, haction⟩ := mem_uncachedActions.mp hr
    obtain ⟨hreceipt, hnone⟩ := mem_uncached.mp hmem
    obtain ⟨hash, hparent⟩ := hlinked r hreceipt
    rcases hparent.cases_tables with hlookup | ⟨_, houtcome | htransaction⟩ | ⟨dataId, hdata, _⟩
    · rw [hnone] at hlookup
      cases hlookup
    · exact absurd houtcome hnot
    · obtain ⟨entry, hfound, hid⟩ :=
        exists_viaTransactions htransaction (List.mem_map_of_mem ((hleft r).mpr ⟨hr, hnot⟩))
      exact ⟨entry, hperm.mem_iff.mpr hfound, hid⟩
    · rw [isAction_eq_false.mpr ⟨dataId, hdata⟩] at haction
      cases haction
  have hstage : Stage w receipts (fun _ => True) (addFound search.txHashes rows) := by
    refine (hbefore.addFound hdistinct fun entry hmem => ?_).congr fun r hr => iff_of_true ?_ trivial
    · obtain ⟨receiptId, hash⟩ := entry
      obtain ⟨row, hrow, hasked, rfl, rfl⟩ := mem_viaTransactions.mp (hperm.mem_iff.mp hmem)
      obtain ⟨r, hr, hid⟩ := List.mem_map.mp hasked
      exact ⟨r, (mem_uncachedActions.mp ((hleft r).mp hr).1).1, hid,
        fun haction => .transaction haction hrow hid.symm⟩
    · by_cases houtcome : HasOutcome w.db r
      · exact .inr houtcome
      · exact .inl (hentry r hr houtcome)
  rw [Search.extend_eq]
  split
  · exact ⟨hstage, hends⟩
  · refine ⟨hstage, hends, List.filter_eq_nil_iff.mpr fun r hr => ?_⟩
    rw [decide_eq_true_eq, not_not]
    exact (hstage.found r ((hleft r).mp hr).1).mpr trivial

/-! ### The search -/

/-- The others leave alone what the tables have on the receipts of a chunk. -/
structure SameLinks (receipts : List ReceiptView) (w w' : World) : Prop where
  stored : ∀ r ∈ receipts, w'.db.receipts.lookup r.receiptId = w.db.receipts.lookup r.receiptId
  dataOutput : ∀ dataIds, (∀ dataId ∈ dataIds, ∃ r ∈ receipts, r.dataId? = some dataId) →
    (viaDataOutput dataIds w'.db).Perm (viaDataOutput dataIds w.db)
  outcomes : ∀ receiptIds, (∀ receiptId ∈ receiptIds, ∃ r ∈ receipts, r.receiptId = receiptId) →
    (viaOutcomes receiptIds w'.db).Perm (viaOutcomes receiptIds w.db)
  transactions : ∀ receiptIds, (∀ receiptId ∈ receiptIds, ∃ r ∈ receipts, r.receiptId = receiptId) →
    (viaTransactions receiptIds w'.db).Perm (viaTransactions receiptIds w.db)

/-- What the others do meanwhile: they also leave alone what the cache has on these receipts. -/
structure Aside (receipts : List ReceiptView) (w w' : World) : Prop extends SameLinks receipts w w' where
  cache : ∀ r ∈ receipts, w'.cache.lookup (receiptOrDataId r) = w.cache.lookup (receiptOrDataId r)

theorem SameLinks.of_db {w' : World} (h : w'.db = w.db) : SameLinks receipts w w' := by
  refine ⟨fun _ _ => ?_, fun _ _ => ?_, fun _ _ => ?_, fun _ _ => ?_⟩ <;> rw [h]

theorem SameLinks.trans {w' w'' : World} (h : SameLinks receipts w w') (h' : SameLinks receipts w' w'') :
    SameLinks receipts w w'' :=
  ⟨fun r hr => (h'.stored r hr).trans (h.stored r hr),
    fun ids hids => (h'.dataOutput ids hids).trans (h.dataOutput ids hids),
    fun ids hids => (h'.outcomes ids hids).trans (h.outcomes ids hids),
    fun ids hids => (h'.transactions ids hids).trans (h.transactions ids hids)⟩

theorem Aside.refl (receipts : List ReceiptView) (w : World) : Aside receipts w w := ⟨.of_db rfl, fun _ _ => rfl⟩

theorem stable_sameLinks : Stable (Aside receipts) (SameLinks receipts w) :=
  fun _ _ hw hstep => hw.trans hstep.toSameLinks

theorem stable_aside : Stable (Aside receipts) (Aside receipts w) := fun _ _ hw hstep =>
  ⟨hw.toSameLinks.trans hstep.toSameLinks, fun r hr => (hstep.cache r hr).trans (hw.cache r hr)⟩

theorem Aside.fromCache {w' : World} (h : Aside receipts w w') (key : ReceiptOrDataId) :
    fromCache receipts w'.cache key = fromCache receipts w.cache key := by
  unfold Receipts.fromCache
  split
  · rename_i hasked
    obtain ⟨r, hr, rfl⟩ := hasked
    exact h.cache r hr
  · rfl

/-- What the search has found in the end. -/
def Searched (w : World) (receipts : List ReceiptView) : TxHashes → Prop :=
  Stage w receipts fun r => HasOutcome w.db r ∨ ¬ EndsWithOutcomes w receipts

/-- A round begins at the start of the search or when nothing is left. -/
def RoundBegins (w : World) (receipts : List ReceiptView) (search : Search) : Prop :=
  ((∀ key, search.txHashes.lookup key = fromCache receipts w.cache key) ∧ search.receipts = uncached w receipts) ∨
    (Searched w receipts search.txHashes ∧ search.receipts = [])

/-- What is known of a value, and that the links are the same. -/
def Asked {α : Type} (w : World) (receipts : List ReceiptView) (K : α → Prop) (a : α) (w' : World) : Prop :=
  K a ∧ SameLinks receipts w w'

theorem stable_asked {α : Type} {K : α → Prop} (a : α) : Stable (Aside receipts) (Asked w receipts K a) :=
  (Stable.const _ _).and stable_sameLinks

theorem outline_ask {attempts : Option Nat} {read : Database → List (CryptoHash × ParentTransactionHashString)}
    {next : List (CryptoHash × ParentTransactionHashString) → Search ⊕ TxHashes} {K : Search ⊕ TxHashes → Prop}
    (hread : ∀ w', SameLinks receipts w w' → (read w'.db).Perm (read w.db))
    (hK : ∀ rows, rows.Perm (read w.db) → K (next rows)) :
    Outline False (Aside receipts) (fun _ _ => True) (SameLinks receipts w)
      (.query attempts (selectFrom read) (fun _ => false) fun rows =>
        .anyOrder (rows.getD []) fun rows => .ret (next rows))
      (Asked w receipts K) :=
  outline_rows (fun w' hw => ⟨trivial, fun rows hperm => ⟨hK rows (hperm.trans (hread w' hw)), hw⟩⟩) stable_asked

theorem outline_askDataOutput_strict (hdistinct : (receipts.map (·.receiptId)).Nodup)
    (hlinked : ∀ r ∈ receipts, ∃ hash, ParentHash w r hash) {search : Search}
    (hstart : ∀ key, search.txHashes.lookup key = fromCache receipts w.cache key)
    (hreceipts : search.receipts = uncached w receipts) :
    Outline False (Aside receipts) (fun _ _ => True) (SameLinks receipts w) search.askDataOutput
      (Asked w receipts (AfterDataOutput w receipts)) := by
  have hids : ∀ dataId ∈ search.dataIds, ∃ r ∈ receipts, r.dataId? = some dataId := by
    intro dataId hmem
    obtain ⟨r, hr, hdata⟩ := List.mem_filterMap.mp hmem
    exact ⟨r, (mem_uncached.mp (hreceipts ▸ hr)).1, hdata⟩
  refine outline_askDataOutput (fun hempty w' hw => ⟨afterNoDataIds hdistinct hstart hreceipts hempty, hw⟩)
    (fun w' hw => ⟨trivial, fun rows hperm => ⟨?_, hw⟩⟩) stable_asked
  exact afterDataOutput hdistinct hlinked hstart hreceipts (hperm.trans (hw.dataOutput _ hids))

theorem actionReceiptIds_subset {search : Search} (hsub : ∀ r ∈ search.receipts, r ∈ receipts) :
    ∀ receiptId ∈ search.actionReceiptIds, ∃ r ∈ receipts, r.receiptId = receiptId := by
  intro receiptId hmem
  obtain ⟨r, hr, hid⟩ := List.mem_map.mp hmem
  exact ⟨r, hsub r (List.mem_filter.mp hr).1, hid⟩

theorem mem_of_mem_uncachedActions {r : ReceiptView} (hr : r ∈ uncachedActions w receipts) : r ∈ receipts :=
  (mem_uncached.mp (mem_uncachedActions.mp hr).1).1

/-- The first round in the strict mode. -/
theorem outline_round_first (hdistinct : (receipts.map (·.receiptId)).Nodup)
    (hlinked : ∀ r ∈ receipts, ∃ hash, ParentHash w r hash) {search : Search}
    (hstart : ∀ key, search.txHashes.lookup key = fromCache receipts w.cache key)
    (hreceipts : search.receipts = uncached w receipts) :
    Outline False (Aside receipts) (fun _ _ => True) (SameLinks receipts w) (search.round true)
      (Asked w receipts (Sum.elim (RoundBegins w receipts) (Searched w receipts))) := by
  refine outline_round (outline_askDataOutput_strict hdistinct hlinked hstart hreceipts)
    (C := Asked w receipts (AfterOutcomes w receipts)) (E := Asked w receipts (AfterTransactions w receipts))
    (fun search => .assume fun hstage => ?_) (fun search => .assume fun hstage => ?_) (fun txHashes w' h => ?_)
    fun search w' ⟨hstage, hw⟩ => ⟨.inr ⟨?_, hstage.2.2⟩, hw⟩
  · have hsub : ∀ r ∈ search.receipts, r ∈ receipts := fun r hr => mem_of_mem_uncachedActions (hstage.2 ▸ hr)
    exact outline_ask (fun w' hw => hw.outcomes _ (actionReceiptIds_subset hsub))
      fun rows hperm => afterOutcomes hdistinct hstage hperm
  · have hsub : ∀ r ∈ search.receipts, r ∈ receipts :=
      fun r hr => mem_of_mem_uncachedActions ((hstage.2.2 r).mp hr).1
    exact outline_ask (fun w' hw => hw.transactions _ (actionReceiptIds_subset hsub))
      fun rows hperm => afterTransactions hdistinct hlinked hstage hperm
  · rcases h with ⟨hstage, hw⟩ | ⟨hstage, hw⟩ | ⟨hstage, hw⟩
    · refine ⟨hstage.1.congr fun r hr => ?_, hw⟩
      rw [hstage.2] at hr
      cases hr
    · exact ⟨hstage.1.congr fun r _ => (or_iff_left (not_not_intro hstage.2)).symm, hw⟩
    · exact ⟨hstage.1.congr fun r _ => (iff_true_intro (.inr hstage.2)).symm, hw⟩
  · exact hstage.1.congr fun r _ => (iff_true_intro (.inr hstage.2.1)).symm

/-- No row is found for no receipts, which ends the search. -/
theorem outline_round_empty {search : Search} (hsearched : Searched w receipts search.txHashes)
    (hempty : search.receipts = []) :
    Outline False (Aside receipts) (fun _ _ => True) (SameLinks receipts w) (search.round true)
      (Asked w receipts (Sum.elim (RoundBegins w receipts) (Searched w receipts))) := by
  have hnoDataIds : search.dataIds = [] := by
    rw [Search.dataIds, hempty]
    rfl
  have hnoIds : search.actionReceiptIds = [] := by
    rw [Search.actionReceiptIds, hempty]
    rfl
  have hdata : Outline False (Aside receipts) (fun _ _ => True) (SameLinks receipts w) search.askDataOutput
      (Asked w receipts fun stage => stage = .inl search) := by
    rw [Search.askDataOutput, hnoDataIds, if_pos List.isEmpty_nil]
    exact .ret fun w' hw => ⟨rfl, hw⟩
  refine outline_round hdata (C := Asked w receipts fun stage => stage = .inr search.txHashes)
    (E := Asked w receipts fun _ => False) (fun again => .assume fun hstage => ?_)
    (fun again => .assume fun hstage => by cases hstage) (fun txHashes w' h => ?_) fun _ _ h => h.1.elim
  · obtain rfl := Sum.inl.inj hstage
    refine outline_ask (fun w' hw => hw.outcomes _ ?_) fun rows hperm => ?_
    · rw [hnoIds]
      exact fun id hid => (List.not_mem_nil hid).elim
    · have hnone : viaOutcomes again.actionReceiptIds w.db = [] := by
        rw [hnoIds, viaOutcomes]
        simp
      rw [hnone] at hperm
      rw [List.Perm.eq_nil hperm, Search.extend_eq, if_pos (by rw [hempty]; rfl)]
      rfl
  · rcases h with ⟨hstage, _⟩ | ⟨hstage, hw⟩ | ⟨hstage, _⟩
    · cases hstage
    · obtain rfl := Sum.inr.inj hstage
      exact ⟨hsearched, hw⟩
    · exact hstage.elim

/-- A round of the search in the strict mode. -/
theorem outline_round_strict (hdistinct : (receipts.map (·.receiptId)).Nodup)
    (hlinked : ∀ r ∈ receipts, ∃ hash, ParentHash w r hash) {search : Search} (h : RoundBegins w receipts search) :
    Outline False (Aside receipts) (fun _ _ => True) (SameLinks receipts w) (search.round true)
      (Asked w receipts (Sum.elim (RoundBegins w receipts) (Searched w receipts))) := by
  rcases h with ⟨hstart, hreceipts⟩ | ⟨hsearched, hempty⟩
  · exact outline_round_first hdistinct hlinked hstart hreceipts
  · exact outline_round_empty hsearched hempty

theorem outline_findTxHashesForReceipts_strict (hdistinct : (receipts.map (·.receiptId)).Nodup)
    (hlinked : ∀ r ∈ receipts, ∃ hash, ParentHash w r hash) :
    Outline False (Aside receipts) (fun _ _ => True) (Aside receipts w) (findTxHashesForReceipts true receipts)
      (Asked w receipts (Searched w receipts)) := by
  refine Outline.bind (outline_withCache (M := Asked w receipts fun txHashes : TxHashes =>
    ∀ key, txHashes.lookup key = fromCache receipts w.cache key) (fun w' hw => ⟨trivial, fun key => ?_, ?_⟩)
    stable_asked) fun txHashes => .assume fun hstart => ?_
  · rw [lookup_askCacheForAll, hw.fromCache]
  · exact hw.toSameLinks.trans (.of_db rfl)
  have hleft := filter_not_fromCache hstart
  refine outline_searchForOthers (I := Asked w receipts (RoundBegins w receipts)) (fun hempty w' hw => ⟨?_, hw⟩)
    (fun w' hw => ⟨.inl ⟨hstart, hleft⟩, hw⟩) stable_asked stable_asked fun search => .assume fun hsearch => ?_
  · refine (Stage.start hdistinct hstart).congr fun r hr => ?_
    rw [mem_uncachedActions, ← hleft, hempty] at hr
    cases hr.1
  · refine (outline_round_strict hdistinct hlinked hsearch).post fun stage w' hw => ?_
    cases stage with
    | inl search => exact hw
    | inr txHashes => exact hw

end Stages

end ExplorerIndexer.Receipts

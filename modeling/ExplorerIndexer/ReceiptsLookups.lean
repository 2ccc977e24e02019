import ExplorerIndexer.AdapterReceipts

/-! What the receipts adapter finds: in the cache, through the three queries, and in the map it collects. -/

namespace ExplorerIndexer.Receipts

open Async Store Models

/-! ### Keys -/

theorem of_receiptOrDataId_eq {receipt : ReceiptView} {receiptId : CryptoHash}
    (h : receiptOrDataId receipt = .receiptId receiptId) :
    receipt.isAction = true ∧ receipt.receiptId = receiptId := by
  unfold receiptOrDataId at h
  unfold ReceiptView.isAction
  cases hkind : receipt.receipt with
  | action =>
      rw [hkind] at h
      exact ⟨rfl, ReceiptOrDataId.receiptId.inj h⟩
  | data =>
      rw [hkind] at h
      cases h

theorem receiptOrDataId_of_isAction {receipt : ReceiptView} (h : receipt.isAction = true) :
    receiptOrDataId receipt = .receiptId receipt.receiptId := by
  unfold ReceiptView.isAction at h
  unfold receiptOrDataId
  cases hkind : receipt.receipt with
  | action => rfl
  | data =>
      rw [hkind] at h
      cases h

theorem receiptOrDataId_of_dataId? {receipt : ReceiptView} {dataId : CryptoHash} (h : receipt.dataId? = some dataId) :
    receiptOrDataId receipt = .dataId dataId := by
  unfold ReceiptView.dataId? at h
  unfold receiptOrDataId
  cases hkind : receipt.receipt with
  | action =>
      rw [hkind] at h
      cases h
  | data =>
      rw [hkind] at h
      cases h
      rfl

theorem isAction_eq_false {receipt : ReceiptView} :
    receipt.isAction = false ↔ ∃ dataId, receipt.dataId? = some dataId := by
  unfold ReceiptView.isAction ReceiptView.dataId?
  cases receipt.receipt with
  | action => simp
  | data dataId data => simp

/-! ### The cache -/

theorem askCache_fst (receipt : ReceiptView) (cache : ReceiptsCache) :
    (askCache receipt cache).1 = cache.lookup (receiptOrDataId receipt) := by
  unfold askCache receiptOrDataId
  cases receipt.receipt with
  | action => exact SizedCache.cacheGet_fst _ _
  | data => rfl

/-- Asking for a receipt leaves the cache as it is, or takes out what it has on that receipt. -/
theorem lookup_askCache (receipt : ReceiptView) (cache : ReceiptsCache) (key : ReceiptOrDataId) :
    (askCache receipt cache).2.lookup key = cache.lookup key ∨
      key = receiptOrDataId receipt ∧ (askCache receipt cache).2.lookup key = none := by
  unfold askCache receiptOrDataId
  cases receipt.receipt with
  | action => exact .inl (SizedCache.lookup_cacheGet _ _ _)
  | data dataId data =>
      have hremove := SizedCache.lookup_cacheRemove (.dataId dataId) key cache
      by_cases hkey : key = .dataId dataId
      · rw [if_pos hkey] at hremove
        exact .inr ⟨hkey, hremove⟩
      · rw [if_neg hkey] at hremove
        exact .inl hremove

theorem of_lookup_askCache {receipt : ReceiptView} {cache : ReceiptsCache} {key : ReceiptOrDataId}
    {hash : ParentTransactionHashString} (h : (askCache receipt cache).2.lookup key = some hash) :
    cache.lookup key = some hash := by
  rcases lookup_askCache receipt cache key with hsame | ⟨_, hnone⟩
  · rwa [← hsame]
  · rw [hnone] at h
    cases h

theorem addFromCache_snd (found : TxHashes × ReceiptsCache) (receipt : ReceiptView) :
    (addFromCache found receipt).2 = (askCache receipt found.2).2 := by
  unfold addFromCache
  split
  · rename_i transactionHash cache hask
    rw [hask]
  · rename_i cache hask
    rw [hask]

/-- Asking for receipts adds nothing to the cache. -/
theorem of_lookup_askCacheForAll {receipts : List ReceiptView} {cache : ReceiptsCache} {key : ReceiptOrDataId}
    {hash : ParentTransactionHashString} (h : (askCacheForAll receipts cache).2.lookup key = some hash) :
    cache.lookup key = some hash := by
  unfold askCacheForAll at h
  generalize (∅ : TxHashes) = txHashes at h
  induction receipts generalizing txHashes cache with
  | nil => exact h
  | cons receipt receipts ih =>
      rw [List.foldl_cons] at h
      have hrest : (addFromCache (txHashes, cache) receipt).2.lookup key = some hash := ih _ h
      rw [addFromCache_snd] at hrest
      exact of_lookup_askCache hrest

/-- What the map and the cache have together. -/
def known (found : TxHashes × ReceiptsCache) (key : ReceiptOrDataId) : Option ParentTransactionHashString :=
  (found.2.lookup key).or (found.1.lookup key)

theorem known_addFromCache (found : TxHashes × ReceiptsCache) (receipt : ReceiptView) (key : ReceiptOrDataId) :
    known (addFromCache found receipt) key = known found key ∧
      (addFromCache found receipt).1.lookup key =
        if key = receiptOrDataId receipt then known found key else found.1.lookup key := by
  have hfst := askCache_fst receipt found.2
  have hsnd := lookup_askCache receipt found.2 key
  unfold addFromCache known
  split
  · rename_i transactionHash cache hask
    rw [hask] at hfst hsnd
    have hmap := Table.lookup_insert' (receiptOrDataId receipt) key transactionHash found.1
    by_cases hkey : key = receiptOrDataId receipt
    · subst hkey
      rw [if_pos rfl] at hmap
      rw [if_pos rfl, ← hfst, Option.some_or]
      refine ⟨?_, hmap⟩
      rcases hsnd with hsnd | ⟨_, hsnd⟩
      · calc (cache.lookup _).or _
            = (some transactionHash).or _ := congrArg (Option.or · _) (hsnd.trans hfst.symm)
          _ = some transactionHash := Option.some_or
      · calc (cache.lookup _).or _
            = none.or _ := congrArg (Option.or · _) hsnd
          _ = _ := Option.none_or
          _ = some transactionHash := hmap
    · rw [if_neg hkey] at hmap
      rw [if_neg hkey]
      exact ⟨congrArg₂ Option.or (hsnd.resolve_right fun h => hkey h.1) hmap, hmap⟩
  · rename_i cache hask
    rw [hask] at hfst hsnd
    have hcache : cache.lookup key = found.2.lookup key := by
      rcases hsnd with hsnd | ⟨rfl, hsnd⟩
      · exact hsnd
      · exact hsnd.trans hfst
    refine ⟨congrArg (Option.or · _) hcache, ?_⟩
    split
    · rename_i hkey
      rw [hkey, ← hfst, Option.none_or]
    · rfl

/-- What the cache has on the receipts. -/
def fromCache (receipts : List ReceiptView) (cache : ReceiptsCache) (key : ReceiptOrDataId) :
    Option ParentTransactionHashString :=
  if ∃ receipt ∈ receipts, receiptOrDataId receipt = key then cache.lookup key else none

theorem lookup_askCacheForAll (receipts : List ReceiptView) (cache : ReceiptsCache) (key : ReceiptOrDataId) :
    (askCacheForAll receipts cache).1.lookup key = fromCache receipts cache key := by
  have hfold : ∀ found : TxHashes × ReceiptsCache, (receipts.foldl addFromCache found).1.lookup key =
      if ∃ receipt ∈ receipts, receiptOrDataId receipt = key then known found key else found.1.lookup key := by
    induction receipts with
    | nil => exact fun found => (if_neg (by simp)).symm
    | cons receipt receipts ih =>
        intro found
        obtain ⟨hknown, hlookup⟩ := known_addFromCache found receipt key
        rw [List.foldl_cons, ih, hknown, hlookup]
        by_cases hkey : key = receiptOrDataId receipt
        · simp [hkey]
        · simp [hkey, Ne.symm hkey]
  have hempty : (∅ : TxHashes).lookup key = none := rfl
  rw [askCacheForAll, hfold, known, hempty, Option.or_none, fromCache]

/-- Data ids are cached, nothing is cached for receipt ids. -/
theorem of_lookup_cacheDataIds {receipts : List ReceiptView} {txHashes : TxHashes} {cache : ReceiptsCache}
    {receiptId : CryptoHash} {hash : ParentTransactionHashString}
    (h : (cacheDataIds receipts txHashes cache).lookup (.receiptId receiptId) = some hash) :
    cache.lookup (.receiptId receiptId) = some hash := by
  refine SizedCache.of_lookup_foldl (fun cache receipt _ hlookup => ?_) h
  split at hlookup
  · refine SizedCache.of_lookup_foldl (fun cache receiver _ hset => ?_) hlookup
    rcases SizedCache.of_lookup_cacheSet hset with ⟨hkey, _⟩ | ⟨_, hold⟩
    · cases hkey
    · exact hold
  · exact hlookup

/-! ### The queries -/

/-- What an inner join with the table of receipts finds. -/
theorem mem_joinReceipts {ρ : Type} {rows : List ρ} {id parentId : ρ → CryptoHash} {ids : List CryptoHash}
    {receipts : Table CryptoHash Receipt} {entry : CryptoHash × ParentTransactionHashString} :
    (entry ∈ (rows.filter fun row => id row ∈ ids).filterMap fun row =>
        (receipts.lookup (parentId row)).map fun parent => (id row, parent.originatedFromTransactionHash)) ↔
      ∃ row ∈ rows, id row ∈ ids ∧ id row = entry.1 ∧
        ∃ parent, receipts.lookup (parentId row) = some parent ∧ parent.originatedFromTransactionHash = entry.2 := by
  simp only [List.mem_filterMap, List.mem_filter, decide_eq_true_eq, Option.map_eq_some_iff, Prod.ext_iff]
  constructor
  · rintro ⟨row, ⟨hrow, hasked⟩, parent, hparent, hid, hhash⟩
    exact ⟨row, hrow, hasked, hid, parent, hparent, hhash⟩
  · rintro ⟨row, hrow, hasked, hid, parent, hparent, hhash⟩
    exact ⟨row, ⟨hrow, hasked⟩, parent, hparent, hid, hhash⟩

theorem mem_viaOutcomes {receiptIds : List CryptoHash} {db : Database}
    {entry : CryptoHash × ParentTransactionHashString} : entry ∈ viaOutcomes receiptIds db ↔
      ∃ row ∈ db.executionOutcomeReceipts.rows, row.producedReceiptId ∈ receiptIds ∧
        row.producedReceiptId = entry.1 ∧ ∃ parent, db.receipts.lookup row.executedReceiptId = some parent ∧
          parent.originatedFromTransactionHash = entry.2 := mem_joinReceipts

theorem mem_viaDataOutput {dataIds : List CryptoHash} {db : Database}
    {entry : CryptoHash × ParentTransactionHashString} : entry ∈ viaDataOutput dataIds db ↔
      ∃ row ∈ db.actionReceiptOutputData.rows, row.outputDataId ∈ dataIds ∧ row.outputDataId = entry.1 ∧
        ∃ parent, db.receipts.lookup row.outputFromReceiptId = some parent ∧
          parent.originatedFromTransactionHash = entry.2 := mem_joinReceipts

theorem mem_viaTransactions {receiptIds : List CryptoHash} {db : Database}
    {entry : CryptoHash × ParentTransactionHashString} : entry ∈ viaTransactions receiptIds db ↔
      ∃ row ∈ db.transactions.rows, row.convertedIntoReceiptId ∈ receiptIds ∧
        row.convertedIntoReceiptId = entry.1 ∧ row.transactionHash = entry.2 := by
  simp only [viaTransactions, List.mem_map, List.mem_filter, decide_eq_true_eq, Prod.ext_iff]
  constructor
  · rintro ⟨row, ⟨hrow, hasked⟩, hid, hhash⟩
    exact ⟨row, hrow, hasked, hid, hhash⟩
  · rintro ⟨row, hrow, hasked, hid, hhash⟩
    exact ⟨row, ⟨hrow, hasked⟩, hid, hhash⟩

theorem mem_actionReceiptIds_iff {search : Search} {id : CryptoHash} :
    id ∈ search.actionReceiptIds ↔ ∃ r ∈ search.receipts, r.isAction = true ∧ r.receiptId = id := by
  simp only [Search.actionReceiptIds, List.mem_map, List.mem_filter, and_assoc]

theorem actionReceiptIds_of_isAction {search : Search} (hactions : ∀ r ∈ search.receipts, r.isAction = true) :
    search.actionReceiptIds = search.receipts.map (·.receiptId) := by
  rw [Search.actionReceiptIds, List.filter_eq_self.mpr hactions]

/-! ### The map of found parents -/

/-- Adds what a query has found, under receipt ids. -/
def addFound (txHashes : TxHashes) (found : List (CryptoHash × ParentTransactionHashString)) : TxHashes :=
  found.foldl (fun txHashes entry => txHashes.insert (.receiptId entry.1) entry.2) txHashes

theorem Search.extend_eq (search : Search) (found : List (CryptoHash × ParentTransactionHashString)) :
    search.extend found =
      if found.length = search.receipts.length then .inr (addFound search.txHashes found)
      else
        .inl { search with
          txHashes := addFound search.txHashes found
          receipts := search.receipts.filter fun r =>
            ReceiptOrDataId.receiptId r.receiptId ∉ addFound search.txHashes found } := rfl

theorem receiptId_mem_addFound {txHashes : TxHashes} {found : List (CryptoHash × ParentTransactionHashString)}
    {receiptId : CryptoHash} : ReceiptOrDataId.receiptId receiptId ∈ addFound txHashes found ↔
      (∃ entry ∈ found, entry.1 = receiptId) ∨ ReceiptOrDataId.receiptId receiptId ∈ txHashes := by
  unfold addFound
  rw [Table.mem_foldl_insert]
  simp only [ReceiptOrDataId.receiptId.injEq]

/-- What is found for data ids goes to Data receipts. -/
theorem of_mem_ofDataIds {search : Search} {rows : List (CryptoHash × ParentTransactionHashString)}
    {entry : CryptoHash × ParentTransactionHashString} (h : entry ∈ search.ofDataIds rows) :
    ∃ r ∈ search.receipts, r.receiptId = entry.1 ∧ r.isAction = false := by
  obtain ⟨r, hr, hentry⟩ := List.mem_filterMap.mp h
  obtain ⟨dataId, hdata, hfound⟩ := Option.bind_eq_some_iff.mp hentry
  obtain ⟨hash, _, rfl⟩ := Option.map_eq_some_iff.mp hfound
  exact ⟨r, hr, rfl, isAction_eq_false.mpr ⟨dataId, hdata⟩⟩

/-- A data id that was found has a parent. -/
theorem exists_lookup_of_found {rows : List (CryptoHash × ParentTransactionHashString)} {dataId : CryptoHash}
    {hash : ParentTransactionHashString} (hrow : (dataId, hash) ∈ rows) :
    ∃ hash', (rows.foldl (fun txHashes entry => txHashes.insert entry.1 entry.2)
      (∅ : Table CryptoHash ParentTransactionHashString)).lookup dataId = some hash' :=
  Table.mem_iff_lookup.mp (Table.mem_foldl_insert.mpr (.inl ⟨_, hrow, rfl⟩))

theorem exists_ofDataIds {search : Search} {rows : List (CryptoHash × ParentTransactionHashString)}
    {receipt : ReceiptView} {dataId : CryptoHash} {hash : ParentTransactionHashString}
    (hreceipt : receipt ∈ search.receipts) (hdata : receipt.dataId? = some dataId) (hrow : (dataId, hash) ∈ rows) :
    ∃ entry ∈ search.ofDataIds rows, entry.1 = receipt.receiptId := by
  obtain ⟨hash', hlookup⟩ := exists_lookup_of_found hrow
  refine ⟨(receipt.receiptId, hash'), List.mem_filterMap.mpr ⟨receipt, hreceipt, ?_⟩, rfl⟩
  rw [hdata, Option.bind_some]
  exact Option.map_eq_some_iff.mpr ⟨hash', hlookup, rfl⟩

/-! ### Rows -/

theorem of_mem_receiptModels {receipts : List ReceiptView} {blockHash chunkHash : CryptoHash} {blockTimestamp : Nat}
    {txHashes : TxHashes} {row : Receipt}
    (hrow : row ∈ receiptModels receipts blockHash chunkHash blockTimestamp txHashes) :
    ∃ receipt ∈ receipts, row.receiptId = receipt.receiptId ∧
      txHashes.lookup (receiptOrDataId receipt) = some row.originatedFromTransactionHash := by
  obtain ⟨⟨receipt, index⟩, hentry, hmodel⟩ := List.mem_filterMap.mp hrow
  obtain ⟨hash, hlookup, rfl⟩ := Option.map_eq_some_iff.mp hmodel
  exact ⟨receipt, List.fst_mem_of_mem_zipIdx hentry, rfl, hlookup⟩

theorem exists_receiptModel {receipts : List ReceiptView} {blockHash chunkHash : CryptoHash} {blockTimestamp : Nat}
    {txHashes : TxHashes} {receipt : ReceiptView} (hreceipt : receipt ∈ receipts) {hash : ParentTransactionHashString}
    (hlookup : txHashes.lookup (receiptOrDataId receipt) = some hash) :
    ∃ row ∈ receiptModels receipts blockHash chunkHash blockTimestamp txHashes,
      row.receiptId = receipt.receiptId := by
  obtain ⟨i, hi, rfl⟩ := List.getElem_of_mem hreceipt
  have hentry := List.mk_mem_zipIdx_iff_getElem?.mpr (List.getElem?_eq_getElem hi)
  exact ⟨_, List.mem_filterMap.mpr ⟨_, hentry, Option.map_eq_some_iff.mpr ⟨hash, hlookup, rfl⟩⟩, rfl⟩

end ExplorerIndexer.Receipts

import ExplorerIndexer.AsyncAlone
import ExplorerIndexer.IndexerRuns
import ExplorerIndexer.ParentsSound
import ExplorerIndexer.ReceiptsOutlines

/-! Parent transactions are the true ones: the search for parents finds no other than those that receipts stem from,
so the receipts cache and the tables never attribute one to another transaction, whatever the order in which messages
are handled, interrupted and handled again. -/

namespace ExplorerIndexer.Parents

open Async Store Models

variable {stream : List StreamerMessage} {root : ReceiptOrDataId → CryptoHash}

/-! ### The search for parents -/

/-- What the cache knows of receipts, and what it still knows afterwards. -/
theorem sound_askCacheForAll (receipts : List ReceiptView) {cache : ReceiptsCache}
    (h : SoundHashes root cache.lookup) :
    SoundHashes root (Receipts.askCacheForAll receipts cache).1.lookup ∧
      SoundHashes root (Receipts.askCacheForAll receipts cache).2.lookup := by
  refine ⟨fun key hash hlookup => ?_, fun key hash hlookup => h key hash (Receipts.of_lookup_askCacheForAll hlookup)⟩
  have hknown : Receipts.fromCache receipts cache key = some hash :=
    (Receipts.lookup_askCacheForAll receipts cache key).symm.trans hlookup
  unfold Receipts.fromCache at hknown
  split at hknown
  · exact h key hash hknown
  · cases hknown

/-- Found entries are the roots of the receipts they are found for. -/
def SoundFound (root : ReceiptOrDataId → CryptoHash) (found : List (CryptoHash × ParentTransactionHashString)) :
    Prop :=
  ∀ entry ∈ found, entry.2 = (root (.receiptId entry.1)).text

/-- A search among some receipts that has found only roots. -/
structure SoundSearch (root : ReceiptOrDataId → CryptoHash) (receipts : List ReceiptView)
    (search : Receipts.Search) : Prop where
  txHashes : SoundHashes root search.txHashes.lookup
  receipts : ∀ r ∈ search.receipts, r ∈ receipts

/-- The search goes on or is over with what it has found. -/
def SoundStage (root : ReceiptOrDataId → CryptoHash) (receipts : List ReceiptView) :
    Receipts.Search ⊕ Receipts.TxHashes → Prop :=
  Sum.elim (SoundSearch root receipts) fun txHashes => SoundHashes root txHashes.lookup

theorem SoundSearch.extend {receipts : List ReceiptView} {search : Receipts.Search}
    (h : SoundSearch root receipts search) {found : List (CryptoHash × ParentTransactionHashString)}
    (hfound : SoundFound root found) : SoundStage root receipts (search.extend found) := by
  have htxHashes : SoundHashes root (Receipts.addFound search.txHashes found).lookup := by
    intro key hash hlookup
    rcases Table.of_lookup_foldl_insert hlookup with ⟨entry, hentry, rfl, rfl⟩ | hold
    · exact hfound entry hentry
    · exact h.txHashes key hash hold
  rw [Receipts.Search.extend_eq]
  split
  · exact htxHashes
  · exact ⟨htxHashes, fun r hr => h.receipts r (List.mem_filter.mp hr).1⟩

/-! ### What the queries find -/

theorem Sound.viaOutcomes {w : World} (hw : Sound stream root w) (receiptIds : List CryptoHash) :
    SoundFound root (Receipts.viaOutcomes receiptIds w.db) := by
  intro entry hentry
  obtain ⟨row, hrow, _, hproduced, parent, hparent, hhash⟩ := Receipts.mem_viaOutcomes.mp hentry
  obtain ⟨key, hkey⟩ := Table.mem_rows_iff_lookup.mp hrow
  rw [← hhash, ← hproduced, hw.receipts _ parent hparent, hw.outcomeReceipts key row hkey]

theorem Sound.viaTransactions {w : World} (hw : Sound stream root w) (hroot : Labelling stream root)
    (receiptIds : List CryptoHash) : SoundFound root (Receipts.viaTransactions receiptIds w.db) := by
  intro entry hentry
  obtain ⟨row, hrow, _, hreceipt, htransaction⟩ := Receipts.mem_viaTransactions.mp hentry
  obtain ⟨hash, hlookup⟩ := Table.mem_rows_iff_lookup.mp hrow
  obtain ⟨message, hmessage, tx, htx, _, hhash, _, hconverted⟩ := hw.transactions hash row hlookup
  rw [← htransaction, ← hreceipt, hhash, hconverted, hroot.converted message hmessage tx htx]

theorem Sound.viaDataOutput {w : World} (hw : Sound stream root w) (dataIds : List CryptoHash) :
    ∀ entry ∈ Receipts.viaDataOutput dataIds w.db, entry.2 = (root (.dataId entry.1)).text := by
  intro entry hentry
  obtain ⟨row, hrow, _, houtput, parent, hparent, hhash⟩ := Receipts.mem_viaDataOutput.mp hentry
  obtain ⟨key, hkey⟩ := Table.mem_rows_iff_lookup.mp hrow
  rw [← hhash, ← houtput, hw.receipts _ parent hparent, hw.outputData key row hkey]

/-- The parents of Data receipts are those of their data ids. -/
theorem SoundSearch.ofDataIds {receipts : List ReceiptView} {search : Receipts.Search}
    (h : SoundSearch root receipts search)
    (hdata : ∀ receipt ∈ receipts, ∀ dataId, receipt.dataId? = some dataId →
      root (.receiptId receipt.receiptId) = root (.dataId dataId))
    {rows : List (CryptoHash × ParentTransactionHashString)}
    (hrows : ∀ entry ∈ rows, entry.2 = (root (.dataId entry.1)).text) :
    SoundFound root (search.ofDataIds rows) := by
  intro entry hentry
  obtain ⟨r, hr, hfound⟩ := List.mem_filterMap.mp hentry
  obtain ⟨dataId, hdataId, hhash⟩ := Option.bind_eq_some_iff.mp hfound
  obtain ⟨hash, hlookup, rfl⟩ := Option.map_eq_some_iff.mp hhash
  rw [hdata r (h.receipts r hr) dataId hdataId]
  rcases Table.of_lookup_foldl_insert hlookup with ⟨row, hrow, rfl, rfl⟩ | hempty
  · exact hrows row hrow
  · cases hempty

section Search

variable {receipts : List ReceiptView}

/-- A query whose rows come in any order. -/
theorem outline_ask {attempts : Option Nat} {read : Database → List (CryptoHash × ParentTransactionHashString)}
    {search : Receipts.Search} (hsearch : SoundSearch root receipts search)
    (hread : ∀ w, Sound stream root w → SoundFound root (read w.db)) :
    Outline False (KeepsSound stream root) (KeepsSound stream root) (Sound stream root)
      (.query attempts (selectFrom read) (fun _ => false) fun rows =>
        .anyOrder (rows.getD []) fun rows => .ret (search.extend rows))
      (Knows stream root (SoundStage root receipts)) := by
  refine outline_rows (fun w hw => ⟨.of_sameParents ⟨rfl, rfl, rfl, rfl, rfl⟩, fun rows hperm => ⟨?_, hw⟩⟩)
    (stable_knows _)
  exact hsearch.extend fun entry hentry => hread w hw entry (hperm.mem_iff.mp hentry)

variable (hdata : ∀ receipt ∈ receipts, ∀ dataId, receipt.dataId? = some dataId →
  root (.receiptId receipt.receiptId) = root (.dataId dataId))

include hdata

theorem outline_askDataOutput {search : Receipts.Search} (hsearch : SoundSearch root receipts search) :
    Outline False (KeepsSound stream root) (KeepsSound stream root) (Sound stream root) search.askDataOutput
      (Knows stream root (SoundStage root receipts)) := by
  refine Receipts.outline_askDataOutput (fun _ _ hw => ⟨hsearch, hw⟩)
    (fun w hw => ⟨.of_sameParents ⟨rfl, rfl, rfl, rfl, rfl⟩, fun rows hperm => ⟨?_, hw⟩⟩) (stable_knows _)
  refine hsearch.extend (hsearch.ofDataIds hdata fun entry hentry => ?_)
  exact hw.viaDataOutput _ entry (hperm.mem_iff.mp hentry)

/-- One round of the search finds roots only. -/
theorem outline_round (hroot : Labelling stream root) (strictMode : Bool) {search : Receipts.Search}
    (hsearch : SoundSearch root receipts search) :
    Outline False (KeepsSound stream root) (KeepsSound stream root) (Sound stream root) (search.round strictMode)
      (Knows stream root (SoundStage root receipts)) := by
  refine Receipts.outline_round (outline_askDataOutput hdata hsearch)
    (fun search => .assume fun hsearch => outline_ask hsearch fun w hw => hw.viaOutcomes _)
    (fun search => .assume fun hsearch => outline_ask hsearch fun w hw => hw.viaTransactions hroot _)
    (fun txHashes w h => ?_) fun search w ⟨hsearch, hw⟩ => ⟨?_, hw⟩
  · rcases h with h | h | h <;> exact h
  · unfold Receipts.Search.retry
    split
    · exact hsearch
    · split
      · exact ⟨hsearch.txHashes, hsearch.receipts⟩
      · exact hsearch.txHashes

theorem outline_findTxHashesForReceipts (hroot : Labelling stream root) (strictMode : Bool) :
    Outline False (KeepsSound stream root) (KeepsSound stream root) (Sound stream root)
      (Receipts.findTxHashesForReceipts strictMode receipts)
      (Knows stream root fun txHashes => SoundHashes root txHashes.lookup) := by
  refine Outline.bind (outline_withCache (M := Knows stream root fun txHashes : Receipts.TxHashes =>
    SoundHashes root txHashes.lookup) (fun w hw => ?_) (stable_knows _)) fun txHashes => .assume fun htxHashes => ?_
  · obtain ⟨hfound, hcache⟩ := sound_askCacheForAll receipts hw.cache
    have hkeeps : KeepsSound stream root w _ := .withCache hcache
    exact ⟨hkeeps, hfound, hkeeps.sound hw⟩
  refine Receipts.outline_searchForOthers (I := Knows stream root (SoundSearch root receipts))
    (fun _ w hw => ⟨htxHashes, hw⟩) (fun w hw => ⟨⟨htxHashes, fun r hr => (List.mem_filter.mp hr).1⟩, hw⟩)
    (stable_knows _) (stable_knows _) fun search => .assume fun hsearch => ?_
  refine (outline_round hdata hroot strictMode hsearch).post fun stage w hw => ?_
  cases stage with
  | inl search => exact hw
  | inr txHashes => exact hw

end Search

/-! ### The receipts of a chunk -/

section ChunkReceipts

variable {receipts : List ReceiptView} {blockHash chunkHash : CryptoHash} {blockTimestamp : Nat}
  {txHashes : Receipts.TxHashes}

theorem sound_cacheDataIds (houtput : ∀ receipt ∈ receipts, ∀ receiver ∈ receipt.outputDataReceivers,
      root (.dataId receiver.dataId) = root (.receiptId receipt.receiptId))
    (htxHashes : SoundHashes root txHashes.lookup) {cache : ReceiptsCache} (h : SoundHashes root cache.lookup) :
    SoundHashes root (Receipts.cacheDataIds receipts txHashes cache).lookup := by
  refine SoundHashes.foldl (fun cache receipt hreceipt hcache => ?_) h
  split
  · rename_i transactionHash hlookup
    refine SoundHashes.foldl (fun cache' receiver hreceiver hcache' => hcache'.cacheSet ?_) hcache
    rw [houtput receipt hreceipt receiver hreceiver]
    exact htxHashes _ _ hlookup
  · exact hcache

theorem root_receiptOrDataId (hdata : ∀ receipt ∈ receipts, ∀ dataId, receipt.dataId? = some dataId →
      root (.receiptId receipt.receiptId) = root (.dataId dataId))
    {receipt : ReceiptView} (hreceipt : receipt ∈ receipts) :
    root (Receipts.receiptOrDataId receipt) = root (.receiptId receipt.receiptId) := by
  have hroot := hdata receipt hreceipt
  unfold Receipts.receiptOrDataId
  unfold ReceiptView.dataId? at hroot
  cases hkind : receipt.receipt with
  | action => rfl
  | data dataId data =>
      rw [hkind] at hroot
      exact (hroot dataId rfl).symm

/-- The rows of receipts name their roots. -/
theorem originated_of_mem_receiptModels (hdata : ∀ receipt ∈ receipts, ∀ dataId, receipt.dataId? = some dataId →
      root (.receiptId receipt.receiptId) = root (.dataId dataId)) (htxHashes : SoundHashes root txHashes.lookup)
    {row : Receipt} (hrow : row ∈ Receipts.receiptModels receipts blockHash chunkHash blockTimestamp txHashes) :
    row.originatedFromTransactionHash = (root (.receiptId row.receiptId)).text := by
  obtain ⟨receipt, hreceipt, hid, hlookup⟩ := Receipts.of_mem_receiptModels hrow
  rw [hid, ← root_receiptOrDataId hdata hreceipt]
  exact htxHashes _ _ hlookup

theorem keepsSound_insertOutputData (houtput : ∀ receipt ∈ receipts, ∀ receiver ∈ receipt.outputDataReceivers,
      root (.dataId receiver.dataId) = root (.receiptId receipt.receiptId)) (w : World) :
    KeepsSound stream root w { w with db := { w.db with
      actionReceiptOutputData := w.db.actionReceiptOutputData.insertAllNew ActionReceiptOutputData.key
        (Receipts.outputDataModels receipts) } } := by
  refine ⟨fun hw => ⟨hw.cache, hw.transactions, hw.receipts, hw.outcomeReceipts, fun key row hrow => ?_⟩,
    fun _ _ h => h⟩
  rcases Table.mem_of_lookup_insertAllNew hrow with hold | ⟨_, hnew, _⟩
  · exact hw.outputData key row hold
  · obtain ⟨receipt, hreceipt, hmodel⟩ := List.mem_flatMap.mp hnew
    obtain ⟨receiver, hreceiver, rfl⟩ := List.mem_map.mp hmodel
    exact houtput receipt hreceipt receiver hreceiver

theorem outline_storeChunkReceipts (decoders : Decoders) (strictMode : Bool) (hroot : Labelling stream root)
    (houtput : ∀ receipt ∈ receipts, ∀ receiver ∈ receipt.outputDataReceivers,
      root (.dataId receiver.dataId) = root (.receiptId receipt.receiptId))
    (hdata : ∀ receipt ∈ receipts, ∀ dataId, receipt.dataId? = some dataId →
      root (.receiptId receipt.receiptId) = root (.dataId dataId)) :
    Outline False (KeepsSound stream root) (KeepsSound stream root) (Sound stream root)
      (Receipts.storeChunkReceipts decoders receipts blockHash chunkHash blockTimestamp strictMode)
      fun _ => Sound stream root := by
  refine (outline_findTxHashesForReceipts hdata hroot strictMode).bind fun txHashes => .assume fun htxHashes => ?_
  refine Outline.bind (outline_updateCache (fun w hw => ?_) stable_sound) fun _ => ?_
  · have hkeeps : KeepsSound stream root w _ := .withCache (sound_cacheDataIds houtput htxHashes hw.cache)
    exact ⟨hkeeps, hkeeps.sound hw⟩
  have hsave : Outline False (KeepsSound stream root) (KeepsSound stream root) (Sound stream root)
      (Receipts.saveReceipts (Receipts.receiptModels receipts blockHash chunkHash blockTimestamp txHashes))
      fun _ => Sound stream root := by
    refine Outline.bind (outline_insert False.elim (fun w hw _ => ?_) stable_sound) fun _ => .ret fun _ hw => hw
    have hkeeps : KeepsSound stream root w { w with db := { w.db with
        receipts := w.db.receipts.insertAllNew (·.receiptId)
          (Receipts.receiptModels receipts blockHash chunkHash blockTimestamp txHashes) } } := by
      refine ⟨fun hw => ⟨hw.cache, hw.transactions, fun id row hrow => ?_, hw.outcomeReceipts, hw.outputData⟩,
        fun _ _ h => h⟩
      rcases Table.mem_of_lookup_insertAllNew hrow with hold | ⟨_, hnew, rfl⟩
      · exact hw.receipts id row hold
      · exact originated_of_mem_receiptModels hdata htxHashes hnew
    exact ⟨hkeeps, hkeeps.sound hw⟩
  refine hsave.bind fun _ => ?_
  have helsewhere : ∀ {β : Type} {stmt : Statement World β}, (∀ w b w', stmt w = .ok (b, w') → SameParents w w') →
      Outline False (KeepsSound stream root) (KeepsSound stream root) (Sound stream root) (awaitRetryOrPanic stmt 10)
        fun _ => Sound stream root :=
    fun hstmt => (onlyQueries_await hstmt).outline_kept (fun _ _ => KeepsSound.of_sameParents) (fun _ _ h => h)
      stable_sound
  have hstored : ∀ receipt ∈ ((receipts.filter fun r =>
      r.receiptId ∉ Receipts.skippingReceiptIds receipts txHashes).partition (·.isAction)).1, receipt ∈ receipts := by
    intro receipt hreceipt
    rw [List.partition_eq_filter_filter] at hreceipt
    exact (List.mem_filter.mp (List.mem_filter.mp hreceipt).1).1
  refine (Outline.both (fun _ _ h => h) stable_sound stable_sound stable_sound ?_ ?_).post fun _ _ hw => hw.1
  · refine (helsewhere (kept_insertBatch fun _ _ => ⟨rfl, rfl, rfl, rfl, rfl⟩)).bind fun _ => ?_
    refine (helsewhere (kept_insertBatch fun _ _ => ⟨rfl, rfl, rfl, rfl, rfl⟩)).bind fun _ => ?_
    refine Outline.bind (outline_insert False.elim (fun w hw _ => ?_) stable_sound) fun _ => ?_
    · refine ⟨?_, KeepsSound.sound ?_ hw⟩ <;>
        exact keepsSound_insertOutputData (fun receipt hreceipt => houtput receipt (hstored receipt hreceipt)) w
    · exact (helsewhere (kept_insertBatch fun _ _ => ⟨rfl, rfl, rfl, rfl, rfl⟩)).bind fun _ =>
        .ret fun _ hw => hw
  · exact (helsewhere (kept_insertBatch fun _ _ => ⟨rfl, rfl, rfl, rfl, rfl⟩)).bind fun _ =>
      .ret fun _ hw => hw

end ChunkReceipts

theorem outline_storeReceipts (decoders : Decoders) (strictMode : Bool) {message : StreamerMessage}
    (hmessage : message ∈ stream) (hroot : Labelling stream root) :
    Outline False (KeepsSound stream root) (KeepsSound stream root) (Sound stream root)
      (Receipts.storeReceipts decoders message.shards message.block.header.hash message.block.header.timestamp
        strictMode) fun _ => Sound stream root := by
  refine .joinAll (fun _ _ h => h) stable_sound fun task htask => ?_
  obtain ⟨chunk, hchunk, rfl⟩ := List.mem_map.mp htask
  have hreceipts : ∀ receipt ∈ chunk.receipts, receipt ∈ message.receipts := fun receipt hreceipt =>
    List.mem_flatMap.mpr ⟨chunk, (List.mem_filter.mp hchunk).1, hreceipt⟩
  exact outline_storeChunkReceipts decoders strictMode hroot
    (fun receipt hreceipt => hroot.output message hmessage receipt (hreceipts receipt hreceipt))
    (fun receipt hreceipt => hroot.data message hmessage receipt (hreceipts receipt hreceipt))

/-! ### The indexer -/

theorem soundHashes_of_empty {cache : ReceiptsCache} (h : cache.entries = ∅) : SoundHashes root cache.lookup := by
  intro key hash hlookup
  rw [SizedCache.lookup, h] at hlookup
  cases hlookup

/-- The restart leaves an empty cache. -/
theorem Sound.restarts {w w' : World} (hw : Sound stream root w) (h : Restarts w w') : Sound stream root w' := by
  obtain ⟨hcache, hdb⟩ := h
  refine ⟨soundHashes_of_empty hcache, ?_, ?_, ?_, ?_⟩
  · rw [hdb]
    exact hw.transactions
  · rw [hdb]
    exact hw.receipts
  · rw [hdb]
    exact hw.outcomeReceipts
  · rw [hdb]
    exact hw.outputData

theorem outline_handleMessage_sound (decoders : Decoders) {message : StreamerMessage} (hmessage : message ∈ stream)
    (strictMode : Bool) (hroot : Labelling stream root) (hdistinct : DistinctHashes stream) :
    Outline False (KeepsSound stream root) (KeepsSound stream root) (Sound stream root)
      (handleMessage decoders message strictMode) fun _ => Sound stream root := by
  refine outline_handleMessage (fun _ _ => KeepsSound.of_sameParents) (fun _ _ h => h) stable_sound decoders
    message strictMode (outline_storeTransactions decoders hmessage hroot hdistinct)
    (outline_storeReceipts decoders strictMode hmessage hroot)
    (outline_storeExecutionOutcomes fun shard hshard outcome houtcome => ?_)
  exact hroot.produced message hmessage outcome (List.mem_flatMap.mpr ⟨shard, hshard, houtcome⟩)

theorem sound_of_reachable {decoders : Decoders} {pool : Pool World} (hroot : Labelling stream root)
    (hdistinct : DistinctHashes stream) (h : IndexerReachable decoders stream pool) :
    Sound stream root pool.state := by
  obtain ⟨cache, hcache, hreach⟩ := h
  suffices hinvariant : Sound stream root pool.state ∧ Outlined (KeepsSound stream root) pool from hinvariant.1
  refine hreach.invariant ?_ stable_sound (fun _ _ hrestart hw => hw.restarts hrestart) ?_
  · refine ⟨soundHashes_of_empty hcache, ?_, ?_, ?_, ?_⟩ <;>
      · intro key row hrow
        cases hrow
  · rintro p ⟨message, hmessage, strictMode, rfl⟩
    exact (outline_handleMessage_sound decoders hmessage strictMode hroot hdistinct).post fun _ _ _ => trivial

/-- Every entry of the receipts cache and every stored receipt names the transaction that the receipt or data id
stems from. -/
theorem parents_are_roots (decoders : Decoders) (stream : List StreamerMessage)
    (root : ReceiptOrDataId → CryptoHash) (hroot : Labelling stream root) (hdistinct : DistinctHashes stream)
    (pool : Pool World) (h : IndexerReachable decoders stream pool) :
    (∀ key transactionHash, pool.state.cache.lookup key = some transactionHash →
        transactionHash = (root key).text) ∧
      ∀ receiptId row, pool.state.db.receipts.lookup receiptId = some row →
        row.originatedFromTransactionHash = (root (.receiptId receiptId)).text :=
  have hsound := sound_of_reachable hroot hdistinct h
  ⟨hsound.cache, hsound.receipts⟩

/-! ### A transaction and its receipts -/

/-- A block with a transaction whose receipt is executed at once and produces another receipt. -/
def localReceipt : StreamerMessage where
  block :=
    { author := "validator.near"
      header :=
        { height := 7
          hash := .ofText "b7"
          prevHash := .ofText "b6"
          timestamp := 7
          totalSupply := 0
          gasPrice := 0 } }
  shards :=
    [.plain (.ofText "c7")
      [.plain (.ofText "b7") (.ofText "t1") (.ofText "r1") "bob.near"]
      [.plain (.ofText "r1") "bob.near" []]
      [.plain (.ofText "b7") (.plain (.ofText "r1") "bob.near" []) [.ofText "r2"]]]

def handleLocalReceipt : Prog World Unit := handleMessage .silent localReceipt true

theorem reachable_localReceipt :
    IndexerReachable .silent [localReceipt] ⟨[], handleLocalReceipt.after 1 emptyWorld⟩ :=
  (reachable_emptyWorld .silent [localReceipt]).handled (List.mem_singleton_self _) (finishes_after 1 (by decide))

example : (handleLocalReceipt.after 1 emptyWorld).cache.lookup (.receiptId (.ofText "r2")) = some "t1" := by decide

theorem parents_are_roots_localReceipt :
    (∀ key transactionHash, (handleLocalReceipt.after 1 emptyWorld).cache.lookup key = some transactionHash →
        transactionHash = "t1") ∧
      ∀ receiptId row, (handleLocalReceipt.after 1 emptyWorld).db.receipts.lookup receiptId = some row →
        row.originatedFromTransactionHash = "t1" :=
  parents_are_roots .silent [localReceipt] (fun _ => .ofText "t1")
    ⟨by decide, fun _ _ _ _ _ _ => rfl, fun _ _ _ _ _ _ => rfl, fun _ _ _ _ _ _ => rfl⟩
    (by unfold DistinctHashes; decide) _ reachable_localReceipt

end ExplorerIndexer.Parents

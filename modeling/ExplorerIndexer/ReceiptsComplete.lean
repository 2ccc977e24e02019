import ExplorerIndexer.AsyncAlone
import ExplorerIndexer.IndexerRuns
import ExplorerIndexer.ReceiptsSearch

/-! Which receipts of a chunk are stored in the strict mode. A Data receipt whose parent is found in the database goes
into the map under its receipt id, but is looked up there under its data id: it is skipped like a receipt without a
parent. -/

namespace ExplorerIndexer.Receipts

open Async Store Models

/-- The receipt is stored in the end, with the transaction hash of one of its parents. -/
def StoredWithParent (w : World) (receipt : ReceiptView) (w' : World) : Prop :=
  ∃ row, w'.db.receipts.lookup receipt.receiptId = some row ∧ ParentHash w receipt row.originatedFromTransactionHash

/-- The cache knows the receipt, or it is an Action receipt that the search finds. -/
def Resolved (w : World) (receipts : List ReceiptView) (receipt : ReceiptView) : Prop :=
  (∃ hash, w.cache.lookup (receiptOrDataId receipt) = some hash) ∨
    receipt.isAction = true ∧ (HasOutcome w.db receipt ∨ ¬ EndsWithOutcomes w receipts)

section Rows

variable {w : World} {receipts : List ReceiptView} {blockHash chunkHash : CryptoHash} {blockTimestamp : Nat}
  {txHashes : TxHashes} {receipt : ReceiptView}

/-- Of a receipt that is not searched for among the Action receipts, the map has what the cache had. -/
theorem Searched.lookup_cached (hdistinct : (receipts.map (·.receiptId)).Nodup) (h : Searched w receipts txHashes)
    (hreceipt : receipt ∈ receipts) (hnot : receipt ∉ uncachedActions w receipts) :
    txHashes.lookup (receiptOrDataId receipt) = w.cache.lookup (receiptOrDataId receipt) := by
  rw [h.kept, fromCache, if_pos ⟨receipt, hreceipt, rfl⟩]
  intro receipt' hreceipt' hkey
  obtain ⟨haction, hid⟩ := of_receiptOrDataId_eq hkey
  have hsame : receipt = receipt' :=
    List.inj_on_of_nodup_map hdistinct hreceipt (mem_uncached.mp hreceipt').1 hid
  exact hnot (mem_uncachedActions.mpr ⟨hsame ▸ hreceipt', haction⟩)

theorem Searched.parentHash (hdistinct : (receipts.map (·.receiptId)).Nodup) (h : Searched w receipts txHashes)
    (hreceipt : receipt ∈ receipts) {hash : ParentTransactionHashString}
    (hlookup : txHashes.lookup (receiptOrDataId receipt) = some hash) : ParentHash w receipt hash := by
  by_cases hmem : receipt ∈ uncachedActions w receipts
  · rw [receiptOrDataId_of_isAction (mem_uncachedActions.mp hmem).2] at hlookup
    exact h.sound receipt hmem hash hlookup
  · rw [h.lookup_cached hdistinct hreceipt hmem] at hlookup
    exact .cached hlookup

theorem Searched.resolved_iff (hdistinct : (receipts.map (·.receiptId)).Nodup) (h : Searched w receipts txHashes)
    (hreceipt : receipt ∈ receipts) :
    Resolved w receipts receipt ↔ ∃ hash, txHashes.lookup (receiptOrDataId receipt) = some hash := by
  by_cases hmem : receipt ∈ uncachedActions w receipts
  · obtain ⟨huncached, haction⟩ := mem_uncachedActions.mp hmem
    rw [Resolved, (mem_uncached.mp huncached).2, receiptOrDataId_of_isAction haction, ← Table.mem_iff_lookup,
      h.found receipt hmem]
    simp [haction]
  · rw [Resolved, h.lookup_cached hdistinct hreceipt hmem]
    refine or_iff_left_of_imp fun hfound => ?_
    cases hcache : w.cache.lookup (receiptOrDataId receipt) with
    | some hash => exact ⟨hash, rfl⟩
    | none => exact (hmem (mem_uncachedActions.mpr ⟨mem_uncached.mpr ⟨hreceipt, hcache⟩, hfound.1⟩)).elim

/-- The receipt is already stored with a parent's hash, or it is not stored and can be resolved. -/
def Completed (w : World) (receipts : List ReceiptView) (receipt : ReceiptView) : Prop :=
  StoredWithParent w receipt w ∨ receipt.receiptId ∉ w.db.receipts ∧ Resolved w receipts receipt

theorem storedWithParent_iff (hdistinct : (receipts.map (·.receiptId)).Nodup) (h : Searched w receipts txHashes)
    (hreceipt : receipt ∈ receipts) {w' : World}
    (hrow : w'.db.receipts.lookup receipt.receiptId = (w.db.receipts.lookup receipt.receiptId).or
      ((receiptModels receipts blockHash chunkHash blockTimestamp txHashes).find? fun row =>
        decide (row.receiptId = receipt.receiptId))) :
    StoredWithParent w receipt w' ↔ Completed w receipts receipt := by
  rw [Completed, Table.mem_iff_lookup, StoredWithParent, StoredWithParent, hrow]
  cases hold : w.db.receipts.lookup receipt.receiptId with
  | some row => simp
  | none =>
      rw [Option.none_or, h.resolved_iff hdistinct hreceipt]
      simp only [reduceCtorEq, false_and, exists_false, false_or, not_false_eq_true, true_and]
      -- the first row of the chunk under the id of the receipt is that of the receipt
      have hown : ∀ row, (receiptModels receipts blockHash chunkHash blockTimestamp txHashes).find?
          (fun row => decide (row.receiptId = receipt.receiptId)) = some row →
          txHashes.lookup (receiptOrDataId receipt) = some row.originatedFromTransactionHash := by
        intro row hfind
        have hid := List.find?_some hfind
        obtain ⟨receipt', hreceipt', hid', hlookup⟩ := of_mem_receiptModels (List.mem_of_find?_eq_some hfind)
        have hsame : receipt' = receipt :=
          List.inj_on_of_nodup_map hdistinct hreceipt' hreceipt (hid'.symm.trans (of_decide_eq_true hid))
        exact hsame ▸ hlookup
      constructor
      · rintro ⟨row, hfind, _⟩
        exact ⟨_, hown row hfind⟩
      · rintro ⟨hash, hlookup⟩
        obtain ⟨row, hmem, hid⟩ := exists_receiptModel hreceipt hlookup
        have hfound : ((receiptModels receipts blockHash chunkHash blockTimestamp txHashes).find?
            fun row => decide (row.receiptId = receipt.receiptId)).isSome = true :=
          List.find?_isSome.mpr ⟨row, hmem, decide_eq_true hid⟩
        obtain ⟨row', hfind⟩ := Option.isSome_iff_exists.mp hfound
        exact ⟨row', hfind, h.parentHash hdistinct hreceipt (hown row' hfind)⟩

end Rows

/-! ### The rows of a chunk -/

/-- The rows of the receipts of a chunk stay as they are. -/
def SameRows (receipts : List ReceiptView) (w w' : World) : Prop :=
  ∀ r ∈ receipts, w'.db.receipts.lookup r.receiptId = w.db.receipts.lookup r.receiptId

section Chunk

variable {w : World} {receipts : List ReceiptView} {blockHash chunkHash : CryptoHash} {blockTimestamp : Nat}

/-- What storing a chunk achieves. -/
def ChunkStored (w : World) (receipts : List ReceiptView) (w' : World) : Prop :=
  ∀ r ∈ receipts, StoredWithParent w r w' ↔ Completed w receipts r

theorem stable_chunkStored : Stable (SameRows receipts) (ChunkStored w receipts) := by
  intro w' w'' hw hstep r hr
  rw [← hw r hr, StoredWithParent, StoredWithParent, hstep r hr]

theorem outline_saveReceipts (hdistinct : (receipts.map (·.receiptId)).Nodup) {txHashes : TxHashes}
    (h : Searched w receipts txHashes) :
    Outline False (Aside receipts) (fun _ _ => True) (SameLinks receipts w)
      (saveReceipts (receiptModels receipts blockHash chunkHash blockTimestamp txHashes))
      fun _ => ChunkStored w receipts := by
  have hstable : Stable (Aside receipts) (ChunkStored w receipts) := stable_chunkStored.mono fun _ _ h => h.stored
  refine Outline.bind (outline_insert False.elim (fun w' hw _ => ⟨trivial, fun r hr => ?_⟩) hstable)
    fun _ => .ret fun _ hw => hw
  have hrow := Table.lookup_insertAllNew (·.receiptId)
    (receiptModels receipts blockHash chunkHash blockTimestamp txHashes) w'.db.receipts r.receiptId
  rw [hw.stored r hr] at hrow
  exact storedWithParent_iff hdistinct h hr hrow

/-- What belongs to the receipts goes to other tables. -/
theorem outline_receiptParts (decoders : Decoders) (actionReceipts dataReceipts : List ReceiptView) :
    Outline False (SameRows receipts) (SameRows receipts) (ChunkStored w receipts)
      (Prog.both (storeReceiptActions decoders actionReceipts blockTimestamp) (storeReceiptData dataReceipts))
      fun _ => ChunkStored w receipts := by
  have hkept : ∀ {w' : World} {db : Database}, ChunkStored w receipts w' → db.receipts = w'.db.receipts →
      SameRows receipts w' { w' with db := db } ∧ ChunkStored w receipts { w' with db := db } := by
    intro w' db hw hdb
    have hsame : SameRows receipts w' { w' with db := db } := fun r _ => by rw [hdb]
    exact ⟨hsame, stable_chunkStored w' _ hw hsame⟩
  have hstable : Stable (SameRows receipts) (ChunkStored w receipts) := stable_chunkStored
  refine (Outline.both (fun _ _ h => h) hstable hstable hstable ?_ ?_).post
    fun _ _ hw => hw.1
  · refine Outline.bind (outline_insert False.elim (fun w' hw _ => hkept hw rfl) hstable) fun _ => ?_
    refine Outline.bind (outline_insert False.elim (fun w' hw _ => hkept hw rfl) hstable) fun _ => ?_
    refine Outline.bind (outline_insert False.elim (fun w' hw _ => hkept hw rfl) hstable) fun _ => ?_
    exact Outline.bind (outline_insert False.elim (fun w' hw _ => hkept hw rfl) hstable) fun _ =>
      .ret fun _ hw => hw
  · exact Outline.bind (outline_insert False.elim (fun w' hw _ => hkept hw rfl) hstable) fun _ =>
      .ret fun _ hw => hw

theorem outline_storeChunkReceipts_strict (decoders : Decoders) (hdistinct : (receipts.map (·.receiptId)).Nodup)
    (hlinked : ∀ r ∈ receipts, ∃ hash, ParentHash w r hash) :
    Outline False (Aside receipts) (fun _ _ => True) (Aside receipts w)
      (storeChunkReceipts decoders receipts blockHash chunkHash blockTimestamp true)
      fun _ => ChunkStored w receipts := by
  refine (outline_findTxHashesForReceipts_strict hdistinct hlinked).bind fun txHashes => .assume fun hsearched => ?_
  refine Outline.bind (outline_updateCache (fun w' hw => ⟨trivial, hw.trans (.of_db rfl)⟩) stable_sameLinks)
    fun _ => ?_
  refine (outline_saveReceipts hdistinct hsearched).bind fun _ => ?_
  exact ((outline_receiptParts decoders _ _).rely_mono fun _ _ h => h.stored).guarantee_mono fun _ _ _ => trivial

end Chunk

/-- All receipts of a chunk, each with a parent somewhere, are stored in the strict mode exactly when each of them is
already stored with a parent's hash or is not stored and the cache knows it or the search finds it. -/
theorem receipts_complete_iff (decoders : Decoders) (receipts : List ReceiptView)
    (hdistinct : (receipts.map (·.receiptId)).Nodup) (blockHash chunkHash : CryptoHash) (blockTimestamp : Nat)
    (w w' : World) (hlinked : ∀ r ∈ receipts, ∃ hash, ParentHash w r hash)
    (hrun : Amid (Aside receipts) (storeChunkReceipts decoders receipts blockHash chunkHash blockTimestamp true) w
      () w') :
    (∀ r ∈ receipts, StoredWithParent w r w') ↔ ∀ r ∈ receipts, Completed w receipts r :=
  forall₂_congr ((outline_storeChunkReceipts_strict decoders hdistinct hlinked).amid (Aside.refl receipts w)
    stable_aside hrun)

/-! ### A Data receipt after a restart -/

/-- A block with a transaction whose receipt announces data. -/
def announcingBlock : StreamerMessage where
  block :=
    { author := "validator.near"
      header :=
        { height := 7
          hash := .ofText "b7"
          prevHash := .ofText "b6"
          timestamp := 7
          totalSupply := 0
          gasPrice := 0 } }
  shards :=
    [.plain (.ofText "c7")
      [.plain (.ofText "b7") (.ofText "t") (.ofText "r1") "bob.near"]
      [{ predecessorId := "bob.near"
         receiverId := "bob.near"
         receiptId := .ofText "r1"
         receipt := .action "bob.near" "ed25519:" 1 [⟨.ofText "d", "bob.near"⟩] [] [] }] []]

/-- The receipt that brings the data. -/
def dataReceipt : ReceiptView where
  predecessorId := "bob.near"
  receiverId := "bob.near"
  receiptId := .ofText "r2"
  receipt := .data (.ofText "d") none

def announced : World := (handleMessage .silent announcingBlock true).after 1 emptyWorld

def restarted : World := { announced with cache := .withSize 10 }

theorem reachable_announced : IndexerReachable .silent [announcingBlock] ⟨[], announced⟩ :=
  (reachable_emptyWorld .silent [announcingBlock]).handled (List.mem_singleton_self _) (finishes_after 1 (by decide))

def storeDataReceipt : Prog World Unit :=
  storeChunkReceipts .silent [dataReceipt] (.ofText "b7") (.ofText "c7") 7 true

theorem receipts_complete_announced :
    (∀ r ∈ [dataReceipt], StoredWithParent announced r (storeDataReceipt.after 2 announced)) ↔
      ∀ r ∈ [dataReceipt], Completed announced [dataReceipt] r :=
  receipts_complete_iff .silent [dataReceipt] (by decide) _ _ _ announced _
    (by
      intro r hr
      cases List.mem_singleton.mp hr
      exact ⟨"t", .cached (by decide)⟩)
    (finishes_after 2 (by decide) : Finishes storeDataReceipt announced () _).amid

theorem reachable_restarted : IndexerReachable .silent [announcingBlock] ⟨[], restarted⟩ := by
  obtain ⟨cache, hcache, hreach⟩ := reachable_announced
  exact ⟨cache, hcache, hreach.step (.restart ⟨rfl, rfl⟩)⟩

/-- The restart has emptied the cache, and the parent of the data is found in the database, but the receipt is not
stored. -/
theorem restarted_data_receipt_skipped :
    IndexerReachable .silent [announcingBlock] ⟨[], restarted⟩ ∧
      ¬ ∀ (receipts : List ReceiptView) (blockHash chunkHash : CryptoHash) (blockTimestamp : Nat) (w w' : World),
        (receipts.map (·.receiptId)).Nodup → (∀ r ∈ receipts, ∃ hash, ParentHash w r hash) →
        Finishes (storeChunkReceipts .silent receipts blockHash chunkHash blockTimestamp true) w () w' →
        ∀ r ∈ receipts, StoredWithParent w r w' := by
  refine ⟨reachable_restarted, fun h => ?_⟩
  have hlinked : ∀ r ∈ [dataReceipt], ∃ hash, ParentHash restarted r hash := by
    intro r hr
    cases List.mem_singleton.mp hr
    have hrow : ActionReceiptOutputData.mk (.ofText "r1") (.ofText "d") "bob.near" ∈
        restarted.db.actionReceiptOutputData.rows := by decide
    have hparent : ∃ parent, restarted.db.receipts.lookup (.ofText "r1") = some parent :=
      Option.isSome_iff_exists.mp (by decide)
    obtain ⟨parent, hparent⟩ := hparent
    exact ⟨_, .dataOutput rfl hrow rfl hparent⟩
  obtain ⟨row, hrow, _⟩ := h [dataReceipt] _ _ _ restarted _ (by decide) hlinked
    (finishes_after 2 (by decide) : Finishes storeDataReceipt restarted () _) dataReceipt (List.mem_singleton_self _)
  have hnone : (storeDataReceipt.after 2 restarted).db.receipts.lookup dataReceipt.receiptId = none := by decide
  rw [hnone] at hrow
  cases hrow

end ExplorerIndexer.Receipts

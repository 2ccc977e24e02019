import ExplorerIndexer.ListenBlocks
import ExplorerIndexer.ReceiptsOutlines
import ExplorerIndexer.ReceiptsSections

/-! The receipts cache alone suffices on an uninterrupted run: an entry that is awaited is still there when a lookup
asks for it, whatever is taken out in between. -/

namespace ExplorerIndexer.Receipts

open Async Store Models CacheSection

section Rules

variable {rooted kept own : ReceiptOrDataId → Prop} {message : StreamerMessage} {P : RecordedWorld → Prop}

theorem outline_section {β : Type} {rely guarantee : RecordedWorld → RecordedWorld → Prop}
    {act : ReceiptsCache → β × ReceiptsCache} {M : β → RecordedWorld → Prop}
    (hact : ∀ x, P x → guarantee x (afterSection message act x) ∧
      M (act x.state.cache).1 (afterSection message act x))
    (hstable : ∀ b, Stable rely (M b)) :
    Outline False rely guarantee P ((withCache act).recorded (note message)) M :=
  .access hact hstable fun _ => .ret fun _ h => h

/-- Statements keep what the sections of other tasks do not break. -/
theorem outline_queries {α : Type} {p : Prog World α} (hp : OnlyQueries SameCache p)
    (hP : Stable (Moves rooted message kept) P) :
    Outline False (Moves rooted message kept) (Moves rooted message own) P (p.recorded (note message)) fun _ => P :=
  (hp.outline_recorded hP (hP.mono fun _ _ h => .of_unrecorded h)).guarantee_mono fun _ _ h => .of_unrecorded h

/-- A fact about the answer that no state matters to. -/
theorem outline_answer {α : Type} {p : Prog World α} {fact : α → Prop} (hp : OnlyQueries SameCache p)
    (h : Outline False (fun _ _ => True) SameCache (fun _ => True) p fun a _ => fact a)
    (hP : Stable (Moves rooted message kept) P) :
    Outline False (Moves rooted message kept) (Moves rooted message own) P (p.recorded (note message))
      fun a x => fact a ∧ P x := by
  have hrun : Outline False (Moves rooted message kept) (Unrecorded SameCache) (fun _ => True)
      (p.recorded (note message)) fun a _ => fact a := (h.recorded hp).rely_mono fun _ _ _ => trivial
  have hframe := hrun.frame hP (hP.mono fun _ _ h => .of_unrecorded h)
  exact (hframe.pre fun _ hx => ⟨trivial, hx⟩).guarantee_mono fun _ _ h => .of_unrecorded h

/-- Tasks that consume different keys endure each other. -/
theorem outline_consumers {β : Type} {items : List β} {task : β → Prog World Unit}
    (consumes : β → ReceiptOrDataId → Prop) {pre post : β → RecordedWorld → Prop}
    (hdisjoint : items.Pairwise fun a b => ∀ key, consumes a key → ¬ consumes b key)
    (hpre : ∀ item, Stable (Moves rooted message fun key => consumes item key ∨ ∀ other ∈ items, ¬ consumes other key)
      (pre item))
    (hpost : ∀ item, Stable (Moves rooted message fun key => consumes item key ∨ ∀ other ∈ items, ¬ consumes other key)
      (post item))
    (htask : ∀ item ∈ items,
      Outline False (Moves rooted message fun key => consumes item key ∨ ∀ other ∈ items, ¬ consumes other key)
        (Moves rooted message fun key => ¬ consumes item key) (pre item) ((task item).recorded (note message))
        fun _ => post item) :
    Outline False (Moves rooted message fun _ => True)
      (Moves rooted message fun key => ∀ item ∈ items, ¬ consumes item key) (fun x => ∀ item ∈ items, pre item x)
      ((Prog.joinAll (items.map task)).recorded (note message)) fun _ x => ∀ item ∈ items, post item x := by
  rw [recorded_joinAll_map]
  refine .joinAll_owned ?_ ?_ ?_ hpre hpost htask
  · exact fun item _ x y h => h.mono fun _ _ => trivial
  · exact fun item hitem x y h => h.mono fun key hkey => hkey item hitem
  · refine hdisjoint.imp_of_mem fun ha hb hab =>
      ⟨fun x y h => h.mono fun key hkey => ?_, fun x y h => h.mono fun key hkey => ?_⟩
    · exact hkey.elim (fun hb' ha' => hab key ha' hb') fun hnone => hnone _ ha
    · exact hkey.elim (hab key) fun hnone => hnone _ hb

end Rules

/-! ### Transactions -/

def IsReceiptId (key : ReceiptOrDataId) : Prop := ∃ receiptId, key = .receiptId receiptId

section Transactions

variable {rooted : ReceiptOrDataId → Prop} {message : StreamerMessage}

theorem isReceiptId_of_converts {transactions : List IndexerTransactionWithOutcome} (key : ReceiptOrDataId)
    (h : Converts transactions key) : IsReceiptId key := by
  obtain ⟨tx, _, rfl⟩ := h
  exact ⟨_, rfl⟩

theorem outline_storeChunkTransactions (decoders : Decoders)
    (transactions : List (IndexerTransactionWithOutcome × Nat)) (chunkHash blockHash : CryptoHash)
    (blockTimestamp : Nat) (suffix : String) :
    Outline False (Moves rooted message IsReceiptId) (Moves rooted message fun _ => True) (fun _ => True)
      ((Transactions.storeChunkTransactions decoders transactions chunkHash blockHash blockTimestamp suffix).recorded
        (note message)) fun _ => Has (Converts (transactions.map Prod.fst)) := by
  have hstable : Stable (Moves rooted message IsReceiptId) (Has (Converts (transactions.map Prod.fst))) :=
    stable_has isReceiptId_of_converts
  refine .bind_recorded (outline_section (M := fun _ => Has (Converts (transactions.map Prod.fst)))
    (fun x _ => ⟨?_, ?_⟩) fun _ => hstable) fun _ => ?_
  · exact moves_update (fun _ _ _ => retains_cacheTransactions) x
  · rintro hsmooth key ⟨tx, htx, rfl⟩
    obtain ⟨entry, hentry, rfl⟩ := List.mem_map.mp htx
    exact mem_afterSection hsmooth (retains_converted (SizedCache.neverEvicts_unbounded _) hentry)
  · exact outline_queries ((onlyQueries_await sameCache_execute).bind fun _ => onlyQueries_perform sameCache_execute)
      hstable

variable (rooted) in
theorem outline_storeTransactions (decoders : Decoders) (blockHash : CryptoHash) (blockTimestamp blockHeight : Nat) :
    Outline False (Moves rooted message IsReceiptId) (Moves rooted message fun _ => True) (fun _ => True)
      ((Transactions.storeTransactions decoders message.shards blockHash blockTimestamp blockHeight).recorded
        (note message)) fun _ => Has (Converts message.transactions) := by
  have hself : ∀ x y, Moves rooted message (fun _ => True) x y → Moves rooted message IsReceiptId x y :=
    fun x y h => h.mono fun _ _ => trivial
  have hstable : Stable (Moves rooted message IsReceiptId) (Has (Converts message.transactions)) :=
    stable_has isReceiptId_of_converts
  refine .bind_recorded (M := fun _ => Has (Converts message.transactions)) ?_ fun _ => ?_
  · rw [recorded_joinAll_map]
    refine (Outline.joinAll_map hself (Stable.const _ _) (fun chunk => stable_has isReceiptId_of_converts)
      fun chunk _ => outline_storeChunkTransactions decoders _ _ _ _ _).post fun _ x hx hsmooth key hkey => ?_
    obtain ⟨tx, htx, rfl⟩ := hkey
    obtain ⟨chunk, hchunk, htx⟩ := List.mem_flatMap.mp htx
    refine hx chunk hchunk hsmooth _ ⟨tx, ?_, rfl⟩
    rwa [List.zipIdx_map_fst]
  · refine .bind_recorded
      (outline_queries (Transactions.onlyQueries_collectConvertedToReceiptIds sameCache_refl _) hstable)
      fun insertedReceiptIds => ?_
    split
    · exact .ret fun _ hx => hx
    · rw [recorded_joinAll_map]
      refine Outline.joinAll hself hstable fun task htask => ?_
      obtain ⟨chunk, _, rfl⟩ := List.mem_map.mp htask
      exact (outline_storeChunkTransactions decoders _ _ _ _ _).keeps hstable (hstable.mono hself)

end Transactions

/-! ### The search in the database -/

section Search

/-- What was known is found. -/
def Extends (known txHashes : TxHashes) : Prop := ∀ key ∈ known, key ∈ txHashes

variable {known : TxHashes}

def StageExtends (known : TxHashes) : Search ⊕ TxHashes → Prop :=
  Sum.elim (fun search => Extends known search.txHashes) (Extends known)

theorem stageExtends_extend {search : Search} (h : Extends known search.txHashes)
    (found : List (CryptoHash × ParentTransactionHashString)) : StageExtends known (search.extend found) := by
  have hadded : Extends known (addFound search.txHashes found) :=
    fun key hkey => Table.mem_foldl_insert.mpr (.inr (h key hkey))
  rw [Search.extend_eq]
  split
  · exact hadded
  · exact hadded

theorem stageExtends_retry {search : Search} (h : Extends known search.txHashes) (strictMode : Bool) :
    StageExtends known (search.retry strictMode) := by
  unfold Search.retry
  split
  · exact h
  · split
    · exact h
    · exact h

/-- A round keeps what was found. -/
theorem outline_round_extends (strictMode : Bool) (search : Search) :
    Outline False (fun _ _ => True) SameCache (fun _ => Extends known search.txHashes) (search.round strictMode)
      fun stage _ => StageExtends known stage := by
  have hask : ∀ {attempts : Option Nat} {read : Database → List (CryptoHash × ParentTransactionHashString)}
      (search : Search), Outline False (fun _ _ => True) SameCache (fun _ => Extends known search.txHashes)
        (.query attempts (selectFrom read) (fun _ => false) fun rows =>
          .anyOrder (rows.getD []) fun rows => .ret (search.extend rows))
        fun stage _ => StageExtends known stage :=
    fun search => outline_rows (fun _ hsearch => ⟨⟨rfl⟩, fun _ _ => stageExtends_extend hsearch _⟩)
      fun _ => Stable.const _ _
  have hdata : Outline False (fun _ _ => True) SameCache (fun _ => Extends known search.txHashes) search.askDataOutput
      fun stage _ => StageExtends known stage :=
    outline_askDataOutput (fun _ _ hsearch => hsearch)
      (fun _ hsearch => ⟨⟨rfl⟩, fun _ _ => stageExtends_extend hsearch _⟩) fun _ => Stable.const _ _
  refine outline_round hdata (fun search => hask search) (fun search => hask search) (fun txHashes w h => ?_)
    fun search w hsearch => stageExtends_retry hsearch strictMode
  rcases h with h | h | h <;> exact h

theorem outline_searchForOthers_extends (strictMode : Bool) (receipts : List ReceiptView) {txHashes : TxHashes}
    (h : Extends known txHashes) : Outline False (fun _ _ => True) SameCache (fun _ => True)
      (searchForOthers strictMode receipts txHashes) fun txHashes _ => Extends known txHashes := by
  refine outline_searchForOthers (I := fun search _ => Extends known search.txHashes) (fun _ _ _ => h) (fun _ _ => h)
    (fun _ => Stable.const _ _) (fun _ => Stable.const _ _) fun search => ?_
  refine (outline_round_extends strictMode search).post fun stage _ hstage => ?_
  cases stage with
  | inl search => exact hstage
  | inr txHashes => exact hstage

end Search

/-! ### Lookups -/

/-- Lookups that are the same section ask for the same receipts and data ids. -/
theorem exists_key_of_looksUp {message : StreamerMessage} {receipts receipts' : List ReceiptView} {w : World}
    (h : (note message TxHashes (lookUp receipts) w).looksUp receipts') {receipt : ReceiptView}
    (hreceipt : receipt ∈ receipts') : ∃ asked ∈ receipts, receiptOrDataId asked = receiptOrDataId receipt := by
  have hsame : lookUp receipts = lookUp receipts' := eq_of_heq (Sigma.mk.inj h).2
  -- a cache that knows nothing but this receipt
  let cache : ReceiptsCache := ⟨AList.insert (receiptOrDataId receipt) "" ∅, fun _ _ => []⟩
  have hknown : cache.lookup (receiptOrDataId receipt) = some "" := AList.lookup_insert _
  have hfound : ∀ asked : List ReceiptView, (lookUp asked ⟨cache, {}⟩).1.lookup (receiptOrDataId receipt) =
      fromCache asked cache (receiptOrDataId receipt) := fun asked => lookup_askCacheForAll asked cache _
  have hlookup := hfound receipts
  rw [hsame, hfound receipts', fromCache, if_pos ⟨receipt, hreceipt, rfl⟩, hknown] at hlookup
  by_contra hnone
  rw [fromCache, if_neg hnone] at hlookup
  cases hlookup

section Lookups

variable {rooted : ReceiptOrDataId → Prop} {done : List StreamerMessage} {message : StreamerMessage}

/-- What a task that asks for the receipts of a chunk may rely on. -/
structure Ready (rooted : ReceiptOrDataId → Prop) (done : List StreamerMessage) (message : StreamerMessage)
    (receipts : List ReceiptView) (x : RecordedWorld) : Prop where
  awaited : Has (fun key => Awaited rooted done key ∧ (Delivers receipts key ∨ ¬ Delivers message.receipts key)) x
  keptSince : message ∉ done → KeptSince message x

variable {chunk : IndexerChunkView} {x : RecordedWorld}

/-- Every receipt of a chunk with a root is in the cache when it is looked up. -/
theorem Ready.mem_cache (hready : Ready rooted done message chunk.receipts x)
    (hnext : NextBlock rooted done message) (hchunk : chunk ∈ chunksOf message.shards)
    (hsmooth : Smooth (afterSection message (askCacheForAll chunk.receipts) x).record) {receipt : ReceiptView}
    (hreceipt : receipt ∈ chunk.receipts) (hroot : rooted (receiptOrDataId receipt)) :
    receiptOrDataId receipt ∈ x.state.cache.entries := by
  have hmem : receipt ∈ message.receipts := List.mem_flatMap.mpr ⟨chunk, hchunk, hreceipt⟩
  have hold : Smooth x.record := hsmooth.of_append
  rcases hnext.included receipt hmem hroot with hawaited | ⟨tx, htx, hkey⟩
  · refine hready.awaited hold _ ⟨hawaited, ?_⟩
    cases haction : receipt.isAction with
    | true =>
        rw [receiptOrDataId_of_isAction haction]
        refine .inr ?_
        rintro ⟨_, _, _, _, hkey⟩
        cases hkey
    | false =>
        obtain ⟨dataId, hdataId⟩ := isAction_eq_false.mp haction
        exact .inl ⟨receipt, hreceipt, dataId, hdataId, receiptOrDataId_of_dataId? hdataId⟩
  · -- the transaction was written in this block, before the lookup
    obtain ⟨chunk', hchunk', htx'⟩ := List.mem_flatMap.mp htx
    obtain ⟨earlier, hearlier, heq, heffect⟩ :=
      hsmooth.writesFirst x.record _ [] chunk.receipts rfl rfl chunk' hchunk'
    rw [hkey]
    refine hready.keptSince (hnext.fresh tx htx) hold earlier hearlier heq _ ?_
    have hentry := hold.evictsNothing earlier hearlier
    unfold EvictsNothing at hentry
    rw [hentry, heffect]
    have htx'' : tx ∈ chunk'.transactions.zipIdx.map Prod.fst := by rwa [List.zipIdx_map_fst]
    obtain ⟨entry, hentry', rfl⟩ := List.mem_map.mp htx''
    exact (retains_converted (SizedCache.neverEvicts_unbounded _) hentry').mem

/-- The lookup of a chunk's receipts resolves them, and takes out the data ids of this chunk only. -/
theorem Ready.moves (hready : Ready rooted done message chunk.receipts x)
    (hnext : NextBlock rooted done message) (hchunk : chunk ∈ chunksOf message.shards) :
    Moves rooted message (fun key => ¬ Delivers chunk.receipts key) x
      (afterSection message (askCacheForAll chunk.receipts) x) := by
  refine ⟨⟨_, rfl, fun entry hentry => ?_⟩, fun _ key hkey hmem => ?_⟩
  · rw [List.mem_singleton.mp hentry]
    refine ⟨rfl, rfl, fun hsmooth receipts hlooks receipt hreceipt hroot => ?_⟩
    obtain ⟨asked, hasked, hkey⟩ := exists_key_of_looksUp hlooks hreceipt
    rw [← hkey] at hroot
    obtain ⟨hash, hlookup⟩ := Table.mem_iff_lookup.mp (hready.mem_cache hnext hchunk hsmooth hasked hroot)
    refine ⟨hash, ?_⟩
    rw [lookup_askCacheForAll, fromCache, if_pos ⟨receipt, hreceipt, rfl⟩, ← hkey]
    exact hlookup
  · obtain ⟨hash, hlookup⟩ := Table.mem_iff_lookup.mp hmem
    exact Table.mem_iff_lookup.mpr ⟨hash, (lookup_askCacheForAll_snd hkey _).trans hlookup⟩

end Lookups

/-! ### The receipts of a block -/

section BlockReceipts

variable {rooted : ReceiptOrDataId → Prop} {done : List StreamerMessage} {message : StreamerMessage}

/-- What is known once the receipts of a chunk are stored. -/
structure DataIdsCached (rooted : ReceiptOrDataId → Prop) (message : StreamerMessage) (receipts : List ReceiptView)
    (x : RecordedWorld) : Prop where
  named : Has (fun key => Names rooted receipts key ∧ ¬ Delivers message.receipts key) x
  lookedUp : LookedUp message receipts x

variable {kept : ReceiptOrDataId → Prop} {receipts : List ReceiptView}

theorem stable_ready (hkept : ∀ key, Delivers receipts key ∨ ¬ Delivers message.receipts key → kept key)
    (hids : ∀ receiptId, kept (.receiptId receiptId)) :
    Stable (Moves rooted message kept) (Ready rooted done message receipts) := by
  intro x y hx hmoves
  exact ⟨stable_has (fun key hkey => hkept key hkey.2) x y hx.awaited hmoves,
    fun hfresh => stable_keptSince hids x y (hx.keptSince hfresh) hmoves⟩

theorem stable_dataIdsCached (hkept : ∀ key, ¬ Delivers message.receipts key → kept key) :
    Stable (Moves rooted message kept) (DataIdsCached rooted message receipts) := by
  intro x y hx hmoves
  exact ⟨stable_has (fun key hkey => hkept key hkey.2) x y hx.named hmoves, stable_lookedUp x y hx.lookedUp hmoves⟩

/-- What is known once the cache was asked: the receipts that name data ids were found. -/
structure Found (rooted : ReceiptOrDataId → Prop) (message : StreamerMessage) (receipts : List ReceiptView)
    (txHashes : TxHashes) (x : RecordedWorld) : Prop where
  found : Smooth x.record → ∀ receipt ∈ receipts, receipt.isAction = true →
    rooted (.receiptId receipt.receiptId) → .receiptId receipt.receiptId ∈ txHashes
  lookedUp : LookedUp message receipts x

theorem stable_found {txHashes : TxHashes} :
    Stable (Moves rooted message kept) (Found rooted message receipts txHashes) := by
  intro x y hx hmoves
  exact ⟨fun hsmooth => hx.found (hmoves.smooth hsmooth), stable_lookedUp x y hx.lookedUp hmoves⟩

theorem isAction_of_mem_outputDataReceivers {receipt : ReceiptView} {receiver : DataReceiverView}
    (h : receiver ∈ receipt.outputDataReceivers) : receipt.isAction = true := by
  unfold ReceiptView.outputDataReceivers at h
  unfold ReceiptView.isAction
  cases hkind : receipt.receipt with
  | action => rfl
  | data =>
      rw [hkind] at h
      cases h

/-- The data ids are cached under the parents that were found. -/
theorem dataIdsCached_afterSection {txHashes : TxHashes} {x : RecordedWorld}
    (h : Found rooted message receipts txHashes x) :
    DataIdsCached rooted message receipts
      (afterSection message (fun cache => ((), cacheDataIds receipts txHashes cache)) x) := by
  have hmoves : Moves rooted message (fun _ => True) x
      (afterSection message (fun cache => ((), cacheDataIds receipts txHashes cache)) x) :=
    moves_update (fun _ _ _ => retains_cacheDataIds) x
  refine ⟨?_, stable_lookedUp _ _ h.lookedUp hmoves⟩
  rintro hsmooth key ⟨⟨receipt, hreceipt, hroot, receiver, hreceiver, rfl⟩, _⟩
  have haction := isAction_of_mem_outputDataReceivers hreceiver
  have hfound := h.found (hmoves.smooth hsmooth) receipt hreceipt haction hroot
  exact mem_afterSection hsmooth (retains_named (SizedCache.neverEvicts_unbounded _) hreceipt hfound hreceiver)

theorem outline_findTxHashesForReceipts (hnext : NextBlock rooted done message) {chunk : IndexerChunkView}
    (hchunk : chunk ∈ chunksOf message.shards) (strictMode : Bool) :
    Outline False (Moves rooted message kept) (Moves rooted message fun key => ¬ Delivers chunk.receipts key)
      (Ready rooted done message chunk.receipts)
      ((findTxHashesForReceipts strictMode chunk.receipts).recorded (note message))
      (Found rooted message chunk.receipts) := by
  rw [findTxHashesForReceipts_eq]
  refine .bind_recorded (outline_section (M := Found rooted message chunk.receipts)
    (fun x hx => ⟨hx.moves hnext hchunk, ?_, ?_⟩) fun _ => stable_found) fun txHashes => ?_
  · intro hsmooth receipt hreceipt haction hroot
    have hkey := receiptOrDataId_of_isAction haction
    have hmem := hx.mem_cache hnext hchunk hsmooth hreceipt (hkey ▸ hroot)
    obtain ⟨hash, hlookup⟩ := Table.mem_iff_lookup.mp hmem
    refine Table.mem_iff_lookup.mpr ⟨hash, ?_⟩
    rw [lookup_askCacheForAll, fromCache, if_pos ⟨receipt, hreceipt, hkey⟩, ← hkey]
    exact hlookup
  · exact ⟨_, List.mem_append_right _ List.mem_cons_self, rfl, rfl⟩
  · refine Outline.post (outline_answer (onlyQueries_searchForOthers sameCache_refl strictMode chunk.receipts txHashes)
      (outline_searchForOthers_extends strictMode chunk.receipts fun _ h => h) stable_found) fun txHashes' x hx => ?_
    exact ⟨fun hsmooth receipt hreceipt haction hroot => hx.1 _ (hx.2.found hsmooth receipt hreceipt haction hroot),
      hx.2.lookedUp⟩

theorem outline_storeChunkReceipts (hnext : NextBlock rooted done message) {chunk : IndexerChunkView}
    (hchunk : chunk ∈ chunksOf message.shards) (hkept : ∀ key, ¬ Delivers message.receipts key → kept key)
    (decoders : Decoders) (blockHash chunkHash : CryptoHash) (blockTimestamp : Nat) (strictMode : Bool) :
    Outline False (Moves rooted message kept) (Moves rooted message fun key => ¬ Delivers chunk.receipts key)
      (Ready rooted done message chunk.receipts)
      ((storeChunkReceipts decoders chunk.receipts blockHash chunkHash blockTimestamp strictMode).recorded
        (note message)) fun _ => DataIdsCached rooted message chunk.receipts := by
  have hstable : Stable (Moves rooted message kept) (DataIdsCached rooted message chunk.receipts) :=
    stable_dataIdsCached hkept
  refine .bind_recorded (outline_findTxHashesForReceipts hnext hchunk strictMode) fun txHashes => ?_
  refine .bind_recorded (outline_section (M := fun _ => DataIdsCached rooted message chunk.receipts)
    (fun x hx => ⟨?_, ?_⟩) fun _ => hstable) fun _ => ?_
  · exact moves_update (fun _ _ _ => retains_cacheDataIds) x
  · exact dataIdsCached_afterSection hx
  · have hfree := freeBesideBlocks_sameCache.freeReceiptTables
    exact outline_queries ((onlyQueries_saveReceipts hfree _).bind fun _ =>
      (onlyQueries_storeReceiptActions hfree _ _ _).both (onlyQueries_storeReceiptData hfree _)) hstable

end BlockReceipts

end ExplorerIndexer.Receipts

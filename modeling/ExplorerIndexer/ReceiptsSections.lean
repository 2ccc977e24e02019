import ExplorerIndexer.HandleMessageQueries
import ExplorerIndexer.ReceiptsChain

/-! The critical sections of the receipts cache in a run: which of them bring entries and which take entries out, and
what a record of them says about the entries that are still there. -/

namespace ExplorerIndexer.Receipts

open Async Store Models

/-! ### Entries that the adapters bring and take out -/

section Cache

variable {cache : ReceiptsCache} {key : ReceiptOrDataId}

theorem retains_cacheTransactions {suffix : String} {transactions : List (IndexerTransactionWithOutcome × Nat)}
    (h : cache.Retains key) : (Transactions.cacheTransactions suffix transactions cache).Retains key :=
  h.foldl_cacheSet

theorem retains_converted {suffix : String} {transactions : List (IndexerTransactionWithOutcome × Nat)}
    (h : cache.NeverEvicts) {entry : IndexerTransactionWithOutcome × Nat} (hentry : entry ∈ transactions) :
    (Transactions.cacheTransactions suffix transactions cache).Retains (.receiptId entry.1.convertedIntoReceiptId) :=
  h.retains_foldl_cacheSet hentry

/-- What is cached of one receipt. -/
def cacheDataIdsOf (txHashes : TxHashes) (cache : ReceiptsCache) (receipt : ReceiptView) : ReceiptsCache :=
  match txHashes.lookup (.receiptId receipt.receiptId) with
  | some transactionHash =>
      receipt.outputDataReceivers.foldl
        (fun cache dataReceiver => cache.cacheSet (.dataId dataReceiver.dataId) transactionHash) cache
  | none => cache

theorem cacheDataIds_eq (receipts : List ReceiptView) (txHashes : TxHashes) (cache : ReceiptsCache) :
    cacheDataIds receipts txHashes cache = receipts.foldl (cacheDataIdsOf txHashes) cache := rfl

theorem retains_cacheDataIdsOf {txHashes : TxHashes} {receipt : ReceiptView} (h : cache.Retains key) :
    (cacheDataIdsOf txHashes cache receipt).Retains key := by
  unfold cacheDataIdsOf
  split
  · exact h.foldl_cacheSet
  · exact h

theorem neverEvicts_cacheDataIdsOf {txHashes : TxHashes} {receipt : ReceiptView} (h : cache.NeverEvicts) :
    (cacheDataIdsOf txHashes cache receipt).NeverEvicts := by
  unfold cacheDataIdsOf
  split
  · exact List.foldlRecOn (motive := SizedCache.NeverEvicts) receipt.outputDataReceivers _ h
      fun _ hcache _ _ => hcache.cacheSet _ _
  · exact h

theorem retains_cacheDataIds {receipts : List ReceiptView} {txHashes : TxHashes} (h : cache.Retains key) :
    (cacheDataIds receipts txHashes cache).Retains key := h.foldl fun _ _ _ hcache => retains_cacheDataIdsOf hcache

theorem retains_named {receipts : List ReceiptView} {txHashes : TxHashes} (h : cache.NeverEvicts)
    {receipt : ReceiptView} (hreceipt : receipt ∈ receipts) (hfound : .receiptId receipt.receiptId ∈ txHashes)
    {receiver : DataReceiverView} (hreceiver : receiver ∈ receipt.outputDataReceivers) :
    (cacheDataIds receipts txHashes cache).Retains (.dataId receiver.dataId) := by
  obtain ⟨hash, hlookup⟩ := Table.mem_iff_lookup.mp hfound
  rw [cacheDataIds_eq]
  refine .of_foldl (fun _ _ _ => neverEvicts_cacheDataIdsOf) (fun _ _ _ => retains_cacheDataIdsOf) hreceipt
    (fun cache hcache => ?_) h
  unfold cacheDataIdsOf
  rw [hlookup]
  exact (hcache.retains_foldl_cacheSet hreceiver).mem

/-- Asking for receipts takes out the data ids of the Data receipts among them. -/
theorem lookup_askCacheForAll_snd {receipts : List ReceiptView} {key : ReceiptOrDataId}
    (hkey : ¬ Delivers receipts key) (cache : ReceiptsCache) :
    (askCacheForAll receipts cache).2.lookup key = cache.lookup key := by
  unfold askCacheForAll
  generalize (∅ : TxHashes) = txHashes
  induction receipts generalizing txHashes cache with
  | nil => rfl
  | cons receipt receipts ih =>
      have hreceipts : ¬ Delivers receipts key := fun ⟨r, hr, hdata⟩ => hkey ⟨r, List.mem_cons_of_mem _ hr, hdata⟩
      have hreceipt : (askCache receipt cache).2.lookup key = cache.lookup key := by
        unfold askCache
        cases hkind : receipt.receipt with
        | action => exact SizedCache.lookup_cacheGet _ _ _
        | data dataId data =>
            rw [SizedCache.lookup_cacheRemove, if_neg]
            rintro rfl
            exact hkey ⟨receipt, List.mem_cons_self, dataId, by rw [ReceiptView.dataId?, hkind], rfl⟩
      have hfirst := addFromCache_snd (txHashes, cache) receipt
      rw [List.foldl_cons, ← hreceipt, ← hfirst]
      exact ih hreceipts _ _

theorem retains_passOnParent {outcome : ExecutionOutcomeWithIdView} (h : cache.Retains key)
    (hkey : key ≠ .receiptId outcome.id) : (ExecutionOutcomes.passOnParent outcome cache).Retains key := by
  have hrest : (cache.cacheRemove (.receiptId outcome.id)).2.Retains key := h.cacheRemove hkey
  unfold ExecutionOutcomes.passOnParent
  dsimp only
  split
  · exact hrest.foldl_cacheSet
  · exact hrest

theorem retains_produced {outcome : ExecutionOutcomeWithIdView} (h : cache.Retains (.receiptId outcome.id))
    {receiptId : CryptoHash} (hproduced : receiptId ∈ outcome.outcome.receiptIds) :
    (ExecutionOutcomes.passOnParent outcome cache).Retains (.receiptId receiptId) := by
  obtain ⟨hash, hlookup⟩ := Table.mem_iff_lookup.mp h.mem
  have hparent : (cache.cacheRemove (.receiptId outcome.id)).1 = some hash := hlookup
  have hrest : (cache.cacheRemove (.receiptId outcome.id)).2.NeverEvicts := h.neverEvicts
  unfold ExecutionOutcomes.passOnParent
  dsimp only
  rw [hparent]
  exact hrest.retains_foldl_cacheSet hproduced

variable {outcomes : List IndexerExecutionOutcomeWithReceipt}

theorem retains_passOnParents (h : cache.Retains key) (hkey : ¬ Executes outcomes key) :
    (ExecutionOutcomes.passOnParents outcomes cache).Retains key :=
  h.foldl fun _ outcome hmem hcache => retains_passOnParent hcache fun heq => hkey ⟨outcome, hmem, heq⟩

/-- The receipts that an execution produced take over the entry of the executed one, whatever else is executed. -/
theorem retains_passOnParents_produced (hnodup : (outcomes.map (·.executionOutcome.id)).Nodup)
    {outcome : IndexerExecutionOutcomeWithReceipt} (houtcome : outcome ∈ outcomes)
    (h : cache.Retains (.receiptId outcome.executionOutcome.id)) {receiptId : CryptoHash}
    (hproduced : receiptId ∈ outcome.executionOutcome.outcome.receiptIds)
    (hkey : ¬ Executes outcomes (.receiptId receiptId)) :
    (ExecutionOutcomes.passOnParents outcomes cache).Retains (.receiptId receiptId) := by
  obtain ⟨front, back, rfl⟩ := List.append_of_mem houtcome
  unfold ExecutionOutcomes.passOnParents
  rw [List.foldl_append, List.foldl_cons]
  -- the outcomes before it do not take the parent out, and those after it not the produced receipt
  refine retains_passOnParents (retains_produced (retains_passOnParents h ?_) hproduced) ?_
  · rintro ⟨other, hother, heq⟩
    rw [List.map_append, List.map_cons] at hnodup
    refine (List.nodup_append.mp hnodup).2.2 _ (List.mem_map.mpr ⟨other, hother, rfl⟩) _ List.mem_cons_self ?_
    exact (ReceiptOrDataId.receiptId.inj heq).symm
  · rintro ⟨other, hother, heq⟩
    exact hkey ⟨other, List.mem_append_right _ (List.mem_cons_of_mem _ hother), heq⟩

end Cache

/-! ### The record of a run -/

/-- The critical section of `findTxHashesForReceipts`. -/
def lookUp (receipts : List ReceiptView) (w : World) : TxHashes × World :=
  ((askCacheForAll receipts w.cache).1, { w with cache := (askCacheForAll receipts w.cache).2 })

/-- The effect of the critical section of `storeChunkTransactions`, for all transactions of a chunk. -/
def writeTransactions (chunk : IndexerChunkView) (w : World) : World :=
  { w with cache := Transactions.cacheTransactions "" chunk.transactions.zipIdx w.cache }

/-- A critical section of the receipts cache, with the message that is handled and the state that is found. -/
structure CacheSection where
  message : StreamerMessage
  found : World
  effect : World → World
  /-- It is the one of `findTxHashesForReceipts` for these receipts. -/
  looksUp : List ReceiptView → Prop

namespace CacheSection

def note (message : StreamerMessage) (β : Type) (act : World → β × World) (w : World) : CacheSection where
  message := message
  found := w
  effect w := (act w).2
  looksUp receipts := (⟨β, act⟩ : Σ β : Type, World → β × World) = ⟨TxHashes, lookUp receipts⟩

/-- The state that is left. -/
def left (entry : CacheSection) : World := entry.effect entry.found

/-- No entry is driven out: a cache without a bound is left with the same entries. -/
def EvictsNothing (entry : CacheSection) : Prop :=
  entry.left.cache.entries =
    (entry.effect { entry.found with cache := entry.found.cache.unbounded }).cache.entries

instance (entry : CacheSection) : Decidable entry.EvictsNothing :=
  decidable_of_iff (entry.left.cache.entries.entries =
    (entry.effect { entry.found with cache := entry.found.cache.unbounded }).cache.entries.entries) AList.ext_iff.symm

/-- The receipts and data ids with a root that are looked up are found. -/
def Resolves (rooted : ReceiptOrDataId → Prop) (entry : CacheSection) : Prop :=
  ∀ receipts, entry.looksUp receipts → ∀ receipt ∈ receipts, rooted (receiptOrDataId receipt) →
    ∃ hash, (askCacheForAll receipts entry.found.cache).1.lookup (receiptOrDataId receipt) = some hash

/-- Only a section with this result looks up receipts. -/
theorem not_looksUp_note {message : StreamerMessage} {act : World → Unit × World} {w : World}
    {receipts : List ReceiptView} : ¬ (note message Unit act w).looksUp receipts := by
  intro h
  have hunit : Unit = TxHashes := congrArg Sigma.fst h
  have hsame : ∀ a b : TxHashes, a = b := hunit ▸ fun _ _ => rfl
  let key : ReceiptOrDataId := .receiptId (.ofText "")
  have hlookup := congrArg (AList.lookup key) (hsame ∅ (AList.insert key "" ∅))
  rw [AList.lookup_insert] at hlookup
  cases hlookup

end CacheSection

open CacheSection

/-- The cache writes of a block's transactions come before the lookups of its receipts: the order in which both are
first polled. -/
def WritesFirst (record : List CacheSection) : Prop :=
  ∀ front entry back receipts, record = front ++ entry :: back → entry.looksUp receipts →
    ∀ chunk ∈ chunksOf entry.message.shards, ∃ earlier ∈ front,
      earlier.message = entry.message ∧ earlier.effect = writeTransactions chunk

theorem writesFirst_nil : WritesFirst [] := by
  intro front entry back receipts h
  exact absurd h (by simp)

/-- One more section. -/
theorem WritesFirst.snoc {record : List CacheSection} {last : CacheSection} (h : WritesFirst record)
    (hlast : ∀ receipts, last.looksUp receipts → ∀ chunk ∈ chunksOf last.message.shards, ∃ earlier ∈ record,
      earlier.message = last.message ∧ earlier.effect = writeTransactions chunk) : WritesFirst (record ++ [last]) := by
  intro front entry back receipts heq hlooks chunk hchunk
  rcases List.append_eq_append_iff.mp heq with ⟨middle, rfl, hback⟩ | ⟨middle, rfl, hback⟩
  · cases middle with
    | nil =>
        cases hback
        rw [List.append_nil]
        exact hlast receipts hlooks chunk hchunk
    | cons => simp at hback
  · cases middle with
    | nil =>
        cases hback
        rw [List.append_nil] at hlast
        exact hlast receipts hlooks chunk hchunk
    | cons =>
        cases hback
        exact h _ _ _ _ rfl hlooks chunk hchunk

theorem WritesFirst.update {record : List CacheSection} (h : WritesFirst record) {message : StreamerMessage}
    {act : World → Unit × World} {w : World} : WritesFirst (record ++ [note message Unit act w]) :=
  h.snoc fun _ hlooks => (not_looksUp_note hlooks).elim

structure Smooth (record : List CacheSection) : Prop where
  evictsNothing : ∀ entry ∈ record, entry.EvictsNothing
  writesFirst : WritesFirst record

theorem Smooth.of_append {record new : List CacheSection} (h : Smooth (record ++ new)) : Smooth record := by
  refine ⟨fun entry hentry => h.evictsNothing entry (List.mem_append_left _ hentry), ?_⟩
  rintro front entry back receipts rfl hlooks
  exact h.writesFirst front entry (back ++ new) receipts (by simp) hlooks

abbrev RecordedWorld := Recorded World CacheSection

section Moves

variable (rooted : ReceiptOrDataId → Prop) (message : StreamerMessage)

/-- What a step in the handling of a message does, as long as the run is smooth: its sections leave the present state,
they resolve what they look up, and the entries under these keys stay. -/
structure Moves (kept : ReceiptOrDataId → Prop) (x y : RecordedWorld) : Prop where
  record : ∃ new, y.record = x.record ++ new ∧
    ∀ entry ∈ new, entry.message = message ∧ entry.left = y.state ∧ (Smooth y.record → entry.Resolves rooted)
  entries : Smooth y.record → ∀ key, kept key → key ∈ x.state.cache.entries → key ∈ y.state.cache.entries

variable {rooted message} {kept kept' : ReceiptOrDataId → Prop} {x y : RecordedWorld}

theorem Moves.mono (h : Moves rooted message kept x y) (hkept : ∀ key, kept' key → kept key) :
    Moves rooted message kept' x y := ⟨h.record, fun hsmooth key hkey => h.entries hsmooth key (hkept key hkey)⟩

theorem Moves.smooth (h : Moves rooted message kept x y) (hsmooth : Smooth y.record) : Smooth x.record := by
  obtain ⟨new, hnew, _⟩ := h.record
  rw [hnew] at hsmooth
  exact hsmooth.of_append

/-- A statement moves nothing. -/
theorem Moves.of_unrecorded (h : Unrecorded SameCache x y) : Moves rooted message kept x y := by
  refine ⟨⟨[], ?_, fun _ hmem => (List.not_mem_nil hmem).elim⟩, fun _ key _ hmem => ?_⟩
  · rw [h.record, List.append_nil]
  · rwa [h.step.cache]

/-- The state after a critical section. -/
def afterSection {β : Type} (message : StreamerMessage) (act : ReceiptsCache → β × ReceiptsCache)
    (x : RecordedWorld) : RecordedWorld :=
  ⟨{ x.state with cache := (act x.state.cache).2 },
    x.record ++ [note message β (fun w => ((act w.cache).1, { w with cache := (act w.cache).2 })) x.state]⟩

/-- What an update retains in a cache without a bound, it retains in a smooth run. -/
theorem mem_afterSection {act : ReceiptsCache → ReceiptsCache} {key : ReceiptOrDataId}
    (hsmooth : Smooth (afterSection message (fun cache => ((), act cache)) x).record)
    (hretains : (act x.state.cache.unbounded).Retains key) :
    key ∈ (afterSection message (fun cache => ((), act cache)) x).state.cache.entries := by
  have hentry := hsmooth.evictsNothing _ (List.mem_append_right _ List.mem_cons_self)
  have hsame : (act x.state.cache).entries = (act x.state.cache.unbounded).entries := hentry
  show key ∈ (act x.state.cache).entries
  rw [hsame]
  exact hretains.mem

theorem moves_update {act : ReceiptsCache → ReceiptsCache}
    (hact : ∀ cache key, kept key → cache.Retains key → (act cache).Retains key) (x : RecordedWorld) :
    Moves rooted message kept x (afterSection message (fun cache => ((), act cache)) x) := by
  refine ⟨⟨_, rfl, fun entry hentry => ?_⟩, fun hsmooth key hkey hmem => ?_⟩
  · rw [List.mem_singleton.mp hentry]
    exact ⟨rfl, rfl, fun _ receipts hlooks => (not_looksUp_note hlooks).elim⟩
  · exact mem_afterSection hsmooth (hact _ key hkey ⟨SizedCache.neverEvicts_unbounded _, hmem⟩)

/-! ### What steps keep -/

/-- The cache has entries under these keys. -/
def Has (keys : ReceiptOrDataId → Prop) (x : RecordedWorld) : Prop :=
  Smooth x.record → ∀ key, keys key → key ∈ x.state.cache.entries

theorem stable_has {keys : ReceiptOrDataId → Prop} (h : ∀ key, keys key → kept key) :
    Stable (Moves rooted message kept) (Has keys) := by
  intro x y hx hmoves hsmooth key hkey
  exact hmoves.entries hsmooth key (h key hkey) (hx (hmoves.smooth hsmooth) key hkey)

/-- All receipts with a root were resolved. -/
def AllResolved (rooted : ReceiptOrDataId → Prop) (x : RecordedWorld) : Prop :=
  Smooth x.record → ∀ entry ∈ x.record, entry.Resolves rooted

theorem stable_allResolved : Stable (Moves rooted message kept) (AllResolved rooted) := by
  intro x y hx hmoves hsmooth entry hentry
  obtain ⟨new, hnew, hentries⟩ := hmoves.record
  rw [hnew] at hentry
  rcases List.mem_append.mp hentry with hold | hnew'
  · exact hx (hmoves.smooth hsmooth) entry hold
  · exact (hentries entry hnew').2.2 hsmooth

/-- These receipts were looked up in the handling of the message. -/
def LookedUp (message : StreamerMessage) (receipts : List ReceiptView) (x : RecordedWorld) : Prop :=
  ∃ entry ∈ x.record, entry.message = message ∧ entry.looksUp receipts

theorem stable_lookedUp {message' : StreamerMessage} {receipts : List ReceiptView} :
    Stable (Moves rooted message kept) (LookedUp message' receipts) := by
  rintro x y ⟨entry, hentry, hlooks⟩ hmoves
  obtain ⟨new, hnew, _⟩ := hmoves.record
  refine ⟨entry, ?_, hlooks⟩
  rw [hnew]
  exact List.mem_append_left _ hentry

/-- All critical sections belong to these messages. -/
def SectionsOf (messages : List StreamerMessage) (x : RecordedWorld) : Prop :=
  ∀ entry ∈ x.record, entry.message ∈ messages

theorem stable_sectionsOf {messages : List StreamerMessage} (h : message ∈ messages) :
    Stable (Moves rooted message kept) (SectionsOf messages) := by
  intro x y hx hmoves entry hentry
  obtain ⟨new, hnew, hentries⟩ := hmoves.record
  rw [hnew] at hentry
  rcases List.mem_append.mp hentry with hold | hnew'
  · exact hx entry hold
  · rwa [(hentries entry hnew').1]

/-- The receipts that were cached since the handling of the message began are still cached. -/
def KeptSince (message : StreamerMessage) (x : RecordedWorld) : Prop :=
  Smooth x.record → ∀ entry ∈ x.record, entry.message = message → ∀ receiptId,
    .receiptId receiptId ∈ entry.left.cache.entries → .receiptId receiptId ∈ x.state.cache.entries

theorem stable_keptSince (h : ∀ receiptId, kept (.receiptId receiptId)) :
    Stable (Moves rooted message kept) (KeptSince message) := by
  intro x y hx hmoves hsmooth entry hentry heq receiptId hmem
  obtain ⟨new, hnew, hentries⟩ := hmoves.record
  rw [hnew] at hentry
  rcases List.mem_append.mp hentry with hold | hnew'
  · exact hmoves.entries hsmooth _ (h receiptId) (hx (hmoves.smooth hsmooth) entry hold heq receiptId hmem)
  · rwa [← (hentries entry hnew').2.1]

end Moves

end ExplorerIndexer.Receipts

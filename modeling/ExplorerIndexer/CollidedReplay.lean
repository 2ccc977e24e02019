import ExplorerIndexer.AsyncAlone
import ExplorerIndexer.CollidedHashes

/-! The receipts cache and the table of transactions, after the transactions of a message were stored. The first phase
caches every transaction under its hash; the second phase corrects that for a transaction whose hash is taken, but
only if its row with a suffix is not there already. -/

namespace ExplorerIndexer.Collisions

open Async Store Models Transactions

/-! ### The parent of a first receipt -/

/-- If the parent of the first receipt is still cached, it is cached as this hash. -/
def CachedAs (tx : IndexerTransactionWithOutcome) (hash : ParentTransactionHashString) (w : World) : Prop :=
  ∀ hash', w.cache.lookup (.receiptId tx.convertedIntoReceiptId) = some hash' → hash' = hash

/-- The cache names the transaction of the first receipt as the table does. -/
def Agrees (tx : IndexerTransactionWithOutcome) (w : World) : Prop :=
  (∃ row ∈ w.db.transactions.rows, row.convertedIntoReceiptId = tx.convertedIntoReceiptId) ∧
    ∀ row ∈ w.db.transactions.rows, row.convertedIntoReceiptId = tx.convertedIntoReceiptId →
      w.cache.lookup (.receiptId tx.convertedIntoReceiptId) = some row.transactionHash

/-- How a transaction of a message ends: stored under its hash; found under its hash with a suffix, while the cache
has its hash; or stored and cached under its hash with a suffix. -/
inductive Settled (message : StreamerMessage) (replayed : IndexerTransactionWithOutcome → Prop)
    (tx : IndexerTransactionWithOutcome) (w : World) : Prop
  | plain {row : Transaction} (hnew : ¬ replayed tx) (hrow : w.db.transactions.lookup (plainHash tx) = some row)
      (his : IsRow message tx (plainHash tx) row) (hcached : CachedAs tx (plainHash tx) w)
  | found (hreplayed : replayed tx) (hmem : suffixedHash message tx ∈ w.db.transactions)
      (hcached : CachedAs tx (plainHash tx) w)
  | collided (hnew : ¬ replayed tx) (hmem : suffixedHash message tx ∈ w.db.transactions)
      (hcached : CachedAs tx (suffixedHash message tx) w)

section Settling

variable {stream : List StreamerMessage} {message : StreamerMessage}
  {allowed : IndexerTransactionWithOutcome → ParentTransactionHashString → Prop}
  {replayed : IndexerTransactionWithOutcome → Prop} {tx : IndexerTransactionWithOutcome} {w : World}

theorem stable_cachedAs (htx : tx ∈ message.transactions) {hash : ParentTransactionHashString}
    (hallowed : ∀ hash', allowed tx hash' → hash' = hash) :
    Stable (KeepsBut stream message allowed) (CachedAs tx hash) := by
  intro w w' hw hstep hash' hlookup
  rcases hstep.cached tx htx hash' hlookup with hold | hnew
  · exact hw hash' hold
  · exact hallowed hash' hnew

theorem stable_replayed (htx : tx ∈ message.transactions) (hallowed : ¬ allowed tx (suffixedHash message tx))
    {p : Prop} : Stable (KeepsBut stream message allowed) fun w => suffixedHash message tx ∈ w.db.transactions ↔ p := by
  intro w w' hw hstep
  exact ⟨fun hmem => hw.mp ((hstep.stored tx htx hmem).resolve_right hallowed), fun h => hstep.kept.mem (hw.mpr h)⟩

theorem stable_settled (htx : tx ∈ message.transactions) (hallowed : ∀ hash, ¬ allowed tx hash) :
    Stable (KeepsBut stream message allowed) (Settled message replayed tx) := by
  intro w w' hw hstep
  have hcached : ∀ {hash}, CachedAs tx hash w → CachedAs tx hash w' := fun h =>
    stable_cachedAs htx (fun hash' h' => (hallowed hash' h').elim) w w' h hstep
  cases hw with
  | plain hnew hrow his h => exact .plain hnew (hstep.kept.rows _ _ hrow) his (hcached h)
  | found hreplayed hmem h => exact .found hreplayed (hstep.kept.mem hmem) (hcached h)
  | collided hnew hmem h => exact .collided hnew (hstep.kept.mem hmem) (hcached h)

/-- After the first receipts of a phase are cached, they are cached under the hashes of the phase. -/
theorem cachedAs_cacheTransactions (hchain : Chain stream) (hmessage : message ∈ stream) {suffix : String}
    {entries : List (IndexerTransactionWithOutcome × Nat)} (hstorable : Storable message suffix entries w)
    {entry : IndexerTransactionWithOutcome × Nat} (hentry : entry ∈ entries) :
    CachedAs entry.1 (hashWithSuffix suffix entry.1)
      { w with cache := cacheTransactions suffix entries w.cache } := by
  intro hash hlookup
  rcases SizedCache.of_lookup_foldl_cacheSet hlookup with ⟨entry', hentry', hkey, rfl⟩ | ⟨hne, _⟩
  · obtain ⟨_, hsame⟩ := hchain.eq_of_converted hmessage (hstorable entry' hentry').1 hmessage
      (hstorable entry hentry).1 (ReceiptOrDataId.receiptId.inj hkey)
    rw [hsame]
  · exact (hne entry hentry rfl).elim

/-- The row of a transaction decides what the cache has to say. -/
theorem agrees_iff_of_row (hchain : Chain stream) (hmessage : message ∈ stream) (htx : tx ∈ message.transactions)
    (hstored : WellStored stream w.db) {hash : ParentTransactionHashString} {row : Transaction}
    (hrow : w.db.transactions.lookup hash = some row) (his : IsRow message tx hash row) :
    Agrees tx w ↔ w.cache.lookup (.receiptId tx.convertedIntoReceiptId) = some hash := by
  have hmem : row ∈ w.db.transactions.rows := Table.mem_rows_iff_lookup.mpr ⟨hash, hrow⟩
  constructor
  · intro hagrees
    rw [hagrees.2 row hmem his.converted, his.transactionHash]
  · refine fun hlookup => ⟨⟨row, hmem, his.converted⟩, fun row' hmem' hconverted => ?_⟩
    obtain ⟨hash', hrow'⟩ := Table.mem_rows_iff_lookup.mp hmem'
    have hhash : hash = hash' := hstored.hash_unique hchain hrow hrow' (his.converted.trans hconverted.symm)
    rw [hlookup, hhash, (hstored.of_converted hchain hmessage htx hrow' hconverted).1.transactionHash]

theorem Settled.agrees_iff (hchain : Chain stream) (hmessage : message ∈ stream) (htx : tx ∈ message.transactions)
    (hstored : WellStored stream w.db) (h : Settled message replayed tx w) {hash : ParentTransactionHashString}
    (hlookup : w.cache.lookup (.receiptId tx.convertedIntoReceiptId) = some hash) :
    Agrees tx w ↔ ¬ replayed tx := by
  cases h with
  | plain hnew hrow his hcached =>
      rw [agrees_iff_of_row hchain hmessage htx hstored hrow his, hlookup, hcached hash hlookup]
      exact iff_of_true rfl hnew
  | found hreplayed hmem hcached =>
      obtain ⟨row, hrow, his, _⟩ := hstored.of_suffixedHash hchain hmessage htx hmem
      rw [agrees_iff_of_row hchain hmessage htx hstored hrow his, hlookup, hcached hash hlookup]
      exact iff_of_false (fun h => plainHash_ne_suffixedHash _ _ _ (Option.some.inj h)) (not_not_intro hreplayed)
  | collided hnew hmem hcached =>
      obtain ⟨row, hrow, his, _⟩ := hstored.of_suffixedHash hchain hmessage htx hmem
      rw [agrees_iff_of_row hchain hmessage htx hstored hrow his, hlookup, hcached hash hlookup]
      exact iff_of_true rfl hnew

/-- What collecting the receipts tells about a transaction after the first phase. -/
theorem settled_or_taken (hchain : Chain stream) (hmessage : message ∈ stream) (htx : tx ∈ message.transactions)
    (hstored : WellStored stream w.db) (hmem : plainHash tx ∈ w.db.transactions)
    (hcached : CachedAs tx (plainHash tx) w)
    (hreplayed : suffixedHash message tx ∈ w.db.transactions ↔ replayed tx) :
    if tx.convertedIntoReceiptId ∈ convertedToReceiptIds message.block.header.hash w.db then
      Settled message replayed tx w
    else Taken tx w.db ∧ ¬ replayed tx := by
  split
  · rename_i hcollected
    by_cases hnew : replayed tx
    · exact .found hnew (hreplayed.mpr hnew) hcached
    · obtain ⟨hash, row, hrow, _, hconverted⟩ := mem_convertedToReceiptIds.mp hcollected
      obtain ⟨his, hplain | ⟨hsuffixed, _⟩⟩ := hstored.of_converted hchain hmessage htx hrow hconverted
      · exact .plain hnew (hplain ▸ hrow) (hplain ▸ his) hcached
      · refine (hnew (hreplayed.mp ?_)).elim
        exact hsuffixed ▸ Table.mem_iff_lookup.mpr ⟨row, hrow⟩
  · rename_i hnot
    refine ⟨taken_of_not_collected hchain hmessage hstored htx hmem hnot, fun hnew => hnot ?_⟩
    obtain ⟨row, hrow, his, _⟩ := hstored.of_suffixedHash hchain hmessage htx (hreplayed.mpr hnew)
    exact mem_convertedToReceiptIds.mpr ⟨_, row, hrow, his.block, his.converted⟩

/-- What is known of a message when its transactions begin to be stored. -/
def Begun (stream : List StreamerMessage) (message : StreamerMessage)
    (replayed : IndexerTransactionWithOutcome → Prop) (w : World) : Prop :=
  WellStored stream w.db ∧
    ∀ tx ∈ message.transactions, suffixedHash message tx ∈ w.db.transactions ↔ replayed tx

theorem stable_begun (hallowed : ∀ tx, ¬ allowed tx (suffixedHash message tx)) :
    Stable (KeepsBut stream message allowed) (Begun stream message replayed) :=
  fun w w' hw hstep => ⟨hstep.kept.wellStored hw.1, fun tx htx =>
    stable_replayed htx (hallowed tx) w w' (hw.2 tx htx) hstep⟩

/-- What the first phase does: first receipts are cached under the hashes themselves. -/
abbrev FirstPhase (stream : List StreamerMessage) (message : StreamerMessage) : World → World → Prop :=
  KeepsBut stream message fun tx hash => hash = plainHash tx

/-- What the second phase does, after these receipts were collected. -/
abbrev SecondPhase (stream : List StreamerMessage) (message : StreamerMessage) (ids : List CryptoHash) :
    World → World → Prop :=
  KeepsBut stream message fun tx hash => tx.convertedIntoReceiptId ∉ ids ∧ hash = suffixedHash message tx

theorem outline_firstPhase (decoders : Decoders) (hchain : Chain stream) (hmessage : message ∈ stream) :
    Outline False (FirstPhase stream message) (FirstPhase stream message) (Begun stream message replayed)
      (Prog.joinAll ((chunksOf message.shards).map fun chunk => storeChunkTransactions decoders
        chunk.transactions.zipIdx chunk.header.chunkHash message.block.header.hash message.block.header.timestamp ""))
      fun _ w => (∀ tx ∈ message.transactions, plainHash tx ∈ w.db.transactions ∧ CachedAs tx (plainHash tx) w) ∧
        Begun stream message replayed w := by
  have hbegun : Stable (FirstPhase stream message) (Begun stream message replayed) :=
    stable_begun fun tx h => plainHash_ne_suffixedHash _ _ _ h.symm
  refine Outline.post (Outline.pre (Outline.frame (outline_phase decoders (fun _ => True)
    (A := fun tx => CachedAs tx (hashWithSuffix "" tx)) mem_zipIdx_chosen hchain hmessage hmessage
    (fun _ _ h => h.kept) (fun _ _ h => h) ?_ ?_ ?_) hbegun hbegun) ?_) ?_
  · exact fun tx htx _ => stable_cachedAs htx fun hash' h => h.trans (hashWithSuffix_empty tx).symm
  · exact fun w entries hstorable entry hentry => cachedAs_cacheTransactions hchain hmessage hstorable hentry
  · exact fun _ tx _ _ => hashWithSuffix_empty tx
  · exact fun w hw => ⟨fun _ _ _ => .inl rfl, hw⟩
  · refine fun _ w hw => ⟨fun tx htx => ?_, hw.2⟩
    have hphase := hw.1 tx htx trivial
    rwa [hashWithSuffix_empty] at hphase

/-- What is known after the receipts of the stored transactions were collected. -/
def Collected (message : StreamerMessage) (replayed : IndexerTransactionWithOutcome → Prop) (ids : List CryptoHash)
    (w : World) : Prop :=
  ∀ tx ∈ message.transactions, if tx.convertedIntoReceiptId ∈ ids then Settled message replayed tx w
    else Taken tx w.db ∧ ¬ replayed tx

theorem stable_collected {ids : List CryptoHash}
    (hallowed : ∀ tx hash, allowed tx hash → tx.convertedIntoReceiptId ∉ ids) :
    Stable (KeepsBut stream message allowed) (Collected message replayed ids) := by
  intro w w' hw hstep tx htx
  have hbefore := hw tx htx
  split at hbefore
  · rename_i hcollected
    rw [if_pos hcollected]
    exact stable_settled htx (fun hash h => hallowed tx hash h hcollected) w w' hbefore hstep
  · rename_i hnot
    rw [if_neg hnot]
    exact ⟨hstep.kept.taken hbefore.1, hbefore.2⟩

theorem outline_secondPhase (decoders : Decoders) (hchain : Chain stream) (hmessage : message ∈ stream)
    (ids : List CryptoHash) :
    Outline False (SecondPhase stream message ids) (SecondPhase stream message ids)
      (Collected message replayed ids)
      (Prog.joinAll ((chunksOf message.shards).map fun chunk => storeChunkTransactions decoders
        (collidedTransactions ids chunk) chunk.header.chunkHash message.block.header.hash
        message.block.header.timestamp (issue84Suffix message.block.header.height)))
      fun _ w => ∀ tx ∈ message.transactions, Settled message replayed tx w := by
  have hcollected : Stable (SecondPhase stream message ids) (Collected message replayed ids) :=
    stable_collected fun tx hash h => h.1
  refine Outline.post (Outline.pre (Outline.frame (outline_phase decoders
    (fun tx => tx.convertedIntoReceiptId ∉ ids) (A := fun tx => CachedAs tx (suffixedHash message tx))
    (fun _ _ => mem_collidedTransactions) hchain hmessage hmessage (fun _ _ h => h.kept) (fun _ _ h => h) ?_ ?_ ?_)
    hcollected hcollected) ?_) ?_
  · exact fun tx htx _ => stable_cachedAs htx fun hash' h => h.2
  · exact fun w entries hstorable entry hentry => cachedAs_cacheTransactions hchain hmessage hstorable hentry
  · exact fun _ tx _ hnot => ⟨hnot, rfl⟩
  · refine fun w hw => ⟨fun tx htx hnot => .inr ⟨rfl, ?_⟩, hw⟩
    have hbefore := hw tx htx
    rw [if_neg hnot] at hbefore
    exact hbefore.1
  · intro _ w hw tx htx
    have hbefore := hw.2 tx htx
    split at hbefore
    · exact hbefore
    · rename_i hnot
      obtain ⟨hmem, hcached⟩ := hw.1 tx htx hnot
      exact .collided hbefore.2 hmem hcached

/-- The transactions of a message are settled in the end, as long as the others stay apart. -/
theorem outline_storeTransactions_settled (decoders : Decoders) (hchain : Chain stream)
    (hmessage : message ∈ stream) :
    Outline False (Apart stream message) (fun _ _ => True) (Begun stream message replayed)
      (storeTransactions decoders message.shards message.block.header.hash message.block.header.timestamp
        message.block.header.height)
      fun _ w => WellStored stream w.db ∧ ∀ tx ∈ message.transactions, Settled message replayed tx w := by
  have hstored : Stable (Apart stream message) fun w => WellStored stream w.db :=
    stable_wellStored.mono fun _ _ h => h.kept
  refine Outline.bind (((outline_firstPhase decoders hchain hmessage).rely_mono fun _ _ h =>
    h.mono fun _ _ => False.elim).guarantee_mono fun _ _ _ => trivial) fun _ => ?_
  refine Outline.bind (M := fun ids w => (ids.length = message.transactions.length → ∀ tx ∈ message.transactions,
    tx.convertedIntoReceiptId ∈ ids) ∧ Collected message replayed ids w ∧ WellStored stream w.db)
    (outline_collectConvertedToReceiptIds (fun w hw => ⟨trivial, ?_, fun tx htx => ?_, hw.2.1⟩) fun ids => ?_)
    fun ids => ?_
  · exact fun hlength tx htx => mem_convertedToReceiptIds_of_length hchain hw.2.1 hmessage hlength htx
  · exact settled_or_taken hchain hmessage htx hw.2.1 (hw.1 tx htx).1 (hw.1 tx htx).2 (hw.2.2 tx htx)
  · exact (Stable.const _ _).and ((stable_collected fun _ _ => False.elim).and hstored)
  refine .assume fun hall => ?_
  rw [triedToInsertTransactionsCount]
  split
  · rename_i hlength
    refine .ret fun w hw => ⟨hw.2, fun tx htx => ?_⟩
    have hbefore := hw.1 tx htx
    rwa [if_pos (hall hlength tx htx)] at hbefore
  · have hwell : Stable (SecondPhase stream message ids) fun w => WellStored stream w.db :=
      stable_wellStored.mono fun _ _ h => h.kept
    refine (Outline.post (Outline.frame (outline_secondPhase decoders hchain hmessage ids) hwell hwell)
      fun _ _ hw => ⟨hw.2, hw.1⟩).rely_mono ?_ |>.guarantee_mono fun _ _ _ => trivial
    exact fun _ _ h => h.mono fun _ _ => False.elim

end Settling

/-- The cache and the table agree on the transactions of a message, first handled or handled again, exactly when none
of them was stored with a suffix before. -/
theorem cache_and_table_agree_iff (decoders : Decoders) (stream : List StreamerMessage) (hchain : Chain stream)
    (pool : Pool World) (hreach : IndexerReachable decoders stream pool) (message : StreamerMessage)
    (hmessage : message ∈ stream) (w' : World)
    (hrun : Amid (Apart stream message) (storeTransactions decoders message.shards message.block.header.hash
      message.block.header.timestamp message.block.header.height) pool.state () w')
    (hcached : ∀ tx ∈ message.transactions, ∃ hash,
      w'.cache.lookup (.receiptId tx.convertedIntoReceiptId) = some hash) :
    (∀ tx ∈ message.transactions, Agrees tx w') ↔
      ∀ tx ∈ message.transactions, suffixedHash message tx ∉ pool.state.db.transactions := by
  have hbegun : Begun stream message (fun tx => suffixedHash message tx ∈ pool.state.db.transactions) pool.state :=
    ⟨wellStored_of_reachable hchain hreach, fun _ _ => Iff.rfl⟩
  obtain ⟨hstored, hsettled⟩ := (outline_storeTransactions_settled decoders hchain hmessage).amid hbegun
    (stable_begun fun _ => id) hrun
  refine forall₂_congr fun tx htx => ?_
  obtain ⟨hash, hlookup⟩ := hcached tx htx
  exact (hsettled tx htx).agrees_iff hchain hmessage htx hstored hlookup

/-! ### Two transactions with one hash -/

/-- A block with a single transaction, whose hash is that of the other block's. -/
def collidedBlock (height : Nat) (blockHash chunkHash receiptId : CryptoHash) : StreamerMessage where
  block :=
    { author := "validator.near"
      header :=
        { height
          hash := blockHash
          prevHash := .ofText "b"
          timestamp := height
          totalSupply := 0
          gasPrice := 0 } }
  shards := [.plain chunkHash [.plain blockHash (.ofText "t") receiptId "bob.near"] [] []]

def firstBlock : StreamerMessage := collidedBlock 6 (.ofText "b6") (.ofText "c6") (.ofText "r6")

def secondBlock : StreamerMessage := collidedBlock 7 (.ofText "b7") (.ofText "c7") (.ofText "r7")

def afterFirst : World := (handleMessage .silent firstBlock true).after 1 emptyWorld

def afterSecond : World := (handleMessage .silent secondBlock true).after 1 afterFirst

/-- The transactions of a message are stored, for the first time or again. -/
def storeTransactionsOf (message : StreamerMessage) : Prog World Unit :=
  storeTransactions .silent message.shards message.block.header.hash message.block.header.timestamp
    message.block.header.height

theorem chain_collided : Chain [firstBlock, secondBlock] := ⟨by decide, by decide, by decide, by decide⟩

theorem reachable_afterFirst : IndexerReachable .silent [firstBlock, secondBlock] ⟨[], afterFirst⟩ :=
  (reachable_emptyWorld _ _).handled List.mem_cons_self (finishes_after 1 (by decide))

theorem reachable_afterSecond : IndexerReachable .silent [firstBlock, secondBlock] ⟨[], afterSecond⟩ :=
  reachable_afterFirst.handled (List.mem_cons_of_mem _ (List.mem_singleton_self _)) (finishes_after 1 (by decide))

instance (tx : IndexerTransactionWithOutcome) (w : World) : Decidable (Agrees tx w) :=
  inferInstanceAs (Decidable (_ ∧ _))

example : ∀ tx ∈ secondBlock.transactions, Agrees tx afterSecond := by decide

theorem cache_and_table_agree_firstBlock :
    (∀ tx ∈ firstBlock.transactions, Agrees tx ((storeTransactionsOf firstBlock).after 1 afterSecond)) ↔
      ∀ tx ∈ firstBlock.transactions, suffixedHash firstBlock tx ∉ afterSecond.db.transactions :=
  cache_and_table_agree_iff .silent _ chain_collided _ reachable_afterSecond firstBlock List.mem_cons_self _
    (finishes_after 1 (by decide) : Finishes (storeTransactionsOf firstBlock) afterSecond () _).amid
    (by
      intro tx htx
      cases List.mem_singleton.mp htx
      exact ⟨"t", by decide⟩)

/-- The second block is handled again: its transaction is found under its hash with a suffix, but the cache has the
hash itself. -/
theorem replayed_collision_disagrees :
    ¬ ∀ (stream : List StreamerMessage) (pool : Pool World) (message : StreamerMessage) (w' : World),
      Chain stream → IndexerReachable .silent stream pool → message ∈ stream →
      Finishes (storeTransactions .silent message.shards message.block.header.hash message.block.header.timestamp
        message.block.header.height) pool.state () w' →
      (∀ tx ∈ message.transactions, ∃ hash, w'.cache.lookup (.receiptId tx.convertedIntoReceiptId) = some hash) →
      ∀ tx ∈ message.transactions, Agrees tx w' := by
  intro h
  have hagree := h [firstBlock, secondBlock] ⟨[], afterSecond⟩ secondBlock
    ((storeTransactionsOf secondBlock).after 1 afterSecond) chain_collided reachable_afterSecond
    (List.mem_cons_of_mem _ (List.mem_singleton_self _)) (finishes_after 1 (by decide)) fun tx htx => by
      cases List.mem_singleton.mp htx
      exact ⟨"t", by decide⟩
  revert hagree
  decide

end ExplorerIndexer.Collisions

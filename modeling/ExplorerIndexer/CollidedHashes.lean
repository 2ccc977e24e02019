import ExplorerIndexer.HandleMessageFrame
import ExplorerIndexer.IndexerRuns

/-! Transactions with collided hashes. A transaction whose hash is taken by a transaction of another block is stored
under its hash with a suffix. Every stored transaction is under one of the two hashes, whatever was handled in
whatever order. -/

namespace ExplorerIndexer.Collisions

open Async Store Models Transactions

/-! ### Hashes with and without a suffix -/

def plainHash (tx : IndexerTransactionWithOutcome) : ParentTransactionHashString := tx.transaction.hash.text

/-- The hash of a transaction of a message in the second phase. -/
def suffixedHash (message : StreamerMessage) (tx : IndexerTransactionWithOutcome) : ParentTransactionHashString :=
  hashWithSuffix (issue84Suffix message.block.header.height) tx

theorem underscore_not_mem (hash : CryptoHash) : '_' ∉ hash.text.toList := by
  intro hmem
  have hbase := List.all_eq_true.mp hash.base58 _ hmem
  revert hbase
  decide

theorem eq_of_first_underscore {a a' b b' : List Char} (ha : '_' ∉ a) (ha' : '_' ∉ a')
    (h : a ++ '_' :: b = a' ++ '_' :: b') : a = a' ∧ b = b' := by
  induction a generalizing a' with
  | nil =>
      cases a' with
      | nil => exact ⟨rfl, (List.cons.inj h).2⟩
      | cons c a' => exact (ha' ((List.cons.inj h).1 ▸ List.mem_cons_self)).elim
  | cons c a ih =>
      cases a' with
      | nil => exact (ha ((List.cons.inj h).1 ▸ List.mem_cons_self)).elim
      | cons c' a' =>
          obtain ⟨hc, hrest⟩ := List.cons.inj h
          obtain ⟨hlist, hb⟩ := ih (List.not_mem_of_not_mem_cons ha) (List.not_mem_of_not_mem_cons ha') hrest
          exact ⟨by rw [hc, hlist], hb⟩

theorem toList_suffixedHash (message : StreamerMessage) (tx : IndexerTransactionWithOutcome) :
    (suffixedHash message tx).toList =
      tx.transaction.hash.text.toList ++
        '_' :: ("issue84_".toList ++ (toString message.block.header.height).toList) := by
  rw [suffixedHash, hashWithSuffix, issue84Suffix, String.toList_append, String.toList_append]
  rfl

theorem plainHash_ne_suffixedHash (tx : IndexerTransactionWithOutcome) (message : StreamerMessage)
    (tx' : IndexerTransactionWithOutcome) : plainHash tx ≠ suffixedHash message tx' := by
  intro heq
  apply underscore_not_mem tx.transaction.hash
  have hlist := congrArg String.toList heq
  rw [toList_suffixedHash, plainHash] at hlist
  rw [hlist]
  simp

theorem toString_injective {m n : Nat} (h : toString m = toString n) : m = n := by
  have hdigits := congrArg String.toList h
  simp only [Nat.toString_eq_repr, Nat.toList_repr] at hdigits
  calc m = Nat.ofDigitChars 10 (Nat.toDigits 10 m) 0 := Nat.ofDigitChars_ten_toDigits.symm
    _ = Nat.ofDigitChars 10 (Nat.toDigits 10 n) 0 := by rw [hdigits]
    _ = n := Nat.ofDigitChars_ten_toDigits

/-- A hash with a suffix tells the hash and the height. -/
theorem suffixedHash_injective {message message' : StreamerMessage} {tx tx' : IndexerTransactionWithOutcome}
    (h : suffixedHash message tx = suffixedHash message' tx') :
    tx.transaction.hash = tx'.transaction.hash ∧
      message.block.header.height = message'.block.header.height := by
  have hlist := congrArg String.toList h
  rw [toList_suffixedHash, toList_suffixedHash] at hlist
  obtain ⟨htext, hrest⟩ := eq_of_first_underscore (underscore_not_mem _) (underscore_not_mem _) hlist
  refine ⟨CryptoHash.text_injective (String.toList_inj.mp htext), toString_injective (String.toList_inj.mp ?_)⟩
  exact List.append_cancel_left hrest

/-! ### Stored transactions -/

/-- What a chain promises: its blocks differ, receipts stem from one transaction, and no block has a transaction
twice. Transactions of different blocks may have the same hash. -/
structure Chain (stream : List StreamerMessage) : Prop where
  heights : (stream.map (·.block.header.height)).Nodup
  blocks : (stream.map (·.block.header.hash)).Nodup
  receipts : ((stream.flatMap (·.transactions)).map (·.convertedIntoReceiptId)).Nodup
  hashes : ∀ message ∈ stream, (message.transactions.map (·.transaction.hash)).Nodup

/-- The row of a transaction under a hash. -/
structure IsRow (message : StreamerMessage) (tx : IndexerTransactionWithOutcome) (hash : ParentTransactionHashString)
    (row : Transaction) : Prop where
  transactionHash : row.transactionHash = hash
  block : row.includedInBlockHash = message.block.header.hash
  converted : row.convertedIntoReceiptId = tx.convertedIntoReceiptId

/-- The hash of a transaction is that of another stored transaction. -/
def Taken (tx : IndexerTransactionWithOutcome) (db : Database) : Prop :=
  ∃ row, db.transactions.lookup (plainHash tx) = some row ∧ row.convertedIntoReceiptId ≠ tx.convertedIntoReceiptId

/-- Every row is that of a transaction of the stream, under its hash or, if that is taken, with a suffix. -/
def WellStored (stream : List StreamerMessage) (db : Database) : Prop :=
  ∀ hash row, db.transactions.lookup hash = some row → ∃ message ∈ stream, ∃ tx ∈ message.transactions,
    IsRow message tx hash row ∧ (hash = plainHash tx ∨ hash = suffixedHash message tx ∧ Taken tx db)

/-- Stored transactions stay as they are, and the new ones are well stored. -/
structure KeepsStored (stream : List StreamerMessage) (w w' : World) : Prop where
  wellStored : WellStored stream w.db → WellStored stream w'.db
  rows : ∀ hash row, w.db.transactions.lookup hash = some row → w'.db.transactions.lookup hash = some row

section Stored

variable {stream : List StreamerMessage} {message message' : StreamerMessage}
  {tx tx' : IndexerTransactionWithOutcome} {db : Database}

theorem Chain.eq_of_converted (hchain : Chain stream) (hmessage : message ∈ stream) (htx : tx ∈ message.transactions)
    (hmessage' : message' ∈ stream) (htx' : tx' ∈ message'.transactions)
    (heq : tx.convertedIntoReceiptId = tx'.convertedIntoReceiptId) : message = message' ∧ tx = tx' :=
  StreamerMessage.eq_of_nodup_transactions hchain.receipts hmessage htx hmessage' htx' heq

theorem Chain.eq_of_suffixedHash (hchain : Chain stream) (hmessage : message ∈ stream)
    (htx : tx ∈ message.transactions) (hmessage' : message' ∈ stream) (htx' : tx' ∈ message'.transactions)
    (heq : suffixedHash message tx = suffixedHash message' tx') : message = message' ∧ tx = tx' := by
  obtain ⟨hhash, hheight⟩ := suffixedHash_injective heq
  have hsame : message = message' := List.inj_on_of_nodup_map hchain.heights hmessage hmessage' hheight
  subst hsame
  exact ⟨rfl, List.inj_on_of_nodup_map (hchain.hashes message hmessage) htx htx' hhash⟩

theorem WellStored.of_converted (hchain : Chain stream) (hstored : WellStored stream db)
    (hmessage : message ∈ stream) (htx : tx ∈ message.transactions) {hash : ParentTransactionHashString}
    {row : Transaction} (hrow : db.transactions.lookup hash = some row)
    (hconverted : row.convertedIntoReceiptId = tx.convertedIntoReceiptId) :
    IsRow message tx hash row ∧ (hash = plainHash tx ∨ hash = suffixedHash message tx ∧ Taken tx db) := by
  obtain ⟨message', hmessage', tx', htx', his, hhash⟩ := hstored hash row hrow
  obtain ⟨rfl, rfl⟩ := hchain.eq_of_converted hmessage htx hmessage' htx' (hconverted ▸ his.converted)
  exact ⟨his, hhash⟩

/-- No two rows are about the same receipt. -/
theorem WellStored.hash_unique (hchain : Chain stream) (hstored : WellStored stream db)
    {hash hash' : ParentTransactionHashString} {row row' : Transaction}
    (hrow : db.transactions.lookup hash = some row) (hrow' : db.transactions.lookup hash' = some row')
    (heq : row.convertedIntoReceiptId = row'.convertedIntoReceiptId) : hash = hash' := by
  obtain ⟨message, hmessage, tx, htx, his, hhash⟩ := hstored hash row hrow
  obtain ⟨his', hhash'⟩ := hstored.of_converted hchain hmessage htx hrow' (heq ▸ his.converted)
  have hnot : ∀ {row'' : Transaction}, db.transactions.lookup (plainHash tx) = some row'' →
      row''.convertedIntoReceiptId = tx.convertedIntoReceiptId → ¬ Taken tx db := by
    rintro row'' hrow'' hconverted ⟨other, hother, hne⟩
    rw [hrow''] at hother
    cases hother
    exact hne hconverted
  rcases hhash with hplain | ⟨hsuffixed, htaken⟩ <;> rcases hhash' with hplain' | ⟨hsuffixed', htaken'⟩
  · rw [hplain, hplain']
  · exact (hnot (hplain ▸ hrow) his.converted htaken').elim
  · exact (hnot (hplain' ▸ hrow') his'.converted htaken).elim
  · rw [hsuffixed, hsuffixed']

/-- A hash that is in the table is that of the transaction itself or taken. -/
theorem WellStored.own_or_taken (hchain : Chain stream) (hstored : WellStored stream db)
    (hmessage : message ∈ stream) (htx : tx ∈ message.transactions) (hmem : plainHash tx ∈ db.transactions) :
    (∃ row, db.transactions.lookup (plainHash tx) = some row ∧ IsRow message tx (plainHash tx) row) ∨
      Taken tx db := by
  obtain ⟨row, hrow⟩ := Table.mem_iff_lookup.mp (hmem)
  by_cases hconverted : row.convertedIntoReceiptId = tx.convertedIntoReceiptId
  · exact .inl ⟨row, hrow, (hstored.of_converted hchain hmessage htx hrow hconverted).1⟩
  · exact .inr ⟨row, hrow, hconverted⟩

/-- The row under a hash with a suffix is that of the transaction with this hash and suffix. -/
theorem WellStored.of_suffixedHash (hchain : Chain stream) (hstored : WellStored stream db)
    (hmessage : message ∈ stream) (htx : tx ∈ message.transactions)
    (hmem : suffixedHash message tx ∈ db.transactions) :
    ∃ row, db.transactions.lookup (suffixedHash message tx) = some row ∧
      IsRow message tx (suffixedHash message tx) row ∧ Taken tx db := by
  obtain ⟨row, hrow⟩ := Table.mem_iff_lookup.mp (hmem)
  obtain ⟨message', hmessage', tx', htx', his, hhash⟩ := hstored _ row hrow
  rcases hhash with hplain | ⟨hsuffixed, htaken⟩
  · exact (plainHash_ne_suffixedHash tx' message tx hplain.symm).elim
  · obtain ⟨rfl, rfl⟩ := hchain.eq_of_suffixedHash hmessage htx hmessage' htx' hsuffixed
    exact ⟨row, hrow, his, htaken⟩

/-! ### The collected receipts -/

theorem nodup_convertedToReceiptIds (hchain : Chain stream) (hstored : WellStored stream db)
    (blockHash : CryptoHash) : (convertedToReceiptIds blockHash db).Nodup := by
  unfold convertedToReceiptIds Table.rows
  rw [List.filter_map, List.map_map]
  refine List.Nodup.map_on (fun entry hentry entry' hentry' heq => ?_)
    ((List.NodupKeys.nodup db.transactions.nodupKeys).filter _)
  have hrow := AList.mem_lookup_iff.mpr (List.mem_filter.mp hentry).1
  have hrow' := AList.mem_lookup_iff.mpr (List.mem_filter.mp hentry').1
  have hkey : entry.1 = entry'.1 := hstored.hash_unique hchain hrow hrow' heq
  obtain ⟨hash, row⟩ := entry
  obtain ⟨hash', row'⟩ := entry'
  cases hkey
  have hsame : row = row' := Option.mem_unique hrow hrow'
  rw [hsame]

/-- If as many receipts are collected as the block has transactions, all of them are. -/
theorem mem_convertedToReceiptIds_of_length (hchain : Chain stream) (hstored : WellStored stream db)
    (hmessage : message ∈ stream)
    (hlength : (convertedToReceiptIds message.block.header.hash db).length = message.transactions.length)
    (htx : tx ∈ message.transactions) :
    tx.convertedIntoReceiptId ∈ convertedToReceiptIds message.block.header.hash db := by
  have hsub : convertedToReceiptIds message.block.header.hash db ⊆
      message.transactions.map (·.convertedIntoReceiptId) := by
    intro receiptId hmem
    obtain ⟨hash, row, hrow, hblock, rfl⟩ := mem_convertedToReceiptIds.mp hmem
    obtain ⟨message', hmessage', tx', htx', his, _⟩ := hstored hash row hrow
    have hsame : message' = message :=
      List.inj_on_of_nodup_map hchain.blocks hmessage' hmessage (his.block.symm.trans hblock)
    subst hsame
    exact List.mem_map.mpr ⟨tx', htx', his.converted.symm⟩
  have hperm := (List.subperm_of_subset (nodup_convertedToReceiptIds hchain hstored _) hsub).perm_of_length_le
    (by rw [List.length_map, hlength])
  exact hperm.mem_iff.mpr (List.mem_map_of_mem htx)

end Stored

/-! ### What the steps of the handlings do -/

/-- Stored transactions are kept; the parents of a message's first receipts and its rows with a suffix change
only as allowed. -/
structure KeepsBut (stream : List StreamerMessage) (message : StreamerMessage)
    (allowed : IndexerTransactionWithOutcome → ParentTransactionHashString → Prop) (w w' : World) : Prop where
  kept : KeepsStored stream w w'
  cached : ∀ tx ∈ message.transactions, ∀ hash, w'.cache.lookup (.receiptId tx.convertedIntoReceiptId) = some hash →
    w.cache.lookup (.receiptId tx.convertedIntoReceiptId) = some hash ∨ allowed tx hash
  stored : ∀ tx ∈ message.transactions, suffixedHash message tx ∈ w'.db.transactions →
    suffixedHash message tx ∈ w.db.transactions ∨ allowed tx (suffixedHash message tx)

/-- What the others do while a message is handled: they leave its transactions alone, but may drive cached
parents out. -/
def Apart (stream : List StreamerMessage) (message : StreamerMessage) : World → World → Prop :=
  KeepsBut stream message fun _ _ => False

/-- The transactions of a message that are stored in a phase: with a suffix, only those whose hash is taken. -/
def Storable (message : StreamerMessage) (suffix : String) (entries : List (IndexerTransactionWithOutcome × Nat))
    (w : World) : Prop :=
  ∀ entry ∈ entries, entry.1 ∈ message.transactions ∧
    (suffix = "" ∨ suffix = issue84Suffix message.block.header.height ∧ Taken entry.1 w.db)

section Steps

variable {stream : List StreamerMessage} {message observer : StreamerMessage}
  {allowed : IndexerTransactionWithOutcome → ParentTransactionHashString → Prop}
  {tx : IndexerTransactionWithOutcome} {w w' : World} {suffix : String}
  {entries : List (IndexerTransactionWithOutcome × Nat)} {chunkHash : CryptoHash} {blockTimestamp : Nat}

theorem KeepsStored.taken (h : KeepsStored stream w w') (htaken : Taken tx w.db) : Taken tx w'.db := by
  obtain ⟨row, hrow, hne⟩ := htaken
  exact ⟨row, h.rows _ _ hrow, hne⟩

theorem KeepsStored.mem (h : KeepsStored stream w w') {hash : ParentTransactionHashString}
    (hmem : hash ∈ w.db.transactions) : hash ∈ w'.db.transactions := by
  obtain ⟨row, hrow⟩ := Table.mem_iff_lookup.mp (hmem)
  exact Table.mem_iff_lookup.mpr ⟨row, h.rows _ _ hrow⟩

theorem KeepsStored.of_transactions (h : w'.db.transactions = w.db.transactions) : KeepsStored stream w w' := by
  refine ⟨fun hw hash row hrow => ?_, fun hash row hrow => by rwa [h]⟩
  rw [h] at hrow
  obtain ⟨message, hmessage, tx, htx, his, hhash⟩ := hw hash row hrow
  refine ⟨message, hmessage, tx, htx, his, hhash.imp_right fun hsuffixed => ⟨hsuffixed.1, ?_⟩⟩
  obtain ⟨other, hother, hne⟩ := hsuffixed.2
  exact ⟨other, by rwa [h], hne⟩

theorem KeepsBut.of_sameTransactions (h : SameTransactions w w') : KeepsBut stream observer allowed w w' :=
  ⟨.of_transactions h.transactions, fun _ _ _ hlookup => .inl (h.cache _ _ hlookup),
    fun _ _ hmem => .inl (h.transactions ▸ hmem)⟩

theorem KeepsBut.mono {allowed' : IndexerTransactionWithOutcome → ParentTransactionHashString → Prop}
    (h : KeepsBut stream observer allowed w w') (hallowed : ∀ tx hash, allowed tx hash → allowed' tx hash) :
    KeepsBut stream observer allowed' w w' :=
  ⟨h.kept, fun tx htx hash hlookup => (h.cached tx htx hash hlookup).imp_right (hallowed tx hash),
    fun tx htx hmem => (h.stored tx htx hmem).imp_right (hallowed tx _)⟩

theorem stable_wellStored : Stable (KeepsStored stream) fun w => WellStored stream w.db :=
  fun _ _ hw h => h.wellStored hw

theorem stable_storable : Stable (KeepsStored stream) (Storable message suffix entries) := by
  intro w w' hstorable h entry hentry
  obtain ⟨htx, hsuffix⟩ := hstorable entry hentry
  exact ⟨htx, hsuffix.imp_right fun hcollided => ⟨hcollided.1, h.taken hcollided.2⟩⟩

/-- What an insert of transactions leaves under a hash. -/
theorem of_lookup_addTransactions {blockHash : CryptoHash} {hash : ParentTransactionHashString} {row : Transaction}
    (h : (w.addTransactions (transactionModels entries chunkHash blockHash blockTimestamp
      suffix)).db.transactions.lookup hash = some row) :
    w.db.transactions.lookup hash = some row ∨ ∃ entry ∈ entries, hashWithSuffix suffix entry.1 = hash ∧
      row = .fromIndexerTransaction entry.1 hash entry.1.convertedIntoReceiptId blockHash chunkHash blockTimestamp
        entry.2 := by
  rcases Table.mem_of_lookup_insertAllNew h with hold | ⟨_, hnew, rfl⟩
  · exact .inl hold
  · obtain ⟨entry, hentry, rfl⟩ := List.mem_map.mp hnew
    exact .inr ⟨entry, hentry, rfl, rfl⟩

theorem mem_addTransactions {blockHash : CryptoHash} {entry : IndexerTransactionWithOutcome × Nat}
    (hentry : entry ∈ entries) : hashWithSuffix suffix entry.1 ∈
      (w.addTransactions (transactionModels entries chunkHash blockHash blockTimestamp suffix)).db.transactions :=
  Table.mem_insertAllNew.mpr (.inr ⟨_, List.mem_map.mpr ⟨entry, hentry, rfl⟩, rfl⟩)

theorem keepsStored_addTransactions (hmessage : message ∈ stream) (hstorable : Storable message suffix entries w) :
    KeepsStored stream w (w.addTransactions (transactionModels entries chunkHash message.block.header.hash
      blockTimestamp suffix)) := by
  have hrows : ∀ hash row, w.db.transactions.lookup hash = some row → (w.addTransactions (transactionModels entries
      chunkHash message.block.header.hash blockTimestamp suffix)).db.transactions.lookup hash = some row :=
    fun hash row hrow => Table.lookup_insertAllNew_of_some hrow
  have htaken : ∀ {tx}, Taken tx w.db → Taken tx (w.addTransactions (transactionModels entries chunkHash
      message.block.header.hash blockTimestamp suffix)).db :=
    fun ⟨other, hother, hne⟩ => ⟨other, hrows _ _ hother, hne⟩
  refine ⟨fun hw hash row hrow => ?_, hrows⟩
  rcases of_lookup_addTransactions hrow with hold | ⟨entry, hentry, hhash, rfl⟩
  · obtain ⟨message', hmessage', tx, htx, his, hsuffix⟩ := hw hash row hold
    exact ⟨message', hmessage', tx, htx, his, hsuffix.imp_right fun hsuffixed => ⟨hsuffixed.1, htaken hsuffixed.2⟩⟩
  · obtain ⟨htx, hsuffix⟩ := hstorable entry hentry
    refine ⟨message, hmessage, entry.1, htx, ⟨rfl, rfl, rfl⟩, ?_⟩
    rcases hsuffix with rfl | ⟨rfl, hcollided⟩
    · exact .inl (hhash ▸ hashWithSuffix_empty entry.1)
    · exact .inr ⟨hhash.symm, htaken hcollided⟩

/-- The transactions of a message are cached and stored under hashes that are allowed if the message is observed. -/
theorem keepsBut_cacheTransactions (hchain : Chain stream) (hmessage : message ∈ stream)
    (hobserver : observer ∈ stream) (hstorable : Storable message suffix entries w)
    (hallowed : message = observer → ∀ entry ∈ entries, allowed entry.1 (hashWithSuffix suffix entry.1)) :
    KeepsBut stream observer allowed w { w with cache := cacheTransactions suffix entries w.cache } := by
  refine ⟨.of_transactions rfl, fun tx htx hash hlookup => ?_, fun _ _ hmem => .inl hmem⟩
  rcases SizedCache.of_lookup_foldl_cacheSet hlookup with ⟨entry, hentry, hkey, rfl⟩ | ⟨_, hold⟩
  · obtain ⟨rfl, rfl⟩ := hchain.eq_of_converted hmessage (hstorable entry hentry).1 hobserver htx
      (ReceiptOrDataId.receiptId.inj hkey)
    exact .inr (hallowed rfl entry hentry)
  · exact .inl hold

theorem keepsBut_addTransactions (hchain : Chain stream) (hmessage : message ∈ stream)
    (hobserver : observer ∈ stream) (hstorable : Storable message suffix entries w)
    (hallowed : message = observer → ∀ entry ∈ entries, allowed entry.1 (hashWithSuffix suffix entry.1)) :
    KeepsBut stream observer allowed w (w.addTransactions (transactionModels entries chunkHash
      message.block.header.hash blockTimestamp suffix)) := by
  refine ⟨keepsStored_addTransactions hmessage hstorable, fun _ _ _ hlookup => .inl hlookup, fun tx htx hmem => ?_⟩
  rcases Table.mem_insertAllNew.mp hmem with hold | ⟨row, hnew, hkey⟩
  · exact .inl hold
  · obtain ⟨entry, hentry, rfl⟩ := List.mem_map.mp hnew
    obtain ⟨htx', hsuffix⟩ := hstorable entry hentry
    change hashWithSuffix suffix entry.1 = suffixedHash observer tx at hkey
    have hallow := fun hsame => hallowed hsame entry hentry
    rw [hkey] at hallow
    rcases hsuffix with rfl | ⟨rfl, _⟩
    · rw [hashWithSuffix_empty] at hkey
      exact (plainHash_ne_suffixedHash _ _ _ hkey).elim
    · obtain ⟨rfl, rfl⟩ := hchain.eq_of_suffixedHash hmessage htx' hobserver htx hkey
      exact .inr (hallow rfl)

end Steps

/-! ### Phases -/

section Phases

variable {stream : List StreamerMessage} {message observer : StreamerMessage}
  {allowed : IndexerTransactionWithOutcome → ParentTransactionHashString → Prop}
  {rely : World → World → Prop} {suffix : String}

/-- The transactions of a chunk end in the table, under the hash of the phase. -/
theorem outline_storeChunkTransactions (decoders : Decoders) {entries : List (IndexerTransactionWithOutcome × Nat)}
    {chunkHash : CryptoHash} {blockTimestamp : Nat} {A : World → Prop} (hchain : Chain stream)
    (hmessage : message ∈ stream) (hobserver : observer ∈ stream)
    (hkeep : ∀ w w', rely w w' → KeepsStored stream w w')
    (hself : ∀ w w', KeepsBut stream observer allowed w w' → rely w w') (hA : Stable rely A)
    (hcached : ∀ w, Storable message suffix entries w →
      A { w with cache := cacheTransactions suffix entries w.cache })
    (hallowed : message = observer → ∀ entry ∈ entries, allowed entry.1 (hashWithSuffix suffix entry.1)) :
    Outline False rely (KeepsBut stream observer allowed) (Storable message suffix entries)
      (storeChunkTransactions decoders entries chunkHash message.block.header.hash blockTimestamp suffix)
      fun _ w => (∀ entry ∈ entries, hashWithSuffix suffix entry.1 ∈ w.db.transactions) ∧ A w := by
  have hmem : Stable rely fun w => ∀ entry ∈ entries, hashWithSuffix suffix entry.1 ∈ w.db.transactions :=
    fun w w' hw hstep entry hentry => (hkeep w w' hstep).mem (hw entry hentry)
  have hstorable : Stable rely (Storable message suffix entries) := stable_storable.mono hkeep
  refine Transactions.outline_storeChunkTransactions (A := fun w => Storable message suffix entries w ∧ A w)
    (fun w w' h => .of_sameTransactions h.sameTransactions) hself decoders _ _ _ _ _ (hstorable.and hA)
    (hmem.and hA) (fun w hw => ?_) fun w hw => ?_
  · exact ⟨keepsBut_cacheTransactions hchain hmessage hobserver hw hallowed, hw, hcached w hw⟩
  · have hstep : KeepsBut stream observer allowed w (w.addTransactions (transactionModels entries chunkHash
        message.block.header.hash blockTimestamp suffix)) :=
      keepsBut_addTransactions hchain hmessage hobserver hw.1 hallowed
    exact ⟨hstep, fun entry hentry => mem_addTransactions hentry, hA w _ hw.2 (hself _ _ hstep)⟩

/-- One phase: the chosen transactions of every chunk are stored. -/
theorem outline_phase (decoders : Decoders) {blockTimestamp : Nat}
    {select : IndexerChunkView → List (IndexerTransactionWithOutcome × Nat)}
    (chosen : IndexerTransactionWithOutcome → Prop) {A : IndexerTransactionWithOutcome → World → Prop}
    (hselect : ∀ chunk entry, entry ∈ select chunk ↔ entry ∈ chunk.transactions.zipIdx ∧ chosen entry.1)
    (hchain : Chain stream) (hmessage : message ∈ stream) (hobserver : observer ∈ stream)
    (hkeep : ∀ w w', rely w w' → KeepsStored stream w w')
    (hself : ∀ w w', KeepsBut stream observer allowed w w' → rely w w')
    (hA : ∀ tx ∈ message.transactions, chosen tx → Stable rely (A tx))
    (hcached : ∀ w entries, Storable message suffix entries w → ∀ entry ∈ entries,
      A entry.1 { w with cache := cacheTransactions suffix entries w.cache })
    (hallowed : message = observer → ∀ tx ∈ message.transactions, chosen tx → allowed tx (hashWithSuffix suffix tx)) :
    Outline False rely (KeepsBut stream observer allowed)
      (fun w => ∀ tx ∈ message.transactions, chosen tx →
        suffix = "" ∨ suffix = issue84Suffix message.block.header.height ∧ Taken tx w.db)
      (Prog.joinAll ((chunksOf message.shards).map fun chunk => storeChunkTransactions decoders (select chunk)
        chunk.header.chunkHash message.block.header.hash blockTimestamp suffix))
      fun _ w => ∀ tx ∈ message.transactions, chosen tx → hashWithSuffix suffix tx ∈ w.db.transactions ∧ A tx w := by
  have hmem : ∀ chunk ∈ chunksOf message.shards, ∀ entry ∈ select chunk,
      entry.1 ∈ message.transactions ∧ chosen entry.1 := by
    intro chunk hchunk entry hentry
    obtain ⟨hzip, hchosen⟩ := (hselect chunk entry).mp hentry
    exact ⟨List.mem_flatMap.mpr ⟨chunk, hchunk, List.fst_mem_of_mem_zipIdx hzip⟩, hchosen⟩
  have hpre : Stable rely fun w => ∀ tx ∈ message.transactions, chosen tx →
      suffix = "" ∨ suffix = issue84Suffix message.block.header.height ∧ Taken tx w.db :=
    fun w w' hw hstep tx htx hchosen =>
      (hw tx htx hchosen).imp_right fun h => ⟨h.1, (hkeep w w' hstep).taken h.2⟩
  have hpost : ∀ chunk : { chunk // chunk ∈ chunksOf message.shards },
      Stable rely fun w => (∀ entry ∈ select chunk, hashWithSuffix suffix entry.1 ∈ w.db.transactions) ∧
        ∀ entry ∈ select chunk, A entry.1 w := by
    refine fun chunk w w' hw hstep => ⟨fun entry hentry => (hkeep w w' hstep).mem (hw.1 entry hentry), ?_⟩
    intro entry hentry
    obtain ⟨htx, hchosen⟩ := hmem chunk chunk.2 entry hentry
    exact hA entry.1 htx hchosen w w' (hw.2 entry hentry) hstep
  rw [← List.attach_map_subtype_val (chunksOf message.shards), List.map_map]
  refine (Outline.joinAll_map hself hpre hpost fun chunk _ => ?_).post fun _ w hw tx htx hchosen => ?_
  · refine (outline_storeChunkTransactions decoders (A := fun w => ∀ entry ∈ select chunk, A entry.1 w) hchain
      hmessage hobserver hkeep hself (fun w w' hw hstep entry hentry => ?_) (fun w hw => hcached w _ hw) ?_).pre ?_
    · obtain ⟨htx, hchosen⟩ := hmem chunk chunk.2 entry hentry
      exact hA entry.1 htx hchosen w w' (hw entry hentry) hstep
    · exact fun hsame entry hentry =>
        hallowed hsame entry.1 (hmem chunk chunk.2 entry hentry).1 (hmem chunk chunk.2 entry hentry).2
    · intro w hw entry hentry
      obtain ⟨htx, hchosen⟩ := hmem chunk chunk.2 entry hentry
      exact ⟨htx, hw entry.1 htx hchosen⟩
  · obtain ⟨chunk, hchunk, htx⟩ := List.mem_flatMap.mp htx
    obtain ⟨i, hi, rfl⟩ := List.getElem_of_mem htx
    have hentry := (hselect chunk (chunk.transactions[i], i)).mpr
      ⟨List.mk_mem_zipIdx_iff_getElem?.mpr (List.getElem?_eq_getElem hi), hchosen⟩
    obtain ⟨hstored, hrest⟩ := hw ⟨chunk, hchunk⟩ (List.mem_attach _ _)
    exact ⟨hstored _ hentry, hrest _ hentry⟩

end Phases

/-! ### Transactions are well stored -/

section Reachable

variable {stream : List StreamerMessage} {message observer : StreamerMessage}
  {allowed : IndexerTransactionWithOutcome → ParentTransactionHashString → Prop}

/-- A transaction of the block that is not collected was not inserted in the first phase. -/
theorem taken_of_not_collected (hchain : Chain stream) (hmessage : message ∈ stream) {db : Database}
    (hstored : WellStored stream db) {tx : IndexerTransactionWithOutcome} (htx : tx ∈ message.transactions)
    (hmem : plainHash tx ∈ db.transactions)
    (hnot : tx.convertedIntoReceiptId ∉ convertedToReceiptIds message.block.header.hash db) : Taken tx db := by
  refine (hstored.own_or_taken hchain hmessage htx hmem).resolve_left ?_
  rintro ⟨row, hrow, his⟩
  exact hnot (mem_convertedToReceiptIds.mpr ⟨_, row, hrow, his.block, his.converted⟩)

theorem mem_zipIdx_chosen (chunk : IndexerChunkView) (entry : IndexerTransactionWithOutcome × Nat) :
    entry ∈ chunk.transactions.zipIdx ↔ entry ∈ chunk.transactions.zipIdx ∧ True := (and_true _).symm ▸ Iff.rfl

theorem triedToInsertTransactionsCount (message : StreamerMessage) :
    (chunksOf message.shards).foldl (fun count chunk => count + chunk.transactions.length) 0 =
      message.transactions.length := by
  have hfold : ∀ (chunks : List IndexerChunkView) (start : Nat),
      chunks.foldl (fun count chunk => count + chunk.transactions.length) start =
        start + (chunks.flatMap (·.transactions)).length := by
    intro chunks
    induction chunks with
    | nil => intro start; rfl
    | cons chunk chunks ih =>
        intro start
        rw [List.foldl_cons, ih, List.flatMap_cons, List.length_append]
        omega
  rw [hfold, Nat.zero_add, StreamerMessage.transactions]

/-- The transaction of a message has a row. -/
def Placed (message : StreamerMessage) (tx : IndexerTransactionWithOutcome) (db : Database) : Prop :=
  ∃ hash row, db.transactions.lookup hash = some row ∧ IsRow message tx hash row

theorem KeepsStored.placed {tx : IndexerTransactionWithOutcome} {w w' : World} (h : KeepsStored stream w w')
    (hplaced : Placed message tx w.db) : Placed message tx w'.db := by
  obtain ⟨hash, row, hrow, his⟩ := hplaced
  exact ⟨hash, row, h.rows _ _ hrow, his⟩

/-- What is known after the receipts of the stored transactions were collected. -/
def PlacedOrTaken (message : StreamerMessage) (ids : List CryptoHash) (db : Database) : Prop :=
  ∀ tx ∈ message.transactions,
    if tx.convertedIntoReceiptId ∈ ids then Placed message tx db else Taken tx db

theorem placedOrTaken_of_phase (hchain : Chain stream) (hmessage : message ∈ stream) {db : Database}
    (hstored : WellStored stream db) (hmem : ∀ tx ∈ message.transactions, plainHash tx ∈ db.transactions) :
    PlacedOrTaken message (convertedToReceiptIds message.block.header.hash db) db := by
  intro tx htx
  split
  · rename_i hcollected
    obtain ⟨hash, row, hrow, _, hconverted⟩ := mem_convertedToReceiptIds.mp hcollected
    exact ⟨hash, row, hrow, (hstored.of_converted hchain hmessage htx hrow hconverted).1⟩
  · rename_i hnot
    exact taken_of_not_collected hchain hmessage hstored htx (hmem tx htx) hnot

theorem stable_placedOrTaken {ids : List CryptoHash} :
    Stable (KeepsStored stream) fun w => PlacedOrTaken message ids w.db := by
  intro w w' hw hstep tx htx
  have hbefore := hw tx htx
  split at hbefore
  · rename_i hcollected
    rw [if_pos hcollected]
    exact hstep.placed hbefore
  · rename_i hnot
    rw [if_neg hnot]
    exact hstep.taken hbefore

/-- The transactions of a message are stored in the end, each of them. -/
theorem outline_storeTransactions (decoders : Decoders) (hchain : Chain stream) (hmessage : message ∈ stream)
    (hobserver : observer ∈ stream) (hallowed : message = observer → ∀ tx hash, allowed tx hash) :
    Outline False (KeepsStored stream) (KeepsBut stream observer allowed) (fun w => WellStored stream w.db)
      (storeTransactions decoders message.shards message.block.header.hash message.block.header.timestamp
        message.block.header.height)
      fun _ w => (∀ tx ∈ message.transactions, Placed message tx w.db) ∧ WellStored stream w.db := by
  have hself : ∀ w w', KeepsBut stream observer allowed w w' → KeepsStored stream w w' := fun _ _ h => h.kept
  refine Outline.bind (M := fun _ w => (∀ tx ∈ message.transactions, plainHash tx ∈ w.db.transactions) ∧
    WellStored stream w.db) ?_ fun _ => ?_
  · refine (((outline_phase decoders (fun _ => True) (A := fun _ _ => True) mem_zipIdx_chosen hchain hmessage
      hobserver (fun _ _ h => h) hself (fun _ _ _ => .const _ True) (fun _ _ _ _ _ => trivial)
      fun hsame tx _ _ => hallowed hsame tx _).frame stable_wellStored (stable_wellStored.mono hself)).pre ?_).post ?_
    · exact fun w hw => ⟨fun _ _ _ => .inl rfl, hw⟩
    · refine fun _ w hw => ⟨fun tx htx => ?_, hw.2⟩
      rw [plainHash, ← hashWithSuffix_empty tx]
      exact (hw.1 tx htx trivial).1
  refine Outline.bind (M := fun ids w => (ids.length = message.transactions.length → ∀ tx ∈ message.transactions,
    tx.convertedIntoReceiptId ∈ ids) ∧ PlacedOrTaken message ids w.db ∧ WellStored stream w.db)
    (outline_collectConvertedToReceiptIds (fun w hw => ?_) fun ids => ?_) fun ids => ?_
  · refine ⟨.of_sameTransactions ⟨rfl, fun _ _ h => h⟩, fun hlength tx htx => ?_, ?_, hw.2⟩
    · exact mem_convertedToReceiptIds_of_length hchain hw.2 hmessage hlength htx
    · exact placedOrTaken_of_phase hchain hmessage hw.2 hw.1
  · exact (Stable.const _ _).and (stable_placedOrTaken.and stable_wellStored)
  refine .assume fun hall => ?_
  rw [triedToInsertTransactionsCount]
  split
  · rename_i hlength
    refine .ret fun w hw => ⟨fun tx htx => ?_, hw.2⟩
    have hbefore := hw.1 tx htx
    rwa [if_pos (hall hlength tx htx)] at hbefore
  · have hpost : Stable (KeepsStored stream) fun w => PlacedOrTaken message ids w.db ∧ WellStored stream w.db :=
      stable_placedOrTaken.and stable_wellStored
    refine (((outline_phase decoders (fun tx => tx.convertedIntoReceiptId ∉ ids) (A := fun _ _ => True)
      (fun _ _ => mem_collidedTransactions) hchain hmessage hobserver (fun _ _ h => h) hself
      (fun _ _ _ => .const _ True) (fun _ _ _ _ _ => trivial) fun hsame tx _ _ => hallowed hsame tx _).frame hpost
      (hpost.mono hself)).pre ?_).post ?_
    · refine fun w hw => ⟨fun tx htx hnot => .inr ⟨rfl, ?_⟩, hw⟩
      have hbefore := hw.1 tx htx
      rwa [if_neg hnot] at hbefore
    · refine fun _ w hw => ⟨fun tx htx => ?_, hw.2.2⟩
      have hbefore := hw.2.1 tx htx
      split at hbefore
      · exact hbefore
      · rename_i hnot
        obtain ⟨row, hrow, his, _⟩ := hw.2.2.of_suffixedHash hchain hmessage htx (hw.1 tx htx hnot).1
        exact ⟨_, row, hrow, his⟩

/-- All transactions that are stored are well stored, whatever was handled. -/
theorem wellStored_of_reachable {decoders : Decoders} {pool : Pool World} (hchain : Chain stream)
    (h : IndexerReachable decoders stream pool) : WellStored stream pool.state.db := by
  obtain ⟨cache, hcache, hreach⟩ := h
  suffices hinvariant : WellStored stream pool.state.db ∧ Outlined (KeepsStored stream) pool from hinvariant.1
  refine hreach.invariant (P := fun w => WellStored stream w.db) (fun hash row hrow => ?_) stable_wellStored ?_ ?_
  · cases hrow
  · intro w w' hrestart hw
    rw [hrestart.2]
    exact hw
  · rintro p ⟨message, hmessage, strictMode, rfl⟩
    have hsame : ∀ w w', SameTransactions w w' → KeepsStored stream w w' :=
      fun _ _ h => .of_transactions h.transactions
    have hparents : ∀ w w', SameParents w w' → KeepsStored stream w w' := fun w w' h => hsame w w' h.sameTransactions
    refine (outline_handleMessage hparents (fun _ _ h => h) stable_wellStored decoders message strictMode ?_ ?_
      ?_).post fun _ _ _ => trivial
    · exact ((outline_storeTransactions decoders hchain hmessage hmessage
        fun _ _ _ => trivial).guarantee_mono fun _ _ h => h.kept).post fun _ _ hw => hw.2
    · exact Receipts.outline_storeReceipts_of_kept (fun _ _ h => h) stable_wellStored hsame decoders _ _ _ _
    · exact ExecutionOutcomes.outline_storeExecutionOutcomes_of_kept hparents (fun _ _ h => h) stable_wellStored
        (fun _ _ _ _ => .of_transactions rfl) fun _ _ _ _ => .of_transactions rfl

theorem of_lookup_passOnParents {executionOutcomes : List IndexerExecutionOutcomeWithReceipt} {receiptId : CryptoHash}
    (hproduced : ∀ outcome ∈ executionOutcomes, receiptId ∉ outcome.executionOutcome.outcome.receiptIds)
    {cache : ReceiptsCache} {hash : ParentTransactionHashString}
    (h : (ExecutionOutcomes.passOnParents executionOutcomes cache).lookup (.receiptId receiptId) = some hash) :
    cache.lookup (.receiptId receiptId) = some hash := by
  refine SizedCache.of_lookup_foldl (fun cache outcome houtcome hlookup => ?_) h
  have hremove : ∀ {key : ReceiptOrDataId}, (cache.cacheRemove key).2.lookup (.receiptId receiptId) = some hash →
      cache.lookup (.receiptId receiptId) = some hash := by
    intro key hremoved
    rw [SizedCache.lookup_cacheRemove] at hremoved
    split at hremoved
    · cases hremoved
    · exact hremoved
  unfold ExecutionOutcomes.passOnParent at hlookup
  dsimp only at hlookup
  split at hlookup
  · rcases SizedCache.of_lookup_foldl_cacheSet hlookup with ⟨produced, hmem, hkey, _⟩ | ⟨_, hold⟩
    · exact (hproduced outcome houtcome (ReceiptOrDataId.receiptId.inj hkey ▸ hmem)).elim
    · exact hremove hold
  · exact hremove hlookup

/-- The handling of a message stays apart from the transactions of every other one, as no receipt is both produced by
an execution and converted from a transaction. -/
theorem outline_handleMessage_apart (decoders : Decoders) (strictMode : Bool) (hchain : Chain stream)
    (hmessage : message ∈ stream) (hobserver : observer ∈ stream) (hne : message ≠ observer)
    (hproduced : ∀ outcome ∈ message.outcomes, ∀ tx ∈ observer.transactions,
      tx.convertedIntoReceiptId ∉ outcome.executionOutcome.outcome.receiptIds) :
    Outline False (KeepsStored stream) (Apart stream observer) (fun w => WellStored stream w.db)
      (handleMessage decoders message strictMode) fun _ w => WellStored stream w.db := by
  have hsame : ∀ w w', SameTransactions w w' → Apart stream observer w w' := fun _ _ => .of_sameTransactions
  have hparents : ∀ w w', SameParents w w' → Apart stream observer w w' :=
    fun w w' h => hsame w w' h.sameTransactions
  have hself : ∀ w w', Apart stream observer w w' → KeepsStored stream w w' := fun _ _ h => h.kept
  refine outline_handleMessage hparents hself stable_wellStored decoders message strictMode
    ((outline_storeTransactions decoders hchain hmessage hobserver fun h => (hne h).elim).post fun _ _ hw => hw.2)
    (Receipts.outline_storeReceipts_of_kept hself stable_wellStored hsame decoders _ _ _ _)
    (ExecutionOutcomes.outline_storeExecutionOutcomes_of_kept hparents hself stable_wellStored
      (fun shard hshard w _ => ?_) fun _ _ _ _ => hsame _ _ ⟨rfl, fun _ _ hlookup => hlookup⟩)
  refine ⟨.of_transactions rfl, fun tx htx hash hlookup => .inl ?_, fun _ _ hmem => .inl hmem⟩
  exact of_lookup_passOnParents (fun outcome houtcome =>
    hproduced outcome (List.mem_flatMap.mpr ⟨shard, hshard, houtcome⟩) tx htx) hlookup

end Reachable

end ExplorerIndexer.Collisions

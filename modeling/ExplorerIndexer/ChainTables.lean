import ExplorerIndexer.AsyncDrained
import ExplorerIndexer.ChainHistories

/-! The tables of a chain. Once all messages were handled in the strict mode, the tables that the mode completes are
those of the chain, whatever the history: with whatever concurrency, in whatever order, after whatever failures. -/

namespace ExplorerIndexer

open Async Store Models

/-- Every message of the chain was handled in the strict mode at some time. -/
def AllHandled (chain : List StreamerMessage) (sessions : List Session) : Prop :=
  ∀ message ∈ chain, HandledIn sessions true message

section Tables

variable {decoders : Decoders} {chain : List StreamerMessage} {root : ReceiptOrDataId → CryptoHash}
  {genesisHeight : Nat} {records : List StateRecord} {sessions : List Session} {db : Database}

theorem History.mem_chainRows (hchain : WellFormed decoders chain) (hroot : Parents.Labelling chain root)
    (h : History decoders chain genesisHeight records sessions db) {name : TableName} {k : name.Key}
    {row : name.Row} (hrow : (name.get db).lookup k = some row) :
    name.key row = k ∧ row ∈ chainRows decoders (parentOf root) chain name :=
  (h.kept hchain).recorded.stems.mem_chainRows_root hchain (h.sound hroot hchain.distinctHashes).receipts hrow

/-- A row of the chain under whose key there is a row is stored itself. -/
theorem History.lookup_of_mem (hchain : WellFormed decoders chain) (hroot : Parents.Labelling chain root)
    (h : History decoders chain genesisHeight records sessions db) {name : TableName} {row : name.Row}
    (hrow : row ∈ chainRows decoders (parentOf root) chain name) (hkey : name.key row ∈ name.get db) :
    (name.get db).lookup (name.key row) = some row := by
  obtain ⟨stored, hstored⟩ := Table.mem_iff_lookup.mp hkey
  obtain ⟨hsame, hmem⟩ := h.mem_chainRows hchain hroot hstored
  rw [hstored, hchain.row_eq_of_key hmem hrow hsame]

theorem completed_ne_receipts {name : TableName} (hname : name.completed true = true) : name ≠ .receipts := by
  rintro rfl
  cases hname

/-- The tables that the strict mode completes. -/
theorem History.lookup_iff (hchain : WellFormed decoders chain)
    (h : History decoders chain genesisHeight records sessions db) (hall : AllHandled chain sessions)
    {name : TableName} (hname : name.completed true = true) (parent : ReceiptView → ParentTransactionHashString)
    (k : name.Key) (row : name.Row) :
    (name.get db).lookup k = some row ↔ name.key row = k ∧ row ∈ chainRows decoders parent chain name := by
  have hkept := h.kept hchain
  have hne := completed_ne_receipts hname
  refine ⟨hkept.recorded.stems.plain_of_ne hchain hne, ?_⟩
  rintro ⟨rfl, hrow⟩
  obtain ⟨message, hmessage, hmem⟩ := ExplorerIndexer.mem_chainRows.mp hrow
  rw [rows_parent hne] at hmem
  have hkey := (hkept.messages message true (hall message hmessage)).rows name hname row hmem
  exact hkept.recorded.stems.lookup_of_mem hchain hne hrow hkey

/-- Every Action receipt is stored, with the transaction that it stems from. -/
theorem History.lookup_of_handled (hchain : WellFormed decoders chain) (hroot : Parents.Labelling chain root)
    (h : History decoders chain genesisHeight records sessions db) (hall : AllHandled chain sessions) :
    ∀ message ∈ chain, ∀ chunk ∈ chunksOf message.shards, ∀ entry ∈ chunk.receipts.zipIdx,
      entry.1.isAction = true → db.receipts.lookup entry.1.receiptId =
        some (message.receiptRow (parentOf root entry.1) chunk entry) := by
  intro message hmessage chunk hchunk entry hentry haction
  have hrow : message.receiptRow (parentOf root entry.1) chunk entry ∈
      chainRows decoders (parentOf root) chain .receipts :=
    ExplorerIndexer.mem_chainRows.mpr
      ⟨message, hmessage, List.mem_flatMap.mpr ⟨chunk, hchunk, List.mem_map_of_mem hentry⟩⟩
  refine h.lookup_of_mem hchain hroot hrow ?_
  refine ((h.kept hchain).messages message true (hall message hmessage)).receipts rfl entry.1 ?_ haction
  exact List.mem_flatMap.mpr ⟨chunk, hchunk, List.fst_mem_of_mem_zipIdx hentry⟩

end Tables

theorem labelling_localReceipt : Parents.Labelling [Parents.localReceipt] fun _ => .ofText "t1" :=
  ⟨by decide, fun _ _ _ _ _ _ => rfl, fun _ _ _ _ _ _ => rfl, fun _ _ _ _ _ _ => rfl⟩

theorem allHandled_localReceipt {sessions : List Session} {trace : List (StreamEvent StreamerMessage)}
    (hevent : .handled Parents.localReceipt true ∈ trace) :
    AllHandled [Parents.localReceipt] (sessions ++ [.listenBlocks true trace]) := fun message hmessage => by
  obtain rfl := List.mem_singleton.mp hmessage
  exact ⟨trace, List.mem_append_right _ List.mem_cons_self, hevent⟩

/-- When all messages of a chain were handled in the strict mode, the tables that the mode completes hold the rows of
the chain and no others, and every Action receipt is stored with the transaction that it stems from. -/
theorem tables_of_chain (decoders : Decoders) (chain : List StreamerMessage) (root : ReceiptOrDataId → CryptoHash)
    (hchain : WellFormed decoders chain) (hroot : Parents.Labelling chain root) (genesisHeight : Nat)
    (records : List StateRecord) (sessions : List Session) (db : Database)
    (h : History decoders chain genesisHeight records sessions db) (hall : AllHandled chain sessions) :
    (∀ name : TableName, name.completed true = true → ∀ k row, (name.get db).lookup k = some row ↔
        name.key row = k ∧ row ∈ chainRows decoders (parentOf root) chain name) ∧
      ∀ message ∈ chain, ∀ chunk ∈ chunksOf message.shards, ∀ entry ∈ chunk.receipts.zipIdx,
        entry.1.isAction = true → db.receipts.lookup entry.1.receiptId =
          some (message.receiptRow (parentOf root entry.1) chunk entry) :=
  ⟨fun _ hname => h.lookup_iff hchain hall hname _, h.lookup_of_handled hchain hroot hall⟩

theorem receipt_localReceipt : ∃ row, localReceiptDatabase.receipts.lookup (.ofText "r1") = some row ∧
    row.originatedFromTransactionHash = "t1" := by
  obtain ⟨trace, hhistory, hevent⟩ := session_localReceipt genesis_localReceipt
  exact ⟨_, (tables_of_chain .silent _ _ wellFormed_localReceipt labelling_localReceipt 0 Genesis.bobsGenesis _ _
    hhistory (allHandled_localReceipt hevent)).2 Parents.localReceipt List.mem_cons_self _ List.mem_cons_self
    (.plain (.ofText "r1") "bob.near" [], 0) List.mem_cons_self rfl, rfl⟩

/-- Two indexers of a chain with databases of their own never disagree on a row of the tables whose rows are not
updated, and when both have handled all messages in the strict mode, the tables that the mode completes are the same. -/
theorem databases_agree (decoders : Decoders) (chain : List StreamerMessage) (root : ReceiptOrDataId → CryptoHash)
    (hchain : WellFormed decoders chain) (hroot : Parents.Labelling chain root)
    (genesisHeight genesisHeight' : Nat) (records records' : List StateRecord) (sessions sessions' : List Session)
    (db db' : Database) (h : History decoders chain genesisHeight records sessions db)
    (h' : History decoders chain genesisHeight' records' sessions' db') :
    (∀ (name : TableName) k row row', (name.get db).lookup k = some row → (name.get db').lookup k = some row' →
        row = row') ∧
      (AllHandled chain sessions → AllHandled chain sessions' → ∀ name : TableName, name.completed true = true →
        ∀ k, (name.get db).lookup k = (name.get db').lookup k) := by
  refine ⟨fun name k row row' hrow hrow' => ?_, fun hall hall' name hname k => ?_⟩
  · obtain ⟨hkey, hmem⟩ := h.mem_chainRows hchain hroot hrow
    obtain ⟨hkey', hmem'⟩ := h'.mem_chainRows hchain hroot hrow'
    exact hchain.row_eq_of_key hmem hmem' (hkey.trans hkey'.symm)
  · refine Option.ext fun row => (h.lookup_iff hchain hall hname (parentOf root) k row).trans ?_
    exact (h'.lookup_iff hchain hall' hname (parentOf root) k row).symm

/-- The indexer that is killed at once and started again comes to the same tables. -/
theorem databases_agree_localReceipt : ∃ sessions db, sessions.length = 3 ∧
    History .silent [Parents.localReceipt] 0 Genesis.bobsGenesis sessions db ∧
      ∀ name : TableName, name.completed true = true → ∀ k,
        (name.get localReceiptDatabase).lookup k = (name.get db).lookup k := by
  have hkilled : History .silent [Parents.localReceipt] 0 Genesis.bobsGenesis
      [.storeGenesis true, .listenBlocks false []] Genesis.afterGenesis.db :=
    @History.listenBlocks _ _ _ _ _ _ _ 1 _ _ _ genesis_localReceipt (fun _ hmem => hmem) .start
  obtain ⟨trace, hhistory, hevent⟩ := session_localReceipt genesis_localReceipt
  obtain ⟨trace', hhistory', hevent'⟩ := session_localReceipt hkilled
  exact ⟨_, _, rfl, hhistory', (databases_agree .silent _ _ wellFormed_localReceipt labelling_localReceipt 0 0
    Genesis.bobsGenesis Genesis.bobsGenesis _ _ _ _ hhistory hhistory').2 (allHandled_localReceipt hevent)
    (allHandled_localReceipt hevent')⟩

/-- After any history, an indexer that is given the whole chain in the strict mode and comes to the end of it without
having given up a statement has handled every message once, and the tables that the mode completes are those of the
chain. -/
theorem tables_of_stream (decoders : Decoders) (chain : List StreamerMessage) (root : ReceiptOrDataId → CryptoHash)
    (hchain : WellFormed decoders chain) (hroot : Parents.Labelling chain root) (genesisHeight : Nat)
    (records : List StateRecord) (sessions : List Session) (db : Database)
    (hpast : History decoders chain genesisHeight records sessions db) (concurrency : Nat)
    (trace : List (StreamEvent StreamerMessage)) (buffered : Buffered World StreamerMessage)
    (hrun : ListenBlocks decoders concurrency true chain db trace buffered) (hstream : buffered.stream = [])
    (hflight : buffered.inFlight = []) (hattempts : ∀ message, .stepped message .gaveUp ∉ trace) :
    (handledItems trace).Perm chain ∧
      (∀ name : TableName, name.completed true = true → ∀ k row,
        (name.get buffered.state.db).lookup k = some row ↔
          name.key row = k ∧ row ∈ chainRows decoders (parentOf root) chain name) ∧
      ∀ message ∈ chain, ∀ chunk ∈ chunksOf message.shards, ∀ entry ∈ chunk.receipts.zipIdx,
        entry.1.isAction = true → buffered.state.db.receipts.lookup entry.1.receiptId =
          some (message.receiptRow (parentOf root entry.1) chunk entry) := by
  have hall : AllHandled chain (sessions ++ [.listenBlocks true trace]) := fun message hmessage =>
    ⟨trace, List.mem_append_right _ List.mem_cons_self,
      hrun.all_ok (errFree_handleMessage decoders true) hstream hflight hattempts hmessage⟩
  have h := hpast.listenBlocks (fun _ hmem => hmem) hrun
  refine ⟨hrun.drained hstream hflight, fun name hname => ?_, h.lookup_of_handled hchain hroot hall⟩
  exact h.lookup_iff hchain hall hname _

/-- An indexer that nothing goes wrong with. -/
theorem tables_of_stream_localReceipt : ∃ trace,
    (handledItems trace).Perm [Parents.localReceipt] ∧
      ∃ row, localReceiptDatabase.receipts.lookup (.ofText "r1") = some row := by
  have hfinishes : Finishes (handleMessage .silent Parents.localReceipt true)
      ⟨.withSize 100000, Genesis.afterGenesis.db⟩ ()
      (Parents.handleLocalReceipt.after 1 ⟨.withSize 100000, Genesis.afterGenesis.db⟩) := finishes_after 1 (by decide)
  obtain ⟨events, hsteps⟩ := hfinishes
  have hbegun : ListenBlocks .silent 1 true [Parents.localReceipt] Genesis.afterGenesis.db _ _ :=
    StreamRun.start.snoc (.begin Nat.one_pos)
  have hrun := (hbegun.append_steps hsteps).snoc (.ok : StreamStep _ _ ⟨_, [] ++ (_, _) :: [], _⟩ _ _)
  obtain ⟨hhandled, -, hreceipts⟩ := tables_of_stream .silent _ _ wellFormed_localReceipt labelling_localReceipt 0
    Genesis.bobsGenesis _ _ genesis_localReceipt 1 _ _ hrun rfl rfl (fun message hmem => by
      have hgaveUp : Event.gaveUp ∈ events ∧ Parents.localReceipt = message := by simpa using hmem
      exact hsteps.ret_of_gaveUp hgaveUp.1)
  exact ⟨_, hhandled, _, hreceipts Parents.localReceipt List.mem_cons_self _ List.mem_cons_self
    (.plain (.ofText "r1") "bob.near" [], 0) List.mem_cons_self rfl⟩

end ExplorerIndexer

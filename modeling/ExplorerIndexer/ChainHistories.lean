import ExplorerIndexer.ChainPools
import ExplorerIndexer.ListenBlocks

/-! What a database looks like after a history of the indexer: its sessions import the genesis or handle messages of a
chain, with any number of them in flight, in either mode, and are killed anywhere. What was completed stays stored. -/

namespace ExplorerIndexer

open Async Store Models

/-- What is seen of an indexer in a part of its life. -/
inductive Session where
  /-- The genesis is imported, to the end or not. -/
  | storeGenesis (stored : Bool)
  /-- The stream is handled in a mode until the indexer is killed. -/
  | listenBlocks (strictMode : Bool) (trace : List (StreamEvent StreamerMessage))

/-- The sessions of indexers of a chain with a database of their own, one after the other, and the database in the end.
A session handles some messages of the chain, in any order, with any number of them in flight, and ends anywhere. -/
inductive History (decoders : Decoders) (chain : List StreamerMessage) (genesisHeight : Nat)
    (records : List StateRecord) : List Session → Database → Prop
  | empty : History decoders chain genesisHeight records [] {}
  | storeGenesis {sessions : List Session} {w w' : World} {events : List Event} {p : Prog World Unit} {stored : Bool}
      (hpast : History decoders chain genesisHeight records sessions w.db)
      (hrun : Steps (Genesis.storeGenesisRecords genesisHeight records) w events p w')
      (hstored : stored = true → p = .ret ()) :
      History decoders chain genesisHeight records (sessions ++ [.storeGenesis stored]) w'.db
  | listenBlocks {sessions : List Session} {db : Database} {stream : List StreamerMessage} {concurrency : Nat}
      {strictMode : Bool} {trace : List (StreamEvent StreamerMessage)} {buffered : Buffered World StreamerMessage}
      (hpast : History decoders chain genesisHeight records sessions db) (hstream : ∀ message ∈ stream, message ∈ chain)
      (hrun : ListenBlocks decoders concurrency strictMode stream db trace buffered) :
      History decoders chain genesisHeight records (sessions ++ [.listenBlocks strictMode trace]) buffered.state.db

/-- In one of the sessions of the mode, the message was handled with `Ok`. -/
def HandledIn (sessions : List Session) (strictMode : Bool) (message : StreamerMessage) : Prop :=
  ∃ trace, .listenBlocks strictMode trace ∈ sessions ∧ .handled message true ∈ trace

section Histories

variable {decoders : Decoders} {chain : List StreamerMessage} {genesisHeight : Nat} {records : List StateRecord}
  {sessions : List Session} {db db' : Database} {message : StreamerMessage} {strictMode : Bool}

theorem HasRows.grows {name : TableName} {batch : List name.Row} (h : HasRows name batch db)
    (hgrows : DatabaseGrows db db') :
    HasRows name batch db' := fun row hrow => Tables.Extends.mem hgrows.tables (h row hrow)

theorem MessageStored.grows (h : MessageStored decoders strictMode message db) (hgrows : DatabaseGrows db db') :
    MessageStored decoders strictMode message db' := by
  refine ⟨fun name hname => (h.rows name hname).grows hgrows, fun hstrict receipt hreceipt haction => ?_,
    fun hstrict row hrow => ?_⟩
  · exact hgrows.receipts (h.receipts hstrict receipt hreceipt haction)
  · obtain ⟨stored, hstored, hconflict⟩ := h.accountChanges hstrict row hrow
    exact ⟨stored, hgrows.accountChanges.subset hstored, hconflict⟩

theorem grows_of_evolves {w w' : World} (h : Relation.ReflTransGen (Evolves decoders chain) w w') :
    DatabaseGrows w.db w'.db := by
  induction h with
  | refl => exact .refl _
  | tail _ hstep ih => exact ih.trans hstep.grows

/-- A session adds to what was recorded, and what it has handled is stored. -/
theorem settling_session (hchain : WellFormed decoders chain) {stream : List StreamerMessage} {concurrency : Nat}
    {trace : List (StreamEvent StreamerMessage)} {buffered : Buffered World StreamerMessage}
    (hdb : Recorded decoders chain db) (hstream : ∀ message ∈ stream, message ∈ chain)
    (hrun : ListenBlocks decoders concurrency strictMode stream db trace buffered) :
    Settling (Evolves decoders chain) (fun w => Recorded decoders chain w.db)
      (fun message w => MessageStored decoders strictMode message w.db) ⟨.withSize 100000, db⟩ trace buffered :=
  hrun.settling hdb stable_recorded (fun _ => stable_of_grows fun _ _ hgrows h => h.grows hgrows)
    fun _ hmem => outline_handleMessage_chain (hstream _ hmem) hchain strictMode

/-- What the sessions have completed is stored. -/
structure Kept (decoders : Decoders) (chain : List StreamerMessage) (genesisHeight : Nat) (records : List StateRecord)
    (sessions : List Session) (db : Database) : Prop where
  recorded : Recorded decoders chain db
  genesis : .storeGenesis true ∈ sessions → GenesisStored genesisHeight records db
  messages : ∀ message strictMode, HandledIn sessions strictMode message → MessageStored decoders strictMode message db

theorem recorded_evolves {w w' : World} (h : Relation.ReflTransGen (Evolves decoders chain) w w')
    (hw : Recorded decoders chain w.db) : Recorded decoders chain w'.db := by
  induction h with
  | refl => exact hw
  | tail _ hstep ih => exact stable_recorded _ _ ih hstep

theorem Kept.storeGenesis {w w' : World} {events : List Event} {p : Prog World Unit} {stored : Bool}
    (h : Kept decoders chain genesisHeight records sessions w.db)
    (hrun : Steps (Genesis.storeGenesisRecords genesisHeight records) w events p w')
    (hstored : stored = true → p = .ret ()) :
    Kept decoders chain genesisHeight records (sessions ++ [.storeGenesis stored]) w'.db := by
  have hevolves : Relation.ReflTransGen (Evolves decoders chain) w w' := by
    obtain ⟨_, _, rfl⟩ := Genesis.steps_storeGenesisRecords hrun
    exact evolves_importInto w
  refine ⟨recorded_evolves hevolves h.recorded, fun hmem => ?_, fun message strictMode hhandled => ?_⟩
  · rcases List.mem_append.mp hmem with hmem | hmem
    · exact (h.genesis hmem).grows (grows_of_evolves hevolves)
    · cases List.mem_singleton.mp hmem
      rw [hstored rfl] at hrun
      rw [Genesis.finishes_storeGenesisRecords ⟨_, hrun⟩]
      exact genesisStored_imported w.db
  · obtain ⟨trace, hmem, hevent⟩ := hhandled
    rcases List.mem_append.mp hmem with hmem | hmem
    · exact (h.messages message strictMode ⟨trace, hmem, hevent⟩).grows (grows_of_evolves hevolves)
    · cases List.mem_singleton.mp hmem

theorem Kept.listenBlocks (hchain : WellFormed decoders chain) {stream : List StreamerMessage} {concurrency : Nat}
    {trace : List (StreamEvent StreamerMessage)} {buffered : Buffered World StreamerMessage}
    (h : Kept decoders chain genesisHeight records sessions db) (hstream : ∀ message ∈ stream, message ∈ chain)
    (hrun : ListenBlocks decoders concurrency strictMode stream db trace buffered) :
    Kept decoders chain genesisHeight records (sessions ++ [.listenBlocks strictMode trace]) buffered.state.db := by
  have hsettling := settling_session hchain h.recorded hstream hrun
  have hgrows := grows_of_evolves hsettling.steps
  refine ⟨hsettling.state, fun hmem => ?_, fun message strictMode hhandled => ?_⟩
  · rcases List.mem_append.mp hmem with hmem | hmem
    · exact (h.genesis hmem).grows hgrows
    · cases List.mem_singleton.mp hmem
  · obtain ⟨trace, hmem, hevent⟩ := hhandled
    rcases List.mem_append.mp hmem with hmem | hmem
    · exact (h.messages message strictMode ⟨trace, hmem, hevent⟩).grows hgrows
    · cases List.mem_singleton.mp hmem
      exact hsettling.handled message hevent

theorem History.kept (hchain : WellFormed decoders chain)
    (h : History decoders chain genesisHeight records sessions db) :
    Kept decoders chain genesisHeight records sessions db := by
  induction h with
  | empty =>
      refine ⟨recorded_empty decoders chain, fun hmem => ?_, fun message strictMode hhandled => ?_⟩
      · cases hmem
      · obtain ⟨_, hmem, _⟩ := hhandled
        cases hmem
  | storeGenesis _ hrun hstored ih => exact ih.storeGenesis hrun hstored
  | listenBlocks _ hstream hrun ih => exact ih.listenBlocks hchain hstream hrun

theorem History.sound {root : ReceiptOrDataId → CryptoHash} (hroot : Parents.Labelling chain root)
    (hdistinct : Parents.DistinctHashes chain) (h : History decoders chain genesisHeight records sessions db) :
    Parents.Sound chain root ⟨.withSize 100000, db⟩ := by
  induction h with
  | empty => exact ⟨Parents.soundHashes_of_empty rfl, nofun, nofun, nofun, nofun⟩
  | storeGenesis _ hrun _ ih =>
      obtain ⟨_, _, rfl⟩ := Genesis.steps_storeGenesisRecords hrun
      exact sound_importInto ih
  | listenBlocks _ hstream hrun ih =>
      have hsettling := hrun.settling (Q := fun _ => Parents.Sound chain root) ih Parents.stable_sound
        (fun _ => Parents.stable_sound) fun _ hmem =>
          Parents.outline_handleMessage_sound decoders (hstream _ hmem) _ hroot hdistinct
      exact hsettling.state.restarts ⟨rfl, rfl⟩

/-- A message that is handled while nothing else happens. -/
theorem History.handles {w : World} (hpast : History decoders chain genesisHeight records sessions db)
    (hmessage : message ∈ chain)
    (hfin : Finishes (handleMessage decoders message strictMode) ⟨.withSize 100000, db⟩ () w) :
    ∃ trace, History decoders chain genesisHeight records (sessions ++ [.listenBlocks strictMode trace]) w.db ∧
      .handled message true ∈ trace := by
  have hstart : StreamRun (handleMessage decoders · strictMode) 1 ⟨[message], [], ⟨.withSize 100000, db⟩⟩ []
      ⟨[message], [], ⟨.withSize 100000, db⟩⟩ := .start
  obtain ⟨events, hrun⟩ := hstart.handles Nat.one_pos hfin
  refine ⟨_, hpast.listenBlocks (fun other hother => ?_) hrun, List.mem_append_right _ List.mem_cons_self⟩
  rwa [List.mem_singleton.mp hother]

end Histories

/-! A chain of one block, with a transaction and its receipt. -/

theorem wellFormed_localReceipt : WellFormed .silent [Parents.localReceipt] :=
  ⟨fun name => by cases name <;> decide, by decide, by decide⟩

theorem genesis_localReceipt :
    History .silent [Parents.localReceipt] 0 Genesis.bobsGenesis [.storeGenesis true] Genesis.afterGenesis.db := by
  obtain ⟨events, hsteps⟩ := Genesis.finishes_bobsGenesis
  exact @History.storeGenesis _ _ _ _ [] _ _ _ _ _ .empty hsteps fun _ => rfl

/-- The database after a session in the strict mode. -/
def localReceiptDatabase : Database :=
  (Parents.handleLocalReceipt.after 1 ⟨.withSize 100000, Genesis.afterGenesis.db⟩).db

theorem session_localReceipt {sessions : List Session}
    (hpast : History .silent [Parents.localReceipt] 0 Genesis.bobsGenesis sessions Genesis.afterGenesis.db) :
    ∃ trace, History .silent [Parents.localReceipt] 0 Genesis.bobsGenesis (sessions ++ [.listenBlocks true trace])
        localReceiptDatabase ∧ .handled Parents.localReceipt true ∈ trace :=
  hpast.handles List.mem_cons_self (finishes_after 1 (by decide))

/-- However the indexer was started, run and killed: the accounts and access keys of a genesis that it has imported have
rows, and the messages that it has handled with `Ok` have theirs in the tables that the mode completes, then and ever
after. -/
theorem completed_sessions_stored (decoders : Decoders) (chain : List StreamerMessage)
    (hchain : WellFormed decoders chain) (genesisHeight : Nat) (records : List StateRecord) (sessions : List Session)
    (db : Database) (h : History decoders chain genesisHeight records sessions db) :
    (.storeGenesis true ∈ sessions → GenesisStored genesisHeight records db) ∧
      ∀ message strictMode, HandledIn sessions strictMode message → MessageStored decoders strictMode message db :=
  ⟨(h.kept hchain).genesis, (h.kept hchain).messages⟩

theorem completed_localReceipt :
    GenesisStored 0 Genesis.bobsGenesis localReceiptDatabase ∧
      MessageStored .silent true Parents.localReceipt localReceiptDatabase := by
  obtain ⟨trace, hhistory, hevent⟩ := session_localReceipt genesis_localReceipt
  obtain ⟨hgenesis, hmessages⟩ := completed_sessions_stored .silent _ wellFormed_localReceipt _ _ _ _ hhistory
  exact ⟨hgenesis List.mem_cons_self, hmessages _ true ⟨_, List.mem_append_right _ List.mem_cons_self, hevent⟩⟩

end ExplorerIndexer

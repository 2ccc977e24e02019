import ExplorerIndexer.ChainTables
import ExplorerIndexer.IndexerConfig

/-! The indexer over its whole life. It is killed and started again, and each time it reads from the database where it
has to start. As long as it handles one block at a time and none of them fails, no restart leaves out a block that was
not handled. -/

namespace ExplorerIndexer

open Async Store Models

/-- The indexer is told to start at a height, by a block that the chain does not reach below or by the latest block of
the database, which has answered. -/
structure StartedAt (chain : List StreamerMessage) (db : Database) (homeDir : String) (args : RunArgs) (start : Nat) :
    Prop where
  syncMode : (constructNearIndexerConfig (.ok (latestBlockHeight db)) homeDir args).syncMode = .blockHeight start
  fromBlock : ∀ block : BlockArgs, args.syncMode = .syncFromBlock block →
    ∀ message ∈ chain, block.height ≤ message.block.header.height

/-- What the node streams from a height on. -/
def streamFrom (chain : List StreamerMessage) (start : Nat) : List StreamerMessage :=
  chain.filter fun message => start ≤ message.block.header.height

/-- The messages of a chain that a run from a height on leaves out. -/
def leftOut (chain : List StreamerMessage) (start : Nat) : List StreamerMessage :=
  chain.filter fun message => message.block.header.height < start

/-- The life of an indexer in the strict mode that handles one block at a time. No block fails, and the process may be
killed anywhere. -/
inductive Life (decoders : Decoders) (chain : List StreamerMessage) (genesisHeight : Nat)
    (records : List StateRecord) : List Session → Database → Prop
  | empty : Life decoders chain genesisHeight records [] {}
  | storeGenesis {sessions : List Session} {w w' : World} {events : List Event} {p : Prog World Unit} {stored : Bool}
      (hpast : Life decoders chain genesisHeight records sessions w.db)
      (hrun : Steps (Genesis.storeGenesisRecords genesisHeight records) w events p w')
      (hstored : stored = true → p = .ret ()) :
      Life decoders chain genesisHeight records (sessions ++ [.storeGenesis stored]) w'.db
  | listenBlocks {sessions : List Session} {db : Database} {homeDir : String} {args : RunArgs} {start : Nat}
      {trace : List (StreamEvent StreamerMessage)} {buffered : Buffered World StreamerMessage}
      (hpast : Life decoders chain genesisHeight records sessions db) (hstart : StartedAt chain db homeDir args start)
      (hrun : ListenBlocks decoders 1 true (streamFrom chain start) db trace buffered)
      (hok : ∀ message, .handled message false ∉ trace) :
      Life decoders chain genesisHeight records (sessions ++ [.listenBlocks true trace]) buffered.state.db

/-- What lies below the latest block of the database was handled. -/
def HandledBelow (chain : List StreamerMessage) (sessions : List Session) (db : Database) : Prop :=
  ∀ message ∈ chain, ∀ row ∈ db.blocks.rows, message.block.header.height < row.blockHeight →
    HandledIn sessions true message

section Lives

variable {decoders : Decoders} {chain : List StreamerMessage} {genesisHeight : Nat} {records : List StateRecord}
  {sessions : List Session} {db : Database} {homeDir : String} {args : RunArgs} {start : Nat}
  {trace : List (StreamEvent StreamerMessage)} {buffered : Buffered World StreamerMessage}
  {message : StreamerMessage}

theorem mem_streamFrom : message ∈ streamFrom chain start ↔ message ∈ chain ∧ start ≤ message.block.header.height := by
  simp [streamFrom]

theorem leftOut_append_streamFrom
    (hheights : chain.Pairwise fun a b => a.block.header.height < b.block.header.height) (start : Nat) :
    leftOut chain start ++ streamFrom chain start = chain := by
  unfold leftOut streamFrom
  induction chain with
  | nil => rfl
  | cons message chain ih =>
      obtain ⟨hlater, hheights⟩ := List.pairwise_cons.mp hheights
      by_cases hlt : message.block.header.height < start
      · rw [List.filter_cons_of_pos (by simpa using hlt), List.filter_cons_of_neg (by simpa using hlt),
          List.cons_append, ih hheights]
      · have hnone : chain.filter (fun message => message.block.header.height < start) = [] :=
          List.filter_eq_nil_iff.mpr fun other hother => by
            have := hlater other hother
            simp only [decide_eq_true_eq]
            omega
        have hle : start ≤ message.block.header.height := Nat.le_of_not_lt hlt
        have hall : chain.filter (fun message => start ≤ message.block.header.height) = chain :=
          List.filter_eq_self.mpr fun other hother => by
            have := hlater other hother
            simp only [decide_eq_true_eq]
            omega
        rw [List.filter_cons_of_neg (by simpa using hle), hnone, List.filter_cons_of_pos (by simpa using hle), hall,
          List.nil_append]

theorem HandledIn.append (h : HandledIn sessions true message) (later : List Session) :
    HandledIn (sessions ++ later) true message := by
  obtain ⟨trace, hmem, hevent⟩ := h
  exact ⟨trace, List.mem_append_left _ hmem, hevent⟩

theorem exists_row_of_latestBlockHeight {height : Nat} (h : latestBlockHeight db = some height) :
    ∃ row ∈ db.blocks.rows, row.blockHeight = height := by
  obtain ⟨latest, hmax, hu64⟩ := Option.bind_eq_some_iff.mp h
  have hheight : latest = height := by
    rw [toU64] at hu64
    split at hu64
    · exact Option.some.inj hu64
    · cases hu64
  rw [← hheight]
  exact List.mem_map.mp (List.max?_mem hmax)

/-- The next run does not start behind a block that was not handled. -/
theorem HandledBelow.start_le (h : HandledBelow chain sessions db) (hstart : StartedAt chain db homeDir args start)
    (hmessage : message ∈ chain) (hunhandled : ¬ HandledIn sessions true message) :
    start ≤ message.block.header.height := by
  obtain ⟨hmode, hfromBlock⟩ := hstart
  rw [constructNearIndexerConfig] at hmode
  cases hargs : args.syncMode with
  | syncFromLatest => simp [hargs] at hmode
  | syncFromBlock block =>
      simp only [hargs, SyncModeEnum.blockHeight.injEq] at hmode
      rw [← hmode]
      exact hfromBlock block hargs message hmessage
  | syncFromInterruption interruptionArgs =>
      simp only [hargs] at hmode
      split at hmode
      · cases hmode
      · cases hlatest : latestBlockHeight db with
        | none => simp [hlatest] at hmode
        | some height =>
            simp only [hlatest, SyncModeEnum.blockHeight.injEq] at hmode
            obtain ⟨row, hrow, hheight⟩ := exists_row_of_latestBlockHeight hlatest
            by_contra hlt
            exact hunhandled (h message hmessage row hrow (by omega))

/-- A run handles what lies below the blocks that it begins. -/
theorem HandledBelow.listenBlocks (h : HandledBelow chain sessions db)
    (hheights : chain.Pairwise fun a b => a.block.header.height < b.block.header.height)
    (hstart : StartedAt chain db homeDir args start)
    (hrun : ListenBlocks decoders 1 true (streamFrom chain start) db trace buffered)
    (hok : ∀ message, .handled message false ∉ trace) :
    HandledBelow chain (sessions ++ [.listenBlocks true trace]) buffered.state.db := by
  intro message hmessage row hrow hlt
  by_cases hhandled : HandledIn sessions true message
  · exact hhandled.append _
  · rcases hrun.blocksOf.begun row hrow with hold | ⟨other, hbegan, hheight⟩
    · exact (hhandled (h message hmessage row hold hlt)).elim
    · have hmem := mem_streamFrom.mpr ⟨hmessage, h.start_le hstart hmessage hhandled⟩
      have hne : message ≠ other := by
        rintro rfl
        omega
      obtain ⟨ok, hevent⟩ := hrun.handled_before (hheights.filter _) hmem hbegan hne (by omega)
      cases ok with
      | true => exact ⟨trace, List.mem_append_right _ List.mem_cons_self, hevent⟩
      | false => exact (hok message hevent).elim

theorem Life.handledBelow (hheights : chain.Pairwise fun a b => a.block.header.height < b.block.header.height)
    (h : Life decoders chain genesisHeight records sessions db) : HandledBelow chain sessions db := by
  induction h with
  | empty => exact fun _ _ _ hrow => (List.not_mem_nil hrow).elim
  | storeGenesis _ hrun _ ih =>
      obtain ⟨_, _, rfl⟩ := Genesis.steps_storeGenesisRecords hrun
      exact fun message hmessage row hrow hlt => (ih message hmessage row hrow hlt).append _
  | listenBlocks _ hstart hrun hok ih => exact ih.listenBlocks hheights hstart hrun hok

theorem Life.history (h : Life decoders chain genesisHeight records sessions db) :
    History decoders chain genesisHeight records sessions db := by
  induction h with
  | empty => exact .empty
  | storeGenesis _ hrun hstored ih => exact ih.storeGenesis hrun hstored
  | listenBlocks _ _ hrun _ ih => exact ih.listenBlocks (fun _ hmem => (mem_streamFrom.mp hmem).1) hrun

/-- When a run comes to the end of the chain, all messages have been handled. -/
theorem Life.allHandled (h : Life decoders chain genesisHeight records sessions db)
    (hheights : chain.Pairwise fun a b => a.block.header.height < b.block.header.height)
    (hstart : StartedAt chain db homeDir args start)
    (hrun : ListenBlocks decoders 1 true (streamFrom chain start) db trace buffered) (hstream : buffered.stream = [])
    (hflight : buffered.inFlight = []) (hok : ∀ message, .handled message false ∉ trace) :
    AllHandled chain (sessions ++ [.listenBlocks true trace]) := by
  intro message hmessage
  by_cases hhandled : HandledIn sessions true message
  · exact hhandled.append _
  · have hmem := mem_streamFrom.mpr ⟨hmessage, (h.handledBelow hheights).start_le hstart hmessage hhandled⟩
    obtain ⟨ok, hevent⟩ := mem_handledItems.mp ((hrun.drained hstream hflight).mem_iff.mpr hmem)
    cases ok with
    | true => exact ⟨trace, List.mem_append_right _ List.mem_cons_self, hevent⟩
    | false => exact (hok message hevent).elim

end Lives

/-! A chain of two blocks. The second one executes the receipt that the first one produced, which creates an account.
The process is killed after the insert of the second block. -/

def laterReceipt : StreamerMessage where
  block :=
    { author := "validator.near"
      header :=
        { height := 8
          hash := .ofText "b8"
          prevHash := .ofText "b7"
          timestamp := 8
          totalSupply := 0
          gasPrice := 0 } }
  shards :=
    let receipt := ReceiptView.plain (.ofText "r2") "eve.near" [.createAccount]
    [{ IndexerShard.plain (.ofText "c8") [] [receipt] [.plain (.ofText "b8") receipt []] with
      stateChanges := [⟨.receiptProcessing (.ofText "r2"), .accountUpdate "eve.near" ⟨5, 0, 182⟩⟩] }]

theorem wellFormed_laterReceipt : WellFormed .silent [Parents.localReceipt, laterReceipt] :=
  ⟨fun name => by cases name <;> decide, by decide, by decide⟩

theorem labelling_laterReceipt : Parents.Labelling [Parents.localReceipt, laterReceipt] fun _ => .ofText "t1" :=
  ⟨by decide, fun _ _ _ _ _ _ => rfl, fun _ _ _ _ _ _ => rfl, fun _ _ _ _ _ _ => rfl⟩

theorem heights_laterReceipt :
    [Parents.localReceipt, laterReceipt].Pairwise fun a b => a.block.header.height < b.block.header.height := by
  decide

/-- The world after the first block. -/
def afterLocalReceipt : World := Parents.handleLocalReceipt.after 1 ⟨.withSize 100000, Genesis.afterGenesis.db⟩

/-- The database when the process is killed after the insert of a second block. -/
def killedAt (message : StreamerMessage) : Database :=
  { afterLocalReceipt.db with
    blocks := Table.insertAllNew (·.blockHash) [.ofView message.block] afterLocalReceipt.db.blocks }

theorem life_killedAt {message : StreamerMessage} (hheight : 7 ≤ message.block.header.height) :
    ∃ trace, Life .silent [Parents.localReceipt, message] 0 Genesis.bobsGenesis
      [.storeGenesis true, .listenBlocks true trace] (killedAt message) := by
  have himport : Life .silent [Parents.localReceipt, message] 0 Genesis.bobsGenesis ([] ++ [.storeGenesis true])
      Genesis.afterGenesis.db := by
    obtain ⟨events, hsteps⟩ := Genesis.finishes_bobsGenesis
    exact @Life.storeGenesis _ _ _ _ [] _ _ _ _ _ .empty hsteps fun _ => rfl
  have hstart : StreamRun (handleMessage .silent · true) 1
      ⟨[Parents.localReceipt, message], [], ⟨.withSize 100000, Genesis.afterGenesis.db⟩⟩ []
      ⟨[Parents.localReceipt, message], [], ⟨.withSize 100000, Genesis.afterGenesis.db⟩⟩ := .start
  obtain ⟨events, hhandled⟩ := hstart.handles Nat.one_pos (finishes_after 1 (by decide))
  have hinsert : Blocks.insertBlocks [.ofView message.block] afterLocalReceipt =
      .ok ((), ⟨afterLocalReceipt.cache, killedAt message⟩) := by
    unfold Blocks.insertBlocks execute insertBatch
    rw [List.findSome?_eq_none_iff.mpr fun _ _ => rfl]
    rfl
  have hstep : Step (handleMessage .silent message true) afterLocalReceipt .done _
      ⟨afterLocalReceipt.cache, killedAt message⟩ := .queryDone (by simp) hinsert
  have hkilled := (hhandled.snoc (.begin Nat.one_pos)).snoc
    (.run hstep : StreamStep _ _ ⟨_, [] ++ (message, _) :: [], _⟩ _ _)
  have hall : ∀ other ∈ [Parents.localReceipt, message], 7 ≤ other.block.header.height :=
    List.forall_mem_cons.mpr ⟨by decide, List.forall_mem_singleton.mpr hheight⟩
  have hfirst : StartedAt [Parents.localReceipt, message] Genesis.afterGenesis.db "~/.near"
      ⟨false, .syncFromBlock ⟨7⟩⟩ 7 := by
    refine ⟨rfl, fun block hblock => ?_⟩
    cases hblock
    exact hall
  have hstream : streamFrom [Parents.localReceipt, message] 7 = [Parents.localReceipt, message] :=
    List.filter_eq_self.mpr fun other hother => decide_eq_true (hall other hother)
  have hlisten : ListenBlocks .silent 1 true [Parents.localReceipt, message] _ _ _ := hkilled
  rw [← hstream] at hlisten
  exact ⟨_, .listenBlocks himport hfirst hlisten fun message hmem => by simp at hmem⟩

theorem startedAt_laterReceipt : StartedAt [Parents.localReceipt, laterReceipt] (killedAt laterReceipt) "~/.near"
    ⟨false, .syncFromInterruption ⟨0⟩⟩ 8 := ⟨by decide, nofun⟩

/-- However often the indexer was killed and started again: when a run comes to the end of the chain, the tables that
the strict mode completes are those of the chain, and every Action receipt is stored with the transaction that it stems
from. -/
theorem tables_of_life (decoders : Decoders) (chain : List StreamerMessage) (root : ReceiptOrDataId → CryptoHash)
    (hchain : WellFormed decoders chain) (hroot : Parents.Labelling chain root)
    (hheights : chain.Pairwise fun a b => a.block.header.height < b.block.header.height) (genesisHeight : Nat)
    (records : List StateRecord) (sessions : List Session) (db : Database)
    (hpast : Life decoders chain genesisHeight records sessions db) (homeDir : String) (args : RunArgs) (start : Nat)
    (hstart : StartedAt chain db homeDir args start) (trace : List (StreamEvent StreamerMessage))
    (buffered : Buffered World StreamerMessage)
    (hrun : ListenBlocks decoders 1 true (streamFrom chain start) db trace buffered) (hstream : buffered.stream = [])
    (hflight : buffered.inFlight = []) (hok : ∀ message, .handled message false ∉ trace) :
    (∀ name : TableName, name.completed true = true → ∀ k row,
        (name.get buffered.state.db).lookup k = some row ↔
          name.key row = k ∧ row ∈ chainRows decoders (parentOf root) chain name) ∧
      ∀ message ∈ chain, ∀ chunk ∈ chunksOf message.shards, ∀ entry ∈ chunk.receipts.zipIdx,
        entry.1.isAction = true → buffered.state.db.receipts.lookup entry.1.receiptId =
          some (message.receiptRow (parentOf root entry.1) chunk entry) := by
  have h := (hpast.listenBlocks hstart hrun hok).history
  have hall := hpast.allHandled hheights hstart hrun hstream hflight hok
  exact ⟨fun _ hname => h.lookup_iff hchain hall hname _, h.lookup_of_handled hchain hroot hall⟩

/-- The parent of the second receipt is in the database, as the cache is empty. -/
theorem tables_of_life_laterReceipt : ∃ row,
    ((handleMessage .silent laterReceipt true).after 1 ⟨.withSize 100000, killedAt laterReceipt⟩).db.receipts.lookup
      (.ofText "r2") = some row ∧ row.originatedFromTransactionHash = "t1" := by
  obtain ⟨_, hlife⟩ := life_killedAt (show 7 ≤ laterReceipt.block.header.height by decide)
  have hbegin : StreamRun (handleMessage .silent · true) 1
      ⟨[laterReceipt], [], ⟨.withSize 100000, killedAt laterReceipt⟩⟩ []
      ⟨[laterReceipt], [], ⟨.withSize 100000, killedAt laterReceipt⟩⟩ := .start
  obtain ⟨events, hrun⟩ := hbegin.handles Nat.one_pos (finishes_after 1 (by decide))
  obtain ⟨-, hreceipts⟩ := tables_of_life .silent _ _ wellFormed_laterReceipt labelling_laterReceipt
    heights_laterReceipt 0 _ _ _ hlife _ _ 8 startedAt_laterReceipt _ _ hrun rfl rfl fun message hmem => by simp at hmem
  exact ⟨_, hreceipts laterReceipt (List.mem_cons_of_mem _ List.mem_cons_self) _ List.mem_cons_self
    (.plain (.ofText "r2") "eve.near" [.createAccount], 0) List.mem_cons_self rfl, rfl⟩

end ExplorerIndexer

import ExplorerIndexer.HandleMessageBlocks

/-! Where the next run starts. The configuration of the node's indexer is built from the arguments and from the
latest block of the database; the bookmark of the node's indexer itself is ahead of the blocks that were handled. -/

namespace ExplorerIndexer

open Async Store Models

/-! ### Arguments and configuration -/

structure InterruptionArgs where
  delta : Nat

structure BlockArgs where
  height : Nat

inductive SyncModeSubCommand where
  | syncFromInterruption (args : InterruptionArgs)
  | syncFromLatest
  | syncFromBlock (args : BlockArgs)

/-- The arguments that the configuration depends on. -/
structure RunArgs where
  streamWhileSyncing : Bool
  syncMode : SyncModeSubCommand

inductive SyncModeEnum where
  | latestSynced
  | fromInterruption
  | blockHeight (height : Nat)
  deriving DecidableEq

inductive AwaitForNodeSyncedEnum where
  | waitForFullSync
  | streamWhileSyncing

structure IndexerConfig where
  homeDir : String
  syncMode : SyncModeEnum
  awaitForNodeSynced : AwaitForNodeSyncedEnum

def toU64 (n : Nat) : Option Nat := if n < UInt64.size then some n else none

/-- The answer of the database to the query for the latest block. -/
def latestBlockHeight (db : Database) : Option Nat := (db.blocks.rows.map (·.blockHeight)).max?.bind toU64

/-- Builds the configuration, from the answer to the query for the latest block. -/
def constructNearIndexerConfig (latest : Except String (Option Nat)) (homeDir : String) (args : RunArgs) :
    IndexerConfig where
  homeDir := homeDir
  syncMode :=
    match args.syncMode with
    | .syncFromInterruption interruptionArgs =>
        if interruptionArgs.delta = 1 then .fromInterruption
        else
          match latest with
          | .ok (some height) => .blockHeight (height - interruptionArgs.delta)
          | .ok none => .fromInterruption
          | .error _ => .fromInterruption
    | .syncFromBlock blockArgs => .blockHeight blockArgs.height
    | .syncFromLatest => .latestSynced
  awaitForNodeSynced := if args.streamWhileSyncing then .streamWhileSyncing else .waitForFullSync

/-- The heights from which a run may start, when `handed` is the last block that was handed to the channel. Of the
indexer's own bookmark nothing is known but that it lies behind that block. -/
def StartsAt (handed : Nat) : SyncModeEnum → Nat → Prop
  | .blockHeight height, start => start = height
  | .fromInterruption, start => handed < start
  | .latestSynced, _ => True

/-- The next run handles the blocks that were not finished; with a delta it starts that far before the latest
block of the database. -/
structure CoversInterruption (delta : Nat) (trace : List (StreamEvent StreamerMessage)) (db : Database)
    (start : Nat) : Prop where
  unfinished : ∀ message, Unfinished trace message → start ≤ message.block.header.height
  delta : 1 ≤ delta → ∃ latest, latestBlockHeight db = some latest ∧ start = latest - delta

/-! ### The blocks table at the kill -/

section Run

variable {decoders : Decoders} {concurrency : Nat} {strictMode : Bool} {stream : List StreamerMessage}
  {db : Database} {trace : List (StreamEvent StreamerMessage)} {buffered : Buffered World StreamerMessage}

/-- The blocks in the database are those from before the run and blocks that were begun. -/
structure BlocksOf (db : Database) (trace : List (StreamEvent StreamerMessage)) (w : World) : Prop where
  kept : ∀ row ∈ db.blocks.rows, row ∈ w.db.blocks.rows
  begun : ∀ row ∈ w.db.blocks.rows, row ∈ db.blocks.rows ∨
    ∃ message, .began message ∈ trace ∧ row.blockHeight = message.block.header.height

theorem ListenBlocks.blocksOf (h : ListenBlocks decoders concurrency strictMode stream db trace buffered) :
    BlocksOf db trace buffered.state := by
  refine StreamRun.invariant (I := BlocksOf db) h (keeps_handleMessage decoders strictMode)
    ⟨fun _ h => h, fun _ h => .inl h⟩ (fun trace event w hw => ?_) fun message trace w w' hbegan hw hstep => ?_
  · refine ⟨hw.kept, fun row hrow => (hw.begun row hrow).imp_right ?_⟩
    rintro ⟨message, hbegan, hheight⟩
    exact ⟨message, List.mem_append_left _ hbegan, hheight⟩
  · refine ⟨fun row hrow => hstep.kept row (hw.kept row hrow), fun row hrow => ?_⟩
    rcases hstep.added row hrow with hold | hheight
    · exact hw.begun row hold
    · exact .inr ⟨message, hbegan, hheight⟩

theorem latestBlockHeight_spec (hrow : db.blocks.rows ≠ [])
    (hu64 : ∀ row ∈ db.blocks.rows, row.blockHeight < UInt64.size) :
    ∃ row ∈ db.blocks.rows, latestBlockHeight db = some row.blockHeight ∧
      ∀ row' ∈ db.blocks.rows, row'.blockHeight ≤ row.blockHeight := by
  have hne : db.blocks.rows.map (·.blockHeight) ≠ [] := by simpa using hrow
  obtain ⟨height, hmax⟩ := Option.isSome_iff_exists.mp (List.isSome_max?_of_ne_nil hne)
  obtain ⟨hheight, hle⟩ := List.max?_eq_some_iff.mp hmax
  obtain ⟨row, hmem, rfl⟩ := List.mem_map.mp hheight
  refine ⟨row, hmem, ?_, fun row' hrow' => hle _ (List.mem_map.mpr ⟨row', hrow', rfl⟩)⟩
  rw [latestBlockHeight, hmax, Option.bind_some, toU64, if_pos (hu64 row hmem)]

/-- A start behind the blocks that were handed over covers the interruption only if there is nothing to cover. -/
theorem covers_behind_iff {delta handed : Nat} (hhanded : ∀ message, .began message ∈ trace →
      message.block.header.height ≤ handed) :
    (∀ start, handed < start → CoversInterruption delta trace db start) ↔
      delta = 0 ∧ ∀ message, ¬ Unfinished trace message := by
  constructor
  · intro hcovers
    have hnext := hcovers (handed + 1) (Nat.lt_succ_self handed)
    refine ⟨?_, fun message hunfinished => ?_⟩
    · -- two of the possible starts cannot both be the one that the delta asks for
      by_contra hdelta
      obtain ⟨latest, hlatest, hstart⟩ := hnext.delta (Nat.one_le_iff_ne_zero.mpr hdelta)
      have hsecond := hcovers (handed + 2) (by omega)
      obtain ⟨latest', hlatest', hstart'⟩ := hsecond.delta (Nat.one_le_iff_ne_zero.mpr hdelta)
      obtain rfl := Option.some.inj (hlatest.symm.trans hlatest')
      omega
    · have hheight := hnext.unfinished message hunfinished
      have hbegan := hhanded message hunfinished.1
      omega
  · rintro ⟨rfl, hnone⟩ start _
    exact ⟨fun message hunfinished => (hnone message hunfinished).elim, fun hdelta => (by omega)⟩

/-- Starting `delta` before the latest block covers the interruption unless the database was further on before
the run. -/
theorem covers_latest_iff {delta : Nat} {row : Block}
    (hrun : ListenBlocks decoders 1 strictMode stream db trace buffered)
    (hstream : stream.Pairwise fun a b => a.block.header.height < b.block.header.height)
    (hok : ∀ message, .handled message false ∉ trace) (hmem : row ∈ buffered.state.db.blocks.rows)
    (hlatest : latestBlockHeight buffered.state.db = some row.blockHeight)
    (hmax : ∀ row' ∈ buffered.state.db.blocks.rows, row'.blockHeight ≤ row.blockHeight) :
    CoversInterruption delta trace buffered.state.db (row.blockHeight - delta) ↔
      ∀ message, Unfinished trace message → ∀ row ∈ db.blocks.rows,
        row.blockHeight ≤ message.block.header.height + delta := by
  have hblocks := hrun.blocksOf
  constructor
  · intro hcovers message hunfinished row' hrow'
    have hstart := hcovers.unfinished message hunfinished
    have hbelow := hmax row' (hblocks.kept row' hrow')
    omega
  · intro hbefore
    refine ⟨fun message hunfinished => ?_, fun _ => ⟨row.blockHeight, hlatest, rfl⟩⟩
    rcases hblocks.begun row hmem with hold | ⟨other, hbegan, hheight⟩
    · have hheight := hbefore message hunfinished row hold
      omega
    · rcases hrun.unfinished_last hstream hok hunfinished hbegan with rfl | hlt
      · omega
      · omega

/-- With one block at a time in strict mode, each of which is handled with `Ok` if its handling ends: wherever the
process is killed, the next run covers the interruption exactly if the database answers, the delta is not 1 and
the database was not further on than the delta allows; or if it does not answer and there is nothing to cover. -/
theorem covers_interruption_iff {delta handed : Nat} {latest : Except String (Option Nat)} {homeDir : String}
    {args : RunArgs} (hrun : ListenBlocks decoders 1 true stream db trace buffered)
    (hstream : stream.Pairwise fun a b => a.block.header.height < b.block.header.height)
    (hok : ∀ message, .handled message false ∉ trace)
    (hhanded : ∀ message, .began message ∈ trace → message.block.header.height ≤ handed)
    (hrow : buffered.state.db.blocks.rows ≠ [])
    (hu64 : ∀ row ∈ buffered.state.db.blocks.rows, row.blockHeight < UInt64.size)
    (hlatest : latest = .ok (latestBlockHeight buffered.state.db) ∨ ∃ error, latest = .error error)
    (hargs : args.syncMode = .syncFromInterruption ⟨delta⟩) :
    (∀ start, StartsAt handed (constructNearIndexerConfig latest homeDir args).syncMode start →
      CoversInterruption delta trace buffered.state.db start) ↔
    (latest.isOk = true ∧ delta ≠ 1 ∧ ∀ message, Unfinished trace message → ∀ row ∈ db.blocks.rows,
      row.blockHeight ≤ message.block.header.height + delta) ∨
    (latest.isOk = false ∧ delta = 0 ∧ ∀ message, ¬ Unfinished trace message) := by
  obtain ⟨row, hmem, hheight, hmax⟩ := latestBlockHeight_spec hrow hu64
  simp only [constructNearIndexerConfig, hargs]
  by_cases hdelta : delta = 1
  · simp only [hdelta, if_true, StartsAt]
    rw [covers_behind_iff hhanded]
    simp
  · rw [if_neg hdelta]
    rcases hlatest with rfl | ⟨error, rfl⟩
    · rw [hheight]
      simp only [StartsAt, forall_eq, covers_latest_iff hrun hstream hok hmem hheight hmax]
      simp [Except.isOk, Except.toBool, hdelta]
    · simp only [StartsAt]
      rw [covers_behind_iff hhanded]
      simp [Except.isOk, Except.toBool]

end Run

/-- The row of a block is stored first. -/
def storedBlock6 : Database where
  blocks := Table.insertAllNew (·.blockHash) [.ofView block6.block] ∅

/-- The process is killed right after the insert of the block. -/
theorem killed_after_storeBlock : ∃ inFlight, ListenBlocks .silent 1 true [block6] {}
    [.began block6, .stepped block6 .done] ⟨[], inFlight, ⟨.withSize 100000, storedBlock6⟩⟩ := by
  have hbegun : ListenBlocks .silent 1 true [block6] {} [.began block6] _ := .snoc .start (.begin Nat.one_pos)
  have hstep : Step (handleMessage .silent block6 true) ⟨.withSize 100000, {}⟩ .done _
      ⟨.withSize 100000, storedBlock6⟩ := .queryDone (by simp) rfl
  exact ⟨_, hbegun.snoc (.run hstep : StreamStep _ _ ⟨_, [] ++ (block6, _) :: [], _⟩ _ _)⟩

theorem covers_interruption_without_delta : ∃ buffered, ListenBlocks .silent 1 true [block6] {}
      [.began block6, .stepped block6 .done] buffered ∧
    ∀ start, StartsAt 6 (constructNearIndexerConfig (.ok (latestBlockHeight buffered.state.db)) "~/.near"
      ⟨false, .syncFromInterruption ⟨0⟩⟩).syncMode start →
      CoversInterruption 0 [.began block6, .stepped block6 .done] buffered.state.db start := by
  obtain ⟨inFlight, hrun⟩ := killed_after_storeBlock
  have hrow : storedBlock6.blocks.rows ≠ [] := by decide
  have hu64 : ∀ row ∈ storedBlock6.blocks.rows, row.blockHeight < UInt64.size := by decide
  refine ⟨_, hrun, (covers_interruption_iff hrun (by decide) (by simp) (fun message hbegan => ?_) hrow hu64
    (.inl rfl) rfl).mpr (.inl ⟨rfl, by decide, fun message _ row hrow => ?_⟩)⟩
  · obtain rfl : message = block6 := by simpa using hbegan
    exact Nat.le_refl 6
  · exact (List.not_mem_nil hrow).elim

/-- With a delta of 1 the next run starts behind the block that was not finished. -/
theorem delta_one_skips_unfinished : ∃ buffered, ListenBlocks .silent 1 true [block6] {}
      [.began block6, .stepped block6 .done] buffered ∧ buffered.state.db.blocks.rows ≠ [] ∧
    ∃ start, StartsAt 6 (constructNearIndexerConfig (.ok (latestBlockHeight buffered.state.db)) "~/.near"
      ⟨false, .syncFromInterruption ⟨1⟩⟩).syncMode start ∧
      ¬ CoversInterruption 1 [.began block6, .stepped block6 .done] buffered.state.db start := by
  obtain ⟨inFlight, hrun⟩ := killed_after_storeBlock
  have hrow : storedBlock6.blocks.rows ≠ [] := by decide
  refine ⟨_, hrun, hrow, 7, Nat.lt_succ_self 6, fun hcovers => ?_⟩
  have hstart := hcovers.unfinished block6 ⟨List.mem_cons_self, by simp⟩
  exact absurd hstart (by decide)

end ExplorerIndexer

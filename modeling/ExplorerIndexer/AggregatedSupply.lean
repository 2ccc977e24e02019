import ExplorerIndexer.IndexerConfig

/-! The daily computation of the circulating supply, next to the indexer. It waits for the node and looks the last
block of the day up in the database; the two are not at the same height. -/

namespace ExplorerIndexer

open Async Store Models

/-! ### The days -/

/-- A duration in nanoseconds. -/
def fromSecs (secs : Nat) : Nat := secs * 1000000000

def day : Nat := fromSecs (60 * 60 * 24)

/-- Tuesday, 13 October 2020 18:38:58.293 -/
def transfersEnabled : Nat := 1602614338293769340

/-- The computation of the first day is due at 00:10 UTC of the next one. -/
def firstDayToCompute : Nat :=
  transfersEnabled - fromSecs (transfersEnabled / fromSecs 1 % (day / fromSecs 1)) + day + fromSecs (10 * 60)

def startOfDay (requestDatetime : Nat) : Nat := requestDatetime - requestDatetime % day

/-! ### The tables -/

structure Models.CirculatingSupply where
  computedAtBlockTimestamp : Nat
  computedAtBlockHash : CryptoHash
  circulatingTokensSupply : Nat
  totalTokensSupply : Nat
  totalLockupContractsCount : Int
  unfinishedLockupContractsCount : Int
  foundationLockedTokens : Nat
  lockupsLockedTokens : Nat

/-- The sums over the lockup contracts and the foundation's accounts, which the node answers for. -/
structure SupplyFigures where
  circulatingTokensSupply : Nat
  totalLockupContractsCount : Int
  unfinishedLockupContractsCount : Int
  foundationLockedTokens : Nat
  lockupsLockedTokens : Nat

/-- The row that is computed for a block. -/
def Models.CirculatingSupply.ofBlock (block : Block) (figures : SupplyFigures) : CirculatingSupply where
  computedAtBlockTimestamp := block.blockTimestamp
  computedAtBlockHash := block.blockHash
  circulatingTokensSupply := figures.circulatingTokensSupply
  totalTokensSupply := block.totalSupply
  totalLockupContractsCount := figures.totalLockupContractsCount
  unfinishedLockupContractsCount := figures.unfinishedLockupContractsCount
  foundationLockedTokens := figures.foundationLockedTokens
  lockupsLockedTokens := figures.lockupsLockedTokens

/-- The rows that the query for the latest block may answer with. -/
def getLatestBlockBeforeTimestamp (db : Database) (timestamp : Nat) : List Block :=
  let before := db.blocks.rows.filter (·.blockTimestamp ≤ timestamp)
  before.filter fun block => before.all (·.blockTimestamp ≤ block.blockTimestamp)

/-- The values that the query for a supply may answer with. -/
def getPrecomputedCirculatingSupplyForTimestamp (supplies : Table CryptoHash CirculatingSupply)
    (timestamp : Nat) : List Nat :=
  (supplies.rows.filter (·.computedAtBlockTimestamp = timestamp)).map (·.circulatingTokensSupply)

theorem mem_getLatestBlockBeforeTimestamp {db : Database} {timestamp : Nat} {block : Block} :
    block ∈ getLatestBlockBeforeTimestamp db timestamp ↔
      (block ∈ db.blocks.rows ∧ block.blockTimestamp ≤ timestamp) ∧
        ∀ row ∈ db.blocks.rows, row.blockTimestamp ≤ timestamp → row.blockTimestamp ≤ block.blockTimestamp := by
  simp only [getLatestBlockBeforeTimestamp, List.mem_filter, List.all_eq_true, decide_eq_true_eq, and_imp]

/-! ### The task -/

/-- Where `run_circulating_supply_computation` stands. -/
inductive SupplyTask where
  | waiting
  | collecting
  | checking (block : Block)
  | computing (block : Block)
  | adding (supply : CirculatingSupply)

/-- The two tasks of the process: the indexer and the computation for the current day. -/
structure SupplyState where
  indexer : Buffered World StreamerMessage
  supplies : Table CryptoHash CirculatingSupply
  dayToCompute : Nat
  task : SupplyTask

namespace SupplyState

/-- The blocks table the two tasks share. -/
def db (s : SupplyState) : Database := s.indexer.state.db

def start (stream : List StreamerMessage) (db : Database) (supplies : Table CryptoHash CirculatingSupply) :
    SupplyState where
  indexer := ⟨stream, [], ⟨.withSize 100000, db⟩⟩
  supplies := supplies
  dayToCompute := firstDayToCompute
  task := .waiting

/-- A success: the loop goes on with the next day. -/
def nextDay (s : SupplyState) : SupplyState := { s with dayToCompute := s.dayToCompute + day, task := .waiting }

end SupplyState

inductive SupplyEvent where
  | indexed (event : StreamEvent StreamerMessage)
  | loaded
  | selected (block : Block)
  | alreadyComputed
  | notComputed
  | computed
  | failed
  | added (supply : CirculatingSupply)
  | conflicted

/-- A step of one of the tasks. The node answers with a block of its chain when it is asked for the final one. What
only delays the computation is left out: the clock, and the statements that are tried again. -/
inductive SupplyStep (decoders : Decoders) (concurrency : Nat) (strictMode : Bool) (chain : List Block)
    (s : SupplyState) : SupplyEvent → SupplyState → Prop
  | indexed {event : StreamEvent StreamerMessage} {indexer : Buffered World StreamerMessage}
      (hstep : StreamStep (handleMessage decoders · strictMode) concurrency s.indexer event indexer) :
      SupplyStep decoders concurrency strictMode chain s (.indexed event) { s with indexer }
  /-- `wait_for_loading_needed_blocks` returns. -/
  | loaded {finalBlock : Block} (htask : s.task = .waiting) (hfinal : finalBlock ∈ chain)
      (hlater : s.dayToCompute < finalBlock.blockTimestamp) :
      SupplyStep decoders concurrency strictMode chain s .loaded { s with task := .collecting }
  | selected {block : Block} (htask : s.task = .collecting)
      (hblock : block ∈ getLatestBlockBeforeTimestamp s.db (startOfDay s.dayToCompute % UInt64.size))
      (hu64 : (toU64 block.blockTimestamp).isSome) :
      SupplyStep decoders concurrency strictMode chain s (.selected block) { s with task := .checking block }
  | alreadyComputed {block : Block} {supply : Nat} (htask : s.task = .checking block)
      (hsupply : supply ∈ getPrecomputedCirculatingSupplyForTimestamp s.supplies block.blockTimestamp)
      (hu128 : supply < UInt64.size * UInt64.size) :
      SupplyStep decoders concurrency strictMode chain s .alreadyComputed s.nextDay
  | notComputed {block : Block} (htask : s.task = .checking block)
      (hnone : getPrecomputedCirculatingSupplyForTimestamp s.supplies block.blockTimestamp = []) :
      SupplyStep decoders concurrency strictMode chain s .notComputed { s with task := .computing block }
  | computed {block : Block} (figures : SupplyFigures) (htask : s.task = .computing block) :
      SupplyStep decoders concurrency strictMode chain s .computed { s with task := .adding (.ofBlock block figures) }
  /-- A query or the computation failed: the day is tried again. -/
  | failed (htask : ∀ supply, s.task ≠ .adding supply) :
      SupplyStep decoders concurrency strictMode chain s .failed { s with task := .waiting }
  | added {supply : CirculatingSupply} (htask : s.task = .adding supply)
      (hnew : supply.computedAtBlockHash ∉ s.supplies) :
      SupplyStep decoders concurrency strictMode chain s (.added supply)
        { s.nextDay with supplies := s.supplies.insert supply.computedAtBlockHash supply }
  | conflicted {supply : CirculatingSupply} (htask : s.task = .adding supply)
      (hold : supply.computedAtBlockHash ∈ s.supplies) :
      SupplyStep decoders concurrency strictMode chain s .conflicted s.nextDay

/-- A run of both tasks: the events, each with the state it happened in. -/
inductive SupplyRun (decoders : Decoders) (concurrency : Nat) (strictMode : Bool) (chain : List Block)
    (start : SupplyState) : List (SupplyState × SupplyEvent) → SupplyState → Prop
  | start : SupplyRun decoders concurrency strictMode chain start [] start
  | snoc {trace : List (SupplyState × SupplyEvent)} {event : SupplyEvent} {s t : SupplyState}
      (hrun : SupplyRun decoders concurrency strictMode chain start trace s)
      (hstep : SupplyStep decoders concurrency strictMode chain s event t) :
      SupplyRun decoders concurrency strictMode chain start (trace ++ [(s, event)]) t

/-! ### Statements about runs -/

/-- The timestamps of a chain of blocks increase, and none of them is exactly at midnight. -/
structure IncreasingTimestamps (chain : List Block) : Prop where
  increasing : chain.Pairwise fun a b => a.blockTimestamp < b.blockTimestamp
  u64 : ∀ block ∈ chain, block.blockTimestamp < UInt64.size
  notAtMidnight : ∀ block ∈ chain, block.blockTimestamp % day ≠ 0

/-- The chain's last block with a timestamp before midnight. -/
structure LastBlockBefore (chain : List Block) (midnight : Nat) (block : Block) : Prop where
  mem : block ∈ chain
  before : block.blockTimestamp < midnight
  last : ∀ other ∈ chain, other.blockTimestamp < midnight → other.blockTimestamp ≤ block.blockTimestamp

/-- Every row that was written is computed for the last block of its day. -/
def ComputesLastBlocks (chain : List Block) (trace : List (SupplyState × SupplyEvent)) : Prop :=
  ∀ before t supply rest, trace = before ++ (t, .added supply) :: rest →
    ∃ block figures, LastBlockBefore chain (startOfDay t.dayToCompute) block ∧ supply = .ofBlock block figures

/-- The last time the loop looked for the block of a day, and what it found. -/
def lastSelection (trace : List (SupplyState × SupplyEvent)) : Option (SupplyState × Block) :=
  trace.reverse.findSome? fun
    | (s, .selected block) => some (s, block)
    | _ => none

/-- Whenever the loop looked for the block for which it then wrote a row, the last block of the day was stored. -/
def LastBlocksStored (chain : List Block) (trace : List (SupplyState × SupplyEvent)) : Prop :=
  ∀ before t supply rest, trace = before ++ (t, .added supply) :: rest →
    ∀ s block, lastSelection before = some (s, block) →
      ∃ last ∈ s.db.blocks.rows, LastBlockBefore chain (startOfDay s.dayToCompute) last

theorem lastSelection_snoc (trace : List (SupplyState × SupplyEvent)) (s : SupplyState) (event : SupplyEvent) :
    lastSelection (trace ++ [(s, event)]) =
      match event with
      | .selected block => some (s, block)
      | _ => lastSelection trace := by
  rw [lastSelection, List.reverse_append]
  cases event <;> rfl

theorem mem_of_lastSelection {trace : List (SupplyState × SupplyEvent)} {s : SupplyState} {block : Block}
    (h : lastSelection trace = some (s, block)) : (s, .selected block) ∈ trace := by
  obtain ⟨⟨s', event⟩, hmem, hfind⟩ := List.exists_of_findSome?_eq_some h
  cases event with
  | selected block' =>
      cases hfind
      exact List.mem_reverse.mp hmem
  | _ => cases hfind

theorem IncreasingTimestamps.eq_of_timestamp {chain : List Block} (h : IncreasingTimestamps chain) {a b : Block}
    (ha : a ∈ chain) (hb : b ∈ chain) (heq : a.blockTimestamp = b.blockTimestamp) : a = b := by
  have hnodup : (chain.map (·.blockTimestamp)).Nodup := List.pairwise_map.mpr (h.increasing.imp Nat.ne_of_lt)
  exact List.inj_on_of_nodup_map hnodup ha hb heq

/-! ### What the loop stands on -/

section Run

variable {decoders : Decoders} {concurrency : Nat} {strictMode : Bool} {chain : List Block}
  {stream : List StreamerMessage} {db : Database} {supplies : Table CryptoHash CirculatingSupply}
  {trace : List (SupplyState × SupplyEvent)} {s t : SupplyState}

/-- The block was selected for this day. -/
def SelectedFor (trace : List (SupplyState × SupplyEvent)) (dayToCompute : Nat) (block : Block) : Prop :=
  ∃ s, lastSelection trace = some (s, block) ∧ s.dayToCompute = dayToCompute ∧
    block ∈ getLatestBlockBeforeTimestamp s.db (startOfDay dayToCompute)

/-- What each point of the loop knows. -/
def Follows (chain : List Block) (trace : List (SupplyState × SupplyEvent)) (s : SupplyState) : Prop :=
  match s.task with
  | .waiting => True
  | .collecting => ∃ finalBlock ∈ chain, s.dayToCompute < finalBlock.blockTimestamp
  | .checking block => SelectedFor trace s.dayToCompute block
  | .computing block => SelectedFor trace s.dayToCompute block
  | .adding supply => ∃ block figures, SelectedFor trace s.dayToCompute block ∧ supply = .ofBlock block figures

theorem SelectedFor.snoc {dayToCompute : Nat} {block : Block} {event : SupplyEvent}
    (h : SelectedFor trace dayToCompute block) (hevent : ∀ other, event ≠ .selected other) :
    SelectedFor (trace ++ [(s, event)]) dayToCompute block := by
  obtain ⟨s', hlast, hday, hblock⟩ := h
  refine ⟨s', ?_, hday, hblock⟩
  rw [lastSelection_snoc]
  cases event with
  | selected other => exact (hevent other rfl).elim
  | _ => exact hlast

theorem Follows.step {event : SupplyEvent} (hchain : ∀ block ∈ chain, block.blockTimestamp < UInt64.size)
    (h : Follows chain trace s)
    (hstep : SupplyStep decoders concurrency strictMode chain s event t) :
    Follows chain (trace ++ [(s, event)]) t := by
  unfold Follows at h
  cases hstep with
  | indexed _ =>
      -- the task stands where it stood, on a longer trace
      unfold Follows
      dsimp only
      cases htask : s.task with
      | waiting => trivial
      | collecting =>
          rw [htask] at h
          exact h
      | checking block =>
          rw [htask] at h
          exact SelectedFor.snoc h fun _ => SupplyEvent.noConfusion
      | computing block =>
          rw [htask] at h
          exact SelectedFor.snoc h fun _ => SupplyEvent.noConfusion
      | adding supply =>
          rw [htask] at h
          obtain ⟨block, figures, hselected, hsupply⟩ := h
          exact ⟨block, figures, hselected.snoc fun _ => SupplyEvent.noConfusion, hsupply⟩
  | loaded _ hfinal hlater => exact ⟨_, hfinal, hlater⟩
  | @selected block htask hblock _ =>
      rw [htask] at h
      obtain ⟨finalBlock, hfinal, hlater⟩ := h
      have hu64 : startOfDay s.dayToCompute < UInt64.size :=
        Nat.lt_of_le_of_lt (Nat.sub_le _ _) (Nat.lt_trans hlater (hchain finalBlock hfinal))
      rw [Nat.mod_eq_of_lt hu64] at hblock
      exact ⟨s, lastSelection_snoc trace s _, rfl, hblock⟩
  | alreadyComputed _ _ _ => trivial
  | notComputed htask _ =>
      rw [htask] at h
      exact SelectedFor.snoc h fun _ => SupplyEvent.noConfusion
  | computed figures htask =>
      rw [htask] at h
      exact ⟨_, _, SelectedFor.snoc h fun _ => SupplyEvent.noConfusion, rfl⟩
  | failed _ => trivial
  | added _ _ => trivial
  | conflicted _ _ => trivial

theorem SupplyRun.follows (hchain : ∀ block ∈ chain, block.blockTimestamp < UInt64.size)
    (h : SupplyRun decoders concurrency strictMode chain (.start stream db supplies) trace s) :
    Follows chain trace s := by
  induction h with
  | start => trivial
  | snoc _ hstep ih => exact ih.step hchain hstep

/-- What a run had done before one of its events. -/
theorem SupplyRun.split {start : SupplyState} {before rest : List (SupplyState × SupplyEvent)} {event : SupplyEvent}
    (h : SupplyRun decoders concurrency strictMode chain start trace s)
    (htrace : trace = before ++ (t, event) :: rest) :
    SupplyRun decoders concurrency strictMode chain start before t ∧
      ∃ u, SupplyStep decoders concurrency strictMode chain t event u := by
  induction h generalizing rest with
  | start => simp at htrace
  | snoc hrun hstep ih =>
      rcases List.eq_nil_or_concat rest with rfl | ⟨rest, last, rfl⟩
      · obtain ⟨rfl, hlast⟩ := List.append_inj' htrace rfl
        cases hlast
        exact ⟨hrun, _, hstep⟩
      · rw [List.concat_eq_append, ← List.cons_append, ← List.append_assoc] at htrace
        exact ih (List.append_inj' htrace rfl).1

/-! ### The indexer beside the loop -/

theorem SupplyRun.listenBlocks
    (h : SupplyRun decoders concurrency strictMode chain (.start stream db supplies) trace s) :
    ∃ events, ListenBlocks decoders concurrency strictMode stream db events s.indexer := by
  induction h with
  | start => exact ⟨[], .start⟩
  | snoc _ hstep ih =>
      obtain ⟨events, hevents⟩ := ih
      cases hstep with
      | indexed hindexed => exact ⟨_, hevents.snoc hindexed⟩
      | _ => exact ⟨events, hevents⟩

/-- The blocks of the database are blocks of the chain. -/
theorem ListenBlocks.blocks_of_chain {events : List (StreamEvent StreamerMessage)}
    {buffered : Buffered World StreamerMessage}
    (h : ListenBlocks decoders concurrency strictMode stream db events buffered)
    (hdb : ∀ row ∈ db.blocks.rows, row ∈ chain)
    (hstream : ∀ message ∈ stream, .ofView message.block ∈ chain) :
    ∀ row ∈ buffered.state.db.blocks.rows, row ∈ chain := by
  have hbegan : ∀ message, .began message ∈ events → message ∈ stream := h.of_stream.1
  have hall := StreamRun.invariant h (keeps_handleMessage_row decoders strictMode)
    (I := fun events w => (∀ message, .began message ∈ events → message ∈ stream) →
      ∀ row ∈ w.db.blocks.rows, row ∈ chain)
    (fun _ => hdb)
    (fun events event w hw hbegan => hw fun message hmem => hbegan message (List.mem_append_left _ hmem))
    (fun message events w w' hmem hw hstep hbegan row hrow => by
      rcases hstep.added row hrow with hold | rfl
      · exact hw hbegan row hold
      · exact hstream message (hbegan message hmem))
  exact hall hbegan

theorem SupplyRun.row_of_chain (hdb : ∀ row ∈ db.blocks.rows, row ∈ chain)
    (hstream : ∀ message ∈ stream, .ofView message.block ∈ chain)
    (h : SupplyRun decoders concurrency strictMode chain (.start stream db supplies) trace s) {block : Block}
    (hrow : block ∈ s.db.blocks.rows) : block ∈ chain := by
  obtain ⟨events, hlisten⟩ := h.listenBlocks
  exact hlisten.blocks_of_chain hdb hstream block hrow

/-- The block that was selected is a block of the chain from before midnight. -/
theorem SupplyRun.selected_of_chain {block : Block} (hchain : IncreasingTimestamps chain)
    (hdb : ∀ row ∈ db.blocks.rows, row ∈ chain) (hstream : ∀ message ∈ stream, .ofView message.block ∈ chain)
    (h : SupplyRun decoders concurrency strictMode chain (.start stream db supplies) trace s)
    (hblock : block ∈ getLatestBlockBeforeTimestamp s.db (startOfDay s.dayToCompute)) :
    block ∈ chain ∧ block.blockTimestamp < startOfDay s.dayToCompute := by
  obtain ⟨⟨hrow, hle⟩, _⟩ := mem_getLatestBlockBeforeTimestamp.mp hblock
  have hmem : block ∈ chain := h.row_of_chain hdb hstream hrow
  refine ⟨hmem, Nat.lt_of_le_of_ne hle fun heq => hchain.notAtMidnight block hmem ?_⟩
  rw [heq]
  exact Nat.mod_eq_zero_of_dvd (Nat.dvd_sub_mod _)

/-- A row that is written is computed for the block that was selected last, on the same day. -/
theorem SupplyRun.added_selected {before rest : List (SupplyState × SupplyEvent)} {supply : CirculatingSupply}
    (hchain : IncreasingTimestamps chain) (hdb : ∀ row ∈ db.blocks.rows, row ∈ chain)
    (hstream : ∀ message ∈ stream, .ofView message.block ∈ chain)
    (h : SupplyRun decoders concurrency strictMode chain (.start stream db supplies) trace s)
    (htrace : trace = before ++ (t, .added supply) :: rest) :
    ∃ selection block figures, lastSelection before = some (selection, block) ∧
      selection.dayToCompute = t.dayToCompute ∧
      block ∈ getLatestBlockBeforeTimestamp selection.db (startOfDay t.dayToCompute) ∧
      (block ∈ chain ∧ block.blockTimestamp < startOfDay t.dayToCompute) ∧ supply = .ofBlock block figures := by
  obtain ⟨hbefore, _, hadded⟩ := h.split htrace
  have hfollows := hbefore.follows hchain.u64
  cases hadded with
  | added htask _ =>
      rw [Follows, htask] at hfollows
      obtain ⟨block, figures, ⟨selection, hlast, hday, hblock⟩, rfl⟩ := hfollows
      obtain ⟨first, middle, hsplit⟩ := List.append_of_mem (mem_of_lastSelection hlast)
      have hselection := (hbefore.split hsplit).1
      have hmem := hselection.selected_of_chain hchain hdb hstream (hday ▸ hblock)
      exact ⟨selection, block, figures, hlast, hday, hblock, hday ▸ hmem, rfl⟩

/-- Next to the indexer, wherever it is: the rows the loop writes are computed for the last blocks of their days
exactly in the runs in which each of these blocks was stored when the loop looked for it. -/
theorem computes_last_blocks_iff (hchain : IncreasingTimestamps chain) (hdb : ∀ row ∈ db.blocks.rows, row ∈ chain)
    (hstream : ∀ message ∈ stream, .ofView message.block ∈ chain)
    (hrun : SupplyRun decoders concurrency strictMode chain (.start stream db supplies) trace s) :
    ComputesLastBlocks chain trace ↔ LastBlocksStored chain trace := by
  constructor
  · intro hcomputes before t supply rest htrace selection block hlast
    obtain ⟨_, _, figures, hlast', hday, hblock, ⟨hmem, _⟩, hsupply⟩ :=
      hrun.added_selected hchain hdb hstream htrace
    cases hlast.symm.trans hlast'
    obtain ⟨last, figures', hlastBlock, hsupply'⟩ := hcomputes before t supply rest htrace
    have htimestamp : block.blockTimestamp = last.blockTimestamp :=
      congrArg CirculatingSupply.computedAtBlockTimestamp (hsupply.symm.trans hsupply')
    obtain rfl := hchain.eq_of_timestamp hmem hlastBlock.mem htimestamp
    rw [hday]
    exact ⟨block, (mem_getLatestBlockBeforeTimestamp.mp hblock).1.1, hlastBlock⟩
  · intro hstored before t supply rest htrace
    obtain ⟨selection, block, figures, hlast, hday, hblock, ⟨hmem, hbefore⟩, hsupply⟩ :=
      hrun.added_selected hchain hdb hstream htrace
    obtain ⟨last, hrow, hlastBlock⟩ := hstored before t supply rest htrace selection block hlast
    rw [hday] at hlastBlock
    have hle := (mem_getLatestBlockBeforeTimestamp.mp hblock).2 last hrow (Nat.le_of_lt hlastBlock.before)
    have hge := hlastBlock.last block hmem hbefore
    obtain rfl := hchain.eq_of_timestamp hmem hlastBlock.mem (Nat.le_antisymm hge hle)
    exact ⟨block, figures, hlastBlock, hsupply⟩

/-! ### A day that is computed -/

/-- The loop gets through a day while the indexer rests. -/
theorem SupplyRun.computes_day {block finalBlock : Block} (figures : SupplyFigures) (htask : s.task = .waiting)
    (hfinal : finalBlock ∈ chain) (hlater : s.dayToCompute < finalBlock.blockTimestamp)
    (hblock : block ∈ getLatestBlockBeforeTimestamp s.db (startOfDay s.dayToCompute % UInt64.size))
    (hu64 : (toU64 block.blockTimestamp).isSome)
    (hnone : getPrecomputedCirculatingSupplyForTimestamp s.supplies block.blockTimestamp = [])
    (hnew : block.blockHash ∉ s.supplies) :
    ∃ before t u, SupplyRun decoders concurrency strictMode chain s
        (before ++ [(t, .added (.ofBlock block figures))]) u ∧
      (∀ other supply, (other, .added supply) ∉ before) ∧ t.dayToCompute = s.dayToCompute ∧
      lastSelection before = some ({ s with task := .collecting }, block) := by
  have hloaded : SupplyRun decoders concurrency strictMode chain s _ _ := .snoc .start (.loaded htask hfinal hlater)
  have hselected := hloaded.snoc (.selected rfl hblock hu64)
  have hcomputed := (hselected.snoc (.notComputed rfl hnone)).snoc (.computed figures rfl)
  exact ⟨_, _, _, hcomputed.snoc (.added rfl hnew), by simp, rfl, rfl⟩

end Run

/-- A block without shards. -/
def minedAt (height timestamp : Nat) (hash prevHash : CryptoHash) : StreamerMessage where
  block :=
    { author := "validator.near"
      header := { height, hash, prevHash, timestamp, totalSupply := 0, gasPrice := 0 } }
  shards := []

/-- 14 October 2020 00:00:00 -/
def firstMidnight : Nat := fromSecs 1602633600

example : startOfDay firstDayToCompute = firstMidnight := by decide

def eveningBlock : StreamerMessage := minedAt 6 (firstMidnight - fromSecs 2) (.ofText "b6") (.ofText "b5")

def lastBlockOfDay : StreamerMessage := minedAt 7 (firstMidnight - fromSecs 1) (.ofText "b7") (.ofText "b6")

def morningBlock : StreamerMessage := minedAt 8 (firstMidnight + fromSecs 3600) (.ofText "b8") (.ofText "b7")

def supplyChain : List Block := [eveningBlock, lastBlockOfDay, morningBlock].map (.ofView ·.block)

theorem increasing_supplyChain : IncreasingTimestamps supplyChain :=
  ⟨by decide, by decide, by decide⟩

def storedBlocks (messages : List StreamerMessage) : Database where
  blocks := Table.insertAllNew (·.blockHash) (messages.map (.ofView ·.block)) ∅

/-- The first day is computed for the latest block of the database, whatever the indexer has left to do. -/
theorem computes_first_day (stored stream : List StreamerMessage) (message : StreamerMessage)
    (hblock : .ofView message.block ∈ getLatestBlockBeforeTimestamp (storedBlocks stored) firstMidnight)
    (hu64 : (toU64 message.block.header.timestamp).isSome) :
    ∃ before t u, SupplyRun .silent 1 true supplyChain (.start stream (storedBlocks stored) ∅)
        (before ++ [(t, .added (.ofBlock (.ofView message.block) ⟨0, 0, 0, 0, 0⟩))]) u ∧
      (∀ other supply, (other, .added supply) ∉ before) ∧ t.dayToCompute = firstDayToCompute ∧
      ∃ s, lastSelection before = some (s, .ofView message.block) ∧ s.db = storedBlocks stored ∧
        s.dayToCompute = firstDayToCompute := by
  have hfinal : .ofView morningBlock.block ∈ supplyChain := by decide
  have hlater : firstDayToCompute < morningBlock.block.header.timestamp := by decide
  have hday : startOfDay firstDayToCompute % UInt64.size = firstMidnight := by decide
  obtain ⟨before, t, u, hrun, honce, hsame, hlast⟩ : ∃ before t u, SupplyRun .silent 1 true supplyChain
      (.start stream (storedBlocks stored) ∅) (before ++ [(t, _)]) u ∧ _ ∧ _ ∧ _ :=
    SupplyRun.computes_day ⟨0, 0, 0, 0, 0⟩ rfl hfinal hlater (hday ▸ hblock) hu64 rfl (AList.notMem_empty _)
  exact ⟨before, t, u, hrun, honce, hsame, _, hlast, rfl, rfl⟩

theorem computes_last_block_of_first_day : ∃ before t u, SupplyRun .silent 1 true supplyChain
      (.start [morningBlock] (storedBlocks [eveningBlock, lastBlockOfDay]) ∅)
      (before ++ [(t, .added (.ofBlock (.ofView lastBlockOfDay.block) ⟨0, 0, 0, 0, 0⟩))]) u ∧
    ComputesLastBlocks supplyChain
      (before ++ [(t, .added (.ofBlock (.ofView lastBlockOfDay.block) ⟨0, 0, 0, 0, 0⟩))]) := by
  obtain ⟨before, t, u, hrun, honce, hday, s, hlast, hdb, hday'⟩ :=
    computes_first_day [eveningBlock, lastBlockOfDay] [morningBlock] lastBlockOfDay (by decide) (by decide)
  refine ⟨before, t, u, hrun, (computes_last_blocks_iff increasing_supplyChain (by decide) (by decide) hrun).mpr ?_⟩
  intro front other supply rest htrace selection block hselection
  obtain ⟨rfl, hother⟩ : front = before ∧ (other, _) = (t, _) := by
    rcases List.eq_nil_or_concat rest with rfl | ⟨rest, last, rfl⟩
    · exact ⟨(List.append_inj' htrace rfl).1.symm, (List.cons.inj (List.append_inj' htrace rfl).2).1.symm⟩
    · rw [List.concat_eq_append, ← List.cons_append, ← List.append_assoc] at htrace
      have hbefore := (List.append_inj' htrace rfl).1
      exact (honce other supply (by simp [hbefore])).elim
  cases hlast.symm.trans hselection
  rw [hdb, hday']
  refine ⟨.ofView lastBlockOfDay.block, by decide, ?_⟩
  exact ⟨by decide, by decide, by decide⟩

/-- The loop looks for the last block of the day before the indexer has stored it. -/
theorem computes_evening_block :
    ¬ ∀ (chain : List Block) (stream : List StreamerMessage) (db : Database)
      (trace : List (SupplyState × SupplyEvent)) (s : SupplyState),
      IncreasingTimestamps chain → (∀ row ∈ db.blocks.rows, row ∈ chain) →
      (∀ message ∈ stream, .ofView message.block ∈ chain) →
      SupplyRun .silent 1 true chain (.start stream db ∅) trace s → ComputesLastBlocks chain trace := by
  intro hall
  obtain ⟨before, t, u, hrun, _, hday, _⟩ :=
    computes_first_day [eveningBlock] [lastBlockOfDay, morningBlock] eveningBlock (by decide) (by decide)
  have hcomputes := hall _ _ _ _ u increasing_supplyChain (by decide) (by decide) hrun
  obtain ⟨block, figures, hlast, hsupply⟩ := hcomputes before t _ [] rfl
  have hlater := hlast.last (.ofView lastBlockOfDay.block) (by decide) (by rw [hday]; decide)
  have htimestamp : eveningBlock.block.header.timestamp = block.blockTimestamp :=
    congrArg CirculatingSupply.computedAtBlockTimestamp hsupply
  rw [← htimestamp] at hlater
  exact absurd hlater (by decide)

end ExplorerIndexer

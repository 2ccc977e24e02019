import ExplorerIndexer.AggregatedSupply
import Mathlib.Data.List.Induction

/-! The days of the computation. Every round that succeeds is about the next day, and the block it selects is the last
one stamped up to midnight. -/

namespace ExplorerIndexer

open Async Store Models

/-! ### Midnights -/

/-- The first midnight after transfers were enabled, and those of the days after it. -/
def midnight (k : Nat) : Nat := (transfersEnabled / day + 1 + k) * day

theorem midnight_zero_least : transfersEnabled < midnight 0 ∧
    ∀ n, n % day = 0 → transfersEnabled < n → midnight 0 ≤ n := by
  refine ⟨by decide, fun n hmidnight hlater => ?_⟩
  obtain ⟨d, rfl⟩ := Nat.dvd_of_mod_eq_zero hmidnight
  have hday : transfersEnabled / day < d := Nat.div_lt_of_lt_mul hlater
  show (transfersEnabled / day + 1 + 0) * day ≤ day * d
  rw [Nat.mul_comm day d]
  exact Nat.mul_le_mul_right day hday

theorem startOfDay_add_days (n k : Nat) : startOfDay (n + k * day) = startOfDay n + k * day := by
  have hle := Nat.mod_le n day
  rw [startOfDay, startOfDay, Nat.add_mul_mod_self_right]
  omega

theorem startOfDay_day (k : Nat) : startOfDay (firstDayToCompute + k * day) = midnight k := by
  rw [startOfDay_add_days]
  show _ = (transfersEnabled / day + 1 + k) * day
  rw [Nat.add_mul]
  congr 1

/-! ### Successful rounds -/

/-- The events with which a round succeeds, so that the loop goes on with the next day. -/
def SupplyEvent.succeeds : SupplyEvent → Bool
  | .alreadyComputed | .added _ | .conflicted => true
  | _ => false

/-- The number of rounds that succeeded. -/
def successes (trace : List (SupplyState × SupplyEvent)) : Nat := trace.countP (·.2.succeeds)

theorem successes_snoc (trace : List (SupplyState × SupplyEvent)) (s : SupplyState) (event : SupplyEvent) :
    successes (trace ++ [(s, event)]) = successes trace + if event.succeeds then 1 else 0 := by
  rw [successes, List.countP_append, List.countP_singleton, successes]

/-- Every round up to the last success has one. -/
theorem exists_success {trace : List (SupplyState × SupplyEvent)} {k : Nat} (h : k < successes trace) :
    ∃ before t event rest, trace = before ++ (t, event) :: rest ∧ event.succeeds = true ∧ successes before = k := by
  induction trace using List.reverseRecOn with
  | nil => exact absurd h (Nat.not_lt_zero k)
  | append_singleton trace last ih =>
      obtain ⟨t, event⟩ := last
      rw [successes_snoc] at h
      by_cases hearlier : k < successes trace
      · obtain ⟨before, t', event', rest, rfl, hsucceeds, hk⟩ := ih hearlier
        exact ⟨before, t', event', rest ++ [(t, event)], by simp, hsucceeds, hk⟩
      · cases hsucceeds : event.succeeds with
        | false =>
            rw [hsucceeds, if_neg Bool.false_ne_true] at h
            exact absurd h hearlier
        | true =>
            rw [hsucceeds, if_pos rfl] at h
            exact ⟨trace, t, event, [], rfl, hsucceeds, by omega⟩

/-- Whenever the loop looks for a block, the table has the chain's blocks up to the final one, for which it waited. -/
def HasFinalBlocks (chain : List Block) (trace : List (SupplyState × SupplyEvent)) : Prop :=
  ∀ s block, (s, .selected block) ∈ trace → ∃ finalBlock ∈ chain, s.dayToCompute < finalBlock.blockTimestamp ∧
    ∀ other ∈ chain, other.blockTimestamp ≤ finalBlock.blockTimestamp → other ∈ s.db.blocks.rows

/-- At every point the loop is at the day that follows its successes, and each success is about the last block from
before the midnight of its day. -/
structure OneValuePerDay (chain : List Block) (trace : List (SupplyState × SupplyEvent)) : Prop where
  day : ∀ before t event rest, trace = before ++ (t, event) :: rest →
    startOfDay t.dayToCompute = midnight (successes before)
  selected : ∀ before t event rest, trace = before ++ (t, event) :: rest → event.succeeds = true →
    ∃ selection block, lastSelection before = some (selection, block) ∧
      LastBlockBefore chain (midnight (successes before)) block

/-- No block is stamped exactly at the midnight of a day that was computed. -/
def NoBlockAtMidnight (chain : List Block) (trace : List (SupplyState × SupplyEvent)) : Prop :=
  ∀ k < successes trace, ∀ block ∈ chain, block.blockTimestamp ≠ midnight k

section Run

variable {decoders : Decoders} {concurrency : Nat} {strictMode : Bool} {chain : List Block}
  {stream : List StreamerMessage} {db : Database} {supplies : Table CryptoHash CirculatingSupply}
  {trace : List (SupplyState × SupplyEvent)} {s t : SupplyState} {event : SupplyEvent}

/-- A step goes on with the next day if and only if it is a success. -/
theorem SupplyStep.dayToCompute (h : SupplyStep decoders concurrency strictMode chain s event t) :
    t.dayToCompute = if event.succeeds then s.dayToCompute + day else s.dayToCompute := by
  cases h <;> rfl

theorem SupplyRun.dayToCompute
    (h : SupplyRun decoders concurrency strictMode chain (.start stream db supplies) trace s) :
    s.dayToCompute = firstDayToCompute + successes trace * day := by
  induction h with
  | start => rfl
  | snoc _ hstep ih =>
      rw [hstep.dayToCompute, ih, successes_snoc]
      split
      · rw [Nat.add_mul, Nat.one_mul, Nat.add_assoc]
      · rw [Nat.add_zero]

/-- A success is about the block that was selected last, on the same day. -/
theorem SupplyRun.selected_of_succeeds {before rest : List (SupplyState × SupplyEvent)}
    (hchain : ∀ block ∈ chain, block.blockTimestamp < UInt64.size)
    (h : SupplyRun decoders concurrency strictMode chain (.start stream db supplies) trace s)
    (htrace : trace = before ++ (t, event) :: rest) (hsucceeds : event.succeeds = true) :
    ∃ block, SelectedFor before t.dayToCompute block := by
  obtain ⟨hbefore, _, hstep⟩ := h.split htrace
  have hfollows := hbefore.follows hchain
  unfold Follows at hfollows
  cases hstep with
  | alreadyComputed htask _ _ =>
      rw [htask] at hfollows
      exact ⟨_, hfollows⟩
  | added htask _ =>
      rw [htask] at hfollows
      obtain ⟨block, _, hselected, _⟩ := hfollows
      exact ⟨block, hselected⟩
  | conflicted htask _ =>
      rw [htask] at hfollows
      obtain ⟨block, _, hselected, _⟩ := hfollows
      exact ⟨block, hselected⟩
  | _ => cases hsucceeds

/-- The selected block is the last one of the chain up to midnight. -/
theorem SupplyRun.last_of_selected {before rest : List (SupplyState × SupplyEvent)} {block : Block}
    (hdb : ∀ row ∈ db.blocks.rows, row ∈ chain) (hstream : ∀ message ∈ stream, .ofView message.block ∈ chain)
    (hfinal : HasFinalBlocks chain trace)
    (h : SupplyRun decoders concurrency strictMode chain (.start stream db supplies) trace s)
    (htrace : trace = before ++ (t, event) :: rest) (hselected : SelectedFor before t.dayToCompute block) :
    (block ∈ chain ∧ block.blockTimestamp ≤ startOfDay t.dayToCompute) ∧
      ∀ other ∈ chain, other.blockTimestamp ≤ startOfDay t.dayToCompute →
        other.blockTimestamp ≤ block.blockTimestamp := by
  obtain ⟨selection, hlast, hday, hblock⟩ := hselected
  obtain ⟨⟨hrow, hle⟩, hlatest⟩ := mem_getLatestBlockBeforeTimestamp.mp hblock
  have hmem := mem_of_lastSelection hlast
  obtain ⟨first, middle, hsplit⟩ := List.append_of_mem hmem
  have hselection := ((h.split htrace).1.split hsplit).1
  obtain ⟨finalBlock, _, hlater, hstored⟩ := hfinal selection block (htrace ▸ List.mem_append_left _ hmem)
  refine ⟨⟨hselection.row_of_chain hdb hstream hrow, hle⟩, fun other hother hbefore => ?_⟩
  have hearly : other.blockTimestamp ≤ finalBlock.blockTimestamp := by
    have hstart : startOfDay t.dayToCompute ≤ t.dayToCompute := Nat.sub_le _ _
    omega
  exact hlatest other (hstored other hother hearly) hbefore

/-- The rounds that succeed compute one value per day, each for the last block of its day, if and only if no block is
stamped exactly at one of their midnights. -/
theorem one_value_per_day_iff (hchain : ∀ block ∈ chain, block.blockTimestamp < UInt64.size)
    (hdb : ∀ row ∈ db.blocks.rows, row ∈ chain) (hstream : ∀ message ∈ stream, .ofView message.block ∈ chain)
    (hfinal : HasFinalBlocks chain trace)
    (hrun : SupplyRun decoders concurrency strictMode chain (.start stream db supplies) trace s) :
    OneValuePerDay chain trace ↔ NoBlockAtMidnight chain trace := by
  have hday : ∀ before t event rest, trace = before ++ (t, event) :: rest →
      startOfDay t.dayToCompute = midnight (successes before) := by
    intro before t event rest htrace
    rw [(hrun.split htrace).1.dayToCompute, startOfDay_day]
  constructor
  · intro hone k hk block hblock hmidnight
    obtain ⟨before, t, event, rest, htrace, hsucceeds, rfl⟩ := exists_success hk
    obtain ⟨selected, hselected⟩ := hrun.selected_of_succeeds hchain htrace hsucceeds
    obtain ⟨_, hlatest⟩ := hrun.last_of_selected hdb hstream hfinal htrace hselected
    obtain ⟨_, block', hlast, hbefore⟩ := hone.selected before t event rest htrace hsucceeds
    obtain ⟨_, hlast', _⟩ := hselected
    cases hlast.symm.trans hlast'
    have hle := hlatest block hblock (by rw [hday before t event rest htrace, hmidnight])
    have hlt := hbefore.before
    omega
  · intro hnone
    refine ⟨hday, fun before t event rest htrace hsucceeds => ?_⟩
    obtain ⟨block, hselected⟩ := hrun.selected_of_succeeds hchain htrace hsucceeds
    obtain ⟨⟨hmem, hle⟩, hlatest⟩ := hrun.last_of_selected hdb hstream hfinal htrace hselected
    obtain ⟨selection, hlast, _⟩ := hselected
    rw [hday before t event rest htrace] at hle hlatest
    have hk : successes before < successes trace := by
      rw [htrace, successes, successes, List.countP_append, List.countP_cons, if_pos hsucceeds]
      omega
    refine ⟨selection, block, hlast, hmem, Nat.lt_of_le_of_ne hle (hnone _ hk block hmem),
      fun other hother hbefore => ?_⟩
    exact hlatest other hother (Nat.le_of_lt hbefore)

end Run

/-! ### The first day -/

/-- The round of the first day, for a block that is selected for it. -/
def firstRound (messages : List StreamerMessage) (block : Block) : List (SupplyState × SupplyEvent) :=
  let s := SupplyState.start [] (storedBlocks messages) ∅
  let supply := CirculatingSupply.ofBlock block ⟨0, 0, 0, 0, 0⟩
  [(s, .loaded), ({ s with task := .collecting }, .selected block),
    ({ s with task := .checking block }, .notComputed), ({ s with task := .computing block }, .computed),
    ({ s with task := .adding supply }, .added supply)]

/-- Everything is stored, and the last block is from after the first day is due. -/
structure ReadyForFirstDay (messages : List StreamerMessage) (finalBlock : Block) : Prop where
  mem : finalBlock ∈ messages.map (.ofView ·.block)
  later : firstDayToCompute < finalBlock.blockTimestamp
  stored : ∀ other ∈ messages.map (Block.ofView ·.block), other ∈ (storedBlocks messages).blocks.rows

section FirstDay

variable {messages : List StreamerMessage} {block finalBlock : Block}

variable (block) in
theorem run_firstRound (hready : ReadyForFirstDay messages finalBlock)
    (hblock : block ∈ getLatestBlockBeforeTimestamp (storedBlocks messages) firstMidnight)
    (hu64 : (toU64 block.blockTimestamp).isSome) :
    ∃ s, SupplyRun .silent 1 true (messages.map (.ofView ·.block)) (.start [] (storedBlocks messages) ∅)
      (firstRound messages block) s := by
  have hday : startOfDay firstDayToCompute % UInt64.size = firstMidnight := by decide
  have hselected : SupplyRun .silent 1 true (messages.map (.ofView ·.block))
      (.start [] (storedBlocks messages) ∅) _ _ :=
    .snoc (.snoc .start (.loaded rfl hready.mem hready.later)) (.selected rfl (hday ▸ hblock) hu64)
  have hcomputed := (hselected.snoc (.notComputed rfl rfl)).snoc (.computed ⟨0, 0, 0, 0, 0⟩ rfl)
  exact ⟨_, hcomputed.snoc (.added rfl (AList.notMem_empty _))⟩

theorem hasFinalBlocks_firstRound (hready : ReadyForFirstDay messages finalBlock) :
    HasFinalBlocks (messages.map (.ofView ·.block)) (firstRound messages block) := by
  intro s selected hmem
  obtain ⟨rfl, rfl⟩ : s = { SupplyState.start [] (storedBlocks messages) ∅ with task := .collecting } ∧
      selected = block := by simpa [firstRound] using hmem
  exact ⟨finalBlock, hready.mem, hready.later, fun other hother _ => hready.stored other hother⟩

end FirstDay

theorem one_value_first_day : ∃ s,
    SupplyRun .silent 1 true supplyChain (.start [] (storedBlocks [eveningBlock, lastBlockOfDay, morningBlock]) ∅)
      (firstRound [eveningBlock, lastBlockOfDay, morningBlock] (.ofView lastBlockOfDay.block)) s ∧
    OneValuePerDay supplyChain
      (firstRound [eveningBlock, lastBlockOfDay, morningBlock] (.ofView lastBlockOfDay.block)) := by
  have hready : ReadyForFirstDay [eveningBlock, lastBlockOfDay, morningBlock] (.ofView morningBlock.block) :=
    ⟨by decide, by decide, by decide⟩
  obtain ⟨s, hrun⟩ := run_firstRound (.ofView lastBlockOfDay.block) hready (by decide) (by decide)
  refine ⟨s, hrun, (one_value_per_day_iff (by decide) (by decide) (by decide)
    (hasFinalBlocks_firstRound hready) hrun).mpr ?_⟩
  intro k hk
  obtain rfl : k = 0 := Nat.lt_one_iff.mp hk
  decide

/-- A block that is stamped exactly at midnight. -/
def midnightBlock : StreamerMessage := minedAt 8 firstMidnight (.ofText "b8") (.ofText "b7")

def blocksAroundMidnight : List StreamerMessage :=
  [lastBlockOfDay, midnightBlock, minedAt 9 (firstMidnight + fromSecs 3600) (.ofText "b9") (.ofText "b8")]

/-- The block from midnight is selected for the day that it ends. -/
theorem midnight_block_selected :
    ¬ ∀ (chain : List Block) (stream : List StreamerMessage) (db : Database)
      (trace : List (SupplyState × SupplyEvent)) (s : SupplyState),
      chain.Pairwise (fun a b => a.blockTimestamp < b.blockTimestamp) →
      (∀ block ∈ chain, block.blockTimestamp < UInt64.size) → (∀ row ∈ db.blocks.rows, row ∈ chain) →
      (∀ message ∈ stream, .ofView message.block ∈ chain) → HasFinalBlocks chain trace →
      SupplyRun .silent 1 true chain (.start stream db ∅) trace s → OneValuePerDay chain trace := by
  intro hall
  have hready : ReadyForFirstDay blocksAroundMidnight
      (.ofView (minedAt 9 (firstMidnight + fromSecs 3600) (.ofText "b9") (.ofText "b8")).block) :=
    ⟨by decide, by decide, by decide⟩
  obtain ⟨s, hrun⟩ := run_firstRound (.ofView midnightBlock.block) hready (by decide) (by decide)
  have hone := hall _ _ _ _ s (by decide) (by decide) (by decide) (by decide) (hasFinalBlocks_firstRound hready) hrun
  obtain ⟨selection, block, hlast, hbefore⟩ :=
    hone.selected (firstRound blocksAroundMidnight _).dropLast _ _ [] rfl rfl
  cases hlast
  exact absurd hbefore.before (by decide)

end ExplorerIndexer

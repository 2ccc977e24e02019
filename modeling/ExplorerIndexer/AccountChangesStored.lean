import ExplorerIndexer.AdapterBlocks
import ExplorerIndexer.AsyncAlone
import ExplorerIndexer.AsyncCalls
import ExplorerIndexer.StoreIndexes

/-! Account changes that are stored again. Three partial unique indexes cover the changes by their cause, so that
nulls in the columns of the cause never hide a duplicate, and a block that is handled again adds no row. -/

namespace ExplorerIndexer.AccountChanges

open Async Store Models

/-! ### The unique indexes -/

/-- The columns that all three indexes share. -/
def sameState (a b : AccountChange) : Bool :=
  decide (a.affectedAccountId = b.affectedAccountId) && decide (a.changedInBlockHash = b.changedInBlockHash) &&
    decide (a.updateReason = b.updateReason) &&
    decide (a.affectedAccountNonstakedBalance = b.affectedAccountNonstakedBalance) &&
    decide (a.affectedAccountStakedBalance = b.affectedAccountStakedBalance) &&
    decide (a.affectedAccountStorageUsage = b.affectedAccountStorageUsage)

def accountChangesTransactionUniIdx : UniqueIndex AccountChange where
  covers row := row.causedByTransactionHash.isSome && row.causedByReceiptId.isNone
  agree a b := sameState a b && sqlEq a.causedByTransactionHash b.causedByTransactionHash

def accountChangesReceiptUniIdx : UniqueIndex AccountChange where
  covers row := row.causedByTransactionHash.isNone && row.causedByReceiptId.isSome
  agree a b := sameState a b && sqlEq a.causedByReceiptId b.causedByReceiptId

def accountChangesNullUniIdx : UniqueIndex AccountChange where
  covers row := row.causedByTransactionHash.isNone && row.causedByReceiptId.isNone
  agree := sameState

def uniqueIndexes : List (UniqueIndex AccountChange) :=
  [accountChangesTransactionUniIdx, accountChangesReceiptUniIdx, accountChangesNullUniIdx]

/-- One of the indexes keeps the rows from being stored both. -/
def conflict (a b : AccountChange) : Bool := uniqueIndexes.any fun index => index.conflict a b

/-- The columns a row is recognised by. -/
def changeColumns (row : AccountChange) :
    (AccountId × CryptoHash × StateChangeReasonKind) × (Option CryptoHash × Option CryptoHash) × Nat × Nat × Nat :=
  ((row.affectedAccountId, row.changedInBlockHash, row.updateReason),
    (row.causedByTransactionHash, row.causedByReceiptId), row.affectedAccountNonstakedBalance,
    row.affectedAccountStakedBalance, row.affectedAccountStorageUsage)

/-- Some index covers the row. -/
def Covered (row : AccountChange) : Prop :=
  row.causedByTransactionHash.isNone = true ∨ row.causedByReceiptId.isNone = true

theorem sameChange_iff {a b : AccountChange} :
    sameChange a b = true ↔ Covered a ∧ changeColumns a = changeColumns b := by
  simp only [sameChange, Covered, changeColumns, Bool.and_eq_true, Bool.not_eq_true', Bool.and_eq_false_iff,
    Option.isSome_eq_false_iff, decide_eq_true_eq, Prod.mk.injEq]
  tauto

theorem conflict_iff {a b : AccountChange} : conflict a b = true ↔ Covered a ∧ changeColumns a = changeColumns b := by
  obtain ⟨_, _, _, causedByTransactionHash, causedByReceiptId, _, _, _, _, _⟩ := a
  obtain ⟨_, _, _, causedByTransactionHash', causedByReceiptId', _, _, _, _, _⟩ := b
  -- which index applies is decided by the nulls of the first row
  cases causedByTransactionHash <;> cases causedByReceiptId <;> cases causedByTransactionHash' <;>
    cases causedByReceiptId' <;>
    simp [conflict, uniqueIndexes, UniqueIndex.conflict, accountChangesTransactionUniIdx, accountChangesReceiptUniIdx,
      accountChangesNullUniIdx, sameState, sqlEq, Covered, changeColumns] <;>
    tauto

/-- The insert checks the three indexes. -/
theorem sameChange_eq_conflict (a b : AccountChange) : sameChange a b = conflict a b := by
  rw [Bool.eq_iff_iff, sameChange_iff, conflict_iff]

theorem newChanges_eq (batch rows : List AccountChange) : newChanges batch rows = newRows conflict batch rows := by
  induction batch generalizing rows with
  | nil => rfl
  | cons row batch ih =>
      have hany : rows.any (sameChange row) = rows.any (conflict row) :=
        congrArg rows.any (funext (sameChange_eq_conflict row))
      rw [newChanges, newRows, hany, ih, ih]

theorem Covered.of_columns {a b : AccountChange} (h : Covered a) (hsame : changeColumns a = changeColumns b) :
    Covered b := by
  have hcauses := congrArg (fun columns => columns.2.1) hsame
  obtain ⟨htx, hreceipt⟩ := Prod.mk.inj hcauses
  unfold Covered
  rwa [← htx, ← hreceipt]

theorem conflict_comm (a b : AccountChange) : conflict a b = conflict b a := by
  rw [Bool.eq_iff_iff, conflict_iff, conflict_iff]
  exact ⟨fun h => ⟨h.1.of_columns h.2, h.2.symm⟩, fun h => ⟨h.1.of_columns h.2, h.2.symm⟩⟩

theorem conflict_trans (a b c : AccountChange) (hab : conflict a b = true) (hbc : conflict b c = true) :
    conflict a c = true := by
  obtain ⟨ha, hsame⟩ := conflict_iff.mp hab
  exact conflict_iff.mpr ⟨ha, hsame.trans (conflict_iff.mp hbc).2⟩

/-! ### The rows of a change -/

section Rows

variable {stateChange stateChange' : StateChangeWithCauseView} {blockHash : CryptoHash} {blockTimestamp : Nat}
  {indexInBlock : Int} {row row' stored : AccountChange}

theorem columns_of_row
    (h : AccountChange.fromStateChangeWithCause stateChange blockHash blockTimestamp indexInBlock = .row row) :
    row.causedByTransactionHash = txHashOfCause stateChange.cause ∧
      row.causedByReceiptId = receiptHashOfCause stateChange.cause ∧
      StateChangeReasonKind.ofCause stateChange.cause = some row.updateReason := by
  unfold AccountChange.fromStateChangeWithCause at h
  cases haccount : accountOfStateChangeValue stateChange.value with
  | none =>
      rw [haccount] at h
      cases h
  | some account =>
      cases hreason : StateChangeReasonKind.ofCause stateChange.cause with
      | none =>
          rw [haccount, hreason] at h
          cases h
      | some updateReason =>
          rw [haccount, hreason] at h
          cases h
          exact ⟨rfl, rfl, rfl⟩

/-- No cause fills both columns. -/
theorem covered_of_row
    (h : AccountChange.fromStateChangeWithCause stateChange blockHash blockTimestamp indexInBlock = .row row) :
    Covered row := by
  obtain ⟨htx, hreceipt, _⟩ := columns_of_row h
  unfold Covered
  rw [htx, hreceipt]
  cases stateChange.cause <;> simp [txHashOfCause, receiptHashOfCause]

/-- Each row falls under exactly one of the indexes. -/
theorem countP_covers_of_covered (h : Covered row) : uniqueIndexes.countP (fun index => index.covers row) = 1 := by
  obtain ⟨_, _, _, causedByTransactionHash, causedByReceiptId, _, _, _, _, _⟩ := row
  cases causedByTransactionHash <;> cases causedByReceiptId <;>
    simp_all [Covered, uniqueIndexes, accountChangesTransactionUniIdx, accountChangesReceiptUniIdx,
      accountChangesNullUniIdx]

theorem conflict_self
    (h : AccountChange.fromStateChangeWithCause stateChange blockHash blockTimestamp indexInBlock = .row row) :
    conflict row row = true := conflict_iff.mpr ⟨covered_of_row h, rfl⟩

/-- The reason tells which cause it was, and the columns of the cause what it was the cause of. -/
theorem cause_injective {cause cause' : StateChangeCauseView} {reason : StateChangeReasonKind}
    (hreason : StateChangeReasonKind.ofCause cause = some reason)
    (hreason' : StateChangeReasonKind.ofCause cause' = some reason) (htx : txHashOfCause cause = txHashOfCause cause')
    (hreceipt : receiptHashOfCause cause = receiptHashOfCause cause') : cause = cause' := by
  cases cause <;> cases hreason <;> cases cause' <;> simp_all [StateChangeReasonKind.ofCause, txHashOfCause,
    receiptHashOfCause]

/-- Two account changes with their rows that say the same. -/
structure Alike (change change' : StateChangeWithCauseView × AccountChange) : Prop where
  affectedAccount : change.2.affectedAccountId = change'.2.affectedAccountId
  cause : change.1.cause = change'.1.cause
  updateReason : change.2.updateReason = change'.2.updateReason
  nonstakedBalance : change.2.affectedAccountNonstakedBalance = change'.2.affectedAccountNonstakedBalance
  stakedBalance : change.2.affectedAccountStakedBalance = change'.2.affectedAccountStakedBalance
  storageUsage : change.2.affectedAccountStorageUsage = change'.2.affectedAccountStorageUsage

/-- Changes whose rows are kept out by one and the same row are alike. -/
theorem alike_of_conflict {blockTimestamp' : Nat} {blockHash' : CryptoHash} {indexInBlock' : Int}
    (h : AccountChange.fromStateChangeWithCause stateChange blockHash blockTimestamp indexInBlock = .row row)
    (h' : AccountChange.fromStateChangeWithCause stateChange' blockHash' blockTimestamp' indexInBlock' = .row row')
    (hstored : conflict row stored = true) (hstored' : conflict row' stored = true) :
    Alike (stateChange, row) (stateChange', row') := by
  have hsame : changeColumns row = changeColumns row' :=
    (conflict_iff.mp hstored).2.trans (conflict_iff.mp hstored').2.symm
  simp only [changeColumns, Prod.mk.injEq] at hsame
  obtain ⟨⟨haccount, _, hreason⟩, ⟨htx, hreceipt⟩, hnonstaked, hstaked, hstorage⟩ := hsame
  obtain ⟨htx₁, hreceipt₁, hreason₁⟩ := columns_of_row h
  obtain ⟨htx₂, hreceipt₂, hreason₂⟩ := columns_of_row h'
  rw [htx₁, htx₂] at htx
  rw [hreceipt₁, hreceipt₂] at hreceipt
  rw [hreason] at hreason₁
  exact ⟨haccount, cause_injective hreason₁ hreason₂ htx hreceipt, hreason, hnonstaked, hstaked, hstorage⟩

/-- The rows of a shard are those of its state changes. -/
theorem mem_models_iff {stateChanges : List StateChangeWithCauseView} {rows : List AccountChange}
    (h : accountChangesModels stateChanges blockHash blockTimestamp = some rows) :
    row ∈ rows ↔ ∃ stateChange position, stateChanges[position]? = some stateChange ∧
      AccountChange.fromStateChangeWithCause stateChange blockHash blockTimestamp (asI32 position) = .row row := by
  have hentries : (∃ stateChange position, stateChanges[position]? = some stateChange ∧
      AccountChange.fromStateChangeWithCause stateChange blockHash blockTimestamp (asI32 position) = .row row) ↔
      ∃ entry ∈ stateChanges.zipIdx,
        AccountChange.fromStateChangeWithCause entry.1 blockHash blockTimestamp (asI32 entry.2) = .row row := by
    simp only [Prod.exists, List.mk_mem_zipIdx_iff_getElem?]
  rw [hentries]
  unfold accountChangesModels at h
  generalize stateChanges.zipIdx = entries at h
  induction entries generalizing rows with
  | nil =>
      cases h
      simp
  | cons entry entries ih =>
      rw [List.foldr_cons] at h
      dsimp only at h
      rw [List.exists_mem_cons_iff]
      split at h
      · rename_i hskip
        simp only [hskip, reduceCtorEq, false_or]
        exact ih h
      · rename_i change hchange
        obtain ⟨rest, hrest, rfl⟩ := Option.map_eq_some_iff.mp h
        simp only [List.mem_cons, hchange, StateChangeRow.row.injEq, ih hrest, eq_comm]
      · cases h

end Rows

/-! ### Blocks that are handled again -/

/-- A call of `storeAccountChanges`. -/
structure BlockChanges where
  shards : List IndexerShard
  blockHash : CryptoHash
  blockTimestamp : Nat

def BlockChanges.body (block : BlockChanges) : Prog World Unit :=
  storeAccountChanges block.shards block.blockHash block.blockTimestamp

/-- A state change of the block that is stored, with its row. -/
def BlockChanges.Change (block : BlockChanges) (change : StateChangeWithCauseView × AccountChange) : Prop :=
  ∃ shard ∈ block.shards, ∃ position, shard.stateChanges[position]? = some change.1 ∧
    AccountChange.fromStateChangeWithCause change.1 block.blockHash block.blockTimestamp (asI32 position) =
      .row change.2

/-- Every change of the shard has a row in its place. -/
def BlockChanges.ShardStored (block : BlockChanges) (shard : IndexerShard) (w : World) : Prop :=
  ∃ rows, accountChangesModels shard.stateChanges block.blockHash block.blockTimestamp = some rows ∧
    ∀ row ∈ rows, ∃ stored ∈ w.db.accountChanges, conflict row stored = true

def BlockChanges.Stored (block : BlockChanges) (w : World) : Prop := ∀ shard ∈ block.shards, block.ShardStored shard w

/-- What the rest of the system does to account changes. -/
def LeavesChanges (w w' : World) : Prop := w'.db.accountChanges = w.db.accountChanges

/-- The calls for blocks, among whatever else the system does. -/
abbrev ChangesRun (callable : BlockChanges → Prop) : Calls BlockChanges World → Calls BlockChanges World → Prop :=
  CallsRun BlockChanges.body callable LeavesChanges

/-- Rows stay, and no two of them conflict. -/
structure KeepsChanges (w w' : World) : Prop where
  apart : Apart conflict w.db.accountChanges → Apart conflict w'.db.accountChanges
  rows : ∀ row ∈ w.db.accountChanges, row ∈ w'.db.accountChanges

section Calls

variable {block : BlockChanges} {w w' : World} {calls : Calls BlockChanges World} {batch : List AccountChange}

theorem insertAccountChanges_ok {b : Unit} (h : insertAccountChanges batch w = .ok (b, w')) :
    w' = { w with db :=
      { w.db with accountChanges := w.db.accountChanges ++ newRows conflict batch w.db.accountChanges } } := by
  obtain ⟨db, hdb, rfl⟩ := execute_ok h
  split at hdb
  · cases hdb
  · cases hdb
    rw [newChanges_eq]

theorem keepsChanges_of_leaves (h : LeavesChanges w w') : KeepsChanges w w' := by
  refine ⟨fun hapart => ?_, fun row hrow => ?_⟩
  · rwa [h]
  · rwa [h]

/-- The shards of a block are stored side by side, each with one insert. -/
theorem outline_storeAccountChanges {rely : World → World → Prop} {P : World → Prop} (block : BlockChanges)
    (hP : Stable rely P) (hkept : ∀ w w', rely w w' → ∀ row ∈ w.db.accountChanges, row ∈ w'.db.accountChanges)
    (hinsert : ∀ w, P w → ∀ shard ∈ block.shards, ∀ batch,
      accountChangesModels shard.stateChanges block.blockHash block.blockTimestamp = some batch →
        rely w { w with db :=
          { w.db with accountChanges := w.db.accountChanges ++ newRows conflict batch w.db.accountChanges } }) :
    Outline False rely rely P block.body fun _ => block.Stored := by
  have hstored : ∀ batch : List AccountChange,
      Stable rely fun w => ∀ row ∈ batch, ∃ stored ∈ w.db.accountChanges, conflict row stored = true := by
    intro batch w w' hw hstep row hrow
    obtain ⟨stored, hmem, hconflict⟩ := hw row hrow
    exact ⟨stored, hkept w w' hstep stored hmem, hconflict⟩
  have hpost : ∀ shard, Stable rely (block.ShardStored shard) := by
    rintro shard w w' ⟨rows, hrows, hw⟩ hstep
    exact ⟨rows, hrows, hstored rows w w' hw hstep⟩
  show Outline False rely rely P block.body fun _ w => ∀ shard ∈ block.shards, block.ShardStored shard w
  refine .joinAll_map (fun _ _ h => h) hP hpost ?_
  intro shard hshard
  unfold storeAccountChangesForShard
  split
  · rename_i hempty
    rw [List.isEmpty_iff] at hempty
    exact .ret fun w _ => ⟨[], by rw [hempty]; rfl, fun row hrow => (List.not_mem_nil hrow).elim⟩
  cases hbatch : accountChangesModels shard.stateChanges block.blockHash block.blockTimestamp with
  | none => exact .panic id
  | some batch =>
      refine .query (M := fun _ w => ∀ row ∈ batch, ∃ stored ∈ w.db.accountChanges, conflict row stored = true)
        (fun w b w' hw hok => ?_) (fun w error _ _ hhandled => by cases hhandled) False.elim (fun _ => hstored batch)
        fun _ => .ret fun w hw => ⟨batch, hbatch, hw⟩
      obtain rfl := insertAccountChanges_ok hok
      refine ⟨hinsert w hw shard hshard batch hbatch, fun row hrow => exists_conflicting hrow ?_⟩
      obtain ⟨stateChange, position, _, hchange⟩ := (mem_models_iff hbatch).mp hrow
      exact conflict_self hchange

theorem BlockChanges.Stored.change (h : block.Stored w) {change : StateChangeWithCauseView × AccountChange}
    (hchange : block.Change change) : ∃ stored ∈ w.db.accountChanges, conflict change.2 stored = true := by
  obtain ⟨shard, hshard, position, hposition, hrow⟩ := hchange
  obtain ⟨rows, hrows, hstored⟩ := h shard hshard
  exact hstored _ ((mem_models_iff hrows).mpr ⟨_, position, hposition, hrow⟩)

/-- In any run of the adapter, no two rows conflict, and a block that has been handled is stored. -/
theorem stored_of_returned {callable : BlockChanges → Prop} (hempty : w.db.accountChanges = [])
    (hrun : ChangesRun callable ⟨[], w⟩ calls) :
    Apart conflict calls.state.db.accountChanges ∧ ∀ block, calls.Returned block → block.Stored calls.state := by
  have hstart : Apart conflict w.db.accountChanges := by
    rw [hempty]
    exact List.Pairwise.nil
  have hP : Stable KeepsChanges fun w => Apart conflict w.db.accountChanges := fun _ _ hw hstep => hstep.apart hw
  have hbody : ∀ block, callable block → Outline False KeepsChanges KeepsChanges
      (fun w => Apart conflict w.db.accountChanges) block.body fun _ => block.Stored := by
    intro block _
    refine outline_storeAccountChanges block hP (fun _ _ hstep => hstep.rows) fun w hw _ _ batch _ => ?_
    exact ⟨fun _ => apart_append_newRows conflict_comm hw, fun row hrow => List.mem_append_left _ hrow⟩
  obtain ⟨hapart, _, hreturned⟩ := hrun.invariant hbody hP (fun _ _ => keepsChanges_of_leaves) hstart
  exact ⟨hapart, hreturned⟩

/-- A block that is stored adds nothing, however often it is handled. -/
theorem unchanged_of_stored {callable : BlockChanges → Prop} (hcallable : ∀ block, callable block → block.Stored w)
    (hrun : ChangesRun callable ⟨[], w⟩ calls) : calls.state.db.accountChanges = w.db.accountChanges := by
  have hP : Stable LeavesChanges fun s => s.db.accountChanges = w.db.accountChanges :=
    fun s t hs hstep => hstep.trans hs
  have hbody : ∀ block, callable block → Outline False LeavesChanges LeavesChanges
      (fun s => s.db.accountChanges = w.db.accountChanges) block.body fun _ => block.Stored := by
    intro block hblock
    refine outline_storeAccountChanges block hP (fun s t hstep row hrow => hstep ▸ hrow) ?_
    intro s hs shard hshard batch hbatch
    obtain ⟨rows, hrows, hstored⟩ := hcallable block hblock shard hshard
    obtain rfl : rows = batch := Option.some.inj (hrows.symm.trans hbatch)
    have hnone : newRows conflict rows s.db.accountChanges = [] := by
      rw [hs]
      exact newRows_eq_nil hstored
    simp only [LeavesChanges, hnone, List.append_nil]
  exact (hrun.invariant hbody hP (fun _ _ h => h) rfl).1

/-- Once a block has been handled, handling it again adds no row, each of its changes has exactly one row in its
place, and only changes that are alike share a row; each row that can be stored is covered by exactly one index. -/
theorem account_changes_merged {callable : BlockChanges → Prop} (hempty : w.db.accountChanges = [])
    (hrun : ChangesRun callable ⟨[], w⟩ calls) (hreturned : calls.Returned block) :
    (∀ calls', ChangesRun (fun again => again = block) ⟨[], calls.state⟩ calls' →
      calls'.state.db.accountChanges = calls.state.db.accountChanges) ∧
    (∀ change, block.Change change → calls.state.db.accountChanges.countP (conflict change.2) = 1) ∧
    (∀ change change', block.Change change → block.Change change' → ∀ stored,
      conflict change.2 stored = true → conflict change'.2 stored = true → Alike change change') ∧
    ∀ stateChange blockHash blockTimestamp indexInBlock row,
      AccountChange.fromStateChangeWithCause stateChange blockHash blockTimestamp indexInBlock = .row row →
        uniqueIndexes.countP (fun index => index.covers row) = 1 := by
  obtain ⟨hapart, hstored⟩ := stored_of_returned hempty hrun
  refine ⟨fun calls' hagain => ?_, fun change hchange => ?_, fun change change' hchange hchange' stored h h' => ?_,
    fun stateChange blockHash blockTimestamp indexInBlock row hrow => ?_⟩
  · refine unchanged_of_stored (fun again hagain => ?_) hagain
    rw [hagain]
    exact hstored block hreturned
  · exact countP_eq_one conflict_comm conflict_trans hapart ((hstored block hreturned).change hchange)
  · obtain ⟨_, _, _, _, hrow⟩ := hchange
    obtain ⟨_, _, _, _, hrow'⟩ := hchange'
    exact alike_of_conflict hrow hrow' h h'
  · exact countP_covers_of_covered (covered_of_row hrow)

end Calls

/-! ### A change that comes twice -/

/-- The state of an account is written twice by one migration. -/
def migratedBlock : BlockChanges where
  shards := [
    { shardId := 0
      chunk := none
      receiptExecutionOutcomes := []
      stateChanges := List.replicate 2 ⟨.migration, .accountUpdate "alice.near" ⟨5, 0, 182⟩⟩ }]
  blockHash := .ofText "b7"
  blockTimestamp := 7

/-- The block and the account are stored, but nothing that happened to it. -/
def beforeMigration : World where
  cache := .withSize 1
  db :=
    { blocks := (∅ : Table CryptoHash Block).insert (.ofText "b7")
        { blockHeight := 7
          blockHash := .ofText "b7"
          prevBlockHash := .ofText "b6"
          blockTimestamp := 7
          totalSupply := 0
          gasPrice := 0
          authorAccountId := "validator.near" }
      accounts := (∅ : Table AccountId Account).insert "alice.near" (.newFromGenesis "alice.near" 0) }

theorem account_changes_merged_migration : ∃ calls, ChangesRun (fun _ => True) ⟨[], beforeMigration⟩ calls ∧
    calls.Returned migratedBlock ∧ calls.state.db.accountChanges.length = 1 ∧
      (∀ change, migratedBlock.Change change → calls.state.db.accountChanges.countP (conflict change.2) = 1) ∧
      ∀ calls', ChangesRun (fun again => again = migratedBlock) ⟨[], calls.state⟩ calls' →
        calls'.state.db.accountChanges = calls.state.db.accountChanges := by
  obtain ⟨_, hsteps⟩ : Finishes migratedBlock.body beforeMigration () _ := finishes_after 1 (by decide)
  have hrun : ChangesRun (fun _ => True) ⟨[], beforeMigration⟩ ⟨[] ++ (migratedBlock, .ret ()) :: [], _⟩ :=
    .head (.call trivial) (CallsRun.steps hsteps)
  have hmerged := account_changes_merged rfl hrun List.mem_cons_self
  exact ⟨_, hrun, List.mem_cons_self, by decide, hmerged.2.1, hmerged.1⟩

end ExplorerIndexer.AccountChanges

import ExplorerIndexer.AdapterBlocks
import Mathlib.Data.List.Sort

/-! The order of account changes inside a block. The rows of a shard are numbered by their positions in the shard's
state changes, and the rows of all shards of a block share the column. -/

namespace ExplorerIndexer.AccountChanges

open Async Store Models

/-! ### Positions -/

/-- The account changes of a shard: which account, and at which position of the state changes. -/
def accountPositions (stateChanges : List StateChangeWithCauseView) : List (AccountId × Nat) :=
  stateChanges.zipIdx.filterMap fun (stateChange, position) =>
    (accountOfStateChangeValue stateChange.value).map fun account => (account.1, position)

/-- The order of the sorting index. -/
def SortsBefore (a b : AccountChange) : Prop :=
  a.changedInBlockTimestamp < b.changedInBlockTimestamp ∨
    a.changedInBlockTimestamp = b.changedInBlockTimestamp ∧ a.indexInBlock ≤ b.indexInBlock

/-- The rows of an account, in the order in which they stand. -/
def changesOf (accountId : AccountId) (rows : List AccountChange) : List AccountChange :=
  rows.filter fun row => row.affectedAccountId = accountId

/-- No two rows of a block have the same number, and sorting the rows lists the changes of each account as they come
in their shard. -/
structure TotallyOrdered (shardRows : List (List AccountChange)) : Prop where
  distinct : (shardRows.flatten.map (·.indexInBlock)).Nodup
  inOrder : ∀ sorted : List AccountChange, sorted.Perm shardRows.flatten → sorted.Pairwise SortsBefore →
    ∀ rows ∈ shardRows, ∀ accountId, (changesOf accountId rows).Sublist (changesOf accountId sorted)

/-- No two account changes of a block are at the same position, each in its shard, as a 32-bit integer, and those of an
account are at increasing ones. -/
structure PositionsApart (shards : List IndexerShard) : Prop where
  distinct : (shards.flatMap fun shard =>
    (accountPositions shard.stateChanges).map fun change => asI32 change.2).Nodup
  increasing : ∀ shard ∈ shards, (accountPositions shard.stateChanges).Pairwise fun change later =>
    change.1 = later.1 → asI32 change.2 < asI32 later.2

/-- The rows that are stored for the shards of a block. -/
def ShardRows (blockHash : CryptoHash) (blockTimestamp : Nat) : List IndexerShard → List (List AccountChange) → Prop :=
  List.Forall₂ fun shard rows => accountChangesModels shard.stateChanges blockHash blockTimestamp = some rows

section Rows

variable {blockHash : CryptoHash} {blockTimestamp : Nat} {shards : List IndexerShard}
  {shardRows : List (List AccountChange)} {rows : List AccountChange}

/-- The account and the number of a row, which are those of an account change and its position. -/
def numbering (row : AccountChange) : AccountId × Int := (row.affectedAccountId, row.indexInBlock)

/-- A change of an account becomes a row with the block's timestamp. -/
theorem fromStateChange_cases (blockHash : CryptoHash) (blockTimestamp : Nat)
    (stateChange : StateChangeWithCauseView) (indexInBlock : Int) :
    (accountOfStateChangeValue stateChange.value = none ∧
      AccountChange.fromStateChangeWithCause stateChange blockHash blockTimestamp indexInBlock = .skip) ∨
    ∃ account, accountOfStateChangeValue stateChange.value = some account ∧
      (AccountChange.fromStateChangeWithCause stateChange blockHash blockTimestamp indexInBlock = .panic ∨
        ∃ row, AccountChange.fromStateChangeWithCause stateChange blockHash blockTimestamp indexInBlock = .row row ∧
          numbering row = (account.1, indexInBlock) ∧ row.changedInBlockTimestamp = blockTimestamp) := by
  unfold AccountChange.fromStateChangeWithCause
  cases haccount : accountOfStateChangeValue stateChange.value with
  | none => exact .inl ⟨rfl, rfl⟩
  | some account =>
      refine .inr ⟨account, rfl, ?_⟩
      cases StateChangeReasonKind.ofCause stateChange.cause with
      | none => exact .inl rfl
      | some updateReason => exact .inr ⟨_, rfl, rfl, rfl⟩

/-- The rows of a shard are its account changes, in order. -/
theorem numbering_models {stateChanges : List StateChangeWithCauseView}
    (h : accountChangesModels stateChanges blockHash blockTimestamp = some rows) :
    rows.map numbering = (accountPositions stateChanges).map (fun change => (change.1, asI32 change.2)) ∧
      ∀ row ∈ rows, row.changedInBlockTimestamp = blockTimestamp := by
  unfold accountChangesModels at h
  unfold accountPositions
  generalize stateChanges.zipIdx = entries at h ⊢
  induction entries generalizing rows with
  | nil =>
      cases h
      exact ⟨rfl, fun row hrow => (List.not_mem_nil hrow).elim⟩
  | cons entry entries ih =>
      obtain ⟨stateChange, position⟩ := entry
      rw [List.foldr_cons] at h
      dsimp only at h
      rcases fromStateChange_cases blockHash blockTimestamp stateChange (asI32 position) with
        ⟨hnone, hskip⟩ | ⟨account, haccount, hpanic | ⟨row, hrow, hnumbering, htimestamp⟩⟩
      · rw [hskip] at h
        rw [List.filterMap_cons]
        simp only [hnone, Option.map_none]
        exact ih h
      · rw [hpanic] at h
        cases h
      · rw [hrow] at h
        obtain ⟨rest, hrest, rfl⟩ := Option.map_eq_some_iff.mp h
        obtain ⟨hrows, htimestamps⟩ := ih hrest
        refine ⟨?_, ?_⟩
        · rw [List.map_cons, hnumbering, hrows, List.filterMap_cons]
          simp only [haccount, Option.map_some, List.map_cons]
        · intro other hother
          rcases List.mem_cons.mp hother with rfl | hother
          · exact htimestamp
          · exact htimestamps other hother

theorem timestamp_of_mem (h : ShardRows blockHash blockTimestamp shards shardRows) :
    ∀ row ∈ shardRows.flatten, row.changedInBlockTimestamp = blockTimestamp := by
  induction h with
  | nil => exact fun row hrow => (List.not_mem_nil hrow).elim
  | cons hmodels _ ih =>
      intro row hrow
      rcases List.mem_append.mp hrow with hfirst | hrest
      · exact (numbering_models hmodels).2 row hfirst
      · exact ih row hrest

theorem indexes_eq (h : ShardRows blockHash blockTimestamp shards shardRows) :
    shardRows.flatten.map (·.indexInBlock) = shards.flatMap fun shard =>
      (accountPositions shard.stateChanges).map fun change => asI32 change.2 := by
  induction h with
  | nil => rfl
  | cons hmodels _ ih =>
      have hfirst := congrArg (List.map Prod.snd) (numbering_models hmodels).1
      simp only [List.map_map, Function.comp_def, numbering] at hfirst
      rw [List.flatten_cons, List.map_append, ih, List.flatMap_cons, hfirst]

/-- The changes of each account in a shard have increasing numbers. -/
theorem increasing_iff (h : ShardRows blockHash blockTimestamp shards shardRows) :
    (∀ rows ∈ shardRows, rows.Pairwise fun row later =>
        row.affectedAccountId = later.affectedAccountId → row.indexInBlock < later.indexInBlock) ↔
      ∀ shard ∈ shards, (accountPositions shard.stateChanges).Pairwise fun change later =>
        change.1 = later.1 → asI32 change.2 < asI32 later.2 := by
  induction h with
  | nil => exact ⟨fun _ _ hmem => (List.not_mem_nil hmem).elim, fun _ _ hmem => (List.not_mem_nil hmem).elim⟩
  | cons hmodels _ ih =>
      rw [List.forall_mem_cons, List.forall_mem_cons, ih]
      refine and_congr_left' ?_
      have hpairs := congrArg (List.Pairwise fun change later : AccountId × Int =>
        change.1 = later.1 → change.2 < later.2) (numbering_models hmodels).1
      rw [List.pairwise_map, List.pairwise_map] at hpairs
      simpa only [numbering] using iff_of_eq hpairs

end Rows

/-! ### Sorting a block -/

section Sorting

variable {blockHash : CryptoHash} {blockTimestamp : Nat} {shards : List IndexerShard}
  {shardRows : List (List AccountChange)} {rows sorted : List AccountChange}

instance (a b : AccountChange) : Decidable (SortsBefore a b) := by
  unfold SortsBefore
  infer_instance

/-- The rows of a block can be sorted. -/
theorem exists_sorting (rows : List AccountChange) :
    ∃ sorted : List AccountChange, sorted.Perm rows ∧ sorted.Pairwise SortsBefore := by
  refine ⟨rows.mergeSort (fun a b => decide (SortsBefore a b)), List.mergeSort_perm _ _, ?_⟩
  refine (List.pairwise_mergeSort ?_ ?_ rows).imp of_decide_eq_true
  · intro a b c hab hbc
    simp only [decide_eq_true_eq] at hab hbc ⊢
    unfold SortsBefore at *
    omega
  · intro a b
    simp only [Bool.or_eq_true, decide_eq_true_eq]
    unfold SortsBefore
    omega

/-- When the numbers are distinct, sorting the rows of one timestamp makes their numbers increase. -/
theorem increasing_of_sorted (htimestamps : ∀ row ∈ rows, row.changedInBlockTimestamp = blockTimestamp)
    (hdistinct : (rows.map (·.indexInBlock)).Nodup) (hperm : sorted.Perm rows)
    (hsorted : sorted.Pairwise SortsBefore) :
    sorted.Pairwise fun row later => row.indexInBlock < later.indexInBlock := by
  have hne : sorted.Pairwise fun row later => row.indexInBlock ≠ later.indexInBlock :=
    List.pairwise_map.mp ((hperm.map _).nodup_iff.mpr hdistinct)
  refine (hsorted.and hne).imp_of_mem ?_
  rintro row later hrow hlater ⟨hbefore, hne⟩
  have h := htimestamps row (hperm.mem_iff.mp hrow)
  have h' := htimestamps later (hperm.mem_iff.mp hlater)
  simp only [SortsBefore] at hbefore
  omega

instance : Std.Antisymm fun row later : AccountChange => row.indexInBlock < later.indexInBlock :=
  ⟨fun _ _ h h' => absurd h (lt_asymm h')⟩

/-- The changes of an account in a shard with increasing numbers keep their order when the block is sorted. -/
theorem sublist_of_increasing (hmem : rows ∈ shardRows) (accountId : AccountId)
    (hrows : rows.Pairwise fun row later =>
      row.affectedAccountId = later.affectedAccountId → row.indexInBlock < later.indexInBlock)
    (hperm : sorted.Perm shardRows.flatten)
    (hsorted : sorted.Pairwise fun row later => row.indexInBlock < later.indexInBlock) :
    (changesOf accountId rows).Sublist (changesOf accountId sorted) := by
  have hsub : (changesOf accountId rows).Subperm (changesOf accountId sorted) :=
    ((List.sublist_flatten_of_mem hmem).subperm.trans hperm.symm.subperm).filter _
  refine List.sublist_of_subperm_of_pairwise hsub ?_ (hsorted.sublist List.filter_sublist)
  refine List.pairwise_filter.mpr (hrows.imp ?_)
  intro row later hlt hrow hlater
  exact hlt ((of_decide_eq_true hrow).trans (of_decide_eq_true hlater).symm)

/-- Conversely, the changes that keep their order have increasing numbers. -/
theorem increasing_of_sublist
    (hsublist : ∀ accountId, (changesOf accountId rows).Sublist (changesOf accountId sorted))
    (hsorted : sorted.Pairwise fun row later => row.indexInBlock < later.indexInBlock) :
    rows.Pairwise fun row later =>
      row.affectedAccountId = later.affectedAccountId → row.indexInBlock < later.indexInBlock := by
  rw [List.pairwise_iff_forall_sublist]
  intro row later hpair hsame
  have hchanges : [row, later].Sublist (changesOf later.affectedAccountId rows) := by
    have h := hpair.filter fun change => change.affectedAccountId = later.affectedAccountId
    simpa [changesOf, hsame] using h
  have hall := hchanges.trans ((hsublist later.affectedAccountId).trans List.filter_sublist)
  exact List.pairwise_iff_forall_sublist.mp hsorted hall

/-- The rows of a block are totally ordered exactly when no two of its account changes, in whatever shards, are at the
same position of their shard's state changes. -/
theorem totally_ordered_iff (h : ShardRows blockHash blockTimestamp shards shardRows) :
    TotallyOrdered shardRows ↔ PositionsApart shards := by
  have htimestamps := timestamp_of_mem h
  constructor
  · intro ⟨hdistinct, hinOrder⟩
    refine ⟨indexes_eq h ▸ hdistinct, (increasing_iff h).mp fun rows hrows => ?_⟩
    obtain ⟨sorted, hperm, hsorted⟩ := exists_sorting shardRows.flatten
    exact increasing_of_sublist (hinOrder sorted hperm hsorted rows hrows)
      (increasing_of_sorted htimestamps hdistinct hperm hsorted)
  · intro ⟨hdistinct, hincreasing⟩
    have hindexes : (shardRows.flatten.map (·.indexInBlock)).Nodup := (indexes_eq h).symm ▸ hdistinct
    refine ⟨hindexes, ?_⟩
    intro sorted hperm hsorted rows hrows accountId
    exact sublist_of_increasing hrows accountId ((increasing_iff h).mpr hincreasing rows hrows) hperm
      (increasing_of_sorted htimestamps hindexes hperm hsorted)

/-- An account change as a receipt leaves it. -/
def accountUpdate (accountId : AccountId) (amount : Nat) : StateChangeWithCauseView where
  cause := .receiptProcessing (.ofText "receipt")
  value := .accountUpdate accountId ⟨amount, 0, 182⟩

/-- The row of such a change. -/
def updateRow (accountId : AccountId) (amount : Nat) (indexInBlock : Int) : AccountChange where
  affectedAccountId := accountId
  changedInBlockTimestamp := 5
  changedInBlockHash := .ofText "block"
  causedByTransactionHash := none
  causedByReceiptId := some (.ofText "receipt")
  updateReason := .receiptProcessing
  affectedAccountNonstakedBalance := amount
  affectedAccountStakedBalance := 0
  affectedAccountStorageUsage := 182
  indexInBlock := indexInBlock

/-- A shard with state changes alone. -/
def changesShard (shardId : Nat) (stateChanges : List StateChangeWithCauseView) : IndexerShard :=
  ⟨shardId, none, [], stateChanges⟩

/-- Two shards whose changes stand apart: that of the second comes after two changes of something else. -/
theorem totally_ordered_apart :
    TotallyOrdered [[updateRow "alice.near" 10 0, updateRow "alice.near" 20 1], [updateRow "bob.near" 30 2]] := by
  have hrows : ShardRows (.ofText "block") 5
      [changesShard 0 [accountUpdate "alice.near" 10, accountUpdate "alice.near" 20],
        changesShard 1 [⟨.migration, .other⟩, ⟨.migration, .other⟩, accountUpdate "bob.near" 30]]
      [[updateRow "alice.near" 10 0, updateRow "alice.near" 20 1], [updateRow "bob.near" 30 2]] :=
    .cons rfl (.cons rfl .nil)
  exact (totally_ordered_iff hrows).mpr ⟨by decide, by decide⟩

/-- The first changes of two shards have the same number. -/
theorem first_changes_collide :
    ¬ ∀ (shards : List IndexerShard) (blockHash : CryptoHash) (blockTimestamp : Nat)
      (shardRows : List (List AccountChange)), ShardRows blockHash blockTimestamp shards shardRows →
        TotallyOrdered shardRows := by
  intro h
  have hordered := h [changesShard 0 [accountUpdate "alice.near" 10], changesShard 1 [accountUpdate "bob.near" 30]]
    (.ofText "block") 5 [[updateRow "alice.near" 10 0], [updateRow "bob.near" 30 0]] (.cons rfl (.cons rfl .nil))
  exact absurd hordered.distinct (by decide)

end Sorting

/-! ### Positions that fit -/

section Fitting

variable {shards : List IndexerShard}

/-- The positions increase, and stay below the number of state changes. -/
theorem accountPositions_increasing (stateChanges : List StateChangeWithCauseView) :
    (accountPositions stateChanges).Pairwise (fun change later => change.2 < later.2) ∧
      ∀ change ∈ accountPositions stateChanges, change.2 < stateChanges.length := by
  unfold accountPositions
  constructor
  · have hzip : (stateChanges.zipIdx.map Prod.snd).Pairwise (· < ·) := by
      rw [List.zipIdx_map_snd]
      exact List.pairwise_lt_range'
    refine List.pairwise_filterMap.mpr ((List.pairwise_map.mp hzip).imp ?_)
    intro entry later hlt change hchange laterChange hlater
    obtain ⟨_, _, rfl⟩ := Option.map_eq_some_iff.mp hchange
    obtain ⟨_, _, rfl⟩ := Option.map_eq_some_iff.mp hlater
    exact hlt
  · intro change hmem
    obtain ⟨entry, hentry, hchange⟩ := List.mem_filterMap.mp hmem
    obtain ⟨_, _, rfl⟩ := Option.map_eq_some_iff.mp hchange
    simpa using List.snd_lt_of_mem_zipIdx hentry

/-- When the positions fit 32 bits, the only condition is that no position holds an account change in two shards. -/
theorem positionsApart_iff (hlength : ∀ shard ∈ shards, shard.stateChanges.length ≤ 2147483648) :
    PositionsApart shards ↔
      (shards.flatMap fun shard => (accountPositions shard.stateChanges).map (·.2)).Nodup := by
  have hfits : ∀ shard ∈ shards, ∀ change ∈ accountPositions shard.stateChanges, asI32 change.2 = change.2 := by
    intro shard hshard change hchange
    have hbound := (accountPositions_increasing shard.stateChanges).2 change hchange
    exact asI32_of_lt (lt_of_lt_of_le hbound (hlength shard hshard))
  have hnumbers :
      (shards.flatMap fun shard => (accountPositions shard.stateChanges).map fun change => asI32 change.2) =
      (shards.flatMap fun shard => (accountPositions shard.stateChanges).map (·.2)).map Nat.cast := by
    rw [List.map_flatMap]
    refine List.flatMap_congr fun shard hshard => ?_
    rw [List.map_map]
    exact List.map_congr_left (hfits shard hshard)
  constructor
  · intro ⟨hdistinct, _⟩
    rw [hnumbers] at hdistinct
    exact hdistinct.of_map
  · intro hdistinct
    refine ⟨hnumbers ▸ hdistinct.map fun _ _ => Int.ofNat.inj, fun shard hshard => ?_⟩
    refine (accountPositions_increasing shard.stateChanges).1.imp_of_mem ?_
    intro change later hchange hlater hlt _
    rw [hfits shard hshard change hchange, hfits shard hshard later hlater]
    exact_mod_cast hlt

end Fitting

end ExplorerIndexer.AccountChanges

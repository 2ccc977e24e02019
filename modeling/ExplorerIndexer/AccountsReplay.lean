import ExplorerIndexer.AccountsRefinement

/-! Crashes and restarts of the accounts handler. Whatever happens between the blocks and inside of them, a
row is always where the uninterrupted run has it after the blocks that were handled so far, or one block
further; handling a block again changes nothing. -/

namespace ExplorerIndexer.Accounts

open Async Store Models

/-- How many blocks have been handled to their end, the index of the block that comes next, and the state. -/
structure Progress where
  handled : Nat
  next : Nat
  world : World

inductive ProgressStep (blocks : List BlockOutcomes) : Progress → Progress → Prop
  | handle {handled next : Nat} {w w' : World} {block : BlockOutcomes}
      (hblock : blocks[next]? = some block) (hrun : Finishes (handleBlockAccounts block) w () w') :
      ProgressStep blocks ⟨handled, next, w⟩ ⟨max handled (next + 1), next + 1, w'⟩
  /-- The handler of a block is cut off somewhere and the indexer restarts, with another cache. -/
  | interrupt {handled next restart : Nat} {w w' w'' : World} {block : BlockOutcomes}
      {p : Prog World Unit} {events : List Event} (hblock : blocks[next]? = some block)
      (hrun : Steps (handleBlockAccounts block) w events p w') (hrestart : restart ≤ handled)
      (hdb : w''.db = w'.db) : ProgressStep blocks ⟨handled, next, w⟩ ⟨handled, restart, w''⟩
  /-- The indexer restarts between two blocks. -/
  | restart {handled next restart : Nat} {w w' : World} (hrestart : restart ≤ handled)
      (hdb : w'.db = w.db) : ProgressStep blocks ⟨handled, next, w⟩ ⟨handled, restart, w'⟩

abbrev Progresses (blocks : List BlockOutcomes) : Progress → Progress → Prop :=
  Relation.ReflTransGen (ProgressStep blocks)

/-! ### The uninterrupted run -/

def blockEffect (accountId : AccountId) (block : BlockOutcomes) (x : Option Account) : Option Account :=
  callEffect block.blockHeight (entryOf accountId block.blockHeight (successfulActions block.outcomes)) x

/-- The row of an account after some blocks. -/
def rowAfter (accountId : AccountId) (blocks : List BlockOutcomes) (x : Option Account) : Option Account :=
  blocks.foldl (fun x block => blockEffect accountId block x) x

theorem guarded_block (accountId : AccountId) (block : BlockOutcomes) :
    Guarded Account.lastUpdateBlockHeight block.blockHeight (blockEffect accountId block) :=
  guarded_call accountId block.blockHeight _

theorem row_after_blocks {blocks : List BlockOutcomes} {w w' : World}
    (hrun : InOrder handleBlockAccounts w blocks w') (accountId : AccountId) :
    w'.db.accounts.lookup accountId = rowAfter accountId blocks (w.db.accounts.lookup accountId) := by
  induction hrun with
  | nil => rfl
  | cons hblock _ ih =>
      rw [ih, row_after_call hblock accountId]
      rfl

section Replay

variable {blocks : List BlockOutcomes} {accountId : AccountId} {x : Option Account}

theorem rowAfter_take_succ {block : BlockOutcomes} {n : Nat} (hblock : blocks[n]? = some block) :
    rowAfter accountId (blocks.take (n + 1)) x =
      blockEffect accountId block (rowAfter accountId (blocks.take n) x) := by
  rw [rowAfter, List.take_add_one, hblock, List.foldl_append]
  rfl

/-- A block that was handled changes nothing any more. -/
theorem blockEffect_handled (hheights : blocks.Pairwise fun b b' => b.blockHeight < b'.blockHeight)
    {block : BlockOutcomes} {k : Nat} (hblock : blocks[k]? = some block) (n : Nat) (hlt : k < n) :
    blockEffect accountId block (rowAfter accountId (blocks.take n) x) =
      rowAfter accountId (blocks.take n) x := by
  induction n, hlt using Nat.le_induction with
  | base =>
      rw [rowAfter_take_succ hblock]
      exact (guarded_block accountId block).twice _
  | succ n hn ih =>
      cases hlater : blocks[n]? with
      | none =>
          have hlength : blocks.length ≤ n := List.getElem?_eq_none_iff.mp hlater
          rw [List.take_of_length_le hlength] at ih
          rwa [List.take_of_length_le (Nat.le_succ_of_le hlength)]
      | some later =>
          rw [rowAfter_take_succ hlater]
          obtain ⟨hk, rfl⟩ := List.getElem?_eq_some_iff.mp hblock
          obtain ⟨hn', rfl⟩ := List.getElem?_eq_some_iff.mp hlater
          have hheight := List.pairwise_iff_getElem.mp hheights k n hk hn' hn
          exact (guarded_block accountId _).after_later (guarded_block accountId _) (Nat.le_of_lt hheight) ih

end Replay

/-! ### The invariant -/

/-- No row is behind the blocks that were handled, nor more than one block ahead of them. -/
structure UpToDate (blocks : List BlockOutcomes) (accounts : Table AccountId Account) (s : Progress) :
    Prop where
  next_le : s.next ≤ s.handled
  handled_le : s.handled ≤ blocks.length
  row : ∀ accountId,
    s.world.db.accounts.lookup accountId =
        rowAfter accountId (blocks.take s.handled) (accounts.lookup accountId) ∨
      s.world.db.accounts.lookup accountId =
        rowAfter accountId (blocks.take (s.handled + 1)) (accounts.lookup accountId)

section Invariant

variable {blocks : List BlockOutcomes} {accounts : Table AccountId Account} {s s' : Progress}

theorem UpToDate.handled_idle (hheights : blocks.Pairwise fun b b' => b.blockHeight < b'.blockHeight)
    (h : UpToDate blocks accounts s) {block : BlockOutcomes} {k : Nat} (hblock : blocks[k]? = some block)
    (hlt : k < s.handled) (accountId : AccountId) :
    blockEffect accountId block (s.world.db.accounts.lookup accountId) =
      s.world.db.accounts.lookup accountId := by
  rcases h.row accountId with hrow | hrow
  · rw [hrow, blockEffect_handled hheights hblock _ hlt]
  · rw [hrow, blockEffect_handled hheights hblock _ (Nat.lt_succ_of_lt hlt)]

/-- The block that comes next brings every row to where the uninterrupted run has it. -/
theorem UpToDate.next_row (hheights : blocks.Pairwise fun b b' => b.blockHeight < b'.blockHeight)
    (h : UpToDate blocks accounts s) {block : BlockOutcomes} (hblock : blocks[s.handled]? = some block)
    (accountId : AccountId) :
    blockEffect accountId block (s.world.db.accounts.lookup accountId) =
      rowAfter accountId (blocks.take (s.handled + 1)) (accounts.lookup accountId) := by
  rcases h.row accountId with hrow | hrow
  · rw [hrow, rowAfter_take_succ hblock]
  · rw [hrow, blockEffect_handled hheights hblock _ (Nat.lt_succ_self _)]

theorem UpToDate.step (hheights : blocks.Pairwise fun b b' => b.blockHeight < b'.blockHeight)
    (h : UpToDate blocks accounts s) (hstep : ProgressStep blocks s s') : UpToDate blocks accounts s' := by
  cases hstep with
  | @handle handled next w w' block hblock hrun =>
      have hnext : next < blocks.length := (List.getElem?_eq_some_iff.mp hblock).choose
      rcases Nat.lt_or_eq_of_le h.next_le with hlt | heq
      · -- the block was handled before
        have hhandled : max handled (next + 1) = handled := Nat.max_eq_left hlt
        refine ⟨by simpa only [hhandled] using Nat.succ_le_of_lt hlt, by simpa only [hhandled] using h.handled_le,
          fun accountId => ?_⟩
        rw [hhandled]
        have hsame : w'.db.accounts.lookup accountId = w.db.accounts.lookup accountId :=
          (row_after_call hrun accountId).trans (h.handled_idle hheights hblock hlt accountId)
        simpa only [hsame] using h.row accountId
      · obtain rfl : next = handled := heq
        have hhandled : max next (next + 1) = next + 1 := Nat.max_eq_right (Nat.le_succ next)
        refine ⟨by simp, by simpa only [hhandled] using Nat.succ_le_of_lt hnext, fun accountId => .inl ?_⟩
        rw [hhandled]
        exact (row_after_call hrun accountId).trans (h.next_row hheights hblock accountId)
  | @interrupt handled next restart w w' w'' block p events hblock hrun hrestart hdb =>
      refine ⟨hrestart, h.handled_le, fun accountId => ?_⟩
      show w''.db.accounts.lookup accountId = _ ∨ w''.db.accounts.lookup accountId = _
      rw [hdb]
      have hpart : w'.db.accounts.lookup accountId = w.db.accounts.lookup accountId ∨
          w'.db.accounts.lookup accountId = blockEffect accountId block (w.db.accounts.lookup accountId) :=
        row_after_interruption hrun accountId
      rcases hpart with hsame | hdone
      · simpa only [hsame] using h.row accountId
      · rcases Nat.lt_or_eq_of_le h.next_le with hlt | heq
        · simpa only [hdone, h.handled_idle hheights hblock hlt accountId] using h.row accountId
        · obtain rfl : next = handled := heq
          exact .inr (hdone.trans (h.next_row hheights hblock accountId))
  | @restart handled next restart w w' hrestart hdb =>
      refine ⟨hrestart, h.handled_le, fun accountId => ?_⟩
      simpa only [hdb] using h.row accountId

theorem upToDate_start (blocks : List BlockOutcomes) (w : World) :
    UpToDate blocks w.db.accounts ⟨0, 0, w⟩ where
  next_le := Nat.le_refl 0
  handled_le := Nat.zero_le _
  row _ := .inl rfl

theorem upToDate_of_progresses (hheights : blocks.Pairwise fun b b' => b.blockHeight < b'.blockHeight)
    {w : World} (hrun : Progresses blocks ⟨0, 0, w⟩ s) : UpToDate blocks w.db.accounts s := by
  induction hrun with
  | refl => exact upToDate_start blocks w
  | tail _ hstep ih => exact ih.step hheights hstep

end Invariant

/-- However often the indexer was interrupted, once it is through with all blocks the accounts are those of
the uninterrupted run, and handling a handled block again changes no row. -/
theorem accounts_survive_interruptions {blocks : List BlockOutcomes} {w once : World} {s : Progress}
    (hheights : blocks.Pairwise fun b b' => b.blockHeight < b'.blockHeight)
    (honce : InOrder handleBlockAccounts w blocks once) (hrun : Progresses blocks ⟨0, 0, w⟩ s) :
    (s.next = blocks.length →
      ∀ accountId, s.world.db.accounts.lookup accountId = once.db.accounts.lookup accountId) ∧
    ∀ k block w', k < s.handled → blocks[k]? = some block →
      Finishes (handleBlockAccounts block) s.world () w' →
      ∀ accountId, w'.db.accounts.lookup accountId = s.world.db.accounts.lookup accountId := by
  have hinv := upToDate_of_progresses hheights hrun
  constructor
  · intro hend accountId
    have hall : blocks.length ≤ s.handled := hend ▸ hinv.next_le
    have hrow := hinv.row accountId
    rw [List.take_of_length_le hall, List.take_of_length_le (Nat.le_succ_of_le hall), or_self] at hrow
    rw [hrow, row_after_blocks honce accountId]
  · intro k block w' hlt hblock hagain accountId
    exact (row_after_call hagain accountId).trans (hinv.handled_idle hheights hblock hlt accountId)

theorem accounts_survive_interruptions_recreated :
    ∃ once s, InOrder handleBlockAccounts { cache := .withSize 1, db := {} } recreatedAccount once ∧
      Progresses recreatedAccount ⟨0, 0, { cache := .withSize 1, db := {} }⟩ s ∧ s.handled = 2 ∧
      ∀ accountId, s.world.db.accounts.lookup accountId = once.db.accounts.lookup accountId := by
  have honce : InOrder handleBlockAccounts { cache := .withSize 1, db := {} } recreatedAccount _ :=
    .cons (finishes_after 1 (by decide)) (.cons (finishes_after 1 (by decide)) .nil)
  -- both blocks are cut between the insert and the updates, and both are handled again
  have hrun : Progresses recreatedAccount ⟨0, 0, { cache := .withSize 1, db := {} }⟩ _ :=
    .tail (.tail (.tail (.tail .refl
      (.interrupt rfl (.head (.anyOrder (.refl _)) (.head (.joinRight (.queryDone nofun rfl)) .refl))
        (Nat.le_refl 0) rfl))
      (.handle rfl (finishes_after 1 (by decide))))
      (.interrupt rfl (.head (.anyOrder (.refl _)) (.head (.joinRight (.queryDone nofun rfl)) .refl))
        (Nat.zero_le 1) rfl))
      (.handle rfl (finishes_after 1 (by decide)))
  have hagain : Progresses recreatedAccount ⟨0, 0, { cache := .withSize 1, db := {} }⟩ _ :=
    .tail hrun (.handle rfl (finishes_after 1 (by decide)))
  exact ⟨_, _, honce, hagain, rfl, (accounts_survive_interruptions (by decide) honce hagain).1 rfl⟩

end ExplorerIndexer.Accounts

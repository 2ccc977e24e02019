import ExplorerIndexer.BlockOrder

/-! Who created an implicit account. On the chain only the first transfer to the account creates it, and again
the first one after a deletion. The adapter keeps the creator of a live row when the block ends with the account
undeleted; a block that does more to the account is written with the receipt of its last transfer. -/

namespace ExplorerIndexer.Accounts

open Async Store Models
open BlockOrder (createsAccount touchesAccount accountAction accountLifespan lifespan_call)

/-! ### The account on the chain -/

/-- The receipt that brought an account into existence, and whether it still exists. -/
structure OnChain where
  creator : Option CryptoHash
  alive : Bool
  deriving DecidableEq

namespace OnChain

/-- What is known of an account that may never have existed. -/
def creatorOf (account : Option OnChain) : Option CryptoHash := account.bind (·.creator)

def aliveIn (account : Option OnChain) : Bool := account.any (·.alive)

def deleted (account : OnChain) : OnChain := { account with alive := false }

/-- One successful action. A transfer to an account that exists changes nothing. -/
def step (accountId : AccountId) (account : Option OnChain) (step : ReceiptView × ActionView) : Option OnChain :=
  if createsAccount accountId step then
    if aliveIn account then account else some ⟨some step.1.receiptId, true⟩
  else if deletesAccount accountId step then account.map deleted
  else account

/-- The account after the steps. -/
def after (accountId : AccountId) (steps : List (ReceiptView × ActionView)) (account : Option OnChain) :
    Option OnChain :=
  steps.foldl (step accountId) account

/-- The account after the successful actions of the blocks. -/
def afterBlocks (accountId : AccountId) (blocks : List BlockOutcomes) (account : Option OnChain) :
    Option OnChain :=
  blocks.foldl (fun account block => after accountId (successfulActions block.outcomes) account) account

section After

variable {accountId : AccountId} {steps : List (ReceiptView × ActionView)} {account : Option OnChain}

theorem after_append (accountId : AccountId) (steps : List (ReceiptView × ActionView))
    (last : ReceiptView × ActionView) (account : Option OnChain) :
    after accountId (steps ++ [last]) account = step accountId (after accountId steps account) last := by
  rw [after, List.foldl_append]
  rfl

theorem step_creates {last : ReceiptView × ActionView} (h : createsAccount accountId last = true) :
    (step accountId account last).isSome = true ∧ aliveIn (step accountId account last) = true := by
  rw [step, if_pos h]
  cases halive : aliveIn account with
  | true =>
      refine ⟨?_, halive⟩
      cases account with
      | none => cases halive
      | some existing => rfl
  | false => exact ⟨rfl, rfl⟩

theorem step_deletes {last : ReceiptView × ActionView} (hcreates : createsAccount accountId last = false)
    (hdeletes : deletesAccount accountId last = true) :
    step accountId account last = account.map deleted := by
  rw [step, if_neg (Bool.eq_false_iff.mp hcreates), if_pos hdeletes]

theorem step_other {last : ReceiptView × ActionView} (h : touchesAccount accountId last = false) :
    step accountId account last = account := by
  obtain ⟨hcreates, hdeletes⟩ := Bool.or_eq_false_iff.mp h
  rw [step, if_neg (Bool.eq_false_iff.mp hcreates), if_neg (Bool.eq_false_iff.mp hdeletes)]

theorem aliveIn_map_deleted (account : Option OnChain) : aliveIn (account.map deleted) = false := by
  cases account <;> rfl

/-- The account exists after the steps if the last of them that touched it created it. -/
theorem aliveIn_after (accountId : AccountId) (steps : List (ReceiptView × ActionView))
    (account : Option OnChain) :
    aliveIn (after accountId steps account) =
      ((lastStep (touchesAccount accountId) steps).map (createsAccount accountId)).getD (aliveIn account) := by
  induction steps using List.reverseRecOn with
  | nil => rfl
  | append_singleton steps last ih =>
      rw [after_append, lastStep_append]
      cases htouches : touchesAccount accountId last with
      | false =>
          rw [step_other htouches, ih]
          rfl
      | true =>
          cases hcreates : createsAccount accountId last with
          | true => simp [(step_creates hcreates).2, hcreates]
          | false =>
              have hdeletes : deletesAccount accountId last = true := by
                rwa [touchesAccount, hcreates, Bool.false_or] at htouches
              simp [step_deletes hcreates hdeletes, aliveIn_map_deleted, hcreates]

/-- Without a creation the steps only delete. -/
theorem after_of_no_creation (h : lastReceipt (createsAccount accountId) steps = none) :
    after accountId steps account =
      if (lastStep (touchesAccount accountId) steps).isSome then account.map deleted else account := by
  induction steps using List.reverseRecOn with
  | nil => rfl
  | append_singleton steps last ih =>
      rw [lastReceipt_append] at h
      cases hcreates : createsAccount accountId last with
      | true => simp [hcreates] at h
      | false =>
          simp only [hcreates, Bool.false_eq_true, if_false] at h
          rw [after_append, ih h, lastStep_append]
          cases htouches : touchesAccount accountId last with
          | false =>
              rw [step_other htouches]
              rfl
          | true =>
              have hdeletes : deletesAccount accountId last = true := by
                rwa [touchesAccount, hcreates, Bool.false_or] at htouches
              rw [step_deletes hcreates hdeletes]
              cases account <;> cases (lastStep (touchesAccount accountId) steps).isSome <;> rfl

theorem isSome_after_of_creation {created : CryptoHash}
    (h : lastReceipt (createsAccount accountId) steps = some created) :
    (after accountId steps account).isSome = true := by
  induction steps using List.reverseRecOn with
  | nil => cases h
  | append_singleton steps last ih =>
      rw [after_append]
      rw [lastReceipt_append] at h
      cases hcreates : createsAccount accountId last with
      | true => exact (step_creates hcreates).1
      | false =>
          simp only [hcreates, Bool.false_eq_true, if_false] at h
          cases hdeletes : deletesAccount accountId last with
          | true => rw [step_deletes hcreates hdeletes, Option.isSome_map, ih h]
          | false => rw [step_other (by rw [touchesAccount, hcreates, hdeletes]; rfl), ih h]

theorem eq_some_iff {account : Option OnChain} (h : account.isSome = true) (row : OnChain) :
    some row = account ↔ row.alive = aliveIn account ∧ creatorOf account = row.creator := by
  obtain ⟨⟨creator, alive⟩, rfl⟩ := Option.isSome_iff_exists.mp h
  obtain ⟨creator', alive'⟩ := row
  simp only [Option.some.injEq, mk.injEq, aliveIn, creatorOf, Option.any_some, Option.bind_some]
  exact ⟨fun heq => ⟨heq.2, heq.1.symm⟩, fun heq => ⟨heq.2.symm, heq.1⟩⟩

end After

end OnChain

/-! ### The row of the account -/

open OnChain

def onChainOf (row : Account) : OnChain := ⟨row.createdByReceiptId, row.deletedByReceiptId.isNone⟩

/-- A block that leaves the row of an implicit account with the right creator: it creates nothing, or the account
exists before and after it with the same creator, or its last creation is the one that counts. -/
def KeepsCreator (accountId : AccountId) (account : Option OnChain) (steps : List (ReceiptView × ActionView)) :
    Prop :=
  ∀ created, lastReceipt (createsAccount accountId) steps = some created →
    creatorOf (after accountId steps account) =
      if aliveIn account && aliveIn (after accountId steps account) then creatorOf account else some created

instance (accountId : AccountId) (account : Option OnChain) (steps : List (ReceiptView × ActionView)) :
    Decidable (KeepsCreator accountId account steps) :=
  inferInstanceAs (Decidable (∀ created ∈ lastReceipt (createsAccount accountId) steps, _ = _))

section Block

variable {accountId : AccountId} {blockHeight : Nat} {steps : List (ReceiptView × ActionView)}
  {x : Option Account}

theorem map_onChainOf (x : Option Account) :
    x.map onChainOf = (x.map accountLifespan).map fun row => ⟨row.created, row.deleted.isNone⟩ := by
  rw [Option.map_map]
  rfl

theorem live_iff_aliveIn (x : Option Account) :
    Live (x.map accountLifespan) ↔ aliveIn (x.map onChainOf) = true := by
  cases x with
  | none => simp [Live, aliveIn]
  | some row => simp [Live, aliveIn, onChainOf, accountLifespan]

theorem exists_lastStep_of_creation {created : CryptoHash}
    (h : lastReceipt (createsAccount accountId) steps = some created) :
    ∃ last, lastStep (touchesAccount accountId) steps = some last := by
  refine Option.ne_none_iff_exists'.mp fun hnone => ?_
  obtain ⟨step, hmem, hcreates, _⟩ := mem_of_lastReceipt h
  have htouches := lastStep_eq_none.mp hnone step hmem
  rw [touchesAccount, hcreates] at htouches
  cases htouches

/-- A block leaves the row with what the chain has exactly if it keeps the creator. -/
theorem block_keeps_iff (hlen : accountId.len = 64)
    (hold : ∀ row, x = some row → row.lastUpdateBlockHeight < blockHeight) :
    (callEffect blockHeight (entryOf accountId blockHeight steps) x).map onChainOf =
        after accountId steps (x.map onChainOf) ↔
      KeepsCreator accountId (x.map onChainOf) steps := by
  have hold' : ∀ row, x.map accountLifespan = some row → row.version < blockHeight := by
    intro row hrow
    obtain ⟨row', hrow', rfl⟩ := Option.map_eq_some_iff.mp hrow
    exact hold row' hrow'
  rw [map_onChainOf (callEffect _ _ _), lifespan_call]
  unfold accountAction KeepsCreator
  cases hcreated : lastReceipt (createsAccount accountId) steps with
  | none =>
      rw [after_of_no_creation hcreated]
      simp only [reduceCtorEq, false_implies, implies_true, iff_true]
      cases hlast : lastStep (touchesAccount accountId) steps with
      | none => exact (map_onChainOf x).symm
      | some last =>
          -- the block only deletes
          cases x with
          | none => rfl
          | some row => simp [LifeAction.effect, accountLifespan, onChainOf, deleted, hold row rfl]
  | some created =>
      obtain ⟨last, hlast⟩ := exists_lastStep_of_creation hcreated
      have hsome : (after accountId steps (x.map onChainOf)).isSome = true := isSome_after_of_creation hcreated
      have halive : aliveIn (after accountId steps (x.map onChainOf)) = createsAccount accountId last := by
        rw [aliveIn_after, hlast]
        rfl
      simp only [hlast, Option.some.injEq, forall_eq', hlen, if_true, halive]
      cases hcreates : createsAccount accountId last with
      | true =>
          by_cases hlive : aliveIn (x.map onChainOf) = true
          · -- a live row stays as it is
            obtain ⟨row, rfl⟩ : ∃ row, x = some row := by
              cases x with
              | none => cases hlive
              | some row => exact ⟨row, rfl⟩
            have hlive' : (onChainOf row).alive = true := hlive
            rw [if_pos rfl, LifeAction.revive_live created ((live_iff_aliveIn _).mpr hlive), ← map_onChainOf]
            rw [Option.map_some] at hsome halive hlive ⊢
            rw [eq_some_iff hsome, halive, hcreates, hlive]
            simp [hlive', creatorOf]
          · rw [if_pos rfl, LifeAction.revive_old created (fun h => hlive ((live_iff_aliveIn _).mp h)) hold']
            rw [Option.map_some, eq_some_iff hsome, halive, hcreates]
            simp [hlive]
      | false =>
          rw [if_neg Bool.false_ne_true, LifeAction.overwrite_old created _ hold', Option.map_some,
            eq_some_iff hsome, halive, hcreates]
          simp

/-- Without a deletion a block leaves the row of an existing account as it is. -/
theorem block_idle (hlen : accountId.len = 64) (hlive : aliveIn (x.map onChainOf) = true)
    (hnone : ∀ step ∈ steps, deletesAccount accountId step = false) :
    callEffect blockHeight (entryOf accountId blockHeight steps) x = x := by
  obtain ⟨row, rfl⟩ : ∃ row, x = some row := by
    cases x with
    | none => cases hlive
    | some row => exact ⟨row, rfl⟩
  cases hentry : entryOf accountId blockHeight steps with
  | none => rfl
  | some entry =>
      have hcolumns := BlockOrder.entryOf_columns accountId blockHeight steps
      rw [hentry, Option.map_some] at hcolumns
      obtain ⟨last, hlast, hpair⟩ := Option.map_eq_some_iff.mp hcolumns.symm
      -- the last step that touched the account created it
      have hcreates : createsAccount accountId last = true := by
        obtain ⟨hmem, htouches⟩ := mem_of_lastStep hlast
        rwa [touchesAccount, hnone last hmem, Bool.or_false] at htouches
      have hdeleted : entry.deletedByReceiptId = none := by
        rw [if_pos hcreates] at hpair
        exact (congrArg Prod.snd hpair).symm
      have hwell := wellFormed_entryOf hentry
      have himplicit : isImplicitToRecreate entry = true := by
        simp [isImplicitToRecreate, hwell.account, hlen, hdeleted]
      have hrow : row.deletedByReceiptId.isSome = false := by
        have hnull : row.deletedByReceiptId.isNone = true := hlive
        rw [Option.isNone_iff_eq_none.mp hnull, Option.isSome_none]
      cases hc : entry.createdByReceiptId with
      | none => exact absurd hdeleted (hwell.touched hc)
      | some created => simp [callEffect, hc, himplicit, hrow]

end Block

/-! ### Runs -/

/-- After every block the row of the account is as the chain has it, and blocks without a deletion leave the
row of an existing account as it is. -/
structure CreatorKept (accountId : AccountId) (blocks : List BlockOutcomes) (w : World) : Prop where
  row : ∀ n w', InOrder handleBlockAccounts w (blocks.take n) w' →
    (w'.db.accounts.lookup accountId).map onChainOf =
      afterBlocks accountId (blocks.take n) ((w.db.accounts.lookup accountId).map onChainOf)
  unchanged : ∀ n block w' w'', blocks[n]? = some block → InOrder handleBlockAccounts w (blocks.take n) w' →
    Finishes (handleBlockAccounts block) w' () w'' →
    aliveIn (afterBlocks accountId (blocks.take n) ((w.db.accounts.lookup accountId).map onChainOf)) = true →
    (∀ step ∈ successfulActions block.outcomes, deletesAccount accountId step = false) →
    w''.db.accounts.lookup accountId = w'.db.accounts.lookup accountId

section Runs

variable {accountId : AccountId} {blocks : List BlockOutcomes} {w w' : World} {x : Option Account}

theorem afterBlocks_take_succ {block : BlockOutcomes} {n : Nat} (hblock : blocks[n]? = some block)
    (account : Option OnChain) :
    afterBlocks accountId (blocks.take (n + 1)) account =
      after accountId (successfulActions block.outcomes) (afterBlocks accountId (blocks.take n) account) := by
  rw [afterBlocks, List.take_add_one, hblock, List.foldl_append]
  rfl

/-- The blocks before one leave rows that are older than it. -/
theorem rowAfter_older {blockHeight : Nat} (hblocks : ∀ block ∈ blocks, block.blockHeight < blockHeight)
    (hold : ∀ row, x = some row → row.lastUpdateBlockHeight < blockHeight) :
    ∀ row, rowAfter accountId blocks x = some row → row.lastUpdateBlockHeight < blockHeight := by
  induction blocks generalizing x with
  | nil => exact hold
  | cons block blocks ih =>
      refine ih (fun later hlater => hblocks later (List.mem_cons_of_mem _ hlater)) fun row hrow => ?_
      rcases (guarded_block accountId block).stamped x with hsame | ⟨r, hr, hheight⟩
      · exact hold row (hsame ▸ hrow)
      · obtain rfl := Option.some.inj (hrow.symm.trans hr)
        rw [hheight]
        exact hblocks block List.mem_cons_self

theorem older_than_block (accountId : AccountId)
    (hheights : blocks.Pairwise fun b b' => b.blockHeight < b'.blockHeight)
    (hold : ∀ block ∈ blocks, ∀ row, x = some row → row.lastUpdateBlockHeight < block.blockHeight) {n : Nat}
    {block : BlockOutcomes} (hblock : blocks[n]? = some block) :
    ∀ row, rowAfter accountId (blocks.take n) x = some row → row.lastUpdateBlockHeight < block.blockHeight := by
  obtain ⟨hn, rfl⟩ := List.getElem?_eq_some_iff.mp hblock
  refine rowAfter_older (fun earlier hearlier => ?_) (hold _ (List.getElem_mem hn))
  obtain ⟨i, hi, rfl⟩ := List.mem_take_iff_getElem.mp hearlier
  exact List.pairwise_iff_getElem.mp hheights i n _ hn (Nat.lt_min.mp hi).1

/-- The creator of an implicit account is kept through a run exactly if every block keeps it. -/
theorem implicit_creator_kept_iff (hlen : accountId.len = 64)
    (hrun : InOrder handleBlockAccounts w blocks w')
    (hheights : blocks.Pairwise fun b b' => b.blockHeight < b'.blockHeight)
    (hold : ∀ block ∈ blocks, ∀ row ∈ w.db.accounts.rows, row.lastUpdateBlockHeight < block.blockHeight) :
    CreatorKept accountId blocks w ↔ ∀ n block, blocks[n]? = some block →
      KeepsCreator accountId
        (afterBlocks accountId (blocks.take n) ((w.db.accounts.lookup accountId).map onChainOf))
        (successfulActions block.outcomes) := by
  have holder := fun n block (hblock : blocks[n]? = some block) =>
    older_than_block accountId hheights (fun block hblock row hrow =>
      hold block hblock row (Table.mem_rows_iff_lookup.mpr ⟨accountId, hrow⟩)) hblock
  have hprefix : ∀ n, ∃ wn, InOrder handleBlockAccounts w (blocks.take n) wn := by
    intro n
    rw [← List.take_append_drop n blocks] at hrun
    obtain ⟨wn, hfirst, _⟩ := hrun.of_append
    exact ⟨wn, hfirst⟩
  constructor
  · intro hkept n block hblock
    obtain ⟨wn, hwn⟩ := hprefix n
    obtain ⟨wm, hwm⟩ := hprefix (n + 1)
    have hrow := hkept.row n wn hwn
    have hnext := hkept.row (n + 1) wm hwm
    rw [row_after_blocks hwn] at hrow
    rw [row_after_blocks hwm, rowAfter_take_succ hblock, afterBlocks_take_succ hblock, ← hrow] at hnext
    rw [← hrow]
    exact (block_keeps_iff hlen (holder n block hblock)).mp hnext
  · intro hkeeps
    have hrows : ∀ n, (rowAfter accountId (blocks.take n) (w.db.accounts.lookup accountId)).map onChainOf =
        afterBlocks accountId (blocks.take n) ((w.db.accounts.lookup accountId).map onChainOf) := by
      intro n
      induction n with
      | zero => rfl
      | succ n ih =>
          cases hblock : blocks[n]? with
          | none =>
              have hlength : blocks.length ≤ n := List.getElem?_eq_none_iff.mp hblock
              rw [List.take_of_length_le hlength] at ih
              rwa [List.take_of_length_le (Nat.le_succ_of_le hlength)]
          | some block =>
              have hblockKeeps := hkeeps n block hblock
              rw [← ih] at hblockKeeps
              rw [rowAfter_take_succ hblock, afterBlocks_take_succ hblock, ← ih]
              exact (block_keeps_iff hlen (holder n block hblock)).mpr hblockKeeps
    refine ⟨fun n wn hwn => ?_, fun n block wn wm hblock hwn hfinish halive hnone => ?_⟩
    · rw [row_after_blocks hwn]
      exact hrows n
    · rw [← hrows n, ← row_after_blocks hwn] at halive
      exact (row_after_call hfinish accountId).trans (block_idle hlen halive hnone)

end Runs

def implicitAccount : AccountId := "98793cd91a3f870fb126f66285808c7e094afcfc4eda8a970f6648cdf0dbd6de"

def transferTo (receiptId : CryptoHash) : IndexerExecutionOutcomeWithReceipt :=
  .plain (.ofText "b") (.plain receiptId implicitAccount [.transfer 1]) []

theorem implicit_creator_kept_next_block :
    CreatorKept implicitAccount [⟨7, [transferTo (.ofText "r1")]⟩, ⟨8, [transferTo (.ofText "r2")]⟩]
      { cache := .withSize 1, db := {} } := by
  refine (implicit_creator_kept_iff (by decide) (.cons (finishes_after 1 (by decide))
    (.cons (finishes_after 1 (by decide)) .nil)) (by decide) (by decide)).mpr fun n block hblock => ?_
  match n, hblock with
  | 0, hblock =>
      cases hblock
      decide
  | 1, hblock =>
      cases hblock
      decide

/-- The second transfer in the block that creates the account is taken for its creation. -/
theorem second_transfer_replaces_creator :
    ¬ CreatorKept implicitAccount [⟨7, [transferTo (.ofText "r1"), transferTo (.ofText "r2")]⟩]
      { cache := .withSize 1, db := {} } := by
  intro hkept
  have hrow := hkept.row 1 _ (.cons (finishes_after 1 (by decide)) .nil)
  revert hrow
  decide

end ExplorerIndexer.Accounts

import ExplorerIndexer.AccessKeysLives

/-! Cutting the receipts of a chain into blocks. Within a block a deletion rewrites the entries in memory; across
blocks it goes through the sweep, which only marks live rows. A cut ends with the removals of the chain as long as no
block deletes a key and then its account, or adds a key that was live again and then deletes its account. -/

namespace ExplorerIndexer.AccessKeys

open Async Store Models
open Accounts (successfulReceipts successfulActions deletesAccount lastStep lastReceipt mem_of_lastStep
  mem_of_lastReceipt lastReceipt_eq_none)

/-! ### Removals in one block -/

/-- If steps delete the account of a key that they also add or delete, the last of these other steps adds the key, or
it deletes the key by the receipt that deletes the account, or there is no row; and a key that was live is added last
by the receipt that its row names. -/
def RemovalKept (decoders : Decoders) (steps : List (ReceiptView × ActionView)) (key : PublicKey × AccountId)
    (life : Option KeyLife) : Prop :=
  ∀ receiptId last, lastReceipt (deletesAccount key.2) steps = some receiptId →
    lastStep (changesKey decoders key) steps = some last →
      (deletesKey key last = true → last.1.receiptId = receiptId ∨
        life = none ∧ lastReceipt (addsKey decoders key) steps = none) ∧
      ∀ l creator, life = some l → l.deletedBy = none →
        lastReceipt (addsKey decoders key) steps = some creator → l.createdBy = some creator

/-- The lives of the keys as the table knows them. -/
def livesOf (w : World) (key : PublicKey × AccountId) : Option KeyLife := (w.db.accessKeys.lookup key).map lifeOf

section Rows

variable {blockHeight : Nat} {entry x : Option AccessKey} {e : AccessKey} {life : Option KeyLife}
  {receiptId : CryptoHash}

theorem lifeOf_entryEffect (hold : ∀ row, x = some row → row.lastUpdateBlockHeight < blockHeight) :
    (entryEffect blockHeight entry x).map lifeOf = enterLife entry (x.map lifeOf) := by
  cases entry with
  | none => rfl
  | some e =>
      cases x with
      | none => cases hcreated : e.createdByReceiptId <;> simp [entryEffect, enterLife, hcreated, lifeOf]
      | some row =>
          rw [entryEffect_row (hold row rfl)]
          cases hcreated : e.createdByReceiptId <;> simp [enteredRow, enterLife, hcreated, lifeOf]

theorem lifeOf_sweepEffect (hold : ∀ row, x = some row → row.lastUpdateBlockHeight < blockHeight) :
    (sweepEffect blockHeight (some receiptId) x).map lifeOf = (x.map lifeOf).map (·.remove receiptId) := by
  cases x with
  | none => rfl
  | some row =>
      by_cases hlive : row.deletedByReceiptId = none
      · rw [sweepEffect_live hlive (hold row rfl)]
        simp [sweptRow, lifeOf, KeyLife.remove, hlive]
      · obtain ⟨deleted, hdeleted⟩ := Option.ne_none_iff_exists'.mp hlive
        simp [sweepEffect, lifeOf, KeyLife.remove, hdeleted]

/-- The end of the entry is the one that the deletion of the account leaves it. -/
def EndKept (receiptId : CryptoHash) (e : AccessKey) (life : Option KeyLife) : Prop :=
  e.deletedByReceiptId = none ∨ e.deletedByReceiptId = some receiptId ∨ e.createdByReceiptId = none ∧ life = none

theorem enterLife_overwritten (h : EndKept receiptId e life) :
    enterLife (some { e with deletedByReceiptId := some receiptId }) life =
      (enterLife (some e) life).map (·.remove receiptId) := by
  rcases h with hdeleted | hdeleted | ⟨hcreated, rfl⟩
  · cases hcreated : e.createdByReceiptId <;> cases life <;>
      simp [enterLife, hcreated, hdeleted, KeyLife.remove]
  · cases hcreated : e.createdByReceiptId <;> cases life <;>
      simp [enterLife, hcreated, hdeleted, KeyLife.remove]
  · simp [enterLife, hcreated]

theorem enterLife_lost (h : ¬ EndKept receiptId e life) :
    (enterLife (some { e with deletedByReceiptId := some receiptId }) life).map (·.deletedBy) ≠
      ((enterLife (some e) life).map (·.remove receiptId)).map (·.deletedBy) := by
  unfold EndKept at h
  push Not at h
  obtain ⟨hdeleted, hother, hrow⟩ := h
  obtain ⟨deleted, hdeleted⟩ := Option.ne_none_iff_exists'.mp hdeleted
  rw [hdeleted] at hother
  have hne : receiptId ≠ deleted := fun heq => hother (by rw [heq])
  cases hcreated : e.createdByReceiptId with
  | some creator => simpa [enterLife, hcreated, hdeleted, KeyLife.remove] using hne
  | none =>
      obtain ⟨l, rfl⟩ := Option.ne_none_iff_exists'.mp (hrow hcreated)
      simpa [enterLife, hcreated, hdeleted, KeyLife.remove] using hne

end Rows

section Block

variable {decoders : Decoders} {existed : AccountId → Bool} {live : PublicKey × AccountId → Bool}
  {key : PublicKey × AccountId} {steps before after : List (ReceiptView × ActionView)}
  {step last : ReceiptView × ActionView} {e : AccessKey} {life : Option KeyLife} {receiptId : CryptoHash}
  {block : BlockOutcomes} {w w' : World}

/-- The end of the entry before the deletion of the account, in terms of the steps. -/
theorem DeletedBetween.endKept_iff (h : DeletedBetween decoders key receiptId before step after)
    (life : Option KeyLife)
    (hentry : entryOf decoders key block.blockHeight before = some e)
    (hlast : lastStep (changesKey decoders key) (before ++ step :: after) = some last) :
    EndKept receiptId e life ↔ (deletesKey key last = true → last.1.receiptId = receiptId ∨
      life = none ∧ lastReceipt (addsKey decoders key) (before ++ step :: after) = none) := by
  have hadds : lastStep (addsKey decoders key) (before ++ step :: after) = lastStep (addsKey decoders key) before :=
    h.lastStep_eq fun s hs => by rw [changesKey, hs, Bool.true_or]
  have hcreated := entryOf_created hentry
  have hdeleted := entryOf_deleted hentry
  rw [h.lastTouch_eq, hlast, Option.bind_some] at hdeleted
  rw [EndKept, hdeleted, hcreated, lastReceipt, lastReceipt, hadds]
  have hchanges := (mem_of_lastStep hlast).2
  by_cases hdeletes : deletesKey key last = true
  · have hnotAdded : addsKey decoders key last = false :=
      not_addsKey_of_removesKey (by rw [removesKey, hdeletes, Bool.true_or])
    simp [hnotAdded, hdeletes, and_comm]
  · have hadded : addsKey decoders key last = true := by simpa [changesKey, hdeletes] using hchanges
    simp [hadded, hdeletes]

theorem older_of_lookup {blockHeight : Nat} {row : AccessKey}
    (hold : ∀ row ∈ w.db.accessKeys.rows, row.lastUpdateBlockHeight < blockHeight)
    (hrow : w.db.accessKeys.lookup key = some row) : row.lastUpdateBlockHeight < blockHeight :=
  hold row (Table.mem_rows_iff_lookup.mpr ⟨key, hrow⟩)

/-- The sweep leaves a row alone, or does to it what an entry does that is deleted by the same receipt and names the
creator of the row. -/
theorem sweep_idle_or_entered {blockHeight : Nat} {x : Option AccessKey}
    (holder : ∀ row, x = some row → row.lastUpdateBlockHeight < blockHeight)
    (hentry : entryOf decoders key blockHeight steps = some e) (hdeleted : e.deletedByReceiptId = some receiptId)
    (hcreator : ∀ row creator, x = some row → row.deletedByReceiptId = none →
      lastReceipt (addsKey decoders key) steps = some creator → row.createdByReceiptId = some creator) :
    sweepEffect blockHeight (some receiptId) x = x ∨
      sweepEffect blockHeight (some receiptId) x =
        entryEffect blockHeight (entryOf decoders key blockHeight steps) x := by
  cases x with
  | none => exact .inl rfl
  | some row =>
      by_cases hlive : row.deletedByReceiptId = none
      · refine .inr ?_
        rw [sweepEffect_live hlive (holder row rfl), hentry, entryEffect_row (holder row rfl)]
        have hcreated : e.createdByReceiptId.or row.createdByReceiptId = row.createdByReceiptId := by
          rw [entryOf_created hentry]
          cases hadded : lastReceipt (addsKey decoders key) steps with
          | none => rfl
          | some creator => exact (hcreator row creator rfl hlive hadded).symm
        rw [sweptRow, enteredRow, hcreated, hdeleted, (wellFormed_entryOf hentry).height]
      · refine .inl ?_
        simp [sweepEffect, hlive]

theorem life_after_sweep (hold : ∀ row ∈ w.db.accessKeys.rows, row.lastUpdateBlockHeight < block.blockHeight)
    (hcall : Finishes (handleBlockAccessKeys decoders block) w () w')
    (hlast : lastReceipt (deletesAccount key.2) (successfulActions block.outcomes) = some receiptId)
    (hnone : entryOf decoders key block.blockHeight (successfulActions block.outcomes) = none) :
    livesOf w' key = (livesOf w key).map (·.remove receiptId) := by
  rw [livesOf, row_after_sweep hcall hnone, hlast]
  exact lifeOf_sweepEffect fun row hlookup => older_of_lookup hold hlookup

theorem life_after_entry (hold : ∀ row ∈ w.db.accessKeys.rows, row.lastUpdateBlockHeight < block.blockHeight)
    (hrow : w'.db.accessKeys.lookup key = entryEffect block.blockHeight
      (entryOf decoders key block.blockHeight (successfulActions block.outcomes)) (w.db.accessKeys.lookup key)) :
    livesOf w' key =
      enterLife (entryOf decoders key block.blockHeight (successfulActions block.outcomes)) (livesOf w key) := by
  rw [livesOf, hrow]
  exact lifeOf_entryEffect fun row hlookup => older_of_lookup hold hlookup

/-- A block that does not delete the account leaves the life that the steps lead to. -/
theorem life_after_kept_account
    (hold : ∀ row ∈ w.db.accessKeys.rows, row.lastUpdateBlockHeight < block.blockHeight)
    (hnone : lastReceipt (deletesAccount key.2) (successfulActions block.outcomes) = none)
    (hcall : Finishes (handleBlockAccessKeys decoders block) w () w') :
    livesOf w' key = keyLifeAfter decoders key (successfulActions block.outcomes) (livesOf w key) := by
  have hidle : sweepEffect block.blockHeight (lastReceipt (deletesAccount key.2) (successfulActions block.outcomes))
      (w.db.accessKeys.lookup key) = w.db.accessKeys.lookup key := by
    rw [hnone]
    rfl
  rw [life_after_entry hold (row_after_entry hcall (.inl hidle))]
  exact (keyLifeAfter_eq (lastReceipt_eq_none.mp hnone) block.blockHeight).symm

/-- So does a block that keeps the removals of the key. -/
theorem Succeeds.life_after_call (h : Succeeds decoders existed live (successfulActions block.outcomes))
    (hold : ∀ row ∈ w.db.accessKeys.rows, row.lastUpdateBlockHeight < block.blockHeight)
    (hkept : RemovalKept decoders (successfulActions block.outcomes) key (livesOf w key))
    (hcall : Finishes (handleBlockAccessKeys decoders block) w () w') :
    livesOf w' key = keyLifeAfter decoders key (successfulActions block.outcomes) (livesOf w key) := by
  cases hlast : lastReceipt (deletesAccount key.2) (successfulActions block.outcomes) with
  | none => exact life_after_kept_account hold hlast hcall
  | some receiptId =>
      obtain ⟨before, step, after, hsplit, hdeletion⟩ := h.deletedBetween hlast
      have hlife := hdeletion.keyLifeAfter_eq block.blockHeight (livesOf w key)
      have hentry := hdeletion.entryOf_eq block.blockHeight
      rw [← hsplit] at hlife hentry
      rw [hlife]
      cases hbefore : entryOf decoders key block.blockHeight before with
      | none =>
          rw [hbefore, Option.map_none] at hentry
          exact life_after_sweep hold hcall hlast hentry
      | some e =>
          rw [hbefore, Option.map_some] at hentry
          obtain ⟨last, hchange⟩ : ∃ last, lastStep (changesKey decoders key) (successfulActions block.outcomes) =
              some last := by
            apply Option.ne_none_iff_exists'.mp
            rw [Ne, ← entryOf_eq_none_iff block.blockHeight, hentry]
            exact Option.some_ne_none _
          obtain ⟨hend, hcreator⟩ := hkept receiptId last hlast hchange
          rw [hsplit] at hchange hend
          have hagrees := sweep_idle_or_entered (fun row hlookup => older_of_lookup hold hlookup) hentry rfl
            fun row creator hlookup hlive hadded =>
              hcreator (lifeOf row) creator (by rw [livesOf, hlookup]; rfl) hlive hadded
          rw [← hlast] at hagrees
          calc livesOf w' key
            _ = enterLife (entryOf decoders key block.blockHeight (successfulActions block.outcomes))
                (livesOf w key) := life_after_entry hold (row_after_entry hcall hagrees)
            _ = enterLife (some { e with deletedByReceiptId := some receiptId }) (livesOf w key) := by rw [hentry]
            _ = (enterLife (some e) (livesOf w key)).map (·.remove receiptId) :=
              enterLife_overwritten ((hdeletion.endKept_iff _ hbefore hchange).mpr hend)

theorem Succeeds.lives_after_call (h : Succeeds decoders existed live (successfulActions block.outcomes))
    (hold : ∀ row ∈ w.db.accessKeys.rows, row.lastUpdateBlockHeight < block.blockHeight)
    (hkept : ∀ key, RemovalKept decoders (successfulActions block.outcomes) key (livesOf w key))
    (hcall : Finishes (handleBlockAccessKeys decoders block) w () w') :
    livesOf w' = fun key => keyLifeAfter decoders key (successfulActions block.outcomes) (livesOf w key) := by
  funext key
  exact h.life_after_call hold (hkept key) hcall

theorem outcomes_nonempty {outcomes : List IndexerExecutionOutcomeWithReceipt}
    (hmem : last ∈ successfulActions outcomes) : outcomes.isEmpty = false := by
  cases outcomes with
  | nil => exact (List.not_mem_nil hmem).elim
  | cons => rfl

theorem exists_call (decoders : Decoders) (block : BlockOutcomes) (w : World) :
    ∃ w', Finishes (handleBlockAccessKeys decoders block) w () w' := by
  unfold handleBlockAccessKeys
  cases hempty : block.outcomes.isEmpty with
  | true =>
      rw [handleAccessKeys, if_pos hempty]
      exact ⟨w, .ret () w⟩
  | false =>
      obtain ⟨swept, entered, _, _, hrun⟩ := finishes_sweep_first block.blockHeight
        (collectAccessKeys decoders block.outcomes block.blockHeight).accessKeys.rows
        (deletedAccountsOf (collectAccessKeys decoders block.outcomes block.blockHeight)) w
      rw [handleAccessKeys_eq hempty]
      exact ⟨_, .of_step (.anyOrder (.refl _)) (.of_step (.anyOrder (.refl _)) hrun)⟩

/-- The entry may be written before the sweep. -/
theorem exists_run_entry (hold : ∀ row ∈ w.db.accessKeys.rows, row.lastUpdateBlockHeight < block.blockHeight)
    (hchange : lastStep (changesKey decoders key) (successfulActions block.outcomes) = some last) :
    ∃ w', Finishes (handleBlockAccessKeys decoders block) w () w' ∧
      w'.db.accessKeys.lookup key = entryEffect block.blockHeight
        (entryOf decoders key block.blockHeight (successfulActions block.outcomes)) (w.db.accessKeys.lookup key) := by
  cases hlookup : w.db.accessKeys.lookup key with
  | none =>
      obtain ⟨w', hcall⟩ := exists_call decoders block w
      refine ⟨w', hcall, ?_⟩
      rw [row_after_entry hcall (.inl (by rw [hlookup, sweepEffect_absent])), hlookup]
  | some row =>
      obtain ⟨e, hentry⟩ : ∃ e,
          entryOf decoders key block.blockHeight (successfulActions block.outcomes) = some e := by
        apply Option.ne_none_iff_exists'.mp
        rw [Ne, entryOf_eq_none_iff, hchange]
        exact Option.some_ne_none _
      have hnonempty := outcomes_nonempty (mem_of_lastStep hchange).1
      obtain ⟨w', hcall, hrow⟩ := exists_run_entered hnonempty hlookup (older_of_lookup hold hlookup) hentry
      exact ⟨w', hcall, by rw [hrow, hentry, entryEffect_row (older_of_lookup hold hlookup)]⟩

/-- A block that does not keep the removals of a key has a run that names another receipt for the removal, or two runs
with different rows. -/
theorem Succeeds.exists_lost_removal (h : Succeeds decoders existed live (successfulActions block.outcomes))
    (hold : ∀ row ∈ w.db.accessKeys.rows, row.lastUpdateBlockHeight < block.blockHeight)
    (hlost : ¬ RemovalKept decoders (successfulActions block.outcomes) key (livesOf w key)) :
    lastReceipt (deletesAccount key.2) (successfulActions block.outcomes) ≠ none ∧
      ∃ w₁ w₂, Finishes (handleBlockAccessKeys decoders block) w () w₁ ∧
        Finishes (handleBlockAccessKeys decoders block) w () w₂ ∧
        ((livesOf w₁ key).map (·.deletedBy) ≠
            (keyLifeAfter decoders key (successfulActions block.outcomes) (livesOf w key)).map (·.deletedBy) ∨
          livesOf w₁ key ≠ livesOf w₂ key) := by
  unfold RemovalKept at hlost
  push Not at hlost
  obtain ⟨receiptId, last, hlast, hchange, hlost⟩ := hlost
  refine ⟨by rw [hlast]; exact Option.some_ne_none _, ?_⟩
  obtain ⟨before, step, after, hsplit, hdeletion⟩ := h.deletedBetween hlast
  have hentry := hdeletion.entryOf_eq block.blockHeight
  rw [← hsplit] at hentry
  obtain ⟨e, hbefore⟩ : ∃ e, entryOf decoders key block.blockHeight before = some e := by
    apply Option.ne_none_iff_exists'.mp
    intro hnone
    rw [hnone, Option.map_none, entryOf_eq_none_iff, hchange] at hentry
    cases hentry
  rw [hbefore, Option.map_some] at hentry
  obtain ⟨w₁, hcall₁, hrow₁⟩ := exists_run_entry hold hchange
  have hlife₁ := life_after_entry hold hrow₁
  rw [hentry] at hlife₁
  have hend := hdeletion.endKept_iff (livesOf w key) hbefore (hsplit ▸ hchange)
  rw [← hsplit] at hend
  by_cases hkept : EndKept receiptId e (livesOf w key)
  · -- the entry keeps the end, so the sweep and the entry name different creators
    obtain ⟨l, creator, hl, hlive, hadded, hne⟩ := hlost (hend.mp hkept)
    obtain ⟨row, hlookup, rfl⟩ := Option.map_eq_some_iff.mp hl
    obtain ⟨w₂, hcall₂, hrow₂⟩ : ∃ w₂, Finishes (handleBlockAccessKeys decoders block) w () w₂ ∧ _ :=
      exists_run_swept (outcomes_nonempty (mem_of_lastStep hchange).1) hlookup hlive
        (older_of_lookup hold hlookup) hlast
    have hcreated : e.createdByReceiptId = some creator := by
      have hcreated' := entryOf_created hentry
      rwa [hadded] at hcreated'
    have hlife₂ : livesOf w₂ key = some (lifeOf (sweptRow block.blockHeight receiptId row)) := by
      rw [livesOf, hrow₂, Option.map_some]
    refine ⟨w₁, w₂, hcall₁, hcall₂, .inr fun hsame => hne ?_⟩
    rw [hlife₁, hlife₂] at hsame
    simp only [enterLife, hcreated] at hsame
    exact (congrArg KeyLife.createdBy (Option.some.inj hsame)).symm
  · -- the entry is deleted by another receipt than the one that deletes the account
    refine ⟨w₁, w₁, hcall₁, hcall₁, .inl ?_⟩
    have hlife := hdeletion.keyLifeAfter_eq block.blockHeight (livesOf w key)
    rw [← hsplit, hbefore] at hlife
    rw [hlife, hlife₁]
    exact enterLife_lost hkept

end Block

/-! ### Cuts -/

/-- Blocks of increasing height, above the heights of the rows. -/
structure Follows (w : World) (blocks : List BlockOutcomes) : Prop where
  increasing : blocks.Pairwise fun b b' => b.blockHeight < b'.blockHeight
  older : ∀ block ∈ blocks, ∀ row ∈ w.db.accessKeys.rows, row.lastUpdateBlockHeight < block.blockHeight

/-- Every block keeps the removals of every key, whose life it finds as the blocks before it have left it. -/
def CutKeepsRemovals (decoders : Decoders) :
    List BlockOutcomes → (PublicKey × AccountId → Option KeyLife) → Prop
  | [], _ => True
  | block :: blocks, lives =>
      (∀ key, RemovalKept decoders (successfulActions block.outcomes) key (lives key)) ∧
        CutKeepsRemovals decoders blocks fun key =>
          keyLifeAfter decoders key (successfulActions block.outcomes) (lives key)

/-- Two cuts of the same receipts leave the same receipts in every row, and name the one that removed the live key. -/
def GroupingIrrelevant (decoders : Decoders) (w : World) (blocks blocks' : List BlockOutcomes) : Prop :=
  ∀ w₁ w₂, InOrder (handleBlockAccessKeys decoders) w blocks w₁ →
    InOrder (handleBlockAccessKeys decoders) w blocks' w₂ → ∀ key, livesOf w₁ key = livesOf w₂ key ∧
      (livesOf w₁ key).map (·.deletedBy) =
        (keyLifeAfter decoders key (stepsOf blocks) (livesOf w key)).map (·.deletedBy)

section Cuts

variable {decoders : Decoders} {existed : AccountId → Bool} {live : PublicKey × AccountId → Bool}
  {key : PublicKey × AccountId} {block : BlockOutcomes} {blocks blocks' : List BlockOutcomes} {w w' : World}

theorem Follows.next (h : Follows w (block :: blocks))
    (hcall : Finishes (handleBlockAccessKeys decoders block) w () w') : Follows w' blocks := by
  obtain ⟨hlater, hincreasing⟩ := List.pairwise_cons.mp h.increasing
  exact ⟨hincreasing, fun later hmem =>
    height_after_call hcall (hlater later hmem) (h.older later (List.mem_cons_of_mem _ hmem))⟩

theorem exists_inOrder (decoders : Decoders) (blocks : List BlockOutcomes) (w : World) :
    ∃ w', InOrder (handleBlockAccessKeys decoders) w blocks w' := by
  induction blocks generalizing w with
  | nil => exact ⟨w, .nil⟩
  | cons block blocks ih =>
      obtain ⟨w₁, hcall⟩ := exists_call decoders block w
      obtain ⟨w', hrest⟩ := ih w₁
      exact ⟨w', .cons hcall hrest⟩

/-- Blocks that do not touch a key leave its life. -/
theorem life_after_idle (hrun : InOrder (handleBlockAccessKeys decoders) w blocks w')
    (hidle : ∀ step ∈ stepsOf blocks, touchesKey decoders key step = false) : livesOf w' key = livesOf w key := by
  induction hrun with
  | nil => rfl
  | @cons block blocks w w₁ w' hcall _ ih =>
      rw [stepsOf_cons] at hidle
      rw [ih fun step hmem => hidle step (List.mem_append_right _ hmem)]
      have hnone : entryOf decoders key block.blockHeight (successfulActions block.outcomes) = none :=
        entryOf_append_of_untouched [] fun step hmem => hidle step (List.mem_append_left _ hmem)
      have hkept : lastReceipt (deletesAccount key.2) (successfulActions block.outcomes) = none :=
        lastReceipt_eq_none.mpr fun step hmem =>
          (Bool.or_eq_false_iff.mp (hidle step (List.mem_append_left _ hmem))).2
      rw [livesOf, row_after_sweep hcall hnone, hkept]
      rfl

/-- A cut that keeps the removals ends with the lives that its steps lead to. -/
theorem lives_after_cut (h : Succeeds decoders existed live (stepsOf blocks)) (hfollows : Follows w blocks)
    (hkept : CutKeepsRemovals decoders blocks (livesOf w))
    (hrun : InOrder (handleBlockAccessKeys decoders) w blocks w')
    (key : PublicKey × AccountId) : livesOf w' key = keyLifeAfter decoders key (stepsOf blocks) (livesOf w key) := by
  induction hrun generalizing existed live with
  | nil => rfl
  | @cons block blocks w w₁ w' hcall _ ih =>
      rw [stepsOf_cons] at h ⊢
      obtain ⟨hblock, hrest⟩ := h.of_append
      have hlives := hblock.lives_after_call (hfollows.older block List.mem_cons_self) hkept.1 hcall
      calc livesOf w' key
        _ = keyLifeAfter decoders key (stepsOf blocks) (livesOf w₁ key) :=
          ih hrest (hfollows.next hcall) (hlives ▸ hkept.2)
        _ = keyLifeAfter decoders key (stepsOf blocks)
            (keyLifeAfter decoders key (successfulActions block.outcomes) (livesOf w key)) := by rw [hlives]
        _ = keyLifeAfter decoders key (successfulActions block.outcomes ++ stepsOf blocks) (livesOf w key) :=
          (keyLifeAfter_append _ _ _ _ _).symm

/-- A cut that does not keep them has a run that names another receipt for a removal, or two runs with different
rows. -/
theorem exists_lost_removal_cut (h : Succeeds decoders existed live (stepsOf blocks)) (hfollows : Follows w blocks)
    (hlost : ¬ CutKeepsRemovals decoders blocks (livesOf w)) :
    ∃ key w₁ w₂, InOrder (handleBlockAccessKeys decoders) w blocks w₁ ∧
      InOrder (handleBlockAccessKeys decoders) w blocks w₂ ∧
      ((livesOf w₁ key).map (·.deletedBy) ≠
          (keyLifeAfter decoders key (stepsOf blocks) (livesOf w key)).map (·.deletedBy) ∨
        livesOf w₁ key ≠ livesOf w₂ key) := by
  induction blocks generalizing existed live w with
  | nil => exact (hlost trivial).elim
  | cons block blocks ih =>
      rw [stepsOf_cons] at h
      obtain ⟨hblock, hrest⟩ := h.of_append
      have hold := hfollows.older block List.mem_cons_self
      by_cases hkept : ∀ key, RemovalKept decoders (successfulActions block.outcomes) key (livesOf w key)
      · obtain ⟨w₀, hcall⟩ := exists_call decoders block w
        have hlives := hblock.lives_after_call hold hkept hcall
        obtain ⟨key, w₁, w₂, hrun₁, hrun₂, hdiffer⟩ := ih hrest (hfollows.next hcall) fun hcut =>
          hlost ⟨hkept, hlives ▸ hcut⟩
        refine ⟨key, w₁, w₂, .cons hcall hrun₁, .cons hcall hrun₂, ?_⟩
        rw [stepsOf_cons, keyLifeAfter_append, ← congrFun hlives key]
        exact hdiffer
      · push Not at hkept
        obtain ⟨key, hkey⟩ := hkept
        obtain ⟨hdeleted, w₁, w₂, hcall₁, hcall₂, hdiffer⟩ := hblock.exists_lost_removal hold hkey
        obtain ⟨w₁', hrun₁⟩ := exists_inOrder decoders blocks w₁
        obtain ⟨w₂', hrun₂⟩ := exists_inOrder decoders blocks w₂
        -- the account is gone, so the blocks that follow leave the key as it is
        obtain ⟨receiptId, hlast⟩ := Option.ne_none_iff_exists'.mp hdeleted
        obtain ⟨before, step, after, hsplit, hdeletion⟩ := hblock.deletedBetween hlast
        have hidle : ∀ later ∈ stepsOf blocks, touchesKey decoders key later = false := by
          rw [hsplit, List.append_assoc, List.cons_append] at h
          exact fun later hmem => h.untouched hdeletion.deletes later (List.mem_append_right _ hmem)
        refine ⟨key, w₁', w₂', .cons hcall₁ hrun₁, .cons hcall₂ hrun₂, ?_⟩
        rw [life_after_idle hrun₁ hidle, life_after_idle hrun₂ hidle, stepsOf_cons, keyLifeAfter_append,
          keyLifeAfter_idle hidle]
        exact hdiffer

theorem stepsOf_eq (blocks : List BlockOutcomes) :
    stepsOf blocks = successfulActions (blocks.flatMap (·.outcomes)) := by
  induction blocks with
  | nil => rfl
  | cons block blocks ih =>
      rw [stepsOf_cons, ih]
      simp only [successfulActions, successfulReceipts, List.flatMap_cons, List.filter_append, List.map_append,
        List.flatMap_append]

/-- How the receipts are cut into blocks does not matter if and only if both cuts keep the removals. -/
theorem grouping_irrelevant_iff (hreceipts : blocks.flatMap (·.outcomes) = blocks'.flatMap (·.outcomes))
    (hsucceeds : Succeeds decoders existed live (stepsOf blocks)) (hfollows : Follows w blocks)
    (hfollows' : Follows w blocks') :
    GroupingIrrelevant decoders w blocks blocks' ↔
      CutKeepsRemovals decoders blocks (livesOf w) ∧ CutKeepsRemovals decoders blocks' (livesOf w) := by
  have hsteps : stepsOf blocks' = stepsOf blocks := by rw [stepsOf_eq, stepsOf_eq, hreceipts]
  have hsucceeds' : Succeeds decoders existed live (stepsOf blocks') := by rwa [hsteps]
  constructor
  · intro hirrelevant
    by_contra hlost
    rcases not_and_or.mp hlost with hlost | hlost
    · obtain ⟨key, w₁, w₂, hrun₁, hrun₂, hdiffer⟩ := exists_lost_removal_cut hsucceeds hfollows hlost
      obtain ⟨w', hrun'⟩ := exists_inOrder decoders blocks' w
      obtain ⟨hsame₁, hdeleted⟩ := hirrelevant w₁ w' hrun₁ hrun' key
      obtain ⟨hsame₂, _⟩ := hirrelevant w₂ w' hrun₂ hrun' key
      exact hdiffer.elim (fun hne => hne hdeleted) fun hne => hne (hsame₁.trans hsame₂.symm)
    · obtain ⟨key, w₁, w₂, hrun₁, hrun₂, hdiffer⟩ := exists_lost_removal_cut hsucceeds' hfollows' hlost
      obtain ⟨w', hrun'⟩ := exists_inOrder decoders blocks w
      obtain ⟨hsame₁, hdeleted⟩ := hirrelevant w' w₁ hrun' hrun₁ key
      obtain ⟨hsame₂, _⟩ := hirrelevant w' w₂ hrun' hrun₂ key
      rw [hsame₁, ← hsteps] at hdeleted
      exact hdiffer.elim (fun hne => hne hdeleted) fun hne => hne (hsame₁.symm.trans hsame₂)
  · rintro ⟨hkept, hkept'⟩ w₁ w₂ hrun₁ hrun₂ key
    have hlife := lives_after_cut hsucceeds hfollows hkept hrun₁ key
    have hlife' := lives_after_cut hsucceeds' hfollows' hkept' hrun₂ key
    rw [hsteps] at hlife'
    exact ⟨hlife.trans hlife'.symm, congrArg _ hlife⟩

end Cuts

/-! ### A key and its account -/

/-- A receipt on the account of the live key. -/
def onAccount (receiptId : String) (action : ActionView) : IndexerExecutionOutcomeWithReceipt :=
  .plain (.ofText "b7") (.plain (.ofText receiptId) liveKey.accountId [action]) []

def keyAddition : IndexerExecutionOutcomeWithReceipt := onAccount "r2" (.addKey "ed25519:9xk" ⟨0, .fullAccess⟩)

def keyDeletion : IndexerExecutionOutcomeWithReceipt := onAccount "r2" (.deleteKey liveKey.publicKey)

def accountDeletion : IndexerExecutionOutcomeWithReceipt := onAccount "r3" (.deleteAccount "eve.near")

def accountExists (accountId : AccountId) : Bool := decide (accountId = liveKey.accountId)

def keyIsLive (key : PublicKey × AccountId) : Bool := decide (key = liveKey.key)

def oneBlock (first second : IndexerExecutionOutcomeWithReceipt) : List BlockOutcomes := [⟨7, [first, second]⟩]

def twoBlocks (first second : IndexerExecutionOutcomeWithReceipt) : List BlockOutcomes :=
  [⟨7, [first]⟩, ⟨8, [second]⟩]

/-- An action on the account and then its deletion. -/
theorem succeeds_accountDeletion {action : ActionView}
    (hpossible : Possible accountExists keyIsLive (.plain (.ofText "r2") liveKey.accountId [action], action))
    (hexists :
      existsAfterStep liveKey.accountId true (.plain (.ofText "r2") liveKey.accountId [action], action) = true) :
    Succeeds .silent accountExists keyIsLive (stepsOf (oneBlock (onAccount "r2" action) accountDeletion)) where
  receivers step hmem := by
    obtain rfl | hmem := List.mem_cons.mp hmem
    · show liveKey.accountId.len ≠ 64
      decide
    · obtain rfl := List.mem_singleton.mp hmem
      decide
  possible before step after hsplit := by
    match before, hsplit with
    | [], hsplit =>
        cases hsplit
        exact hpossible
    | [_], hsplit =>
        cases hsplit
        exact hexists
    | _ :: _ :: before, hsplit =>
        have hlength : 2 = _ := congrArg List.length hsplit
        simp only [List.length_append, List.length_cons] at hlength
        omega
  neverRecreated := by
    refine List.pairwise_cons.mpr ⟨fun later hmem accountId _ => ?_, List.pairwise_singleton _ _⟩
    obtain rfl := List.mem_singleton.mp hmem
    simp [BlockOrder.createsAccount]

theorem steps_addition {step : ReceiptView × ActionView}
    (hmem : step ∈ successfulActions [keyAddition, accountDeletion]) :
    step = (keyAddition.receipt, .addKey "ed25519:9xk" ⟨0, .fullAccess⟩) ∨
      step = (accountDeletion.receipt, .deleteAccount "eve.near") := by
  rcases List.mem_cons.mp hmem with rfl | hmem
  · exact .inl rfl
  · exact .inr (List.mem_singleton.mp hmem)

/-- No removal is at stake when a new key is added before the deletion of the account. -/
theorem removalKept_addition (key : PublicKey × AccountId) :
    RemovalKept .silent (successfulActions [keyAddition, accountDeletion]) key (livesOf worldWithLiveKey key) := by
  intro receiptId last _ hchange
  refine ⟨fun hdeletes => ?_, fun l creator hl _ hadded => ?_⟩
  · rcases steps_addition (mem_of_lastStep hchange).1 with rfl | rfl <;> simp [deletesKey] at hdeletes
  · obtain ⟨step, hmem, hadds, _⟩ := mem_of_lastReceipt hadded
    obtain ⟨publicKey, accountId⟩ := key
    rcases steps_addition hmem with rfl | rfl
    · simp only [addsKey, Bool.and_eq_true, decide_eq_true_eq] at hadds
      obtain ⟨rfl, rfl⟩ := hadds
      have hnone : livesOf worldWithLiveKey ("ed25519:9xk", keyAddition.receipt.receiverId) = none := by decide
      rw [hnone] at hl
      cases hl
    · simp [addsKey] at hadds

/-- A new key is added before the account is deleted, in one block or in two. -/
theorem grouping_irrelevant_addition :
    GroupingIrrelevant .silent worldWithLiveKey (oneBlock keyAddition accountDeletion)
      (twoBlocks keyAddition accountDeletion) := by
  have hreceipts : (oneBlock keyAddition accountDeletion).flatMap (·.outcomes) =
      (twoBlocks keyAddition accountDeletion).flatMap (·.outcomes) := rfl
  refine (grouping_irrelevant_iff hreceipts (succeeds_accountDeletion ⟨by decide, by decide⟩ (by decide))
    ⟨by decide, by decide⟩ ⟨by decide, by decide⟩).mpr ⟨⟨removalKept_addition, trivial⟩, ?_, ?_, trivial⟩
  · intro key receiptId last hlast
    obtain ⟨step, hmem, hdeletes, _⟩ := mem_of_lastReceipt hlast
    obtain rfl := List.mem_singleton.mp hmem
    simp [deletesAccount] at hdeletes
  · intro key receiptId last _ hchange
    obtain ⟨hmem, hchanges⟩ := mem_of_lastStep hchange
    obtain rfl := List.mem_singleton.mp hmem
    simp [changesKey, addsKey, deletesKey] at hchanges

/-- A key is deleted by `r2` and its account by `r3`: in one block the row ends with `r3`, in two with `r2`. -/
theorem grouping_overwrites_removal :
    (oneBlock keyDeletion accountDeletion).flatMap (·.outcomes) =
        (twoBlocks keyDeletion accountDeletion).flatMap (·.outcomes) ∧
      Succeeds .silent accountExists keyIsLive (stepsOf (oneBlock keyDeletion accountDeletion)) ∧
      Follows worldWithLiveKey (oneBlock keyDeletion accountDeletion) ∧
      Follows worldWithLiveKey (twoBlocks keyDeletion accountDeletion) ∧
      ¬ GroupingIrrelevant .silent worldWithLiveKey (oneBlock keyDeletion accountDeletion)
        (twoBlocks keyDeletion accountDeletion) := by
  refine ⟨rfl, succeeds_accountDeletion ⟨by decide, by decide⟩ (by decide), ⟨by decide, by decide⟩,
    ⟨by decide, by decide⟩, fun hirrelevant => ?_⟩
  obtain ⟨hsame, _⟩ := hirrelevant _ _ (.cons (finishes_after 1 (by decide)) .nil)
    (.cons (finishes_after 1 (by decide)) (.cons (finishes_after 1 (by decide)) .nil)) liveKey.key
  revert hsame
  decide

end ExplorerIndexer.AccessKeys

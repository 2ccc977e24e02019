import ExplorerIndexer.AccessKeysPermission
import ExplorerIndexer.AccountsImplicit

/-! Transfers to an implicit account that exists. On the chain they do not touch its keys; the adapter takes every
transfer for an addition of the key the account is named after. A block is handled as if these transfers were
not there exactly as long as the entry of that key is the same without them. -/

namespace ExplorerIndexer.AccessKeys

open Async Store Models
open Accounts (successfulActions deletesAccount lastStep lastReceipt lastStep_append lastReceipt_append mem_of_lastStep
  lastStep_eq_none lastReceipt_eq_none)
open BlockOrder (createsAccount)

/-! ### Transfers to an existing account -/

def transfersTo (accountId : AccountId) (step : ReceiptView × ActionView) : Bool :=
  decide (step.1.receiverId = accountId) &&
    match step.2 with
    | .transfer _ => true
    | _ => false

/-- Whether the account exists on the chain after a step. -/
def existsAfterStep (accountId : AccountId) (existed : Bool) (step : ReceiptView × ActionView) : Bool :=
  if createsAccount accountId step then true
  else if deletesAccount accountId step then false
  else existed

def existsAfter (accountId : AccountId) (steps : List (ReceiptView × ActionView)) (existed : Bool) : Bool :=
  steps.foldl (existsAfterStep accountId) existed

/-- The steps without the transfers to the account while it exists. -/
def withoutIdle (accountId : AccountId) :
    Bool → List (ReceiptView × ActionView) → List (ReceiptView × ActionView)
  | _, [] => []
  | existed, step :: steps =>
      if existed && transfersTo accountId step then withoutIdle accountId existed steps
      else step :: withoutIdle accountId (existsAfterStep accountId existed step) steps

/-- A step without the rest of its receipt. -/
def bareStep (step : ReceiptView × ActionView) : ReceiptView × ActionView :=
  (.plain step.1.receiptId step.1.receiverId [], step.2)

/-- The second block has the successful actions of the first one, but no transfer to the account while it exists. -/
structure WithoutIdle (accountId : AccountId) (existed : Bool) (block block' : BlockOutcomes) : Prop where
  blockHeight : block'.blockHeight = block.blockHeight
  isEmpty : block'.outcomes.isEmpty = block.outcomes.isEmpty
  actions : (successfulActions block'.outcomes).map bareStep =
    (withoutIdle accountId existed (successfulActions block.outcomes)).map bareStep

/-- The same for blocks in order. -/
inductive WithoutIdleBlocks (accountId : AccountId) : Bool → List BlockOutcomes → List BlockOutcomes → Prop
  | nil {existed : Bool} : WithoutIdleBlocks accountId existed [] []
  | cons {existed : Bool} {block block' : BlockOutcomes} {blocks blocks' : List BlockOutcomes}
      (hblock : WithoutIdle accountId existed block block')
      (hblocks : WithoutIdleBlocks accountId
        (existsAfter accountId (successfulActions block.outcomes) existed) blocks blocks') :
      WithoutIdleBlocks accountId existed (block :: blocks) (block' :: blocks')

/-! ### Steps without the transfers -/

section Steps

variable {decoders : Decoders} {accountId : AccountId} {key : PublicKey × AccountId} {blockHeight : Nat}
  {existed : Bool} {steps : List (ReceiptView × ActionView)} {step : ReceiptView × ActionView}

theorem entryOf_bareStep (steps : List (ReceiptView × ActionView)) :
    entryOf decoders key blockHeight (steps.map bareStep) = entryOf decoders key blockHeight steps := by
  rw [entryOf, List.foldl_map]
  rfl

theorem lastReceipt_bareStep (accountId : AccountId) (steps : List (ReceiptView × ActionView)) :
    lastReceipt (deletesAccount accountId) (steps.map bareStep) = lastReceipt (deletesAccount accountId) steps := by
  induction steps using List.reverseRecOn with
  | nil => rfl
  | append_singleton steps step ih =>
      rw [List.map_append, List.map_singleton, lastReceipt_append, lastReceipt_append, ih]
      rfl

/-- The key that transfers to the account add. -/
def IsImplicitKey (decoders : Decoders) (accountId : AccountId) (key : PublicKey × AccountId) : Prop :=
  key.2 = accountId ∧ accountId.len = 64 ∧ decoders.implicitPublicKey accountId = some key.1

theorem touchesKey_of_transfersTo (h : transfersTo accountId step = true) :
    touchesKey decoders key step = true ↔ IsImplicitKey decoders accountId key := by
  obtain ⟨receipt, action⟩ := step
  obtain ⟨publicKey, keyAccount⟩ := key
  unfold transfersTo at h
  cases action with
  | transfer deposit =>
      obtain rfl : receipt.receiverId = accountId := by simpa using h
      simp only [touchesKey, addsKey, deletesKey, deletesAccount, Bool.and_false, Bool.or_false, Bool.and_eq_true,
        decide_eq_true_eq, IsImplicitKey, @eq_comm _ keyAccount]
      constructor
      · rintro ⟨rfl, himplicit⟩
        exact ⟨rfl, himplicit⟩
      · rintro ⟨rfl, himplicit⟩
        exact ⟨rfl, himplicit⟩
  | _ => simp at h

theorem not_deletes_of_transfersTo (h : transfersTo accountId step = true) (key : PublicKey × AccountId) :
    deletesKey key step = false ∧ deletesAccount key.2 step = false := by
  obtain ⟨receipt, action⟩ := step
  unfold transfersTo at h
  cases action with
  | transfer deposit => simp [deletesKey, deletesAccount]
  | _ => simp at h

theorem entryAction_idle (h : transfersTo accountId step = true) (hkey : ¬ IsImplicitKey decoders accountId key)
    (entry : Option AccessKey) : entryAction decoders key blockHeight entry step = entry := by
  have htouches : ¬ touchesKey decoders key step = true := fun htouches =>
    hkey ((touchesKey_of_transfersTo h).mp htouches)
  rcases entryAction_cases decoders key blockHeight entry step with
    ⟨hadds, _, _⟩ | ⟨_, hdeletes, _⟩ | ⟨_, _, hdeletes, _⟩ | ⟨_, heq⟩
  · simp [touchesKey, hadds] at htouches
  · simp [touchesKey, hdeletes] at htouches
  · simp [touchesKey, hdeletes] at htouches
  · exact heq

/-- Other keys have the same entry without the transfers. -/
theorem entryOf_withoutIdle (hkey : ¬ IsImplicitKey decoders accountId key) (existed : Bool)
    (steps : List (ReceiptView × ActionView)) :
    entryOf decoders key blockHeight (withoutIdle accountId existed steps) =
      entryOf decoders key blockHeight steps := by
  unfold entryOf
  generalize (none : Option AccessKey) = entry
  induction steps generalizing entry existed with
  | nil => rfl
  | cons step steps ih =>
      rw [withoutIdle]
      split
      · rename_i hidle
        rw [ih, List.foldl_cons, entryAction_idle (Bool.and_eq_true_iff.mp hidle).2 hkey]
      · rw [List.foldl_cons, List.foldl_cons, ih]

theorem lastStep_cons (p : ReceiptView × ActionView → Bool) (step : ReceiptView × ActionView)
    (steps : List (ReceiptView × ActionView)) :
    lastStep p (step :: steps) = (lastStep p steps).or (if p step then some step else none) := by
  rw [lastStep, List.reverse_cons, List.find?_append, List.find?_singleton, lastStep]

theorem lastReceipt_withoutIdle (deleted : AccountId) (existed : Bool) (steps : List (ReceiptView × ActionView)) :
    lastReceipt (deletesAccount deleted) (withoutIdle accountId existed steps) =
      lastReceipt (deletesAccount deleted) steps := by
  unfold lastReceipt
  congr 1
  induction steps generalizing existed with
  | nil => rfl
  | cons step steps ih =>
      rw [withoutIdle]
      split
      · rename_i hidle
        have hdeletes : deletesAccount deleted step = false :=
          (not_deletes_of_transfersTo (Bool.and_eq_true_iff.mp hidle).2 ("", deleted)).2
        rw [ih, lastStep_cons, hdeletes, if_neg Bool.false_ne_true, Option.or_none]
      · rw [lastStep_cons, lastStep_cons, ih]

theorem withoutIdle_of_none (existed : Bool) (h : ∀ step ∈ steps, transfersTo accountId step = false) :
    withoutIdle accountId existed steps = steps := by
  induction steps generalizing existed with
  | nil => rfl
  | cons step steps ih =>
      rw [withoutIdle, h step List.mem_cons_self, Bool.and_false, if_neg Bool.false_ne_true,
        ih _ fun step' hmem => h step' (List.mem_cons_of_mem _ hmem)]

end Steps

/-! ### The last addition of the key -/

/-- The permission that an addition gives the key. -/
def givenPermission (step : ReceiptView × ActionView) : AccessKeyPermission :=
  match step.2 with
  | .addKey _ accessKey => .ofView accessKey.permission
  | _ => .fullAccess

/-- The last addition of the key in the steps: by which receipt, with which permission, and by which receipt the key
is deleted after it. -/
def additionOf (decoders : Decoders) (key : PublicKey × AccountId) (steps : List (ReceiptView × ActionView)) :
    Option (CryptoHash × AccessKeyPermission × Option CryptoHash) :=
  (lastStep (addsKey decoders key) steps).map fun last =>
    (last.1.receiptId, givenPermission last, (lastStep (touchesKey decoders key) steps).bind fun step =>
      if addsKey decoders key step then none else some step.1.receiptId)

/-- The last addition of the account's own key is the same without the transfers to the account while it exists. -/
def MasksTransfers (decoders : Decoders) (accountId : AccountId) (existed : Bool)
    (steps : List (ReceiptView × ActionView)) : Prop :=
  ∀ key, IsImplicitKey decoders accountId key →
    additionOf decoders key (withoutIdle accountId existed steps) = additionOf decoders key steps

section Addition

variable {decoders : Decoders} {accountId : AccountId} {key : PublicKey × AccountId} {blockHeight : Nat}
  {existed : Bool} {steps : List (ReceiptView × ActionView)} {step last : ReceiptView × ActionView} {e : AccessKey}

theorem entryAction_adds (h : addsKey decoders key step = true) (entry : Option AccessKey) :
    entryAction decoders key blockHeight entry step =
      some ⟨key.1, key.2, some step.1.receiptId, none, givenPermission step, blockHeight⟩ := by
  obtain ⟨receipt, action⟩ := step
  unfold addsKey at h
  unfold entryAction
  cases action with
  | addKey publicKey accessKey =>
      simp only [Bool.and_eq_true, decide_eq_true_eq] at h
      simp [h.1, h.2, AccessKey.fromActionView, givenPermission]
  | transfer deposit =>
      simp only [Bool.and_eq_true, decide_eq_true_eq] at h
      simp [h.1, h.2.1, h.2.2, AccessKey.fromActionView, givenPermission, AccessKeyPermission.ofView]
  | _ => simp at h

/-- The entry has the permission of the last addition. -/
theorem entryOf_permission (h : entryOf decoders key blockHeight steps = some e)
    (hlast : lastStep (addsKey decoders key) steps = some last) : e.permissionKind = givenPermission last := by
  induction steps using List.reverseRecOn generalizing e with
  | nil => cases h
  | append_singleton steps step ih =>
      rw [entryOf_append] at h
      rw [lastStep_append] at hlast
      cases hadds : addsKey decoders key step with
      | true =>
          rw [entryAction_adds hadds] at h
          rw [hadds, if_pos rfl] at hlast
          cases h
          cases hlast
          rfl
      | false =>
          rw [hadds, if_neg Bool.false_ne_true] at hlast
          rcases entryAction_cases decoders key blockHeight (entryOf decoders key blockHeight steps) step with
            ⟨hadds', _, _⟩ | ⟨_, _, heq⟩ | ⟨_, _, _, heq⟩ | ⟨_, heq⟩
          · rw [hadds] at hadds'
            cases hadds'
          · rw [heq] at h
            cases hprev : entryOf decoders key blockHeight steps with
            | none =>
                obtain ⟨hmem, hadded⟩ := mem_of_lastStep hlast
                rw [(entryOf_eq_none.mp hprev last hmem).1] at hadded
                cases hadded
            | some prev =>
                rw [hprev] at h
                cases h
                have hpermission := ih hprev hlast
                exact hpermission
          · rw [heq] at h
            obtain ⟨prev, hprev, rfl⟩ := Option.map_eq_some_iff.mp h
            have hpermission := ih hprev hlast
            exact hpermission
          · rw [heq] at h
            exact ih h hlast

/-- The entry of a key that the steps add is their last addition. -/
theorem entryOf_of_addition {receiptId : CryptoHash} {permission : AccessKeyPermission} {deleted : Option CryptoHash}
    (h : additionOf decoders key steps = some (receiptId, permission, deleted)) :
    entryOf decoders key blockHeight steps =
      some ⟨key.1, key.2, some receiptId, deleted, permission, blockHeight⟩ := by
  obtain ⟨last, hlast, hcolumns⟩ := Option.map_eq_some_iff.mp h
  obtain ⟨e, hentry⟩ : ∃ e, entryOf decoders key blockHeight steps = some e := by
    refine Option.ne_none_iff_exists'.mp fun hnone => ?_
    obtain ⟨hmem, hadded⟩ := mem_of_lastStep hlast
    rw [(entryOf_eq_none.mp hnone last hmem).1] at hadded
    cases hadded
  have hwell := wellFormed_entryOf hentry
  have hkey := (eq_key_iff e key).mp hwell.key
  have hcreated := entryOf_created hentry
  have hdeleted := entryOf_deleted hentry
  have hpermission := entryOf_permission hentry hlast
  rw [lastReceipt, hlast, Option.map_some] at hcreated
  obtain ⟨rfl, rfl, rfl⟩ := hcolumns
  rw [hentry, ← hdeleted, ← hpermission, ← hcreated, hkey.1, hkey.2, ← hwell.height]

/-- If the transfers are masked, every entry is the same without them. -/
theorem entryOf_of_masks (hmasks : MasksTransfers decoders accountId existed steps)
    (key : PublicKey × AccountId) : entryOf decoders key blockHeight (withoutIdle accountId existed steps) =
      entryOf decoders key blockHeight steps := by
  by_cases hkey : IsImplicitKey decoders accountId key
  · have hsame := hmasks key hkey
    cases hadded : additionOf decoders key steps with
    | some added =>
        rw [hadded] at hsame
        rw [entryOf_of_addition hsame, entryOf_of_addition hadded]
    | none =>
        -- nothing adds the key, so there is no transfer
        have hnone := lastStep_eq_none.mp (Option.map_eq_none_iff.mp hadded)
        rw [withoutIdle_of_none existed fun step hstep => Bool.eq_false_iff.mpr fun htransfer => ?_]
        have htouches : touchesKey decoders key step = true := (touchesKey_of_transfersTo htransfer).mpr hkey
        rw [touchesKey, (not_deletes_of_transfersTo htransfer key).1, (not_deletes_of_transfersTo htransfer key).2,
          Bool.or_false, Bool.or_false] at htouches
        rw [hnone step hstep] at htouches
        cases htouches
  · exact entryOf_withoutIdle hkey existed steps

end Addition

/-! ### Runs -/

/-- Two maps with the same entries list them in some order each. -/
theorem perm_entries_of_lookup {κ ρ : Type} [DecidableEq κ] {t t' : Table κ ρ}
    (h : ∀ key, t'.lookup key = t.lookup key) : t'.entries.Perm t.entries :=
  List.lookup_ext t'.nodupKeys t.nodupKeys fun key row => by
    show row ∈ t'.lookup key ↔ row ∈ t.lookup key
    rw [h key]

/-- What the runs of the adapter promise about an account, whether it existed when the blocks began: the rows are
those of a run of the same blocks without the transfers to it while it exists, and while it exists a row keeps its
creation, and its deletion if it has one, up to the next `AddKey` of the key. -/
structure TransfersLeaveKeys (decoders : Decoders) (accountId : AccountId) (existed : Bool)
    (blocks : List BlockOutcomes) (w : World) : Prop where
  rows : ∀ first rest first' w', blocks = first ++ rest → WithoutIdleBlocks accountId existed first first' →
    InOrder (handleBlockAccessKeys decoders) w first w' →
    ∃ w'', InOrder (handleBlockAccessKeys decoders) w first' w'' ∧
      ∀ key, w''.db.accessKeys.lookup key = w'.db.accessKeys.lookup key
  kept : ∀ first middle rest w' w'' key row, blocks = first ++ (middle ++ rest) →
    InOrder (handleBlockAccessKeys decoders) w first w' →
    InOrder (handleBlockAccessKeys decoders) w' middle w'' → key.2 = accountId →
    existsAfter accountId (stepsOf first) existed = true →
    (∀ step ∈ stepsOf middle, addedPermission key step = none ∧ deletesAccount accountId step = false) →
    w'.db.accessKeys.lookup key = some row →
    ∃ row', w''.db.accessKeys.lookup key = some row' ∧ row'.createdByReceiptId = row.createdByReceiptId ∧
      (row.deletedByReceiptId ≠ none → row'.deletedByReceiptId ≠ none)

/-- In every block, the last addition of the account's own key is none of the transfers to the existing account. -/
def MasksAllTransfers (decoders : Decoders) (accountId : AccountId) (existed : Bool) (blocks : List BlockOutcomes) :
    Prop :=
  ∀ first block rest, blocks = first ++ block :: rest → MasksTransfers decoders accountId
    (existsAfter accountId (stepsOf first) existed) (successfulActions block.outcomes)

section Runs

variable {decoders : Decoders} {accountId : AccountId} {key : PublicKey × AccountId} {existed : Bool}
  {block block' : BlockOutcomes} {blocks blocks' : List BlockOutcomes} {w w' : World}

theorem lookups_withoutIdle (hblock : WithoutIdle accountId existed block block')
    (hmasks : MasksTransfers decoders accountId existed (successfulActions block.outcomes)) :
    (∀ key, (collectAccessKeys decoders block'.outcomes block'.blockHeight).accessKeys.lookup key =
        (collectAccessKeys decoders block.outcomes block.blockHeight).accessKeys.lookup key) ∧
      ∀ deleted, (collectAccessKeys decoders block'.outcomes block'.blockHeight).deletedAccounts.lookup deleted =
        (collectAccessKeys decoders block.outcomes block.blockHeight).deletedAccounts.lookup deleted := by
  constructor
  · intro key
    rw [(lookup_collectAccessKeys _ _ _).1, (lookup_collectAccessKeys _ _ _).1, hblock.blockHeight,
      ← entryOf_bareStep, hblock.actions, entryOf_bareStep, entryOf_of_masks hmasks]
  · intro deleted
    rw [(lookup_collectAccessKeys _ _ _).2, (lookup_collectAccessKeys _ _ _).2, ← lastReceipt_bareStep,
      hblock.actions, lastReceipt_bareStep, lastReceipt_withoutIdle]

/-- If its transfers are masked, every run of the block is one of the block without them. -/
theorem finishes_withoutIdle (hblock : WithoutIdle accountId existed block block')
    (hmasks : MasksTransfers decoders accountId existed (successfulActions block.outcomes))
    (h : Finishes (handleBlockAccessKeys decoders block) w () w') :
    Finishes (handleBlockAccessKeys decoders block') w () w' := by
  unfold handleBlockAccessKeys at h ⊢
  cases hempty : block.outcomes.isEmpty with
  | true =>
      rw [handleAccessKeys, if_pos (hblock.isEmpty.trans hempty)]
      rwa [handleAccessKeys, if_pos hempty] at h
  | false =>
      obtain ⟨hkeys, haccounts⟩ := lookups_withoutIdle hblock hmasks
      rw [handleAccessKeys_eq (hblock.isEmpty.trans hempty)]
      rw [handleAccessKeys_eq hempty] at h
      obtain ⟨values, hvalues, h⟩ := h.of_anyOrder
      obtain ⟨deletedAccounts, hdeleted, h⟩ := h.of_anyOrder
      refine .of_step (.anyOrder (hvalues.trans ((perm_entries_of_lookup hkeys).map _).symm)) ?_
      refine .of_step (.anyOrder (hdeleted.trans ((perm_entries_of_lookup haccounts).map _).symm)) ?_
      rwa [hblock.blockHeight]

theorem stepsOf_cons (block : BlockOutcomes) (blocks : List BlockOutcomes) :
    stepsOf (block :: blocks) = successfulActions block.outcomes ++ stepsOf blocks := List.flatMap_cons

theorem stepsOf_append (blocks blocks' : List BlockOutcomes) :
    stepsOf (blocks ++ blocks') = stepsOf blocks ++ stepsOf blocks' := List.flatMap_append

theorem existsAfter_append (steps steps' : List (ReceiptView × ActionView)) (existed : Bool) :
    existsAfter accountId (steps ++ steps') existed =
      existsAfter accountId steps' (existsAfter accountId steps existed) := List.foldl_append

/-- The condition on the blocks that follow the first one. -/
theorem MasksAllTransfers.tail (h : MasksAllTransfers decoders accountId existed (block :: blocks)) :
    MasksAllTransfers decoders accountId (existsAfter accountId (successfulActions block.outcomes) existed)
      blocks := by
  rintro first later rest rfl
  have hlater := h (block :: first) later rest rfl
  rwa [stepsOf_cons, existsAfter_append] at hlater

theorem run_withoutIdle (hblocks : WithoutIdleBlocks accountId existed blocks blocks')
    (hmasks : MasksAllTransfers decoders accountId existed blocks)
    (hrun : InOrder (handleBlockAccessKeys decoders) w blocks w') :
    InOrder (handleBlockAccessKeys decoders) w blocks' w' := by
  induction hblocks generalizing w with
  | nil =>
      cases hrun
      exact .nil
  | cons hblock _ ih =>
      cases hrun with
      | cons hfirst hrest =>
          exact .cons (finishes_withoutIdle hblock (hmasks [] _ _ rfl) hfirst) (ih hmasks.tail hrest)

theorem existsAfter_of_kept {steps : List (ReceiptView × ActionView)}
    (h : ∀ step ∈ steps, deletesAccount accountId step = false) : existsAfter accountId steps true = true := by
  induction steps with
  | nil => rfl
  | cons step steps ih =>
      have hstep : existsAfterStep accountId true step = true := by
        rw [existsAfterStep, h step List.mem_cons_self]
        split <;> rfl
      rw [existsAfter, List.foldl_cons, hstep]
      exact ih fun step' hmem => h step' (List.mem_cons_of_mem _ hmem)

/-- While the account exists, all transfers to it are left out, so only an `AddKey` adds the key. -/
theorem not_adds_withoutIdle {steps : List (ReceiptView × ActionView)} (hkey : key.2 = accountId)
    (h : ∀ step ∈ steps, addedPermission key step = none ∧ deletesAccount accountId step = false) :
    ∀ step ∈ withoutIdle accountId true steps, addsKey decoders key step = false := by
  induction steps with
  | nil => exact fun step hmem => (List.not_mem_nil hmem).elim
  | cons step steps ih =>
      have hrest := ih fun step' hmem => h step' (List.mem_cons_of_mem _ hmem)
      rw [withoutIdle, Bool.true_and]
      cases htransfer : transfersTo accountId step with
      | true => simpa using hrest
      | false =>
          have hexists : existsAfterStep accountId true step = true := by
            rw [existsAfterStep, (h step List.mem_cons_self).2]
            split <;> rfl
          rw [if_neg Bool.false_ne_true, hexists]
          intro step' hmem
          rcases List.mem_cons.mp hmem with rfl | hmem
          · obtain ⟨receipt, action⟩ := step'
            have hadded := (h _ List.mem_cons_self).1
            unfold transfersTo at htransfer
            unfold addedPermission at hadded
            unfold addsKey
            cases action <;> simp_all
          · exact hrest step' hmem

/-- The row of a key while its account exists, after a block that does not add the key again. -/
theorem kept_call {row : AccessKey} (hkey : key.2 = accountId)
    (hmasks : MasksTransfers decoders accountId true (successfulActions block.outcomes))
    (hsteps : ∀ step ∈ successfulActions block.outcomes,
      addedPermission key step = none ∧ deletesAccount accountId step = false)
    (h : Finishes (handleBlockAccessKeys decoders block) w () w') (hrow : w.db.accessKeys.lookup key = some row) :
    ∃ row', w'.db.accessKeys.lookup key = some row' ∧ row'.createdByReceiptId = row.createdByReceiptId ∧
      (row.deletedByReceiptId ≠ none → row'.deletedByReceiptId ≠ none) := by
  have hnotDeleted : lastReceipt (deletesAccount key.2) (successfulActions block.outcomes) = none := by
    rw [hkey]
    exact lastReceipt_eq_none.mpr fun step hstep => (hsteps step hstep).2
  have hidle : sweepEffect block.blockHeight
      (lastReceipt (deletesAccount key.2) (successfulActions block.outcomes)) (w.db.accessKeys.lookup key) =
        w.db.accessKeys.lookup key := by
    rw [hnotDeleted]
    rfl
  rw [row_after_entry h (.inl hidle), hrow, ← entryOf_of_masks hmasks]
  cases hentry : entryOf decoders key block.blockHeight
      (withoutIdle accountId true (successfulActions block.outcomes)) with
  | none => exact ⟨row, rfl, rfl, id⟩
  | some e =>
      have hnotAdded : e.createdByReceiptId = none := by
        rw [entryOf_created hentry]
        exact lastReceipt_eq_none.mpr (not_adds_withoutIdle hkey hsteps)
      have hdeleted := (wellFormed_entryOf hentry).touched hnotAdded
      by_cases hold : row.lastUpdateBlockHeight < block.blockHeight
      · exact ⟨deletedRow e row, by simp [entryEffect, hnotAdded, hold], rfl, fun _ => hdeleted⟩
      · exact ⟨row, by simp [entryEffect, hnotAdded, hold], rfl, id⟩

theorem kept_run {row : AccessKey} (hkey : key.2 = accountId)
    (hmasks : MasksAllTransfers decoders accountId true blocks)
    (hsteps : ∀ step ∈ stepsOf blocks, addedPermission key step = none ∧ deletesAccount accountId step = false)
    (hrun : InOrder (handleBlockAccessKeys decoders) w blocks w') (hrow : w.db.accessKeys.lookup key = some row) :
    ∃ row', w'.db.accessKeys.lookup key = some row' ∧ row'.createdByReceiptId = row.createdByReceiptId ∧
      (row.deletedByReceiptId ≠ none → row'.deletedByReceiptId ≠ none) := by
  induction hrun generalizing row with
  | nil => exact ⟨row, hrow, rfl, id⟩
  | @cons block blocks w w₁ w' hblock _ ih =>
      rw [stepsOf_cons] at hsteps
      have hfirst := fun step hmem => hsteps step (List.mem_append_left _ hmem)
      obtain ⟨row₁, hrow₁, hcreated₁, hdeleted₁⟩ := kept_call hkey (hmasks [] block blocks rfl) hfirst hblock hrow
      have htail := hmasks.tail
      rw [existsAfter_of_kept fun step hmem => (hfirst step hmem).2] at htail
      obtain ⟨row', hrow', hcreated, hdeleted⟩ :=
        ih htail (fun step hmem => hsteps step (List.mem_append_right _ hmem)) hrow₁
      exact ⟨row', hrow', hcreated.trans hcreated₁, fun h => hdeleted (hdeleted₁ h)⟩

/-- Transfers to an existing implicit account leave its keys alone in every run whose blocks mask them. -/
theorem transfers_leave_keys (hmasks : MasksAllTransfers decoders accountId existed blocks) :
    TransfersLeaveKeys decoders accountId existed blocks w where
  rows := by
    rintro first rest first' w' rfl hfirst hrun
    have hmasksFirst : MasksAllTransfers decoders accountId existed first := by
      rintro before block after rfl
      exact hmasks before block (after ++ rest) (by simp)
    exact ⟨w', run_withoutIdle hfirst hmasksFirst hrun, fun _ => rfl⟩
  kept := by
    rintro first middle rest w' w'' key row rfl _ hmiddle hkey hexists hsteps hrow
    have hmasksMiddle : MasksAllTransfers decoders accountId true middle := by
      rintro before block after rfl
      have hblock := hmasks (first ++ before) block (after ++ rest) (by simp)
      rwa [stepsOf_append, existsAfter_append, hexists] at hblock
    exact kept_run hkey hmasksMiddle hsteps hmiddle hrow

end Runs

def implicitKey : PublicKey × AccountId :=
  ("ed25519:BGCCDDHfysuuVnaNVtEhhqeT4k9Muyem3Kpgq2U1m9HX", Accounts.implicitAccount)

/-- Decoders that know one implicit account. -/
def implicitDecoders : Decoders :=
  { Decoders.silent with
    implicitPublicKey := fun accountId => if accountId = implicitKey.2 then some implicitKey.1 else none }

/-- The first transfer creates the account; the key is added again after the second one. -/
def maskedTransfers : List BlockOutcomes :=
  [⟨7, [Accounts.transferTo (.ofText "r1")]⟩,
    ⟨8, [Accounts.transferTo (.ofText "r2"),
      .plain (.ofText "b8") (.plain (.ofText "r3") implicitKey.2 [.addKey implicitKey.1 ⟨0, .fullAccess⟩]) []]⟩]

theorem transfers_leave_keys_masked :
    TransfersLeaveKeys implicitDecoders implicitKey.2 false maskedTransfers { cache := .withSize 1, db := {} } := by
  refine transfers_leave_keys fun first block rest hsplit key hkey => ?_
  obtain ⟨publicKey, accountId⟩ := key
  obtain ⟨rfl, _, himplicit⟩ := hkey
  cases himplicit
  match first, hsplit with
  | [], hsplit =>
      cases hsplit
      decide
  | [_], hsplit =>
      cases hsplit
      decide
  | _ :: _ :: _, hsplit => simp [maskedTransfers] at hsplit

/-- The key with the account, created by an earlier receipt. -/
def worldWithImplicitKey : World where
  cache := .withSize 1
  db := { accessKeys := AList.singleton implicitKey
            ⟨implicitKey.1, implicitKey.2, some (.ofText "r1"), none, .fullAccess, 5⟩ }

/-- A transfer to an account that exists rewrites by which receipt its key was created. -/
theorem transfer_takes_over_key :
    ¬ TransfersLeaveKeys implicitDecoders implicitKey.2 true [⟨7, [Accounts.transferTo (.ofText "r2")]⟩]
      worldWithImplicitKey := by
  intro hkeeps
  obtain ⟨row', hrow', hcreated, _⟩ := hkeeps.kept [] _ [] _ _ implicitKey _ rfl .nil
    (.cons (finishes_after 1 (by decide)) .nil) rfl rfl (by decide) rfl
  have hafter : some row' =
      some (⟨implicitKey.1, implicitKey.2, some (.ofText "r2"), none, .fullAccess, 7⟩ : AccessKey) := by
    rw [← hrow']
    decide
  rw [Option.some.inj hafter] at hcreated
  revert hcreated
  decide

end ExplorerIndexer.AccessKeys

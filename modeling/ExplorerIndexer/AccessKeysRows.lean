import ExplorerIndexer.AdapterAccessKeys
import ExplorerIndexer.AccountsRows

/-! What a call of `handleAccessKeys` does to one row. The in-memory pass leaves at most one entry for a key
and at most one deletion of its account; the statements that concern the row are the sweep of the account and
those that write the entry. -/

namespace ExplorerIndexer.AccessKeys

open Async Store Models
open Accounts (successfulReceipts successfulActions deletesAccount lastStep lastReceipt lastStep_append
  lastReceipt_append lastReceipt_eq_none)

/-! ### The steps that concern a key -/

/-- Adds the key: an `AddKey`, or a transfer to the implicit account the key belongs to. -/
def addsKey (decoders : Decoders) (key : PublicKey × AccountId) (step : ReceiptView × ActionView) : Bool :=
  decide (step.1.receiverId = key.2) &&
    match step.2 with
    | .addKey publicKey _ => decide (publicKey = key.1)
    | .transfer _ => decide (key.2.len = 64) && decide (decoders.implicitPublicKey key.2 = some key.1)
    | _ => false

def deletesKey (key : PublicKey × AccountId) (step : ReceiptView × ActionView) : Bool :=
  decide (step.1.receiverId = key.2) &&
    match step.2 with
    | .deleteKey publicKey => decide (publicKey = key.1)
    | _ => false

def touchesKey (decoders : Decoders) (key : PublicKey × AccountId) (step : ReceiptView × ActionView) : Bool :=
  addsKey decoders key step || deletesKey key step || deletesAccount key.2 step

/-! ### The entry of one key -/

/-- What a step does to the entry of one key. -/
def entryAction (decoders : Decoders) (key : PublicKey × AccountId) (blockHeight : Nat)
    (entry : Option AccessKey) (step : ReceiptView × ActionView) : Option AccessKey :=
  let receiptId := step.1.receiptId
  if step.1.receiverId = key.2 then
    match step.2 with
    | .deleteAccount _ => entry.map fun accessKey => { accessKey with deletedByReceiptId := some receiptId }
    | .addKey publicKey accessKey =>
        if publicKey = key.1 then some (AccessKey.fromActionView key.1 key.2 accessKey receiptId blockHeight)
        else entry
    | .deleteKey publicKey =>
        if publicKey = key.1 then
          some ((entry.map fun existing => { existing with deletedByReceiptId := some receiptId }).getD
            { publicKey := key.1
              accountId := key.2
              createdByReceiptId := none
              deletedByReceiptId := some receiptId
              permissionKind := .fullAccess
              lastUpdateBlockHeight := blockHeight })
        else entry
    | .transfer _ =>
        if key.2.len = 64 ∧ decoders.implicitPublicKey key.2 = some key.1 then
          some (AccessKey.fromActionView key.1 key.2 ⟨0, .fullAccess⟩ receiptId blockHeight)
        else entry
    | _ => entry
  else entry

section Collect

variable {decoders : Decoders} {blockHeight : Nat} {receipt : ReceiptView} {keys : CollectedKeys}

theorem lookup_applyAction (key : PublicKey × AccountId) (action : ActionView) :
    (applyAction decoders blockHeight receipt keys action).accessKeys.lookup key =
      entryAction decoders key blockHeight (keys.accessKeys.lookup key) (receipt, action) := by
  obtain ⟨publicKey, accountId⟩ := key
  unfold entryAction
  by_cases hreceiver : receipt.receiverId = accountId
  · subst hreceiver
    cases action with
    | deleteAccount beneficiaryId => simp [applyAction, Table.lookup_updateWhere]
    | addKey publicKey' accessKey =>
        simp only [applyAction, Table.lookup_insert', Prod.mk.injEq, and_true, if_true]
        by_cases hkey : publicKey = publicKey'
        · simp [hkey]
        · simp [hkey, Ne.symm hkey]
    | deleteKey publicKey' =>
        simp only [applyAction, Table.lookup_modifyOr, Prod.mk.injEq, and_true, if_true]
        by_cases hkey : publicKey = publicKey'
        · subst hkey
          simp
        · simp [hkey, Ne.symm hkey]
    | transfer deposit =>
        simp only [applyAction, if_true]
        by_cases hlen : receipt.receiverId.len = 64
        · cases himplicit : decoders.implicitPublicKey receipt.receiverId with
          | none => simp [hlen]
          | some publicKey' =>
              by_cases hkey : publicKey = publicKey'
              · subst hkey
                simp [hlen]
              · simp [hlen, hkey, Ne.symm hkey]
        · simp [hlen]
    | _ => simp [applyAction]
  · have hne : accountId ≠ receipt.receiverId := Ne.symm hreceiver
    rw [if_neg hreceiver]
    cases action with
    | deleteAccount beneficiaryId => simp [applyAction, Table.lookup_updateWhere, hne]
    | addKey publicKey' accessKey => simp [applyAction, hne]
    | deleteKey publicKey' => simp [applyAction, Table.lookup_modifyOr, hne]
    | transfer deposit =>
        simp only [applyAction]
        split
        · rfl
        · split
          · simp [hne]
          · rfl
    | _ => rfl

theorem lookup_deletedAccounts (accountId : AccountId) (action : ActionView) :
    (applyAction decoders blockHeight receipt keys action).deletedAccounts.lookup accountId =
      if deletesAccount accountId (receipt, action) then some receipt.receiptId
      else keys.deletedAccounts.lookup accountId := by
  cases action with
  | deleteAccount beneficiaryId =>
      simp only [applyAction, deletesAccount, Table.lookup_insert', Bool.and_true, decide_eq_true_eq,
        @eq_comm _ accountId]
  | transfer deposit =>
      simp only [applyAction, deletesAccount, Bool.and_false, Bool.false_eq_true, if_false]
      split
      · rfl
      · split <;> rfl
  | _ => simp [applyAction, deletesAccount]

end Collect

/-- The entry of a key after the in-memory pass. -/
def entryOf (decoders : Decoders) (key : PublicKey × AccountId) (blockHeight : Nat)
    (steps : List (ReceiptView × ActionView)) : Option AccessKey :=
  steps.foldl (entryAction decoders key blockHeight) none

theorem entryOf_append (decoders : Decoders) (key : PublicKey × AccountId) (blockHeight : Nat)
    (steps : List (ReceiptView × ActionView)) (step : ReceiptView × ActionView) :
    entryOf decoders key blockHeight (steps ++ [step]) =
      entryAction decoders key blockHeight (entryOf decoders key blockHeight steps) step := by
  rw [entryOf, List.foldl_append]
  rfl

theorem collectAccessKeys_eq (decoders : Decoders) (outcomes : List IndexerExecutionOutcomeWithReceipt)
    (blockHeight : Nat) :
    collectAccessKeys decoders outcomes blockHeight =
      (successfulActions outcomes).foldl
        (fun keys step => applyAction decoders blockHeight step.1 keys step.2) ⟨∅, ∅⟩ := by
  simp only [collectAccessKeys, successfulActions, List.foldl_flatMap, List.foldl_map]

/-- The in-memory pass, key by key and account by account. -/
theorem lookup_collectAccessKeys (decoders : Decoders) (outcomes : List IndexerExecutionOutcomeWithReceipt)
    (blockHeight : Nat) :
    (∀ key, (collectAccessKeys decoders outcomes blockHeight).accessKeys.lookup key =
        entryOf decoders key blockHeight (successfulActions outcomes)) ∧
      ∀ accountId, (collectAccessKeys decoders outcomes blockHeight).deletedAccounts.lookup accountId =
        lastReceipt (deletesAccount accountId) (successfulActions outcomes) := by
  rw [collectAccessKeys_eq]
  induction successfulActions outcomes using List.reverseRecOn with
  | nil => exact ⟨fun _ => rfl, fun _ => rfl⟩
  | append_singleton steps step ih =>
      simp only [List.foldl_append, List.foldl_cons, List.foldl_nil]
      constructor
      · intro key
        rw [lookup_applyAction, ih.1, entryOf_append]
      · intro accountId
        rw [lookup_deletedAccounts, ih.2, lastReceipt_append]

/-! ### The entry in terms of the steps -/

section Entry

variable {decoders : Decoders} {key : PublicKey × AccountId} {blockHeight : Nat}
  {steps : List (ReceiptView × ActionView)} {entry : Option AccessKey} {e : AccessKey}

/-- The four things a step can do to an entry. -/
theorem entryAction_cases (decoders : Decoders) (key : PublicKey × AccountId) (blockHeight : Nat)
    (entry : Option AccessKey) (step : ReceiptView × ActionView) :
    (addsKey decoders key step = true ∧ deletesKey key step = false ∧ ∃ view,
      entryAction decoders key blockHeight entry step =
        some (AccessKey.fromActionView key.1 key.2 view step.1.receiptId blockHeight)) ∨
    (addsKey decoders key step = false ∧ deletesKey key step = true ∧
      entryAction decoders key blockHeight entry step =
        some ((entry.map fun e => { e with deletedByReceiptId := some step.1.receiptId }).getD
          ⟨key.1, key.2, none, some step.1.receiptId, .fullAccess, blockHeight⟩)) ∨
    (addsKey decoders key step = false ∧ deletesKey key step = false ∧ deletesAccount key.2 step = true ∧
      entryAction decoders key blockHeight entry step =
        entry.map fun e => { e with deletedByReceiptId := some step.1.receiptId }) ∨
    (touchesKey decoders key step = false ∧ entryAction decoders key blockHeight entry step = entry) := by
  obtain ⟨receipt, action⟩ := step
  unfold touchesKey entryAction addsKey deletesKey deletesAccount
  by_cases hreceiver : receipt.receiverId = key.2
  · cases action with
    | deleteAccount beneficiaryId => simp [hreceiver]
    | addKey publicKey accessKey =>
        by_cases hkey : publicKey = key.1
        · refine .inl ⟨by simp [hreceiver, hkey], by simp, accessKey, by simp [hreceiver, hkey]⟩
        · simp [hkey]
    | deleteKey publicKey => by_cases hkey : publicKey = key.1 <;> simp [hreceiver, hkey]
    | transfer deposit =>
        by_cases himplicit : key.2.len = 64 ∧ decoders.implicitPublicKey key.2 = some key.1
        · refine .inl ⟨?_, by simp, ⟨0, .fullAccess⟩, ?_⟩ <;> simp [hreceiver, himplicit]
        · refine .inr (.inr (.inr ⟨?_, by simp [himplicit]⟩))
          simpa [hreceiver] using himplicit
    | _ => simp
  · simp [hreceiver]

/-- Entries carry their key and the block's height, and one that was not created was deleted. -/
structure WellFormedEntry (key : PublicKey × AccountId) (blockHeight : Nat) (entry : AccessKey) : Prop where
  key : entry.key = key
  height : entry.lastUpdateBlockHeight = blockHeight
  touched : entry.createdByReceiptId = none → entry.deletedByReceiptId ≠ none

theorem wellFormed_entryOf (h : entryOf decoders key blockHeight steps = some e) :
    WellFormedEntry key blockHeight e := by
  induction steps using List.reverseRecOn generalizing e with
  | nil => cases h
  | append_singleton steps step ih =>
      rw [entryOf_append] at h
      rcases entryAction_cases decoders key blockHeight (entryOf decoders key blockHeight steps) step with
        ⟨_, _, view, heq⟩ | ⟨_, _, heq⟩ | ⟨_, _, _, heq⟩ | ⟨_, heq⟩ <;> rw [heq] at h
      · cases h
        exact ⟨rfl, rfl, fun hnone => by cases hnone⟩
      · cases hprev : entryOf decoders key blockHeight steps with
        | none =>
            rw [hprev] at h
            cases h
            exact ⟨rfl, rfl, fun _ => Option.some_ne_none _⟩
        | some prev =>
            rw [hprev] at h
            cases h
            exact ⟨(ih hprev).key, (ih hprev).height, fun _ => Option.some_ne_none _⟩
      · obtain ⟨prev, hprev, rfl⟩ := Option.map_eq_some_iff.mp h
        exact ⟨(ih hprev).key, (ih hprev).height, fun _ => Option.some_ne_none _⟩
      · exact ih h

/-- A key has an entry if some step adds or deletes it. -/
theorem entryOf_eq_none : entryOf decoders key blockHeight steps = none ↔
    ∀ step ∈ steps, addsKey decoders key step = false ∧ deletesKey key step = false := by
  induction steps using List.reverseRecOn with
  | nil => simp [entryOf]
  | append_singleton steps step ih =>
      rw [entryOf_append]
      simp only [List.mem_append, List.mem_singleton, or_imp, forall_and, forall_eq]
      rcases entryAction_cases decoders key blockHeight (entryOf decoders key blockHeight steps) step with
        ⟨hadds, hdeletes, view, heq⟩ | ⟨hadds, hdeletes, heq⟩ | ⟨hadds, hdeletes, _, heq⟩ | ⟨htouches, heq⟩
      · simp [heq, hadds]
      · simp [heq, hdeletes]
      · simp [heq, hadds, hdeletes, ih, forall_and]
      · simp only [touchesKey, Bool.or_eq_false_iff] at htouches
        simp [heq, htouches, ih, forall_and]

/-- The entry was created by the last step that adds the key. -/
theorem entryOf_created (h : entryOf decoders key blockHeight steps = some e) :
    e.createdByReceiptId = lastReceipt (addsKey decoders key) steps := by
  induction steps using List.reverseRecOn generalizing e with
  | nil => cases h
  | append_singleton steps step ih =>
      rw [entryOf_append] at h
      rw [lastReceipt_append]
      rcases entryAction_cases decoders key blockHeight (entryOf decoders key blockHeight steps) step with
        ⟨hadds, _, view, heq⟩ | ⟨hadds, _, heq⟩ | ⟨hadds, _, _, heq⟩ | ⟨htouches, heq⟩ <;> rw [heq] at h
      · cases h
        rw [hadds]
        rfl
      · rw [hadds]
        cases hprev : entryOf decoders key blockHeight steps with
        | none =>
            rw [hprev] at h
            cases h
            have hnone : lastReceipt (addsKey decoders key) steps = none :=
              lastReceipt_eq_none.mpr fun step hstep => (entryOf_eq_none.mp hprev step hstep).1
            simp only [Option.map_none, Option.getD_none, Bool.false_eq_true, if_false, hnone]
        | some prev =>
            rw [hprev] at h
            cases h
            have hcreated := ih hprev
            exact hcreated
      · rw [hadds]
        obtain ⟨prev, hprev, rfl⟩ := Option.map_eq_some_iff.mp h
        have hcreated := ih hprev
        exact hcreated
      · simp only [touchesKey, Bool.or_eq_false_iff] at htouches
        rw [htouches.1.1]
        exact ih h

/-- The entry is deleted unless the last step that touches the key adds it. -/
theorem entryOf_deleted (h : entryOf decoders key blockHeight steps = some e) :
    e.deletedByReceiptId = (lastStep (touchesKey decoders key) steps).bind fun step =>
      if addsKey decoders key step then none else some step.1.receiptId := by
  induction steps using List.reverseRecOn generalizing e with
  | nil => cases h
  | append_singleton steps step ih =>
      rw [entryOf_append] at h
      rw [lastStep_append]
      rcases entryAction_cases decoders key blockHeight (entryOf decoders key blockHeight steps) step with
        ⟨hadds, _, view, heq⟩ | ⟨hadds, hdeletes, heq⟩ | ⟨hadds, _, hdeletes, heq⟩ | ⟨htouches, heq⟩ <;>
        rw [heq] at h
      · cases h
        simp [touchesKey, hadds, AccessKey.fromActionView]
      · cases hprev : entryOf decoders key blockHeight steps with
        | none =>
            rw [hprev] at h
            cases h
            simp [touchesKey, hadds, hdeletes]
        | some prev =>
            rw [hprev] at h
            cases h
            simp [touchesKey, hadds, hdeletes]
      · obtain ⟨prev, hprev, rfl⟩ := Option.map_eq_some_iff.mp h
        simp [touchesKey, hadds, hdeletes]
      · rw [htouches]
        exact ih h

end Entry

/-! ### The effect of a statement on one row -/

def sweptRow (blockHeight : Nat) (deletedByReceiptId : CryptoHash) (row : AccessKey) : AccessKey := { row with
  deletedByReceiptId := some deletedByReceiptId
  lastUpdateBlockHeight := blockHeight }

def deletedRow (value row : AccessKey) : AccessKey := { row with
  deletedByReceiptId := value.deletedByReceiptId
  lastUpdateBlockHeight := value.lastUpdateBlockHeight }

def recreatedRow (value row : AccessKey) : AccessKey := { row with
  createdByReceiptId := value.createdByReceiptId
  deletedByReceiptId := value.deletedByReceiptId
  lastUpdateBlockHeight := value.lastUpdateBlockHeight }

def Write.effect (key : PublicKey × AccountId) (blockHeight : Nat) : Write → Option AccessKey → Option AccessKey
  | .sweep _ accountId deletedByReceiptId => fun x => x.map fun row =>
      if (row.deletedByReceiptId.isNone && decide (key.2 = accountId)) = true ∧
        row.lastUpdateBlockHeight < blockHeight then sweptRow blockHeight deletedByReceiptId row else row
  | .update value => fun x => x.map fun row =>
      if decide (value.key = key) = true ∧ row.lastUpdateBlockHeight < blockHeight then
        deletedRow value row else row
  | .insert batch => fun x => x.or (batch.find? fun r => decide (r.key = key))
  | .recreate value => fun x => x.map fun row =>
      if decide (value.key = key) = true ∧ row.lastUpdateBlockHeight < blockHeight then
        recreatedRow value row else row

/-- All entries a write carries have the block's height. -/
def Write.AtHeight (blockHeight : Nat) : Write → Prop
  | .sweep height _ _ => height = blockHeight
  | .insert batch => ∀ value ∈ batch, value.lastUpdateBlockHeight = blockHeight
  | .update value | .recreate value => value.lastUpdateBlockHeight = blockHeight

section Effects

variable {key : PublicKey × AccountId} {blockHeight : Nat} {write : Write}

theorem eq_key_iff (value : AccessKey) (key : PublicKey × AccountId) :
    value.key = key ↔ key.1 = value.publicKey ∧ key.2 = value.accountId := by
  obtain ⟨publicKey, accountId⟩ := key
  simp only [AccessKey.key, Prod.mk.injEq, @eq_comm _ publicKey, @eq_comm _ accountId]

theorem lookup_run (h : write.AtHeight blockHeight) (w : World) :
    (write.run w).db.accessKeys.lookup key = write.effect key blockHeight (w.db.accessKeys.lookup key) := by
  cases write with
  | sweep height accountId deletedByReceiptId =>
      obtain rfl : height = blockHeight := h
      simp only [Write.run, Write.apply, sweepAccount, Table.lookup_updateWhere, Write.effect,
        Bool.and_eq_true, decide_eq_true_eq, sweptRow, and_right_comm]
  | update value =>
      have hheight : value.lastUpdateBlockHeight = blockHeight := h
      simp only [Write.run, Write.apply, updateAccessKey, Table.lookup_updateWhere, Write.effect, hheight,
        Bool.and_eq_true, decide_eq_true_eq, deletedRow, eq_key_iff, and_right_comm]
  | insert batch => exact Table.lookup_insertAllNew _ _ _ _
  | recreate value =>
      have hheight : value.lastUpdateBlockHeight = blockHeight := h
      simp only [Write.run, Write.apply, recreateAccessKey, Table.lookup_updateWhere, Write.effect, hheight,
        Bool.and_eq_true, decide_eq_true_eq, recreatedRow, eq_key_iff, and_right_comm]

theorem guarded_effect (h : write.AtHeight blockHeight) :
    Guarded AccessKey.lastUpdateBlockHeight blockHeight (write.effect key blockHeight) := by
  cases write with
  | sweep height accountId deletedByReceiptId =>
      exact guarded_update AccessKey.lastUpdateBlockHeight
        (fun row => row.deletedByReceiptId.isNone && decide (key.2 = accountId))
        (sweptRow blockHeight deletedByReceiptId) fun _ => rfl
  | update value =>
      exact guarded_update AccessKey.lastUpdateBlockHeight (fun _ => decide (value.key = key))
        (deletedRow value) fun _ => h
  | insert batch => exact guarded_insert fun r hr => h r (List.mem_of_find?_eq_some hr)
  | recreate value =>
      exact guarded_update AccessKey.lastUpdateBlockHeight (fun _ => decide (value.key = key))
        (recreatedRow value) fun _ => h

theorem lookup_applyAll {done : List Write} (hdone : ∀ write ∈ done, write.AtHeight blockHeight) (w : World) :
    (applyAll Write.run done w).db.accessKeys.lookup key =
      applyAll (Write.effect key blockHeight) done (w.db.accessKeys.lookup key) :=
  observe_applyAll (·.db.accessKeys.lookup key) (fun write hmem => lookup_run (hdone write hmem)) w

end Effects

/-- The effect of the sweep on a row, given the deletion of its account. -/
def sweepEffect (blockHeight : Nat) : Option CryptoHash → Option AccessKey → Option AccessKey
  | none, x => x
  | some receiptId, x => x.map fun row =>
      if row.deletedByReceiptId.isNone = true ∧ row.lastUpdateBlockHeight < blockHeight then
        sweptRow blockHeight receiptId row else row

@[simp] theorem sweepEffect_absent (blockHeight : Nat) (deletedBy : Option CryptoHash) :
    sweepEffect blockHeight deletedBy none = none := by
  cases deletedBy <;> rfl

theorem sweepEffect_live {blockHeight : Nat} {row : AccessKey} {receiptId : CryptoHash}
    (hlive : row.deletedByReceiptId = none) (hold : row.lastUpdateBlockHeight < blockHeight) :
    sweepEffect blockHeight (some receiptId) (some row) = some (sweptRow blockHeight receiptId row) := by
  simp [sweepEffect, hlive, hold]

/-- The effect of the other two futures on a row, given the entry of its key. -/
def entryEffect (blockHeight : Nat) : Option AccessKey → Option AccessKey → Option AccessKey
  | none, x => x
  | some entry, x =>
      match entry.createdByReceiptId, x with
      | none, x => x.map fun row => if row.lastUpdateBlockHeight < blockHeight then deletedRow entry row else row
      | some _, none => some entry
      | some _, some row => some
          (if row.lastUpdateBlockHeight < blockHeight then recreatedRow entry row else row)

section Call

variable {decoders : Decoders} {outcomes : List IndexerExecutionOutcomeWithReceipt} {blockHeight : Nat}
  {values : List AccessKey} {deletedAccounts : List (AccountId × CryptoHash)} {key : PublicKey × AccountId}
  {write : Write}

theorem keyed_collectAccessKeys (decoders : Decoders) (outcomes : List IndexerExecutionOutcomeWithReceipt)
    (blockHeight : Nat) : (collectAccessKeys decoders outcomes blockHeight).accessKeys.Keyed AccessKey.key :=
  fun key accessKey h => by
    rw [(lookup_collectAccessKeys decoders outcomes blockHeight).1] at h
    exact (wellFormed_entryOf h).key

theorem entryOf_of_mem (hvalues : values.Perm (collectAccessKeys decoders outcomes blockHeight).accessKeys.rows)
    {value : AccessKey} (hvalue : value ∈ values) :
    entryOf decoders value.key blockHeight (successfulActions outcomes) = some value := by
  rw [← (lookup_collectAccessKeys decoders outcomes blockHeight).1]
  exact (keyed_collectAccessKeys decoders outcomes blockHeight).lookup_of_mem hvalues hvalue

theorem find_entry (hvalues : values.Perm (collectAccessKeys decoders outcomes blockHeight).accessKeys.rows)
    (p : AccessKey → Bool) : (values.filter p).find? (fun r => decide (r.key = key)) =
      (entryOf decoders key blockHeight (successfulActions outcomes)).filter p := by
  rw [← (lookup_collectAccessKeys decoders outcomes blockHeight).1]
  exact (keyed_collectAccessKeys decoders outcomes blockHeight).find?_filter hvalues p key

theorem mem_deletedAccounts
    (hdeleted : deletedAccounts.Perm (deletedAccountsOf (collectAccessKeys decoders outcomes blockHeight)))
    {accountId : AccountId} {receiptId : CryptoHash} : (accountId, receiptId) ∈ deletedAccounts ↔
      lastReceipt (deletesAccount accountId) (successfulActions outcomes) = some receiptId := by
  rw [hdeleted.mem_iff, ← (lookup_collectAccessKeys decoders outcomes blockHeight).2, ← Option.mem_def,
    AList.mem_lookup_iff, deletedAccountsOf, List.mem_map]
  constructor
  · rintro ⟨⟨accountId', receiptId'⟩, hmem, heq⟩
    cases heq
    exact hmem
  · exact fun hmem => ⟨_, hmem, rfl⟩

theorem mem_entryWrites (h : write ∈ entryWrites values) :
    (∃ value ∈ values, value.createdByReceiptId = none ∧ write = .update value) ∨
      write = .insert (values.filter (·.createdByReceiptId.isSome)) ∨
      ∃ value ∈ values, value.createdByReceiptId.isSome = true ∧ write = .recreate value := by
  simp only [entryWrites, List.mem_append, List.mem_cons, List.mem_map, List.mem_filter,
    Option.isNone_iff_eq_none] at h
  rcases h with ⟨value, ⟨hmem, hnone⟩, rfl⟩ | rfl | ⟨value, ⟨hmem, hsome⟩, rfl⟩
  · exact .inl ⟨value, hmem, hnone, rfl⟩
  · exact .inr (.inl rfl)
  · exact .inr (.inr ⟨value, hmem, hsome, rfl⟩)

theorem atHeight_of_mem_sweep (h : write ∈ sweepWrites blockHeight deletedAccounts) :
    write.AtHeight blockHeight := by
  obtain ⟨deleted, _, rfl⟩ := List.mem_map.mp h
  rfl

theorem atHeight_of_mem_entries
    (hvalues : values.Perm (collectAccessKeys decoders outcomes blockHeight).accessKeys.rows)
    (h : write ∈ entryWrites values) : write.AtHeight blockHeight := by
  have hheight : ∀ value ∈ values, value.lastUpdateBlockHeight = blockHeight :=
    fun value hvalue => (wellFormed_entryOf (entryOf_of_mem hvalues hvalue)).height
  rcases mem_entryWrites h with ⟨value, hmem, _, rfl⟩ | rfl | ⟨value, hmem, _, rfl⟩
  · exact hheight value hmem
  · exact fun value hvalue => hheight value (List.mem_filter.mp hvalue).1
  · exact hheight value hmem

theorem effect_of_mem_sweep
    (hdeleted : deletedAccounts.Perm (deletedAccountsOf (collectAccessKeys decoders outcomes blockHeight)))
    (h : write ∈ sweepWrites blockHeight deletedAccounts) (x : Option AccessKey) :
    write.effect key blockHeight x = x ∨ write.effect key blockHeight x =
      sweepEffect blockHeight (lastReceipt (deletesAccount key.2) (successfulActions outcomes)) x := by
  obtain ⟨⟨accountId, receiptId⟩, hmem, rfl⟩ := List.mem_map.mp h
  by_cases haccount : key.2 = accountId
  · rw [haccount, (mem_deletedAccounts hdeleted).mp hmem]
    simp [Write.effect, sweepEffect, haccount]
  · simp [Write.effect, haccount]

theorem exists_sweep
    (hdeleted : deletedAccounts.Perm (deletedAccountsOf (collectAccessKeys decoders outcomes blockHeight)))
    (key : PublicKey × AccountId) (x : Option AccessKey) :
    x = sweepEffect blockHeight (lastReceipt (deletesAccount key.2) (successfulActions outcomes)) x ∨
      ∃ write ∈ sweepWrites blockHeight deletedAccounts, write.effect key blockHeight x =
        sweepEffect blockHeight (lastReceipt (deletesAccount key.2) (successfulActions outcomes)) x := by
  cases hlast : lastReceipt (deletesAccount key.2) (successfulActions outcomes) with
  | none => exact .inl rfl
  | some receiptId =>
      refine .inr ⟨.sweep blockHeight key.2 receiptId, ?_, by simp [Write.effect, sweepEffect]⟩
      exact List.mem_map.mpr ⟨_, (mem_deletedAccounts hdeleted).mpr hlast, rfl⟩

/-- A statement of the other two futures leaves a row alone or does what both futures do to it. -/
theorem effect_of_mem_entries
    (hvalues : values.Perm (collectAccessKeys decoders outcomes blockHeight).accessKeys.rows)
    (h : write ∈ entryWrites values) (x : Option AccessKey) :
    write.effect key blockHeight x = x ∨ write.effect key blockHeight x =
      entryEffect blockHeight (entryOf decoders key blockHeight (successfulActions outcomes)) x := by
  rcases mem_entryWrites h with ⟨value, hmem, hnone, rfl⟩ | rfl | ⟨value, hmem, hsome, rfl⟩
  · by_cases hkey : value.key = key
    · rw [← hkey, entryOf_of_mem hvalues hmem]
      simp [Write.effect, entryEffect, hnone]
    · simp [Write.effect, hkey]
  · simp only [Write.effect, find_entry hvalues]
    cases entryOf decoders key blockHeight (successfulActions outcomes) with
    | none => simp
    | some entry =>
        cases hcreated : entry.createdByReceiptId with
        | none => simp [Option.filter, hcreated]
        | some created => cases x <;> simp [entryEffect, hcreated]
  · by_cases hkey : value.key = key
    · obtain ⟨created, hcreated⟩ := Option.isSome_iff_exists.mp hsome
      rw [← hkey, entryOf_of_mem hvalues hmem]
      cases x with
      | none => exact .inl rfl
      | some row => simp [Write.effect, entryEffect, hcreated]
    · simp [Write.effect, hkey]

theorem exists_entryWrite
    (hvalues : values.Perm (collectAccessKeys decoders outcomes blockHeight).accessKeys.rows)
    (key : PublicKey × AccountId) (x : Option AccessKey) :
    x = entryEffect blockHeight (entryOf decoders key blockHeight (successfulActions outcomes)) x ∨
      ∃ write ∈ entryWrites values, write.effect key blockHeight x =
        entryEffect blockHeight (entryOf decoders key blockHeight (successfulActions outcomes)) x := by
  cases hentry : entryOf decoders key blockHeight (successfulActions outcomes) with
  | none => exact .inl rfl
  | some entry =>
      refine .inr ?_
      have hmem : entry ∈ values :=
        Table.mem_of_lookup hvalues (((lookup_collectAccessKeys _ _ _).1 key).trans hentry)
      have hkey := (wellFormed_entryOf hentry).key
      cases hcreated : entry.createdByReceiptId with
      | none =>
          refine ⟨.update entry, by simp [entryWrites, hmem, hcreated], ?_⟩
          simp [Write.effect, entryEffect, hcreated, hkey]
      | some created =>
          cases x with
          | none =>
              refine ⟨.insert (values.filter (·.createdByReceiptId.isSome)), by simp [entryWrites], ?_⟩
              simp [Write.effect, find_entry hvalues, hentry, entryEffect, hcreated]
          | some row =>
              refine ⟨.recreate entry, by simp [entryWrites, hmem, hcreated], ?_⟩
              simp [Write.effect, entryEffect, hcreated, hkey]

end Call

/-! ### The statements of a call on the rows -/

/-- Statements that each leave a row alone, sweep it or do to it what its entry says. -/
structure RowWrites (decoders : Decoders) (outcomes : List IndexerExecutionOutcomeWithReceipt) (blockHeight : Nat)
    (done : List Write) : Prop where
  atHeight : ∀ write ∈ done, write.AtHeight blockHeight
  effect : ∀ write ∈ done, ∀ key x, write.effect key blockHeight x = x ∨
    write.effect key blockHeight x =
      sweepEffect blockHeight (lastReceipt (deletesAccount key.2) (successfulActions outcomes)) x ∨
    write.effect key blockHeight x =
      entryEffect blockHeight (entryOf decoders key blockHeight (successfulActions outcomes)) x

/-- Among them are a sweep and an entry of every row that these change. -/
structure AllRowWrites (decoders : Decoders) (outcomes : List IndexerExecutionOutcomeWithReceipt) (blockHeight : Nat)
    (done : List Write) : Prop extends RowWrites decoders outcomes blockHeight done where
  sweeps : ∀ key x,
    x = sweepEffect blockHeight (lastReceipt (deletesAccount key.2) (successfulActions outcomes)) x ∨
      ∃ write ∈ done, write.effect key blockHeight x =
        sweepEffect blockHeight (lastReceipt (deletesAccount key.2) (successfulActions outcomes)) x
  enters : ∀ key x,
    x = entryEffect blockHeight (entryOf decoders key blockHeight (successfulActions outcomes)) x ∨
      ∃ write ∈ done, write.effect key blockHeight x =
        entryEffect blockHeight (entryOf decoders key blockHeight (successfulActions outcomes)) x

section Rows

variable {decoders : Decoders} {outcomes : List IndexerExecutionOutcomeWithReceipt} {blockHeight : Nat}
  {done : List Write} {w w' : World}

theorem RowWrites.guarded (h : RowWrites decoders outcomes blockHeight done) (key : PublicKey × AccountId) :
    ∀ write ∈ done, Guarded AccessKey.lastUpdateBlockHeight blockHeight (write.effect key blockHeight) :=
  fun write hwrite => guarded_effect (h.atHeight write hwrite)

theorem RowWrites.lookup (h : RowWrites decoders outcomes blockHeight done) (key : PublicKey × AccountId) (w : World) :
    (applyAll Write.run done w).db.accessKeys.lookup key =
      applyAll (Write.effect key blockHeight) done (w.db.accessKeys.lookup key) :=
  lookup_applyAll h.atHeight w

theorem rowWrites_of_subset {values : List AccessKey} {deletedAccounts : List (AccountId × CryptoHash)}
    (hvalues : values.Perm (collectAccessKeys decoders outcomes blockHeight).accessKeys.rows)
    (hdeleted : deletedAccounts.Perm (deletedAccountsOf (collectAccessKeys decoders outcomes blockHeight)))
    (hdone : done ⊆ sweepWrites blockHeight deletedAccounts ++ entryWrites values) :
    RowWrites decoders outcomes blockHeight done where
  atHeight write hwrite :=
    (List.mem_append.mp (hdone hwrite)).elim atHeight_of_mem_sweep (atHeight_of_mem_entries hvalues)
  effect write hwrite key x := by
    rcases List.mem_append.mp (hdone hwrite) with hsweep | hentry
    · exact (effect_of_mem_sweep hdeleted hsweep x).imp_right .inl
    · exact (effect_of_mem_entries hvalues hentry x).imp_right .inr

/-- A call that is cut off has performed some of its statements. -/
theorem rowWrites_of_steps {p : Prog World Unit} {events : List Event}
    (h : Steps (handleAccessKeys decoders outcomes blockHeight) w events p w') :
    ∃ done, RowWrites decoders outcomes blockHeight done ∧ w' = applyAll Write.run done w := by
  obtain ⟨values, deletedAccounts, done, hvalues, hdeleted, hdone, heq⟩ := interrupted_handleAccessKeys h
  exact ⟨done, rowWrites_of_subset hvalues hdeleted hdone.subset, heq⟩

theorem allRowWrites_of_perm {values : List AccessKey} {deletedAccounts : List (AccountId × CryptoHash)}
    (hvalues : values.Perm (collectAccessKeys decoders outcomes blockHeight).accessKeys.rows)
    (hdeleted : deletedAccounts.Perm (deletedAccountsOf (collectAccessKeys decoders outcomes blockHeight)))
    (hdone : done.Perm (sweepWrites blockHeight deletedAccounts ++ entryWrites values)) :
    AllRowWrites decoders outcomes blockHeight done := by
  refine ⟨rowWrites_of_subset hvalues hdeleted hdone.subset, fun key x => ?_, fun key x => ?_⟩
  · refine (exists_sweep hdeleted key x).imp_right ?_
    rintro ⟨write, hwrite, heffect⟩
    exact ⟨write, hdone.mem_iff.mpr (List.mem_append_left _ hwrite), heffect⟩
  · refine (exists_entryWrite hvalues key x).imp_right ?_
    rintro ⟨write, hwrite, heffect⟩
    exact ⟨write, hdone.mem_iff.mpr (List.mem_append_right _ hwrite), heffect⟩

/-- A call that returns has performed them all. -/
theorem allRowWrites_of_finishes (h : Finishes (handleAccessKeys decoders outcomes blockHeight) w () w') :
    ∃ done, AllRowWrites decoders outcomes blockHeight done ∧ w' = applyAll Write.run done w := by
  obtain ⟨values, deletedAccounts, done, hvalues, hdeleted, hdone, heq⟩ := finishes_handleAccessKeys h
  exact ⟨done, allRowWrites_of_perm hvalues hdeleted hdone, heq⟩

/-- An outline of a call, from its statements. -/
theorem outline_of_rowWrites {rely guarantee : World → World → Prop} {P : World → Prop} {Q : Unit → World → Prop}
    (h : ∀ p writes, AllRowWrites decoders outcomes blockHeight writes → Async.Writes Write.run p writes →
      Outline False rely guarantee P p Q) :
    Outline False rely guarantee P (handleAccessKeys decoders outcomes blockHeight) Q := by
  cases hempty : outcomes.isEmpty with
  | true =>
      rw [handleAccessKeys, if_pos hempty]
      have hnone : RowWrites decoders outcomes blockHeight [] :=
        ⟨fun _ hmem => (List.not_mem_nil hmem).elim, fun _ hmem => (List.not_mem_nil hmem).elim⟩
      refine h _ [] ⟨hnone, fun key x => .inl ?_, fun key x => .inl ?_⟩ (.ret ())
      · rw [List.isEmpty_iff.mp hempty]
        rfl
      · rw [List.isEmpty_iff.mp hempty]
        rfl
  | false =>
      rw [handleAccessKeys_eq hempty]
      exact .anyOrder fun values hvalues => .anyOrder fun deletedAccounts hdeleted =>
        h _ _ (allRowWrites_of_perm hvalues hdeleted (.refl _)) (writes_futures blockHeight values deletedAccounts)

end Rows

end ExplorerIndexer.AccessKeys

import ExplorerIndexer.AdapterAccounts
import ExplorerIndexer.AsyncOutline
import ExplorerIndexer.StoreVersioned
import Mathlib.Data.List.Induction

/-! What a call of `handleAccounts` does to one row. The entry the in-memory pass leaves for an account
determines the row after the call, for every order of the statements; an interrupted call leaves the row
as it was or as the whole call would leave it. -/

namespace ExplorerIndexer.Accounts

open Async Store Models

/-! ### The steps of a block

A step is an action of a successful receipt, with the receipt. -/

/-- The actions of the successful receipts, in order, each with its receipt. -/
def successfulActions (outcomes : List IndexerExecutionOutcomeWithReceipt) :
    List (ReceiptView × ActionView) :=
  (successfulReceipts outcomes).flatMap fun receipt => receipt.actions.map (Prod.mk receipt)

def deletesAccount (accountId : AccountId) (step : ReceiptView × ActionView) : Bool :=
  decide (step.1.receiverId = accountId) &&
    match step.2 with
    | .deleteAccount _ => true
    | _ => false

/-- The last step with a property. -/
def lastStep (p : ReceiptView × ActionView → Bool) (steps : List (ReceiptView × ActionView)) :
    Option (ReceiptView × ActionView) :=
  steps.reverse.find? p

/-- The receipt of the last step with a property. -/
def lastReceipt (p : ReceiptView × ActionView → Bool) (steps : List (ReceiptView × ActionView)) :
    Option CryptoHash :=
  (lastStep p steps).map (·.1.receiptId)

theorem lastStep_append (p : ReceiptView × ActionView → Bool) (steps : List (ReceiptView × ActionView))
    (step : ReceiptView × ActionView) :
    lastStep p (steps ++ [step]) = if p step then some step else lastStep p steps := by
  rw [lastStep, List.reverse_append, List.reverse_singleton, List.singleton_append, List.find?_cons]
  cases p step <;> rfl

theorem lastReceipt_append (p : ReceiptView × ActionView → Bool) (steps : List (ReceiptView × ActionView))
    (step : ReceiptView × ActionView) :
    lastReceipt p (steps ++ [step]) = if p step then some step.1.receiptId else lastReceipt p steps := by
  rw [lastReceipt, lastStep_append]
  cases p step <;> rfl

theorem mem_of_lastStep {p : ReceiptView × ActionView → Bool} {steps : List (ReceiptView × ActionView)}
    {last : ReceiptView × ActionView} (h : lastStep p steps = some last) : last ∈ steps ∧ p last = true :=
  ⟨List.mem_reverse.mp (List.mem_of_find?_eq_some h), List.find?_some h⟩

theorem lastStep_eq_none {p : ReceiptView × ActionView → Bool} {steps : List (ReceiptView × ActionView)} :
    lastStep p steps = none ↔ ∀ step ∈ steps, p step = false := by
  simp [lastStep]

theorem mem_of_lastReceipt {p : ReceiptView × ActionView → Bool} {steps : List (ReceiptView × ActionView)}
    {receiptId : CryptoHash} (h : lastReceipt p steps = some receiptId) :
    ∃ step ∈ steps, p step = true ∧ step.1.receiptId = receiptId := by
  obtain ⟨step, hstep, hreceipt⟩ := Option.map_eq_some_iff.mp h
  obtain ⟨hmem, hp⟩ := mem_of_lastStep hstep
  exact ⟨step, hmem, hp, hreceipt⟩

theorem lastReceipt_eq_none {p : ReceiptView × ActionView → Bool} {steps : List (ReceiptView × ActionView)} :
    lastReceipt p steps = none ↔ ∀ step ∈ steps, p step = false := by
  rw [lastReceipt, Option.map_eq_none_iff, lastStep_eq_none]

/-- If a step has the property, the last step that has it is this one or a later one. -/
theorem lastStep_of_split {p : ReceiptView × ActionView → Bool} {step : ReceiptView × ActionView}
    (before after : List (ReceiptView × ActionView)) (h : p step = true) :
    ∃ last ∈ step :: after, lastStep p (before ++ step :: after) = some last := by
  have hsome : (lastStep p (step :: after)).isSome = true :=
    List.find?_isSome.mpr ⟨step, List.mem_reverse.mpr List.mem_cons_self, h⟩
  obtain ⟨last, hlast⟩ := Option.isSome_iff_exists.mp hsome
  refine ⟨last, List.mem_reverse.mp (List.mem_of_find?_eq_some hlast), ?_⟩
  rw [lastStep] at hlast
  rw [lastStep, List.reverse_append, List.find?_append, hlast, Option.some_or]

/-! ### The entry of one account -/

/-- What an action does to the entry of one account. -/
def entryAction (accountId : AccountId) (blockHeight : Nat) (receipt : ReceiptView)
    (entry : Option Account) (action : ActionView) : Option Account :=
  if receipt.receiverId = accountId then
    match action with
    | .createAccount => some (Account.newFromReceipt accountId receipt.receiptId blockHeight)
    | .transfer _ =>
        if accountId.len = 64 then some (Account.newFromReceipt accountId receipt.receiptId blockHeight)
        else entry
    | .deleteAccount _ =>
        some ((entry.map fun existing => { existing with deletedByReceiptId := some receipt.receiptId }).getD
          { accountId := accountId
            createdByReceiptId := none
            deletedByReceiptId := some receipt.receiptId
            lastUpdateBlockHeight := blockHeight })
    | _ => entry
  else entry

theorem lookup_applyAction (accountId : AccountId) (blockHeight : Nat) (receipt : ReceiptView)
    (accounts : Table AccountId Account) (action : ActionView) :
    (applyAction blockHeight receipt accounts action).lookup accountId =
      entryAction accountId blockHeight receipt (accounts.lookup accountId) action := by
  unfold entryAction
  by_cases hid : receipt.receiverId = accountId
  · subst hid
    cases action <;> simp only [applyAction, if_true, Table.lookup_insert', Table.lookup_modifyOr]
    split
    · rw [Table.lookup_insert', if_pos rfl]
    · rfl
  · have hne : accountId ≠ receipt.receiverId := Ne.symm hid
    rw [if_neg hid]
    cases action <;>
      simp only [applyAction, Table.lookup_insert', Table.lookup_modifyOr, if_neg hne]
    split
    · rw [Table.lookup_insert', if_neg hne]
    · rfl

theorem collectAccounts_eq (outcomes : List IndexerExecutionOutcomeWithReceipt) (blockHeight : Nat) :
    collectAccounts outcomes blockHeight =
      (successfulActions outcomes).foldl (fun accounts step => applyAction blockHeight step.1 accounts step.2)
        ∅ := by
  simp only [collectAccounts, successfulActions, List.foldl_flatMap, List.foldl_map]

/-- The entry of an account after the in-memory pass. -/
def entryOf (accountId : AccountId) (blockHeight : Nat) (steps : List (ReceiptView × ActionView)) :
    Option Account :=
  steps.foldl (fun entry step => entryAction accountId blockHeight step.1 entry step.2) none

theorem lookup_collectAccounts (accountId : AccountId)
    (outcomes : List IndexerExecutionOutcomeWithReceipt) (blockHeight : Nat) :
    (collectAccounts outcomes blockHeight).lookup accountId =
      entryOf accountId blockHeight (successfulActions outcomes) := by
  rw [collectAccounts_eq, entryOf]
  rw [← AList.lookup_empty (β := fun _ => Account) accountId]
  generalize (∅ : Table AccountId Account) = accounts
  induction successfulActions outcomes generalizing accounts with
  | nil => rfl
  | cons step steps ih => rw [List.foldl_cons, List.foldl_cons, ih, lookup_applyAction]

/-- Entries carry their account and the block's height, and one that was not created was deleted. -/
structure WellFormedEntry (accountId : AccountId) (blockHeight : Nat) (entry : Account) : Prop where
  account : entry.accountId = accountId
  height : entry.lastUpdateBlockHeight = blockHeight
  touched : entry.createdByReceiptId = none → entry.deletedByReceiptId ≠ none

theorem wellFormed_entryAction {accountId : AccountId} {blockHeight : Nat} {receipt : ReceiptView}
    {entry : Option Account} {action : ActionView}
    (h : ∀ e, entry = some e → WellFormedEntry accountId blockHeight e) :
    ∀ e, entryAction accountId blockHeight receipt entry action = some e →
      WellFormedEntry accountId blockHeight e := by
  intro e he
  unfold entryAction at he
  split at he
  · have hnew : ∀ receiptId,
        WellFormedEntry accountId blockHeight (Account.newFromReceipt accountId receiptId blockHeight) :=
      fun _ => ⟨rfl, rfl, fun hnone => by cases hnone⟩
    cases action with
    | createAccount =>
        cases he
        exact hnew _
    | transfer deposit =>
        simp only at he
        split at he
        · cases he
          exact hnew _
        · exact h e he
    | deleteAccount beneficiaryId =>
        cases entry with
        | none =>
            cases he
            exact ⟨rfl, rfl, fun _ => Option.some_ne_none _⟩
        | some existing =>
            cases he
            exact ⟨(h existing rfl).account, (h existing rfl).height, fun _ => Option.some_ne_none _⟩
    | _ => exact h e he
  · exact h e he

theorem wellFormed_foldl {accountId : AccountId} {blockHeight : Nat}
    (steps : List (ReceiptView × ActionView)) {entry : Option Account}
    (h : ∀ e, entry = some e → WellFormedEntry accountId blockHeight e) :
    ∀ e, steps.foldl (fun entry step => entryAction accountId blockHeight step.1 entry step.2) entry =
      some e → WellFormedEntry accountId blockHeight e := by
  induction steps generalizing entry with
  | nil => exact h
  | cons step steps ih => exact ih (wellFormed_entryAction h)

theorem wellFormed_entryOf {accountId : AccountId} {blockHeight : Nat}
    {steps : List (ReceiptView × ActionView)} {e : Account}
    (h : entryOf accountId blockHeight steps = some e) : WellFormedEntry accountId blockHeight e :=
  wellFormed_foldl steps (fun _ hnone => by cases hnone) e h

/-! ### The effect of a statement on one row -/

/-- The row with the columns an update sets. -/
def deletedRow (value row : Account) : Account := { row with
  deletedByReceiptId := value.deletedByReceiptId
  lastUpdateBlockHeight := value.lastUpdateBlockHeight }

def updatedRow (value row : Account) : Account := { row with
  createdByReceiptId := value.createdByReceiptId
  deletedByReceiptId := value.deletedByReceiptId
  lastUpdateBlockHeight := value.lastUpdateBlockHeight }

def Write.effect (accountId : AccountId) (blockHeight : Nat) : Write → Option Account → Option Account
  | .delete value => fun x => x.map fun row =>
      if decide (accountId = value.accountId) = true ∧ row.lastUpdateBlockHeight < blockHeight then
        deletedRow value row else row
  | .insert batch => fun x => x.or (batch.find? fun r => decide (r.accountId = accountId))
  | .recreate value => fun x => x.map fun row =>
      if (decide (accountId = value.accountId) && row.deletedByReceiptId.isSome) = true ∧
        row.lastUpdateBlockHeight < blockHeight then updatedRow value row else row
  | .update value => fun x => x.map fun row =>
      if decide (accountId = value.accountId) = true ∧ row.lastUpdateBlockHeight < blockHeight then
        updatedRow value row else row

/-- All entries a write carries have the block's height. -/
def Write.AtHeight (blockHeight : Nat) : Write → Prop
  | .insert batch => ∀ value ∈ batch, value.lastUpdateBlockHeight = blockHeight
  | .delete value | .recreate value | .update value => value.lastUpdateBlockHeight = blockHeight

theorem lookup_run {accountId : AccountId} {blockHeight : Nat} {write : Write}
    (h : write.AtHeight blockHeight) (w : World) :
    (write.run w).db.accounts.lookup accountId =
      write.effect accountId blockHeight (w.db.accounts.lookup accountId) := by
  cases write with
  | insert batch => exact Table.lookup_insertAllNew _ _ _ _
  | delete value =>
      have hheight : value.lastUpdateBlockHeight = blockHeight := h
      simp only [Write.run, Write.apply, deleteAccount, Table.lookup_updateWhere, Write.effect, hheight,
        Bool.and_eq_true, decide_eq_true_eq, deletedRow]
  | recreate value =>
      have hheight : value.lastUpdateBlockHeight = blockHeight := h
      simp only [Write.run, Write.apply, recreateImplicitAccount, Table.lookup_updateWhere, Write.effect,
        hheight, Bool.and_eq_true, decide_eq_true_eq, updatedRow]
  | update value =>
      have hheight : value.lastUpdateBlockHeight = blockHeight := h
      simp only [Write.run, Write.apply, updateAccount, Table.lookup_updateWhere, Write.effect, hheight,
        Bool.and_eq_true, decide_eq_true_eq, updatedRow]

theorem guarded_effect {accountId : AccountId} {blockHeight : Nat} {write : Write}
    (h : write.AtHeight blockHeight) :
    Guarded Account.lastUpdateBlockHeight blockHeight (write.effect accountId blockHeight) := by
  cases write with
  | insert batch =>
      exact guarded_insert fun r hr => h r (List.mem_of_find?_eq_some hr)
  | delete value =>
      exact guarded_update Account.lastUpdateBlockHeight
        (fun _ => decide (accountId = value.accountId)) (deletedRow value) fun _ => h
  | recreate value =>
      exact guarded_update Account.lastUpdateBlockHeight
        (fun row => decide (accountId = value.accountId) && row.deletedByReceiptId.isSome) (updatedRow value)
        fun _ => h
  | update value =>
      exact guarded_update Account.lastUpdateBlockHeight
        (fun _ => decide (accountId = value.accountId)) (updatedRow value) fun _ => h

/-! ### The effect of a call on one row -/

/-- The row of an account after a call, from the entry the in-memory pass left for the account. -/
def callEffect (blockHeight : Nat) : Option Account → Option Account → Option Account
  | none, x => x
  | some entry, x =>
      match entry.createdByReceiptId, x with
      | none, x => x.map fun row => if row.lastUpdateBlockHeight < blockHeight then deletedRow entry row else row
      | some _, none => some entry
      | some _, some row => some
          (if (isImplicitToRecreate entry = true → row.deletedByReceiptId.isSome = true) ∧
            row.lastUpdateBlockHeight < blockHeight then updatedRow entry row else row)

section Call

variable {outcomes : List IndexerExecutionOutcomeWithReceipt} {blockHeight : Nat} {values : List Account}
  {accountId : AccountId} {write : Write}

theorem keyed_collectAccounts (outcomes : List IndexerExecutionOutcomeWithReceipt) (blockHeight : Nat) :
    (collectAccounts outcomes blockHeight).Keyed (·.accountId) := fun accountId account h => by
  rw [lookup_collectAccounts] at h
  exact (wellFormed_entryOf h).account

theorem entryOf_of_mem (hvalues : values.Perm (collectAccounts outcomes blockHeight).rows)
    {value : Account} (hvalue : value ∈ values) :
    entryOf value.accountId blockHeight (successfulActions outcomes) = some value := by
  rw [← lookup_collectAccounts]
  exact (keyed_collectAccounts outcomes blockHeight).lookup_of_mem hvalues hvalue

theorem find_entry (hvalues : values.Perm (collectAccounts outcomes blockHeight).rows) (p : Account → Bool) :
    (values.filter p).find? (fun r => decide (r.accountId = accountId)) =
      (entryOf accountId blockHeight (successfulActions outcomes)).filter p := by
  rw [← lookup_collectAccounts]
  exact (keyed_collectAccounts outcomes blockHeight).find?_filter hvalues p accountId

theorem mem_writesOf (h : write ∈ writesOf values) :
    (∃ value ∈ values, value.createdByReceiptId = none ∧ write = .delete value) ∨
      write = .insert (values.filter (·.createdByReceiptId.isSome)) ∨
      (∃ value ∈ values, value.createdByReceiptId.isSome = true ∧ isImplicitToRecreate value = true ∧
        write = .recreate value) ∨
      ∃ value ∈ values, value.createdByReceiptId.isSome = true ∧ isImplicitToRecreate value = false ∧
        write = .update value := by
  simp only [writesOf, List.mem_append, List.mem_cons, List.mem_map, List.mem_filter,
    Bool.not_eq_true', Option.isNone_iff_eq_none] at h
  rcases h with ⟨value, ⟨hmem, hnone⟩, rfl⟩ | rfl | ⟨value, ⟨⟨hmem, hsome⟩, himplicit⟩, rfl⟩ |
    ⟨value, ⟨⟨hmem, hsome⟩, himplicit⟩, rfl⟩
  · exact .inl ⟨value, hmem, hnone, rfl⟩
  · exact .inr (.inl rfl)
  · exact .inr (.inr (.inl ⟨value, hmem, hsome, himplicit, rfl⟩))
  · exact .inr (.inr (.inr ⟨value, hmem, hsome, himplicit, rfl⟩))

theorem atHeight_of_mem (hvalues : values.Perm (collectAccounts outcomes blockHeight).rows)
    (h : write ∈ writesOf values) : write.AtHeight blockHeight := by
  have hheight : ∀ value ∈ values, value.lastUpdateBlockHeight = blockHeight :=
    fun value hvalue => (wellFormed_entryOf (entryOf_of_mem hvalues hvalue)).height
  rcases mem_writesOf h with ⟨value, hmem, _, rfl⟩ | rfl | ⟨value, hmem, _, _, rfl⟩ |
    ⟨value, hmem, _, _, rfl⟩
  · exact hheight value hmem
  · exact fun value hvalue => hheight value (List.mem_filter.mp hvalue).1
  · exact hheight value hmem
  · exact hheight value hmem

/-- A statement leaves a row alone or does to it what the whole call does. -/
theorem effect_of_mem (hvalues : values.Perm (collectAccounts outcomes blockHeight).rows)
    (h : write ∈ writesOf values) (x : Option Account) :
    write.effect accountId blockHeight x = x ∨ write.effect accountId blockHeight x =
      callEffect blockHeight (entryOf accountId blockHeight (successfulActions outcomes)) x := by
  rcases mem_writesOf h with ⟨value, hmem, hnone, rfl⟩ | rfl | ⟨value, hmem, hsome, himplicit, rfl⟩ |
    ⟨value, hmem, hsome, himplicit, rfl⟩
  · by_cases haccount : accountId = value.accountId
    · rw [haccount, entryOf_of_mem hvalues hmem]
      simp [Write.effect, callEffect, hnone]
    · simp [Write.effect, haccount]
  · simp only [Write.effect, find_entry hvalues]
    cases entryOf accountId blockHeight (successfulActions outcomes) with
    | none => simp
    | some entry =>
        cases hcreated : entry.createdByReceiptId with
        | none => simp [Option.filter, hcreated]
        | some created => cases x <;> simp [callEffect, hcreated]
  · by_cases haccount : accountId = value.accountId
    · obtain ⟨created, hcreated⟩ := Option.isSome_iff_exists.mp hsome
      rw [haccount, entryOf_of_mem hvalues hmem]
      cases x with
      | none => exact .inl rfl
      | some row => simp [Write.effect, callEffect, hcreated, himplicit]
    · simp [Write.effect, haccount]
  · by_cases haccount : accountId = value.accountId
    · obtain ⟨created, hcreated⟩ := Option.isSome_iff_exists.mp hsome
      rw [haccount, entryOf_of_mem hvalues hmem]
      cases x with
      | none => exact .inl rfl
      | some row => simp [Write.effect, callEffect, hcreated, himplicit]
    · simp [Write.effect, haccount]

/-- Some statement does to a row what the whole call does, unless that is nothing. -/
theorem exists_effect (hvalues : values.Perm (collectAccounts outcomes blockHeight).rows)
    (accountId : AccountId) (x : Option Account) :
    x = callEffect blockHeight (entryOf accountId blockHeight (successfulActions outcomes)) x ∨
      ∃ write ∈ writesOf values, write.effect accountId blockHeight x =
        callEffect blockHeight (entryOf accountId blockHeight (successfulActions outcomes)) x := by
  cases hentry : entryOf accountId blockHeight (successfulActions outcomes) with
  | none => exact .inl rfl
  | some entry =>
      refine .inr ?_
      have hmem : entry ∈ values := Table.mem_of_lookup hvalues ((lookup_collectAccounts _ _ _).trans hentry)
      have haccount := (wellFormed_entryOf hentry).account
      cases hcreated : entry.createdByReceiptId with
      | none =>
          refine ⟨.delete entry, ?_, by simp [Write.effect, callEffect, hcreated, haccount]⟩
          simp [writesOf, hmem, hcreated]
      | some created =>
          cases x with
          | none =>
              refine ⟨.insert (values.filter (·.createdByReceiptId.isSome)), by simp [writesOf], ?_⟩
              simp [Write.effect, find_entry hvalues, hentry, callEffect, hcreated]
          | some row =>
              cases himplicit : isImplicitToRecreate entry with
              | true =>
                  refine ⟨.recreate entry, by simp [writesOf, hmem, hcreated, himplicit], ?_⟩
                  simp [Write.effect, callEffect, hcreated, haccount, himplicit]
              | false =>
                  refine ⟨.update entry, by simp [writesOf, hmem, hcreated, himplicit], ?_⟩
                  simp [Write.effect, callEffect, hcreated, haccount, himplicit]

theorem lookup_applyAll {done : List Write} (hdone : ∀ write ∈ done, write.AtHeight blockHeight) (w : World) :
    (applyAll Write.run done w).db.accounts.lookup accountId =
      applyAll (Write.effect accountId blockHeight) done (w.db.accounts.lookup accountId) :=
  observe_applyAll (·.db.accounts.lookup accountId) (fun write hmem => lookup_run (hdone write hmem)) w

theorem guarded_callEffect {entry : Option Account}
    (h : ∀ e, entry = some e → e.lastUpdateBlockHeight = blockHeight) :
    Guarded Account.lastUpdateBlockHeight blockHeight (callEffect blockHeight entry) where
  settled row hrow := by
    cases entry with
    | none => rfl
    | some entry => cases hcreated : entry.createdByReceiptId <;>
        simp [callEffect, hcreated, Nat.not_lt.mpr hrow]
  stamped x := by
    cases entry with
    | none => exact .inl rfl
    | some entry =>
        have hheight := h entry rfl
        cases hcreated : entry.createdByReceiptId with
        | none =>
            simp only [callEffect, hcreated]
            simpa using (guarded_update Account.lastUpdateBlockHeight (fun _ => true) (deletedRow entry)
              fun _ => hheight).stamped x
        | some created =>
            cases x with
            | none => exact .inr ⟨entry, by simp [callEffect, hcreated], hheight⟩
            | some row =>
                simp only [callEffect, hcreated]
                split
                · exact .inr ⟨_, rfl, hheight⟩
                · exact .inl rfl

theorem guarded_call (accountId : AccountId) (blockHeight : Nat) (steps : List (ReceiptView × ActionView)) :
    Guarded Account.lastUpdateBlockHeight blockHeight
      (callEffect blockHeight (entryOf accountId blockHeight steps)) :=
  guarded_callEffect fun _ he => (wellFormed_entryOf he).height

/-- The row of an account after a call, for every order of the statements. -/
theorem row_after_call {w w' : World} (h : Finishes (handleAccounts outcomes blockHeight) w () w')
    (accountId : AccountId) :
    w'.db.accounts.lookup accountId = callEffect blockHeight
      (entryOf accountId blockHeight (successfulActions outcomes)) (w.db.accounts.lookup accountId) := by
  obtain ⟨values, done, hvalues, hdone, rfl⟩ := finishes_handleAccounts h
  have hheight : ∀ write ∈ done, write.AtHeight blockHeight :=
    fun write hmem => atHeight_of_mem hvalues (hdone.mem_iff.mp hmem)
  rw [lookup_applyAll hheight]
  refine applyAll_agree (fun write hmem => guarded_effect (hheight write hmem))
    (fun write hmem => effect_of_mem hvalues (hdone.mem_iff.mp hmem) _) ?_
  rcases exists_effect hvalues accountId (w.db.accounts.lookup accountId) with
    hsame | ⟨write, hmem, heffect⟩
  · exact .inl hsame
  · exact .inr ⟨write, hdone.mem_iff.mpr hmem, heffect⟩

/-- The row of an account after an interrupted call. -/
theorem row_after_interruption {p : Prog World Unit} {w w' : World} {events : List Event}
    (h : Steps (handleAccounts outcomes blockHeight) w events p w') (accountId : AccountId) :
    w'.db.accounts.lookup accountId = w.db.accounts.lookup accountId ∨
      w'.db.accounts.lookup accountId = callEffect blockHeight
        (entryOf accountId blockHeight (successfulActions outcomes)) (w.db.accounts.lookup accountId) := by
  obtain ⟨values, done, hvalues, hdone, rfl⟩ := interrupted_handleAccounts h
  have hheight : ∀ write ∈ done, write.AtHeight blockHeight :=
    fun write hmem => atHeight_of_mem hvalues (hdone.subset hmem)
  rw [lookup_applyAll hheight]
  exact applyAll_part (fun write hmem => guarded_effect (hheight write hmem))
    fun write hmem => effect_of_mem hvalues (hdone.subset hmem) _

/-- Statements that each leave a row alone or do to it what the whole call does, and one that does it. -/
structure RowWrites (outcomes : List IndexerExecutionOutcomeWithReceipt) (blockHeight : Nat) (writes : List Write) :
    Prop where
  atHeight : ∀ write ∈ writes, write.AtHeight blockHeight
  effect : ∀ write ∈ writes, ∀ accountId x, write.effect accountId blockHeight x = x ∨
    write.effect accountId blockHeight x =
      callEffect blockHeight (entryOf accountId blockHeight (successfulActions outcomes)) x
  acts : ∀ accountId x, x = callEffect blockHeight (entryOf accountId blockHeight (successfulActions outcomes)) x ∨
    ∃ write ∈ writes, write.effect accountId blockHeight x =
      callEffect blockHeight (entryOf accountId blockHeight (successfulActions outcomes)) x

/-- An outline of a call, from its statements. -/
theorem outline_of_rowWrites {rely guarantee : World → World → Prop} {P : World → Prop} {Q : Unit → World → Prop}
    (h : ∀ p writes, RowWrites outcomes blockHeight writes → Async.Writes Write.run p writes →
      Outline False rely guarantee P p Q) :
    Outline False rely guarantee P (handleAccounts outcomes blockHeight) Q := by
  unfold handleAccounts
  split
  · rename_i hempty
    refine h _ [] ⟨fun _ hmem => (List.not_mem_nil hmem).elim, fun _ hmem => (List.not_mem_nil hmem).elim, ?_⟩ (.ret ())
    rw [List.isEmpty_iff.mp hempty]
    exact fun _ _ => .inl rfl
  · exact .anyOrder fun values hvalues => h _ _ ⟨fun _ => atHeight_of_mem hvalues,
      fun _ hwrite _ x => effect_of_mem hvalues hwrite x, exists_effect hvalues⟩ (writes_handleAccounts values)

end Call

end ExplorerIndexer.Accounts

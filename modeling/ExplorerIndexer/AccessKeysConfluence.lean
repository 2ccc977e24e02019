import ExplorerIndexer.AccessKeysRows

/-! When the three futures of `handleAccessKeys` are confluent. All of them are guarded by the height of the
block and raise it, so whichever reaches a row first disables the others. That is harmless unless the sweep of
a deleted account and the entry of one of its live keys would leave different rows. -/

namespace ExplorerIndexer.AccessKeys

open Async Store Models
open Accounts (successfulActions deletesAccount lastStep lastReceipt)

/-- Every run of a call leaves the same access keys. -/
def Confluent (decoders : Decoders) (outcomes : List IndexerExecutionOutcomeWithReceipt) (blockHeight : Nat)
    (w : World) : Prop :=
  ∀ w' w'', Finishes (handleAccessKeys decoders outcomes blockHeight) w () w' →
    Finishes (handleAccessKeys decoders outcomes blockHeight) w () w'' →
    ∀ key, w'.db.accessKeys.lookup key = w''.db.accessKeys.lookup key

/-- Whenever the account of a live key is deleted, no step adds or deletes the key itself, or the last step that
touches it is a deletion by the receipt that deletes the account last, and no other receipt than the one that
created the row is the last to add it. -/
def SweepAgrees (decoders : Decoders) (steps : List (ReceiptView × ActionView))
    (accessKeys : Table (PublicKey × AccountId) AccessKey) : Prop :=
  ∀ key row receiptId, accessKeys.lookup key = some row → row.deletedByReceiptId = none →
    lastReceipt (deletesAccount key.2) steps = some receiptId →
    (∀ step ∈ steps, addsKey decoders key step = false ∧ deletesKey key step = false) ∨
      (∃ step, lastStep (touchesKey decoders key) steps = some step ∧ addsKey decoders key step = false ∧
        step.1.receiptId = receiptId) ∧
      ∀ creator, lastReceipt (addsKey decoders key) steps = some creator → row.createdByReceiptId = some creator

section Row

variable {decoders : Decoders} {outcomes : List IndexerExecutionOutcomeWithReceipt} {blockHeight : Nat}
  {w w' : World} {key : PublicKey × AccountId} {y : Option AccessKey}

/-- A row on which the sweep and the entry agree is the same after every run. -/
theorem row_after_call (h : Finishes (handleAccessKeys decoders outcomes blockHeight) w () w')
    (hsweep : sweepEffect blockHeight (lastReceipt (deletesAccount key.2) (successfulActions outcomes))
        (w.db.accessKeys.lookup key) ∈ [w.db.accessKeys.lookup key, y])
    (hentry : entryEffect blockHeight (entryOf decoders key blockHeight (successfulActions outcomes))
        (w.db.accessKeys.lookup key) ∈ [w.db.accessKeys.lookup key, y])
    (hsome : y ∈ [w.db.accessKeys.lookup key,
      sweepEffect blockHeight (lastReceipt (deletesAccount key.2) (successfulActions outcomes))
        (w.db.accessKeys.lookup key),
      entryEffect blockHeight (entryOf decoders key blockHeight (successfulActions outcomes))
        (w.db.accessKeys.lookup key)]) :
    w'.db.accessKeys.lookup key = y := by
  obtain ⟨done, hdone, rfl⟩ := allRowWrites_of_finishes h
  simp only [List.mem_cons, List.not_mem_nil, or_false] at hsweep hentry hsome
  rw [hdone.lookup]
  refine applyAll_agree (hdone.guarded key) (fun write hwrite => ?_) ?_
  · rcases hdone.effect write hwrite key (w.db.accessKeys.lookup key) with hidle | heffect | heffect
    · exact .inl hidle
    · rwa [heffect]
    · rwa [heffect]
  · rcases hsome with hy | hy | hy
    · exact .inl hy.symm
    · rcases hdone.sweeps key (w.db.accessKeys.lookup key) with hidle | ⟨write, hwrite, heffect⟩
      · exact .inl (hidle.trans hy.symm)
      · exact .inr ⟨write, hwrite, heffect.trans hy.symm⟩
    · rcases hdone.enters key (w.db.accessKeys.lookup key) with hidle | ⟨write, hwrite, heffect⟩
      · exact .inl (hidle.trans hy.symm)
      · exact .inr ⟨write, hwrite, heffect.trans hy.symm⟩

/-- If nothing adds or deletes the key, its row is swept. -/
theorem row_after_sweep (h : Finishes (handleAccessKeys decoders outcomes blockHeight) w () w')
    (hnone : entryOf decoders key blockHeight (successfulActions outcomes) = none) :
    w'.db.accessKeys.lookup key =
      sweepEffect blockHeight (lastReceipt (deletesAccount key.2) (successfulActions outcomes))
        (w.db.accessKeys.lookup key) := by
  refine row_after_call h (List.mem_cons_of_mem _ List.mem_cons_self) ?_ (List.mem_cons_of_mem _ List.mem_cons_self)
  rw [hnone]
  exact List.mem_cons_self

/-- If the sweep leaves the row alone or does the same, the row gets what the entry says. -/
theorem row_after_entry (h : Finishes (handleAccessKeys decoders outcomes blockHeight) w () w')
    (hagrees : sweepEffect blockHeight (lastReceipt (deletesAccount key.2) (successfulActions outcomes))
        (w.db.accessKeys.lookup key) = w.db.accessKeys.lookup key ∨
      sweepEffect blockHeight (lastReceipt (deletesAccount key.2) (successfulActions outcomes))
        (w.db.accessKeys.lookup key) =
          entryEffect blockHeight (entryOf decoders key blockHeight (successfulActions outcomes))
            (w.db.accessKeys.lookup key)) :
    w'.db.accessKeys.lookup key =
      entryEffect blockHeight (entryOf decoders key blockHeight (successfulActions outcomes))
        (w.db.accessKeys.lookup key) := by
  refine row_after_call h ?_ (List.mem_cons_of_mem _ List.mem_cons_self)
    (List.mem_cons_of_mem _ (List.mem_cons_of_mem _ List.mem_cons_self))
  rcases hagrees with hidle | hsame
  · rw [hidle]
    exact List.mem_cons_self
  · rw [hsame]
    exact List.mem_cons_of_mem _ List.mem_cons_self

end Row

/-! ### The effects on a live row -/

/-- An entry writes its deletion to a row, and its creation if it has one. -/
def enteredRow (entry row : AccessKey) : AccessKey := { row with
  createdByReceiptId := entry.createdByReceiptId.or row.createdByReceiptId
  deletedByReceiptId := entry.deletedByReceiptId
  lastUpdateBlockHeight := entry.lastUpdateBlockHeight }

section Live

variable {decoders : Decoders} {steps : List (ReceiptView × ActionView)} {blockHeight : Nat}
  {key : PublicKey × AccountId} {row entry : AccessKey} {receiptId : CryptoHash}

theorem entryEffect_row (hold : row.lastUpdateBlockHeight < blockHeight) :
    entryEffect blockHeight (some entry) (some row) = some (enteredRow entry row) := by
  cases hcreated : entry.createdByReceiptId <;>
    simp [entryEffect, hcreated, hold, deletedRow, recreatedRow, enteredRow]

/-- The sweep and the entry leave the same row exactly when the steps agree. -/
theorem sweptRow_eq_iff
    (hentry : entryOf decoders key blockHeight steps = some entry) :
    sweptRow blockHeight receiptId row = enteredRow entry row ↔
      (∃ step, lastStep (touchesKey decoders key) steps = some step ∧ addsKey decoders key step = false ∧
        step.1.receiptId = receiptId) ∧
      ∀ creator, lastReceipt (addsKey decoders key) steps = some creator →
        row.createdByReceiptId = some creator := by
  have hdeleted : some receiptId = entry.deletedByReceiptId ↔ ∃ step,
      lastStep (touchesKey decoders key) steps = some step ∧ addsKey decoders key step = false ∧
        step.1.receiptId = receiptId := by
    rw [entryOf_deleted hentry, @eq_comm _ (some receiptId), Option.bind_eq_some_iff]
    simp
  have hcreated : row.createdByReceiptId = entry.createdByReceiptId.or row.createdByReceiptId ↔
      ∀ creator, lastReceipt (addsKey decoders key) steps = some creator →
        row.createdByReceiptId = some creator := by
    rw [entryOf_created hentry]
    cases lastReceipt (addsKey decoders key) steps <;> simp
  rw [enteredRow, (wellFormed_entryOf hentry).height, ← hdeleted, ← hcreated]
  simp only [sweptRow, AccessKey.mk.injEq, true_and, and_true]
  exact and_comm

end Live

/-! ### Confluence -/

section Confluence

variable {decoders : Decoders} {outcomes : List IndexerExecutionOutcomeWithReceipt} {blockHeight : Nat}
  {w : World}

/-- If the sweep agrees with the steps, it leaves a row alone that has an entry or does what the entry does. -/
theorem sweepEffect_of_agrees {key : PublicKey × AccountId} {entry : AccessKey}
    (hagrees : SweepAgrees decoders (successfulActions outcomes) w.db.accessKeys)
    (hentry : entryOf decoders key blockHeight (successfulActions outcomes) = some entry) :
    sweepEffect blockHeight (lastReceipt (deletesAccount key.2) (successfulActions outcomes))
        (w.db.accessKeys.lookup key) = w.db.accessKeys.lookup key ∨
      sweepEffect blockHeight (lastReceipt (deletesAccount key.2) (successfulActions outcomes))
        (w.db.accessKeys.lookup key) = entryEffect blockHeight (some entry) (w.db.accessKeys.lookup key) := by
  cases hlast : lastReceipt (deletesAccount key.2) (successfulActions outcomes) with
  | none => exact .inl rfl
  | some receiptId =>
      cases hlookup : w.db.accessKeys.lookup key with
      | none => exact .inl rfl
      | some row =>
          by_cases hacts : row.deletedByReceiptId = none ∧ row.lastUpdateBlockHeight < blockHeight
          · obtain ⟨hlive, hrow⟩ := hacts
            have hagree := (hagrees key row receiptId hlookup hlive hlast).resolve_left fun hnone => by
              rw [entryOf_eq_none.mpr hnone] at hentry
              cases hentry
            rw [sweepEffect_live hlive hrow, entryEffect_row hrow, (sweptRow_eq_iff hentry).mpr hagree]
            exact .inr rfl
          · refine .inl ?_
            simp [sweepEffect, hacts]

/-- The row of a key after a call in which the sweep agrees with the steps. -/
def callEffect (blockHeight : Nat) (deletedBy : Option CryptoHash) (entry x : Option AccessKey) :
    Option AccessKey :=
  if entry.isSome then entryEffect blockHeight entry x else sweepEffect blockHeight deletedBy x

/-- Where the sweep agrees with the steps, each statement leaves a row alone or does to it what the call does, and
unless that is nothing, one of them does it. -/
theorem AllRowWrites.agree {done : List Write} (h : AllRowWrites decoders outcomes blockHeight done)
    (hagrees : SweepAgrees decoders (successfulActions outcomes) w.db.accessKeys) (key : PublicKey × AccountId)
    {y : Option AccessKey}
    (hy : y = callEffect blockHeight (lastReceipt (deletesAccount key.2) (successfulActions outcomes))
      (entryOf decoders key blockHeight (successfulActions outcomes)) (w.db.accessKeys.lookup key)) :
    (∀ write ∈ done, write.effect key blockHeight (w.db.accessKeys.lookup key) = w.db.accessKeys.lookup key ∨
        write.effect key blockHeight (w.db.accessKeys.lookup key) = y) ∧
      (w.db.accessKeys.lookup key = y ∨
        ∃ write ∈ done, write.effect key blockHeight (w.db.accessKeys.lookup key) = y) := by
  cases hentry : entryOf decoders key blockHeight (successfulActions outcomes) with
  | none =>
      rw [hentry, callEffect, Option.isSome_none, if_neg Bool.false_ne_true] at hy
      refine ⟨fun write hwrite => ?_, ?_⟩
      · rcases h.effect write hwrite key (w.db.accessKeys.lookup key) with hsame | hswept | hentered
        · exact .inl hsame
        · exact .inr (hswept.trans hy.symm)
        · rw [hentry] at hentered
          exact .inl hentered
      · rcases h.sweeps key (w.db.accessKeys.lookup key) with hsame | ⟨write, hwrite, hswept⟩
        · exact .inl (hsame.trans hy.symm)
        · exact .inr ⟨write, hwrite, hswept.trans hy.symm⟩
  | some entry =>
      rw [hentry, callEffect, Option.isSome_some, if_pos rfl] at hy
      refine ⟨fun write hwrite => ?_, ?_⟩
      · rcases h.effect write hwrite key (w.db.accessKeys.lookup key) with hsame | hswept | hentered
        · exact .inl hsame
        · rw [hswept, hy]
          exact sweepEffect_of_agrees hagrees hentry
        · rw [hentry] at hentered
          exact .inr (hentered.trans hy.symm)
      · rcases h.enters key (w.db.accessKeys.lookup key) with hsame | ⟨write, hwrite, hentered⟩
        · rw [hentry] at hsame
          exact .inl (hsame.trans hy.symm)
        · rw [hentry] at hentered
          exact .inr ⟨write, hwrite, hentered.trans hy.symm⟩

theorem row_after_agreeing_call {w' : World}
    (hagrees : SweepAgrees decoders (successfulActions outcomes) w.db.accessKeys)
    (h : Finishes (handleAccessKeys decoders outcomes blockHeight) w () w') (key : PublicKey × AccountId) :
    w'.db.accessKeys.lookup key =
      callEffect blockHeight (lastReceipt (deletesAccount key.2) (successfulActions outcomes))
        (entryOf decoders key blockHeight (successfulActions outcomes)) (w.db.accessKeys.lookup key) := by
  obtain ⟨done, hdone, rfl⟩ := allRowWrites_of_finishes h
  obtain ⟨hagree, hsome⟩ := hdone.agree hagrees key rfl
  rw [hdone.lookup]
  exact applyAll_agree (hdone.guarded key) hagree hsome

theorem confluent_of_sweepAgrees
    (hagrees : SweepAgrees decoders (successfulActions outcomes) w.db.accessKeys) :
    Confluent decoders outcomes blockHeight w := by
  intro w' w'' h' h'' key
  rw [row_after_agreeing_call hagrees h' key, row_after_agreeing_call hagrees h'' key]

/-- Two parts of the statements, of which the first acts on the row. -/
theorem lookup_two_parts {first rest : List Write} {key : PublicKey × AccountId} {row : AccessKey}
    (hfirst : ∀ write ∈ first, write.AtHeight blockHeight)
    (hrest : ∀ write ∈ rest, write.AtHeight blockHeight)
    (hrow : applyAll (Write.effect key blockHeight) first (w.db.accessKeys.lookup key) = some row)
    (hheight : row.lastUpdateBlockHeight = blockHeight) :
    (applyAll Write.run rest (applyAll Write.run first w)).db.accessKeys.lookup key = some row := by
  rw [lookup_applyAll hrest, lookup_applyAll hfirst, hrow]
  exact applyAll_settled (fun write hwrite => guarded_effect (hrest write hwrite)) (Nat.le_of_eq hheight.symm)

/-- If the sweep runs first, a live row of a deleted account is swept. -/
theorem exists_run_swept {key : PublicKey × AccountId} {row : AccessKey} {receiptId : CryptoHash}
    (hnonempty : outcomes.isEmpty = false) (hlookup : w.db.accessKeys.lookup key = some row)
    (hlive : row.deletedByReceiptId = none) (hrow : row.lastUpdateBlockHeight < blockHeight)
    (hlast : lastReceipt (deletesAccount key.2) (successfulActions outcomes) = some receiptId) :
    ∃ w', Finishes (handleAccessKeys decoders outcomes blockHeight) w () w' ∧
      w'.db.accessKeys.lookup key = some (sweptRow blockHeight receiptId row) := by
  have hvalues := List.Perm.refl (collectAccessKeys decoders outcomes blockHeight).accessKeys.rows
  have hdeleted := List.Perm.refl (deletedAccountsOf (collectAccessKeys decoders outcomes blockHeight))
  obtain ⟨swept, entered, hswept, hentered, hrun⟩ := finishes_sweep_first blockHeight
    (collectAccessKeys decoders outcomes blockHeight).accessKeys.rows
    (deletedAccountsOf (collectAccessKeys decoders outcomes blockHeight)) w
  have hsweptAt : ∀ write ∈ swept, write.AtHeight blockHeight :=
    fun write h => atHeight_of_mem_sweep (hswept.mem_iff.mp h)
  have henteredAt : ∀ write ∈ entered, write.AtHeight blockHeight :=
    fun write h => atHeight_of_mem_entries hvalues (hentered.mem_iff.mp h)
  have hfirst : applyAll (Write.effect key blockHeight) swept (w.db.accessKeys.lookup key) =
      some (sweptRow blockHeight receiptId row) := by
    rw [hlookup, ← sweepEffect_live hlive hrow, ← hlast]
    exact applyAll_agree_perm hswept (fun write h => guarded_effect (atHeight_of_mem_sweep h))
      (fun write h => effect_of_mem_sweep hdeleted h _) (exists_sweep hdeleted key (some row))
  refine ⟨_, ?_, lookup_two_parts hsweptAt henteredAt hfirst rfl⟩
  rw [handleAccessKeys_eq hnonempty]
  exact .of_step (.anyOrder hvalues) (.of_step (.anyOrder hdeleted) hrun)

/-- If the sweep runs last, a row with an entry gets what the entry says. -/
theorem exists_run_entered {key : PublicKey × AccountId} {row entry : AccessKey}
    (hnonempty : outcomes.isEmpty = false) (hlookup : w.db.accessKeys.lookup key = some row)
    (hrow : row.lastUpdateBlockHeight < blockHeight)
    (hentry : entryOf decoders key blockHeight (successfulActions outcomes) = some entry) :
    ∃ w', Finishes (handleAccessKeys decoders outcomes blockHeight) w () w' ∧
      w'.db.accessKeys.lookup key = some (enteredRow entry row) := by
  have hvalues := List.Perm.refl (collectAccessKeys decoders outcomes blockHeight).accessKeys.rows
  have hdeleted := List.Perm.refl (deletedAccountsOf (collectAccessKeys decoders outcomes blockHeight))
  obtain ⟨swept, entered, hswept, hentered, hrun⟩ := finishes_sweep_last blockHeight
    (collectAccessKeys decoders outcomes blockHeight).accessKeys.rows
    (deletedAccountsOf (collectAccessKeys decoders outcomes blockHeight)) w
  have hsweptAt : ∀ write ∈ swept, write.AtHeight blockHeight :=
    fun write h => atHeight_of_mem_sweep (hswept.mem_iff.mp h)
  have henteredAt : ∀ write ∈ entered, write.AtHeight blockHeight :=
    fun write h => atHeight_of_mem_entries hvalues (hentered.mem_iff.mp h)
  have hfirst : applyAll (Write.effect key blockHeight) entered (w.db.accessKeys.lookup key) =
      some (enteredRow entry row) := by
    rw [hlookup, ← entryEffect_row hrow, ← hentry]
    exact applyAll_agree_perm hentered (fun write h => guarded_effect (atHeight_of_mem_entries hvalues h))
      (fun write h => effect_of_mem_entries hvalues h _) (exists_entryWrite hvalues key (some row))
  refine ⟨_, ?_, lookup_two_parts henteredAt hsweptAt hfirst (wellFormed_entryOf hentry).height⟩
  rw [handleAccessKeys_eq hnonempty]
  exact .of_step (.anyOrder hvalues) (.of_step (.anyOrder hdeleted) hrun)

theorem sweepAgrees_of_confluent
    (hold : ∀ row ∈ w.db.accessKeys.rows, row.lastUpdateBlockHeight < blockHeight)
    (hconfluent : Confluent decoders outcomes blockHeight w) :
    SweepAgrees decoders (successfulActions outcomes) w.db.accessKeys := by
  intro key row receiptId hlookup hlive hlast
  have hrow := hold row (Table.mem_rows_iff_lookup.mpr ⟨key, hlookup⟩)
  have hnonempty : outcomes.isEmpty = false := by
    cases outcomes with
    | nil => cases hlast
    | cons => rfl
  cases hentry : entryOf decoders key blockHeight (successfulActions outcomes) with
  | none => exact .inl (entryOf_eq_none.mp hentry)
  | some entry =>
      obtain ⟨swept, hrunSwept, hswept⟩ := exists_run_swept hnonempty hlookup hlive hrow hlast
      obtain ⟨entered, hrunEntered, hentered⟩ := exists_run_entered hnonempty hlookup hrow hentry
      refine .inr ((sweptRow_eq_iff hentry).mp (Option.some.inj ?_))
      rw [← hswept, ← hentered]
      exact hconfluent swept entered hrunSwept hrunEntered key

/-- The runs of a call agree if and only if the sweep agrees with the steps of the block. -/
theorem confluent_iff_sweepAgrees
    (hold : ∀ row ∈ w.db.accessKeys.rows, row.lastUpdateBlockHeight < blockHeight) :
    Confluent decoders outcomes blockHeight w ↔
      SweepAgrees decoders (successfulActions outcomes) w.db.accessKeys :=
  ⟨sweepAgrees_of_confluent hold, confluent_of_sweepAgrees⟩

end Confluence

/-! ### A key that comes back with its account -/

/-- A live key of an account. -/
def liveKey : AccessKey where
  publicKey := "ed25519:5vh"
  accountId := "bob.near"
  createdByReceiptId := some (.ofText "r1")
  deletedByReceiptId := none
  permissionKind := .fullAccess
  lastUpdateBlockHeight := 5

def worldWithLiveKey : World where
  cache := .withSize 1
  db := { accessKeys := (∅ : Table (PublicKey × AccountId) AccessKey).insert liveKey.key liveKey }

/-- A block in which the account is deleted. -/
def deletion : List IndexerExecutionOutcomeWithReceipt :=
  [.plain (.ofText "b7") (.plain (.ofText "r2") "bob.near" [.deleteAccount "eve.near"]) []]

/-- A block in which the account is deleted, created again and given the same key. -/
def recreation : List IndexerExecutionOutcomeWithReceipt :=
  [.plain (.ofText "b7") (.plain (.ofText "r2") "bob.near" [.deleteAccount "eve.near"]) [],
    .plain (.ofText "b7")
      (.plain (.ofText "r3") "bob.near" [.createAccount, .addKey "ed25519:5vh" ⟨0, .fullAccess⟩]) []]

theorem confluent_deletion : Confluent .silent deletion 7 worldWithLiveKey := by
  refine (confluent_iff_sweepAgrees (by decide)).mpr fun key row receiptId _ _ _ => .inl fun step hstep => ?_
  obtain rfl := List.mem_singleton.mp hstep
  simp [addsKey, deletesKey]

theorem not_confluent_recreation :
    (∀ row ∈ worldWithLiveKey.db.accessKeys.rows, row.lastUpdateBlockHeight < 7) ∧
      ¬ Confluent .silent recreation 7 worldWithLiveKey := by
  refine ⟨by decide, fun hconfluent => ?_⟩
  have hagrees := sweepAgrees_of_confluent (by decide) hconfluent liveKey.key liveKey (.ofText "r2")
    (by decide) rfl (by decide)
  rcases hagrees with hnone | ⟨_, hcreator⟩
  · revert hnone
    decide
  · -- the row was created by another receipt than the one that adds the key
    exact absurd (hcreator (.ofText "r3") (by decide)) (by decide)

end ExplorerIndexer.AccessKeys

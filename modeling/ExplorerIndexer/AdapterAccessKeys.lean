import ExplorerIndexer.AdapterAccounts
import ExplorerIndexer.AsyncAlone
import ExplorerIndexer.DatabaseOutlines
import ExplorerIndexer.ModelSerializers

/-! The access keys adapter. The actions of a block's successful receipts are collapsed into one entry per key
and a list of deleted accounts; three concurrent futures then sweep the keys of the deleted accounts, update
the keys that were only deleted, and add the others. -/

namespace ExplorerIndexer.AccessKeys

open Async Store Models

structure CollectedKeys where
  accessKeys : Table (PublicKey × AccountId) AccessKey
  deletedAccounts : Table AccountId CryptoHash

/-- One action of the loop that fills the two maps. -/
def applyAction (decoders : Decoders) (blockHeight : Nat) (receipt : ReceiptView) (keys : CollectedKeys) :
    ActionView → CollectedKeys
  | .deleteAccount _ =>
      { deletedAccounts := keys.deletedAccounts.insert receipt.receiverId receipt.receiptId
        accessKeys := keys.accessKeys.updateWhere (fun key _ => decide (key.2 = receipt.receiverId))
          fun accessKey => { accessKey with deletedByReceiptId := some receipt.receiptId } }
  | .addKey publicKey accessKey =>
      { keys with
        accessKeys := keys.accessKeys.insert (publicKey, receipt.receiverId)
          (AccessKey.fromActionView publicKey receipt.receiverId accessKey receipt.receiptId blockHeight) }
  | .deleteKey publicKey =>
      { keys with
        accessKeys := keys.accessKeys.modifyOr (publicKey, receipt.receiverId)
          (fun existing => { existing with deletedByReceiptId := some receipt.receiptId })
          { publicKey := publicKey
            accountId := receipt.receiverId
            createdByReceiptId := none
            deletedByReceiptId := some receipt.receiptId
            permissionKind := .fullAccess
            lastUpdateBlockHeight := blockHeight } }
  | .transfer _ =>
      if receipt.receiverId.len ≠ 64 then keys
      else match decoders.implicitPublicKey receipt.receiverId with
        | some publicKey =>
            { keys with
              accessKeys := keys.accessKeys.insert (publicKey, receipt.receiverId)
                (AccessKey.fromActionView publicKey receipt.receiverId ⟨0, .fullAccess⟩ receipt.receiptId
                  blockHeight) }
        | none => keys
  | _ => keys

/-- Both maps after all actions; a Data receipt has none. -/
def collectAccessKeys (decoders : Decoders) (outcomes : List IndexerExecutionOutcomeWithReceipt)
    (blockHeight : Nat) : CollectedKeys :=
  (Accounts.successfulReceipts outcomes).foldl
    (fun keys receipt => receipt.actions.foldl (applyAction decoders blockHeight receipt) keys) ⟨∅, ∅⟩

/-! ### Statements -/

/-- Marks the keys of a deleted account that are not deleted yet. -/
def sweepAccount (blockHeight : Nat) (accountId : AccountId) (deletedByReceiptId : CryptoHash)
    (accessKeys : Table (PublicKey × AccountId) AccessKey) : Table (PublicKey × AccountId) AccessKey :=
  accessKeys.updateWhere
    (fun key row => row.deletedByReceiptId.isNone && decide (row.lastUpdateBlockHeight < blockHeight) &&
      decide (key.2 = accountId))
    fun row => { row with
      deletedByReceiptId := some deletedByReceiptId
      lastUpdateBlockHeight := blockHeight }

def updateAccessKey (value : AccessKey) (accessKeys : Table (PublicKey × AccountId) AccessKey) :
    Table (PublicKey × AccountId) AccessKey :=
  accessKeys.updateWhere
    (fun key row => decide (key.1 = value.publicKey) &&
      decide (row.lastUpdateBlockHeight < value.lastUpdateBlockHeight) && decide (key.2 = value.accountId))
    fun row => { row with
      deletedByReceiptId := value.deletedByReceiptId
      lastUpdateBlockHeight := value.lastUpdateBlockHeight }

/-- The second part of adding a key, for a row that was there before. -/
def recreateAccessKey (value : AccessKey) (accessKeys : Table (PublicKey × AccountId) AccessKey) :
    Table (PublicKey × AccountId) AccessKey :=
  accessKeys.updateWhere
    (fun key row => decide (key.1 = value.publicKey) &&
      decide (row.lastUpdateBlockHeight < value.lastUpdateBlockHeight) && decide (key.2 = value.accountId))
    fun row => { row with
      createdByReceiptId := value.createdByReceiptId
      deletedByReceiptId := value.deletedByReceiptId
      lastUpdateBlockHeight := value.lastUpdateBlockHeight }

/-- The statement that makes a change of the access keys table. -/
def updateAccessKeys
    (change : Table (PublicKey × AccountId) AccessKey → Table (PublicKey × AccountId) AccessKey) :
    Statement World Unit :=
  updateSet fun db => { db with accessKeys := change db.accessKeys }

def insertAccessKeys (batch : List AccessKey) : Statement World Unit :=
  execute (insertBatch AccessKey.key (·.accessKeys) (fun db accessKeys => { db with accessKeys })
    (fun _ _ => none) batch)

/-! ### Futures -/

def deleteAccessKeysForDeletedAccounts (blockHeight : Nat) (deletedAccounts : List (AccountId × CryptoHash)) :
    Prog World Unit :=
  .forEach deletedAccounts fun deleted => do
    let _ ← awaitRetryOrPanic (updateAccessKeys (sweepAccount blockHeight deleted.1 deleted.2)) 10

def updateAccessKeysFuture (accessKeysToUpdate : List AccessKey) : Prog World Unit :=
  .forEach accessKeysToUpdate fun value => do
    let _ ← awaitRetryOrPanic (updateAccessKeys (updateAccessKey value)) 10

def addAccessKeysFuture (accessKeysToInsert : List AccessKey) : Prog World Unit := do
  let _ ← awaitRetryOrPanic (insertAccessKeys accessKeysToInsert) 10
  Prog.forEach accessKeysToInsert fun value => do
    let _ ← awaitRetryOrPanic (updateAccessKeys (recreateAccessKey value)) 10

def handleAccessKeys (decoders : Decoders) (outcomes : List IndexerExecutionOutcomeWithReceipt)
    (blockHeight : Nat) : Prog World Unit :=
  if outcomes.isEmpty then .ret ()
  else
    let keys := collectAccessKeys decoders outcomes blockHeight
    .anyOrder keys.accessKeys.rows fun values =>
      .anyOrder (keys.deletedAccounts.entries.map fun entry => (entry.1, entry.2)) fun deletedAccounts =>
        let (accessKeysToInsert, accessKeysToUpdate) := values.partition (·.createdByReceiptId.isSome)
        .both (deleteAccessKeysForDeletedAccounts blockHeight deletedAccounts)
          (.both (updateAccessKeysFuture accessKeysToUpdate) (addAccessKeysFuture accessKeysToInsert))

/-! ### What a call writes -/

inductive Write where
  | sweep (blockHeight : Nat) (accountId : AccountId) (deletedByReceiptId : CryptoHash)
  | update (value : AccessKey)
  | insert (batch : List AccessKey)
  | recreate (value : AccessKey)

namespace Write

def apply : Write → Table (PublicKey × AccountId) AccessKey → Table (PublicKey × AccountId) AccessKey
  | sweep blockHeight accountId deletedByReceiptId => sweepAccount blockHeight accountId deletedByReceiptId
  | update value => updateAccessKey value
  | insert batch => Table.insertAllNew AccessKey.key batch
  | recreate value => recreateAccessKey value

def run (write : Write) (w : World) : World :=
  { w with db := { w.db with accessKeys := write.apply w.db.accessKeys } }

end Write

theorem writes_updateAccessKeys (write : Write) (n : Nat) :
    Writes Write.run (do let _ ← awaitRetryOrPanic (updateAccessKeys write.apply) n) [write] :=
  .query (fun _ _ _ hok => updateSet_ok hok) fun _ => .ret ()

theorem insertAccessKeys_ok {batch : List AccessKey} {w w' : World} {b : Unit}
    (h : insertAccessKeys batch w = .ok (b, w')) : w' = Write.run (.insert batch) w := by
  obtain ⟨db, hdb, rfl⟩ := execute_ok h
  rw [(insertBatch_ok hdb).1]
  rfl

theorem writes_insertAccessKeys (batch : List AccessKey) (n : Nat) :
    Writes Write.run (awaitRetryOrPanic (insertAccessKeys batch) n) [.insert batch] :=
  .query (fun _ _ _ hok => insertAccessKeys_ok hok) fun b => .ret b

/-- The statements of the sweep. -/
def sweepWrites (blockHeight : Nat) (deletedAccounts : List (AccountId × CryptoHash)) : List Write :=
  deletedAccounts.map fun deleted => .sweep blockHeight deleted.1 deleted.2

/-- The statements of the two futures that write the entries. -/
def entryWrites (values : List AccessKey) : List Write :=
  (values.filter (·.createdByReceiptId.isNone)).map .update ++
    .insert (values.filter (·.createdByReceiptId.isSome)) ::
      (values.filter (·.createdByReceiptId.isSome)).map .recreate

theorem writes_sweep (blockHeight : Nat) (deletedAccounts : List (AccountId × CryptoHash)) :
    Writes Write.run (deleteAccessKeysForDeletedAccounts blockHeight deletedAccounts)
      (sweepWrites blockHeight deletedAccounts) :=
  .forEach fun deleted _ => writes_updateAccessKeys (.sweep blockHeight deleted.1 deleted.2) 10

theorem writes_updateAccessKeysFuture (values : List AccessKey) :
    Writes Write.run (updateAccessKeysFuture values) (values.map .update) :=
  .forEach fun value _ => writes_updateAccessKeys (.update value) 10

theorem writes_addAccessKeysFuture (values : List AccessKey) :
    Writes Write.run (addAccessKeysFuture values) (.insert values :: values.map .recreate) :=
  (writes_insertAccessKeys values 10).bind fun _ =>
    .forEach fun value _ => writes_updateAccessKeys (.recreate value) 10

/-- The futures of a call, for its entries and deleted accounts in some order. -/
def futures (blockHeight : Nat) (values : List AccessKey) (deletedAccounts : List (AccountId × CryptoHash)) :
    Prog World Unit :=
  .both (deleteAccessKeysForDeletedAccounts blockHeight deletedAccounts)
    (.both (updateAccessKeysFuture (values.filter (·.createdByReceiptId.isNone)))
      (addAccessKeysFuture (values.filter (·.createdByReceiptId.isSome))))

theorem writes_entries (values : List AccessKey) :
    Writes Write.run
      (.both (updateAccessKeysFuture (values.filter (·.createdByReceiptId.isNone)))
        (addAccessKeysFuture (values.filter (·.createdByReceiptId.isSome))))
      (entryWrites values) :=
  (writes_updateAccessKeysFuture _).both (writes_addAccessKeysFuture _)

theorem writes_futures (blockHeight : Nat) (values : List AccessKey)
    (deletedAccounts : List (AccountId × CryptoHash)) :
    Writes Write.run (futures blockHeight values deletedAccounts)
      (sweepWrites blockHeight deletedAccounts ++ entryWrites values) :=
  (writes_sweep blockHeight deletedAccounts).both (writes_entries values)

def deletedAccountsOf (keys : CollectedKeys) : List (AccountId × CryptoHash) :=
  keys.deletedAccounts.entries.map fun entry => (entry.1, entry.2)

theorem handleAccessKeys_eq {decoders : Decoders} {outcomes : List IndexerExecutionOutcomeWithReceipt}
    {blockHeight : Nat} (h : outcomes.isEmpty = false) :
    handleAccessKeys decoders outcomes blockHeight =
      .anyOrder (collectAccessKeys decoders outcomes blockHeight).accessKeys.rows fun values =>
        .anyOrder (deletedAccountsOf (collectAccessKeys decoders outcomes blockHeight)) fun deletedAccounts =>
          futures blockHeight values deletedAccounts := by
  have hnew : (not ∘ fun value : AccessKey => value.createdByReceiptId.isSome) =
      fun value => value.createdByReceiptId.isNone := by
    funext value
    simp
  simp only [handleAccessKeys, h, List.partition_eq_filter_filter, hnew]
  rfl

section Runs

variable {decoders : Decoders} {outcomes : List IndexerExecutionOutcomeWithReceipt} {blockHeight : Nat}
  {w w' : World}

/-- An interrupted call has performed some of its statements, each at most once. -/
theorem interrupted_handleAccessKeys {p : Prog World Unit} {events : List Event}
    (h : Steps (handleAccessKeys decoders outcomes blockHeight) w events p w') :
    ∃ values deletedAccounts done,
      values.Perm (collectAccessKeys decoders outcomes blockHeight).accessKeys.rows ∧
      deletedAccounts.Perm (deletedAccountsOf (collectAccessKeys decoders outcomes blockHeight)) ∧
      done.Subperm (sweepWrites blockHeight deletedAccounts ++ entryWrites values) ∧
      w' = applyAll Write.run done w := by
  cases hempty : outcomes.isEmpty with
  | true =>
      rw [handleAccessKeys, if_pos hempty] at h
      exact ⟨_, _, [], .refl _, .refl _, List.nil_subperm, h.of_ret.2.1⟩
  | false =>
      rw [handleAccessKeys_eq hempty] at h
      rcases h.of_anyOrder with ⟨_, hw⟩ | ⟨values, events', hvalues, hrest⟩
      · exact ⟨_, _, [], .refl _, .refl _, List.nil_subperm, hw⟩
      rcases hrest.of_anyOrder with ⟨_, hw⟩ | ⟨deletedAccounts, events'', hdeleted, hrest⟩
      · exact ⟨_, _, [], .refl _, .refl _, List.nil_subperm, hw⟩
      obtain ⟨done, hdone, hw⟩ := (writes_futures blockHeight values deletedAccounts).interrupted hrest
      exact ⟨values, deletedAccounts, done, hvalues, hdeleted, hdone, hw⟩

/-- A finished call has performed its statements once each. -/
theorem finishes_handleAccessKeys (h : Finishes (handleAccessKeys decoders outcomes blockHeight) w () w') :
    ∃ values deletedAccounts done,
      values.Perm (collectAccessKeys decoders outcomes blockHeight).accessKeys.rows ∧
      deletedAccounts.Perm (deletedAccountsOf (collectAccessKeys decoders outcomes blockHeight)) ∧
      done.Perm (sweepWrites blockHeight deletedAccounts ++ entryWrites values) ∧
      w' = applyAll Write.run done w := by
  cases hempty : outcomes.isEmpty with
  | true =>
      rw [handleAccessKeys, if_pos hempty] at h
      obtain ⟨events, hsteps⟩ := h
      rw [List.isEmpty_iff.mp hempty]
      -- an empty batch inserts nothing
      exact ⟨[], [], _, .refl _, .refl _, .refl _, hsteps.of_ret.2.1⟩
  | false =>
      rw [handleAccessKeys_eq hempty] at h
      obtain ⟨values, hvalues, h⟩ := h.of_anyOrder
      obtain ⟨deletedAccounts, hdeleted, h⟩ := h.of_anyOrder
      obtain ⟨done, hdone, hw⟩ := (writes_futures blockHeight values deletedAccounts).finishes h
      exact ⟨values, deletedAccounts, done, hvalues, hdeleted, hdone, hw⟩

end Runs

/-! ### What every statement keeps -/

section Outlines

variable {rely guarantee : World → World → Prop} {P : World → Prop}
    (hwrite : ∀ write w, P w → guarantee w (Write.run write w))
    (hself : ∀ w w', guarantee w w' → rely w w') (hP : Stable rely P)

include hwrite hself hP

theorem outline_await {stmt : Statement World Unit} {n : Nat} (write : Write)
    (hstmt : ∀ w b w', stmt w = .ok (b, w') → w' = write.run w) :
    Outline False rely guarantee P (awaitRetryOrPanic stmt n) fun _ => P := by
  refine .query (M := fun _ => P) (fun w b w' hw hok => ?_) (fun _ _ hw _ _ => hw) False.elim (fun _ => hP)
    fun _ => .ret fun _ hw => hw
  have hG := hwrite write w hw
  rw [hstmt w b w' hok]
  exact ⟨hG, hP _ _ hw (hself _ _ hG)⟩

theorem outline_update (write : Write) :
    Outline False rely guarantee P (do let _ ← awaitRetryOrPanic (updateAccessKeys write.apply) 10) fun _ => P :=
  (outline_await hwrite hself hP write fun _ _ _ hok => updateSet_ok hok).bind fun _ => .ret fun _ hw => hw

/-- A call keeps what each of its statements keeps. -/
theorem outline_handleAccessKeys_of_kept (decoders : Decoders) (outcomes : List IndexerExecutionOutcomeWithReceipt)
    (blockHeight : Nat) :
    Outline False rely guarantee P (handleAccessKeys decoders outcomes blockHeight) fun _ => P := by
  unfold handleAccessKeys
  split
  · exact .ret fun _ hw => hw
  · refine .anyOrder fun values _ => .anyOrder fun deletedAccounts _ => ?_
    refine (Outline.both hself hP hP (hP.and hP) ?_ ?_).post fun _ _ hw => hw.1
    · exact .forEach fun deleted _ => outline_update hwrite hself hP (.sweep blockHeight deleted.1 deleted.2)
    · refine .both hself hP hP hP ?_ ?_
      · exact .forEach fun value _ => outline_update hwrite hself hP (.update value)
      · refine (outline_await hwrite hself hP (.insert _) fun _ _ _ => insertAccessKeys_ok).bind fun _ => ?_
        exact .forEach fun value _ => outline_update hwrite hself hP (.recreate value)

end Outlines

/-! ### The two extreme schedules -/

theorem unfailing_updateAccessKeys
    (change : Table (PublicKey × AccountId) AccessKey → Table (PublicKey × AccountId) AccessKey) :
    Unfailing (do let _ ← awaitRetryOrPanic (updateAccessKeys change) 10) :=
  .query (by decide) (fun _ => ⟨_, rfl⟩) fun _ => .ret ()

theorem unfailing_sweep (blockHeight : Nat) (deletedAccounts : List (AccountId × CryptoHash)) :
    Unfailing (deleteAccessKeysForDeletedAccounts blockHeight deletedAccounts) :=
  .forEach fun _ => unfailing_updateAccessKeys _

theorem unfailing_entries (values : List AccessKey) :
    Unfailing (.both (updateAccessKeysFuture (values.filter (·.createdByReceiptId.isNone)))
      (addAccessKeysFuture (values.filter (·.createdByReceiptId.isSome)))) := by
  refine .both (.forEach fun _ => unfailing_updateAccessKeys _) (.bind ?_ fun _ => ?_)
  · refine .query (by decide) (fun w => ?_) fun b => .ret b
    unfold insertAccessKeys execute insertBatch
    rw [List.findSome?_eq_none_iff.mpr fun _ _ => rfl]
    exact ⟨_, rfl⟩
  · exact .forEach fun _ => unfailing_updateAccessKeys _

section Schedules

variable (blockHeight : Nat) (values : List AccessKey) (deletedAccounts : List (AccountId × CryptoHash))

/-- The sweep may run before the other two futures. -/
theorem finishes_sweep_first (w : World) : ∃ swept entered,
    swept.Perm (sweepWrites blockHeight deletedAccounts) ∧ entered.Perm (entryWrites values) ∧
      Finishes (futures blockHeight values deletedAccounts) w ()
        (applyAll Write.run entered (applyAll Write.run swept w)) := by
  obtain ⟨_, w₁, hsweep⟩ := (unfailing_sweep blockHeight deletedAccounts).finishes w
  obtain ⟨_, w₂, hentries⟩ := (unfailing_entries values).finishes w₁
  obtain ⟨swept, hswept, rfl⟩ := (writes_sweep blockHeight deletedAccounts).finishes hsweep
  obtain ⟨entered, hentered, rfl⟩ := (writes_entries values).finishes hentries
  exact ⟨swept, entered, hswept, hentered, .join_left_first hsweep hentries (.ret () _)⟩

/-- The sweep may run after the other two futures. -/
theorem finishes_sweep_last (w : World) : ∃ swept entered,
    swept.Perm (sweepWrites blockHeight deletedAccounts) ∧ entered.Perm (entryWrites values) ∧
      Finishes (futures blockHeight values deletedAccounts) w ()
        (applyAll Write.run swept (applyAll Write.run entered w)) := by
  obtain ⟨_, w₁, hentries⟩ := (unfailing_entries values).finishes w
  obtain ⟨_, w₂, hsweep⟩ := (unfailing_sweep blockHeight deletedAccounts).finishes w₁
  obtain ⟨entered, hentered, rfl⟩ := (writes_entries values).finishes hentries
  obtain ⟨swept, hswept, rfl⟩ := (writes_sweep blockHeight deletedAccounts).finishes hsweep
  exact ⟨swept, entered, hswept, hentered, .join_right_first hentries hsweep (.ret () _)⟩

end Schedules

end ExplorerIndexer.AccessKeys

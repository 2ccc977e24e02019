import ExplorerIndexer.Database
import ExplorerIndexer.AsyncWrites

/-! The accounts adapter. The actions of a block's successful receipts are collapsed into one entry per
account; the entries are then written by two concurrent futures, one for the accounts that were only
deleted and one for those that were (re)created, through updates guarded by the block height. -/

namespace ExplorerIndexer.Accounts

open Async Store Models

/-- The receipts of the outcomes with a successful status, in order. -/
def successfulReceipts (outcomes : List IndexerExecutionOutcomeWithReceipt) : List ReceiptView :=
  (outcomes.filter (·.succeeded)).map (·.receipt)

/-- One action of the loop that fills the map of accounts. -/
def applyAction (blockHeight : Nat) (receipt : ReceiptView) (accounts : Table AccountId Account) :
    ActionView → Table AccountId Account
  | .createAccount =>
      accounts.insert receipt.receiverId
        (Account.newFromReceipt receipt.receiverId receipt.receiptId blockHeight)
  | .transfer _ =>
      if receipt.receiverId.len = 64 then
        accounts.insert receipt.receiverId
          (Account.newFromReceipt receipt.receiverId receipt.receiptId blockHeight)
      else accounts
  | .deleteAccount _ =>
      accounts.modifyOr receipt.receiverId
        (fun existing => { existing with deletedByReceiptId := some receipt.receiptId })
        { accountId := receipt.receiverId
          createdByReceiptId := none
          deletedByReceiptId := some receipt.receiptId
          lastUpdateBlockHeight := blockHeight }
  | _ => accounts

/-- The map of accounts after all actions; a Data receipt has none. -/
def collectAccounts (outcomes : List IndexerExecutionOutcomeWithReceipt) (blockHeight : Nat) :
    Table AccountId Account :=
  (successfulReceipts outcomes).foldl
    (fun accounts receipt => receipt.actions.foldl (applyAction blockHeight receipt) accounts) ∅

/-! ### Statements -/

def deleteAccount (value : Account) (accounts : Table AccountId Account) : Table AccountId Account :=
  accounts.updateWhere
    (fun accountId row => decide (accountId = value.accountId) &&
      decide (row.lastUpdateBlockHeight < value.lastUpdateBlockHeight))
    fun row => { row with
      deletedByReceiptId := value.deletedByReceiptId
      lastUpdateBlockHeight := value.lastUpdateBlockHeight }

/-- Only a row that is marked as deleted is updated. -/
def recreateImplicitAccount (value : Account) (accounts : Table AccountId Account) :
    Table AccountId Account :=
  accounts.updateWhere
    (fun accountId row => decide (accountId = value.accountId) && row.deletedByReceiptId.isSome &&
      decide (row.lastUpdateBlockHeight < value.lastUpdateBlockHeight))
    fun row => { row with
      createdByReceiptId := value.createdByReceiptId
      deletedByReceiptId := value.deletedByReceiptId
      lastUpdateBlockHeight := value.lastUpdateBlockHeight }

def updateAccount (value : Account) (accounts : Table AccountId Account) : Table AccountId Account :=
  accounts.updateWhere
    (fun accountId row => decide (accountId = value.accountId) &&
      decide (row.lastUpdateBlockHeight < value.lastUpdateBlockHeight))
    fun row => { row with
      createdByReceiptId := value.createdByReceiptId
      deletedByReceiptId := value.deletedByReceiptId
      lastUpdateBlockHeight := value.lastUpdateBlockHeight }

/-- The statement that makes a change of the accounts table. -/
def updateAccounts (change : Table AccountId Account → Table AccountId Account) : Statement World Unit :=
  updateSet fun db => { db with accounts := change db.accounts }

def insertAccounts (batch : List Account) : Statement World Unit :=
  execute (insertBatch (·.accountId) (·.accounts) (fun db accounts => { db with accounts })
    (fun _ _ => none) batch)

/-! ### Futures -/

def deleteAccountsFuture (accountsToDelete : List Account) : Prog World Unit :=
  .forEach accountsToDelete fun value => do
    let _ ← awaitRetryOrPanic (updateAccounts (deleteAccount value)) 10

/-- An implicit account that ends the block undeleted; further transfers must not change its creator. -/
def isImplicitToRecreate (model : Account) : Bool :=
  model.accountId.len == 64 && model.deletedByReceiptId.isNone

def createOrUpdateAccountsFuture (accountsToCreateOrUpdate : List Account) : Prog World Unit := do
  let _ ← awaitRetryOrPanic (insertAccounts accountsToCreateOrUpdate) 10
  let (implicitAccountsToRecreate, otherAccountsToUpdate) :=
    accountsToCreateOrUpdate.partition isImplicitToRecreate
  let _ ← Prog.forEach implicitAccountsToRecreate fun value => do
    let _ ← awaitRetryOrPanic (updateAccounts (recreateImplicitAccount value)) 10
  Prog.forEach otherAccountsToUpdate fun value => do
    let _ ← awaitRetryOrPanic (updateAccounts (updateAccount value)) 10

/-- Saves new accounts to the database or deletes the ones that should be deleted. -/
def handleAccounts (outcomes : List IndexerExecutionOutcomeWithReceipt) (blockHeight : Nat) :
    Prog World Unit :=
  if outcomes.isEmpty then .ret ()
  else .anyOrder (collectAccounts outcomes blockHeight).rows fun values =>
    let (accountsToCreateOrUpdate, accountsToDelete) := values.partition (·.createdByReceiptId.isSome)
    .both (deleteAccountsFuture accountsToDelete) (createOrUpdateAccountsFuture accountsToCreateOrUpdate)

/-! ### What a call writes -/

inductive Write where
  | delete (value : Account)
  | insert (batch : List Account)
  | recreate (value : Account)
  | update (value : Account)

namespace Write

def apply : Write → Table AccountId Account → Table AccountId Account
  | delete value => deleteAccount value
  | insert batch => Table.insertAllNew (·.accountId) batch
  | recreate value => recreateImplicitAccount value
  | update value => updateAccount value

def run (write : Write) (w : World) : World :=
  { w with db := { w.db with accounts := write.apply w.db.accounts } }

end Write

theorem writes_updateAccounts (write : Write) (n : Nat) :
    Writes Write.run (do let _ ← awaitRetryOrPanic (updateAccounts write.apply) n) [write] :=
  .query (fun _ _ _ hok => updateSet_ok hok) fun _ => .ret ()

theorem writes_insertAccounts (batch : List Account) (n : Nat) :
    Writes Write.run (awaitRetryOrPanic (insertAccounts batch) n) [.insert batch] := by
  refine .query (fun w b w' hok => ?_) fun b => .ret b
  obtain ⟨db, hdb, rfl⟩ := execute_ok hok
  unfold insertBatch at hdb
  rw [List.findSome?_eq_none_iff.mpr fun _ _ => rfl] at hdb
  cases hdb
  rfl

/-- The statements of a call for the entries in a given order. -/
def writesOf (values : List Account) : List Write :=
  (values.filter (·.createdByReceiptId.isNone)).map .delete ++
    .insert (values.filter (·.createdByReceiptId.isSome)) ::
      (((values.filter (·.createdByReceiptId.isSome)).filter isImplicitToRecreate).map .recreate ++
        ((values.filter (·.createdByReceiptId.isSome)).filter fun value =>
          !isImplicitToRecreate value).map .update)

theorem writes_deleteAccountsFuture (values : List Account) :
    Writes Write.run (deleteAccountsFuture values) (values.map .delete) :=
  .forEach fun value _ => writes_updateAccounts (.delete value) 10

theorem writes_createOrUpdateAccountsFuture (values : List Account) :
    Writes Write.run (createOrUpdateAccountsFuture values)
      (.insert values :: ((values.filter isImplicitToRecreate).map .recreate ++
        (values.filter fun value => !isImplicitToRecreate value).map .update)) := by
  unfold createOrUpdateAccountsFuture
  refine (writes_insertAccounts values 10).bind fun _ => ?_
  rw [List.partition_eq_filter_filter]
  refine Writes.bind (.forEach fun value _ => ?_) fun _ => .forEach fun value _ => ?_
  · exact writes_updateAccounts (.recreate value) 10
  · exact writes_updateAccounts (.update value) 10

theorem writes_handleAccounts (values : List Account) :
    Writes Write.run
      (let (accountsToCreateOrUpdate, accountsToDelete) := values.partition (·.createdByReceiptId.isSome)
       Prog.both (deleteAccountsFuture accountsToDelete)
        (createOrUpdateAccountsFuture accountsToCreateOrUpdate))
      (writesOf values) := by
  have hdelete : values.filter (not ∘ fun value => value.createdByReceiptId.isSome) =
      values.filter (·.createdByReceiptId.isNone) := by
    congr 1
    funext value
    simp
  rw [List.partition_eq_filter_filter]
  simp only [hdelete]
  exact (writes_deleteAccountsFuture _).both (writes_createOrUpdateAccountsFuture _)

/-- A finished call has performed its statements once each. -/
theorem finishes_handleAccounts {outcomes : List IndexerExecutionOutcomeWithReceipt} {blockHeight : Nat}
    {w w' : World} (h : Finishes (handleAccounts outcomes blockHeight) w () w') :
    ∃ values done, values.Perm (collectAccounts outcomes blockHeight).rows ∧
      done.Perm (writesOf values) ∧ w' = applyAll Write.run done w := by
  unfold handleAccounts at h
  split at h
  · rename_i hempty
    rw [List.isEmpty_iff.mp hempty]
    obtain ⟨events, hsteps⟩ := h
    -- an empty batch inserts nothing
    exact ⟨[], _, .refl _, .refl _, hsteps.of_ret.2.1⟩
  · obtain ⟨values, hperm, hfin⟩ := h.of_anyOrder
    obtain ⟨done, hdone, hw⟩ := (writes_handleAccounts values).finishes hfin
    exact ⟨values, done, hperm, hdone, hw⟩

/-- An interrupted call has performed some of its statements, each at most once. -/
theorem interrupted_handleAccounts {outcomes : List IndexerExecutionOutcomeWithReceipt}
    {blockHeight : Nat} {p : Prog World Unit} {w w' : World} {events : List Event}
    (h : Steps (handleAccounts outcomes blockHeight) w events p w') :
    ∃ values done, values.Perm (collectAccounts outcomes blockHeight).rows ∧
      done.Subperm (writesOf values) ∧ w' = applyAll Write.run done w := by
  unfold handleAccounts at h
  split at h
  · exact ⟨_, [], .refl _, List.nil_subperm, h.of_ret.2.1⟩
  · rcases h.of_anyOrder with ⟨_, hw⟩ | ⟨values, events', hperm, hrest⟩
    · exact ⟨_, [], .refl _, List.nil_subperm, hw⟩
    · obtain ⟨done, hdone, hw⟩ := (writes_handleAccounts values).interrupted hrest
      exact ⟨values, done, hperm, hdone, hw⟩

end ExplorerIndexer.Accounts

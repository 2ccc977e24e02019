import ExplorerIndexer.AdapterAccessKeys

/-! The import of the genesis. Its records are gone through in one blocking pass that collects accounts and access keys
in two buffers; a full buffer is stored before the next record is looked at, and what is left in the end. -/

namespace ExplorerIndexer.Genesis

open Async Store Models

def storeAccountsFromGenesis (accountsModels : List Account) : Prog World Unit := do
  let _ ← awaitRetryOrPanic (Accounts.insertAccounts accountsModels) 10

def storeAccessKeysFromGenesis (accessKeysModels : List AccessKey) : Prog World Unit := do
  let _ ← awaitRetryOrPanic (AccessKeys.insertAccessKeys accessKeysModels) 10

structure Buffers where
  accountsToStore : List Account
  accessKeysToStore : List AccessKey

/-- The length at which a buffer is full. -/
def portion : Nat := 5000

section Import

variable {m : Type → Type _} [Monad m] (storeAccounts : List Account → m Unit)
  (storeAccessKeys : List AccessKey → m Unit) (genesisHeight : Nat)

/-- A full buffer is swapped for an empty one and stored. -/
def storeIfFull {ρ : Type} (store : List ρ → m Unit) (toStore : List ρ) : m (List ρ) :=
  if toStore.length = portion then do
    store toStore
    pure []
  else pure toStore

/-- The callback of `for_each_record`. -/
def forRecord (buffers : Buffers) (record : StateRecord) : m Buffers := do
  let accountsToStore ← storeIfFull storeAccounts buffers.accountsToStore
  let accessKeysToStore ← storeIfFull storeAccessKeys buffers.accessKeysToStore
  match record with
  | .account accountId =>
      pure ⟨accountsToStore ++ [.newFromGenesis accountId genesisHeight], accessKeysToStore⟩
  | .accessKey accountId publicKey accessKey =>
      pure ⟨accountsToStore, accessKeysToStore ++ [.fromGenesis publicKey accountId accessKey genesisHeight]⟩
  | .other => pure ⟨accountsToStore, accessKeysToStore⟩

/-- The pass over the records, for the two functions that store a batch. -/
def forEachRecord (records : List StateRecord) : m Unit := do
  let buffers ← records.foldlM (forRecord storeAccounts storeAccessKeys genesisHeight) ⟨[], []⟩
  storeAccounts buffers.accountsToStore
  storeAccessKeys buffers.accessKeysToStore

end Import

/-- A batch that cannot be stored makes the blocking thread panic, which is an `Err` for the caller. -/
def storeGenesisRecords (genesisHeight : Nat) (records : List StateRecord) : Prog World Unit :=
  forEachRecord storeAccountsFromGenesis storeAccessKeysFromGenesis genesisHeight records

end ExplorerIndexer.Genesis

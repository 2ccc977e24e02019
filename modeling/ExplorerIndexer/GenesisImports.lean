import ExplorerIndexer.AsyncAlone
import ExplorerIndexer.AsyncSequence
import ExplorerIndexer.GenesisBatches

/-! What the import of the genesis makes of the database. It only adds accounts and access keys whose keys are free, in
the order of the records, so an import that was cut off is completed by the next one, whatever the rows are by then. -/

namespace ExplorerIndexer.Genesis

open Async Store Models

/-- The database with the accounts and access keys whose keys were free. -/
def importInto (accounts : List Account) (accessKeys : List AccessKey) (db : Database) : Database :=
  { db with
    accounts := db.accounts.insertAllNew (·.accountId) accounts
    accessKeys := db.accessKeys.insertAllNew AccessKey.key accessKeys }

/-- A batch that is stored. -/
def Batch.run : Batch → World → World
  | .accounts batch => Accounts.Write.run (.insert batch)
  | .accessKeys batch => AccessKeys.Write.run (.insert batch)

theorem sequence_store (batch : Batch) : Sequence Batch.run batch.store [batch] := by
  cases batch with
  | accounts batch =>
      refine .query (fun w b w' hok => ?_) fun _ => .ret ()
      obtain ⟨db, hdb, rfl⟩ := execute_ok hok
      rw [(insertBatch_ok hdb).1]
      rfl
  | accessKeys batch => exact .query (fun w b w' hok => AccessKeys.insertAccessKeys_ok hok) fun _ => .ret ()

/-- The accounts of some batches. -/
def accountsOf (batches : List Batch) : List Account := (batches.filterMap Batch.accounts?).flatten

def accessKeysOf (batches : List Batch) : List AccessKey := (batches.filterMap Batch.accessKeys?).flatten

theorem applyAll_run (batches : List Batch) (w : World) :
    applyAll Batch.run batches w =
      { w with db := importInto (accountsOf batches) (accessKeysOf batches) w.db } := by
  induction batches generalizing w with
  | nil => rfl
  | cons batch batches ih =>
      rw [applyAll_cons, ih]
      cases batch with
      | accounts batch =>
          have hsplit : importInto (batch ++ accountsOf batches) (accessKeysOf batches) w.db =
              importInto (accountsOf batches) (accessKeysOf batches) ((Batch.accounts batch).run w).db := by
            rw [importInto, Table.insertAllNew_append]
            rfl
          exact congrArg (fun db => { w with db }) hsplit.symm
      | accessKeys batch =>
          have hsplit : importInto (accountsOf batches) (batch ++ accessKeysOf batches) w.db =
              importInto (accountsOf batches) (accessKeysOf batches) ((Batch.accessKeys batch).run w).db := by
            rw [importInto, Table.insertAllNew_append]
            rfl
          exact congrArg (fun db => { w with db }) hsplit.symm

theorem flatten_beginning {ρ : Type} {batch? : Batch → Option (List ρ)} {done batches : List Batch}
    (h : done <+: batches) : (done.filterMap batch?).flatten <+: (batches.filterMap batch?).flatten := by
  obtain ⟨rest, rfl⟩ := h
  rw [List.filterMap_append, List.flatten_append]
  exact List.prefix_append _ _

theorem resumable_run : Resumable Batch.run := by
  constructor <;> intro done batches hdone w
  · rw [applyAll_run, applyAll_run, applyAll_run]
    simp only [importInto, accountsOf, accessKeysOf]
    rw [Table.insertAllNew_resume (flatten_beginning hdone), Table.insertAllNew_resume (flatten_beginning hdone)]
  · rw [applyAll_run, applyAll_run]
    simp only [importInto, accountsOf, accessKeysOf]
    rw [Table.insertAllNew_repeated (flatten_beginning hdone), Table.insertAllNew_repeated (flatten_beginning hdone)]

section Import

variable (genesisHeight : Nat) (records : List StateRecord)

theorem storeGenesisRecords_eq :
    storeGenesisRecords genesisHeight records = .forEach (batchesOf genesisHeight records) Batch.store := by
  rw [forEach_eq_forM, batchesOf_eq]
  exact forEachRecord_eq Batch.store genesisHeight records

theorem sequence_storeGenesisRecords :
    Sequence Batch.run (storeGenesisRecords genesisHeight records) (batchesOf genesisHeight records) := by
  have h : Sequence Batch.run (.forEach (batchesOf genesisHeight records) Batch.store) _ := .forEach sequence_store
  rwa [List.map_id', ← storeGenesisRecords_eq] at h

/-- The records of the genesis, as rows. -/
def imported (db : Database) : Database :=
  importInto (records.filterMap (accountOf genesisHeight)) (records.filterMap (accessKeyOf genesisHeight)) db

theorem applyAll_batchesOf (w : World) :
    applyAll Batch.run (batchesOf genesisHeight records) w = { w with db := imported genesisHeight records w.db } := by
  rw [applyAll_run, accountsOf, accessKeysOf, (accounts_stored genesisHeight records).1,
    (accessKeys_stored genesisHeight records).1]
  rfl

variable {genesisHeight records} {w w' : World} {m : Moment World}

/-- The first of the batches are the first accounts. -/
theorem accountsOf_beginning {done : List Batch} (h : done <+: batchesOf genesisHeight records) :
    accountsOf done <+: records.filterMap (accountOf genesisHeight) :=
  (accounts_stored genesisHeight records).1 ▸ flatten_beginning h

/-- And the first access keys. -/
theorem accessKeysOf_beginning {done : List Batch} (h : done <+: batchesOf genesisHeight records) :
    accessKeysOf done <+: records.filterMap (accessKeyOf genesisHeight) :=
  (accessKeys_stored genesisHeight records).1 ▸ flatten_beginning h

theorem steps_storeGenesisRecords {p : Prog World Unit} {events : List Event}
    (h : Steps (storeGenesisRecords genesisHeight records) w events p w') :
    ∃ accounts accessKeys, w' = { w with db := importInto accounts accessKeys w.db } := by
  obtain ⟨done, _, _, rfl, _⟩ := (sequence_storeGenesisRecords genesisHeight records).steps h
  exact ⟨_, _, applyAll_run done w⟩

theorem finishes_storeGenesisRecords (h : Finishes (storeGenesisRecords genesisHeight records) w () w') :
    w' = { w with db := imported genesisHeight records w.db } := by
  rw [(sequence_storeGenesisRecords genesisHeight records).finishes h, applyAll_batchesOf]

/-- However often the import was started, lost its statements and was cut off, the database has in addition the first
accounts and the first access keys of the genesis; and the import that gets to its end leaves it as a single undisturbed
one would have left it at first. -/
theorem import_resumes (genesisHeight : Nat) (records : List StateRecord) (w : World) (m : Moment World)
    (h : Handlings (fun _ : Unit => storeGenesisRecords genesisHeight records) [()] ⟨.ret (), w⟩ m) :
    (∃ accounts accessKeys, accounts <+: records.filterMap (accountOf genesisHeight) ∧
        accessKeys <+: records.filterMap (accessKeyOf genesisHeight) ∧
        m.state = { w with db := importInto accounts accessKeys w.db }) ∧
      ∀ w', Finishes (storeGenesisRecords genesisHeight records) m.state () w' →
        w' = { w with db := imported genesisHeight records w.db } := by
  have hsequence := sequence_storeGenesisRecords genesisHeight records
  refine ⟨?_, fun w' hfin => ?_⟩
  · obtain ⟨done, hdone, hstate⟩ := h.resumed resumable_run fun _ _ => hsequence
    exact ⟨_, _, accountsOf_beginning hdone, accessKeysOf_beginning hdone, hstate.trans (applyAll_run done w)⟩
  · rw [h.completed resumable_run (fun _ _ => hsequence) List.mem_cons_self hfin, applyAll_batchesOf]

end Import

/-- A genesis of one account. -/
def bobsGenesis : List StateRecord := [.account "bob.near"]

/-- The world after the import, with an empty cache. -/
def afterGenesis : World := (storeGenesisRecords 0 bobsGenesis).after 1 ⟨.withSize 100000, {}⟩

theorem finishes_bobsGenesis : Finishes (storeGenesisRecords 0 bobsGenesis) ⟨.withSize 100000, {}⟩ () afterGenesis :=
  finishes_after 1 (by decide)

/-- A genesis of an account and its key: two batches. -/
def keyedGenesis : List StateRecord := bobsGenesis ++ [.accessKey "bob.near" "ed25519:5vh" ⟨0, .fullAccess⟩]

/-- The import is cut off when the account is stored and the key is not, and begun again. -/
theorem import_resumes_keyed : ∃ m, Handlings (fun _ : Unit => storeGenesisRecords 0 keyedGenesis) [()]
      ⟨.ret (), ⟨.withSize 100000, {}⟩⟩ m ∧
    "bob.near" ∈ m.state.db.accounts ∧ ("ed25519:5vh", "bob.near") ∉ m.state.db.accessKeys ∧
      ((storeGenesisRecords 0 keyedGenesis).after 1 m.state).db = imported 0 keyedGenesis {} := by
  have hstored : Step (storeGenesisRecords 0 keyedGenesis) ⟨.withSize 100000, {}⟩ .done
      (storeAccessKeysFromGenesis [.fromGenesis "ed25519:5vh" "bob.near" ⟨0, .fullAccess⟩ 0])
      (Batch.run (.accounts [.newFromGenesis "bob.near" 0]) ⟨.withSize 100000, {}⟩) := by
    have hprogram : storeGenesisRecords 0 keyedGenesis =
        .query (some 10) (Accounts.insertAccounts [.newFromGenesis "bob.near" 0]) (fun _ => false) fun _ =>
          storeAccessKeysFromGenesis [.fromGenesis "ed25519:5vh" "bob.near" ⟨0, .fullAccess⟩ 0] := rfl
    rw [hprogram]
    exact .queryDone (by decide) rfl
  have hcut : Handlings (fun _ : Unit => storeGenesisRecords 0 keyedGenesis) [()] ⟨.ret (), ⟨.withSize 100000, {}⟩⟩
      ⟨_, Batch.run (.accounts [.newFromGenesis "bob.near" 0]) ⟨.withSize 100000, {}⟩⟩ :=
    .head (.next List.mem_cons_self) (.single (.step hstored))
  refine ⟨_, hcut, by decide, by decide, ?_⟩
  rw [(import_resumes 0 keyedGenesis _ _ hcut).2 _ (finishes_after 1 (by decide))]

end ExplorerIndexer.Genesis

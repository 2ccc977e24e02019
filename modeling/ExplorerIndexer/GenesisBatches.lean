import ExplorerIndexer.AdapterGenesis
import ExplorerIndexer.StoreBatches

/-! The batches in which the records of the genesis are stored. The pass over the records is run once more with
functions that note the batches they get, which shows what it passes on, for any length and any mix of records. -/

namespace ExplorerIndexer.Genesis

open Async Store Models

/-! ### What is passed on -/

inductive Batch where
  | accounts (batch : List Account)
  | accessKeys (batch : List AccessKey)
  deriving DecidableEq

def Batch.store : Batch → Prog World Unit
  | .accounts batch => storeAccountsFromGenesis batch
  | .accessKeys batch => storeAccessKeysFromGenesis batch

def Batch.accounts? : Batch → Option (List Account)
  | .accounts batch => some batch
  | .accessKeys _ => none

def Batch.accessKeys? : Batch → Option (List AccessKey)
  | .accessKeys batch => some batch
  | .accounts _ => none

def note (batch : Batch) : StateM (List Batch) Unit := modify (· ++ [batch])

/-- The batches that the pass hands over, in order. -/
def batchesOf (genesisHeight : Nat) (records : List StateRecord) : List Batch :=
  ((forEachRecord (fun batch => note (.accounts batch)) (fun batch => note (.accessKeys batch)) genesisHeight
    records).run []).2

/-- The account of an Account record. -/
def accountOf (genesisHeight : Nat) : StateRecord → Option Account
  | .account accountId => some (.newFromGenesis accountId genesisHeight)
  | .accessKey .. | .other => none

def accessKeyOf (genesisHeight : Nat) : StateRecord → Option AccessKey
  | .accessKey accountId publicKey accessKey => some (.fromGenesis publicKey accountId accessKey genesisHeight)
  | .account .. | .other => none

/-! ### The pass -/

/-- The batches that leave the buffers before the next record. -/
def flushed (buffers : Buffers) : List Batch :=
  (flushFull portion buffers.accountsToStore).1.map .accounts ++
    (flushFull portion buffers.accessKeysToStore).1.map .accessKeys

def nextBuffers (genesisHeight : Nat) (buffers : Buffers) (record : StateRecord) : Buffers where
  accountsToStore := (flushFull portion buffers.accountsToStore).2 ++ (accountOf genesisHeight record).toList
  accessKeysToStore := (flushFull portion buffers.accessKeysToStore).2 ++ (accessKeyOf genesisHeight record).toList

/-- The batches that are handed over from some buffers on. -/
def batchesFrom (genesisHeight : Nat) : Buffers → List StateRecord → List Batch
  | buffers, [] => [.accounts buffers.accountsToStore, .accessKeys buffers.accessKeysToStore]
  | buffers, record :: records =>
      flushed buffers ++ batchesFrom genesisHeight (nextBuffers genesisHeight buffers record) records

section Pass

variable {m : Type → Type _} [Monad m] [LawfulMonad m] (send : Batch → m Unit) (genesisHeight : Nat)

theorem storeIfFull_eq {ρ : Type} (kind : List ρ → Batch) (toStore : List ρ) :
    storeIfFull (fun batch => send (kind batch)) toStore =
      forM ((flushFull portion toStore).1.map kind) send >>= fun _ => pure (flushFull portion toStore).2 := by
  unfold storeIfFull flushFull
  split <;> simp

theorem forRecord_eq (buffers : Buffers) (record : StateRecord) :
    forRecord (fun batch => send (.accounts batch)) (fun batch => send (.accessKeys batch)) genesisHeight buffers
        record =
      forM (flushed buffers) send >>= fun _ => pure (nextBuffers genesisHeight buffers record) := by
  rw [forRecord, storeIfFull_eq, storeIfFull_eq, flushed, List.forM_append, nextBuffers]
  simp only [bind_assoc, pure_bind]
  cases record <;> simp only [accountOf, accessKeyOf, Option.toList_none, Option.toList_some, List.append_nil]

/-- The pass sends the batches one after the other. -/
theorem forEachRecord_eq (records : List StateRecord) :
    forEachRecord (fun batch => send (.accounts batch)) (fun batch => send (.accessKeys batch)) genesisHeight records =
      forM (batchesFrom genesisHeight ⟨[], []⟩ records) send := by
  unfold forEachRecord
  generalize (⟨[], []⟩ : Buffers) = buffers
  induction records generalizing buffers with
  | nil => simp [batchesFrom]
  | cons record records ih =>
      rw [List.foldlM_cons, forRecord_eq, bind_assoc, bind_assoc, batchesFrom, List.forM_append]
      refine congrArg _ (funext fun _ => ?_)
      rw [pure_bind]
      exact ih _

end Pass

theorem run_forM_note (batches noted : List Batch) :
    (forM batches note : StateM (List Batch) Unit).run noted = ((), noted ++ batches) := by
  induction batches generalizing noted with
  | nil => rw [List.append_nil]; rfl
  | cons batch batches ih =>
      rw [← List.singleton_append, ← List.append_assoc]
      exact ih (noted ++ [batch])

theorem batchesOf_eq (genesisHeight : Nat) (records : List StateRecord) :
    batchesOf genesisHeight records = batchesFrom genesisHeight ⟨[], []⟩ records := by
  rw [batchesOf, forEachRecord_eq, run_forM_note]
  rfl

theorem forEach_eq_forM (batches : List Batch) : Prog.forEach batches Batch.store = forM batches Batch.store := by
  induction batches with
  | nil => rfl
  | cons batch batches ih =>
      rw [Prog.forEach, ih]
      rfl

/-! ### What the batches are made of -/

section Kinds

variable {ρ : Type} {batch? : Batch → Option (List ρ)} {row? : StateRecord → Option ρ} {genesisHeight : Nat}

/-- The batches of one kind: those that leave its buffer, and what is left in the end. -/
theorem batchesFrom_of_kind (buffer : Buffers → List ρ)
    (hflushed : ∀ buffers, (flushed buffers).filterMap batch? = (flushFull portion (buffer buffers)).1)
    (hnext : ∀ buffers record, buffer (nextBuffers genesisHeight buffers record) =
      (flushFull portion (buffer buffers)).2 ++ (row? record).toList)
    (hlast : ∀ buffers, (batchesFrom genesisHeight buffers []).filterMap batch? = [buffer buffers])
    (records : List StateRecord) {rows : List ρ} {stored : List (List ρ)} (buffers : Buffers)
    (h : Buffered portion rows stored (buffer buffers)) :
    (stored ++ (batchesFrom genesisHeight buffers records).filterMap batch?).flatten =
        rows ++ records.filterMap row? ∧
      ∀ batch ∈ stored ++ (batchesFrom genesisHeight buffers records).filterMap batch?, batch.length ≤ portion := by
  induction records generalizing rows stored buffers with
  | nil =>
      rw [hlast, List.filterMap_nil, List.append_nil]
      exact h.close
  | cons record records ih =>
      rw [batchesFrom, List.filterMap_append, hflushed, ← List.append_assoc, List.filterMap_cons]
      cases hrow : row? record with
      | none =>
          refine ih _ ?_
          rw [hnext, hrow, Option.toList_none, List.append_nil]
          exact h.flush
      | some row =>
          dsimp only
          rw [← List.singleton_append, ← List.append_assoc rows]
          refine ih _ ?_
          rw [hnext, hrow, Option.toList_some]
          exact h.push (by decide) row

end Kinds

theorem accounts_stored (genesisHeight : Nat) (records : List StateRecord) :
    ((batchesOf genesisHeight records).filterMap Batch.accounts?).flatten =
        records.filterMap (accountOf genesisHeight) ∧
      ∀ batch ∈ (batchesOf genesisHeight records).filterMap Batch.accounts?, batch.length ≤ portion := by
  rw [batchesOf_eq]
  refine batchesFrom_of_kind (·.accountsToStore) (fun buffers => ?_) (fun _ _ => rfl) (fun _ => rfl) records ⟨[], []⟩
    (Buffered.nil portion)
  unfold flushed flushFull
  split <;> split <;> rfl

theorem accessKeys_stored (genesisHeight : Nat) (records : List StateRecord) :
    ((batchesOf genesisHeight records).filterMap Batch.accessKeys?).flatten =
        records.filterMap (accessKeyOf genesisHeight) ∧
      ∀ batch ∈ (batchesOf genesisHeight records).filterMap Batch.accessKeys?, batch.length ≤ portion := by
  rw [batchesOf_eq]
  refine batchesFrom_of_kind (·.accessKeysToStore) (fun buffers => ?_) (fun _ _ => rfl) (fun _ => rfl) records ⟨[], []⟩
    (Buffered.nil portion)
  unfold flushed flushFull
  split <;> split <;> rfl

/-- The import stores the noted batches one after the other. The accounts in them are those of all Account records, the
access keys those of all AccessKey records, each once and in order, and no batch has more than 5000 rows. -/
theorem genesis_stored_in_batches (genesisHeight : Nat) (records : List StateRecord) :
    storeGenesisRecords genesisHeight records = .forEach (batchesOf genesisHeight records) Batch.store ∧
      ((batchesOf genesisHeight records).filterMap Batch.accounts?).flatten =
        records.filterMap (accountOf genesisHeight) ∧
      ((batchesOf genesisHeight records).filterMap Batch.accessKeys?).flatten =
        records.filterMap (accessKeyOf genesisHeight) ∧
      (∀ batch ∈ (batchesOf genesisHeight records).filterMap Batch.accounts?, batch.length ≤ 5000) ∧
      ∀ batch ∈ (batchesOf genesisHeight records).filterMap Batch.accessKeys?, batch.length ≤ 5000 := by
  have hprogram : storeGenesisRecords genesisHeight records =
      .forEach (batchesOf genesisHeight records) Batch.store := by
    rw [forEach_eq_forM, batchesOf_eq]
    exact forEachRecord_eq Batch.store genesisHeight records
  obtain ⟨haccounts, haccountsBound⟩ := accounts_stored genesisHeight records
  obtain ⟨haccessKeys, haccessKeysBound⟩ := accessKeys_stored genesisHeight records
  exact ⟨hprogram, haccounts, haccessKeys, haccountsBound, haccessKeysBound⟩

end ExplorerIndexer.Genesis

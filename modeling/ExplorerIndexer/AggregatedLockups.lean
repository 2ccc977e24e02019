import ExplorerIndexer.AccessKeysTransfers
import ExplorerIndexer.ListenBlocks
import ExplorerIndexer.ReceiptsLookups
import ExplorerIndexer.StoreAsOf

/-! The lockup accounts at a height. They are taken from a view that joins the accounts table, which only keeps one
creation and one deletion per account, with the blocks of the two receipts. -/

namespace ExplorerIndexer

open Async Store Models
open Accounts (successfulActions deletesAccount lastStep lastReceipt lastStep_append lastReceipt_append
  mem_of_lastStep mem_of_lastReceipt lastStep_eq_none lastReceipt_eq_none handleAccounts row_after_call blockEffect
  rowAfter entryOf)
open BlockOrder (createsAccount touchesAccount accountAction accountLifespan lifespan_call)
open AccessKeys (existsAfterStep existsAfter stepsOf stepsOf_cons existsAfter_append)

/-! ### The view -/

/-- `LIKE '%.lockup.near'` -/
def isLockup (accountId : AccountId) : Bool := ".lockup.near".toList.isSuffixOf accountId.toList

/-- The height of the block that includes a receipt, by two left joins. -/
def includedAt (db : Database) (receiptId : CryptoHash) : Option Nat :=
  ((db.receipts.lookup receiptId).bind fun receipt => db.blocks.lookup receipt.includedInBlockHash).map
    (·.blockHeight)

structure AggregatedLockup where
  accountId : AccountId
  creationBlockHeight : Option Nat
  deletionBlockHeight : Option Nat

def aggregatedLockups (db : Database) : List AggregatedLockup :=
  (db.accounts.rows.filter fun account => isLockup account.accountId).map fun account =>
    { accountId := account.accountId
      creationBlockHeight := account.createdByReceiptId.bind (includedAt db)
      deletionBlockHeight := account.deletedByReceiptId.bind (includedAt db) }

def getLockupAccountIdsAtBlockHeight (db : Database) (blockHeight : Nat) : List AccountId :=
  (((aggregatedLockups db).filter fun lockup => lockup.creationBlockHeight.all (· ≤ blockHeight)).filter
    fun lockup => lockup.deletionBlockHeight.all (blockHeight ≤ ·)).map (·.accountId)

/-! ### A history of receipts -/

/-- A block whose receipts are executed at once, with the parent transactions found for them. -/
structure HistoryBlock where
  block : BlockView
  chunkHash : CryptoHash
  outcomes : List IndexerExecutionOutcomeWithReceipt
  txHashes : Receipts.TxHashes
  found : ∀ outcome ∈ outcomes, Receipts.receiptOrDataId outcome.receipt ∈ txHashes

namespace HistoryBlock

def height (b : HistoryBlock) : Nat := b.block.header.height

def receipts (b : HistoryBlock) : List ReceiptView := b.outcomes.map (·.receipt)

def effects (b : HistoryBlock) : BlockOutcomes := ⟨b.height, b.outcomes⟩

/-- The steps of `handle_message` that write the blocks, the receipts and the accounts. -/
def handle (b : HistoryBlock) : Prog World Unit := do
  let header := b.block.header
  let _ ← Blocks.storeBlock b.block
  let _ ← Receipts.saveReceipts
    (Receipts.receiptModels b.receipts header.hash b.chunkHash header.timestamp b.txHashes)
  handleAccounts b.outcomes header.height

end HistoryBlock

/-- Heights increase, and no block or receipt comes twice. -/
structure InOrderHistory (history : List HistoryBlock) : Prop where
  heights : history.Pairwise fun b b' => b.height < b'.height
  hashes : (history.map fun b => b.block.header.hash).Nodup
  receiptIds : (history.flatMap fun b => b.receipts.map (·.receiptId)).Nodup

/-- Before the history there are no receipts and blocks, and only accounts from genesis. -/
structure BeforeHistory (history : List HistoryBlock) (db : Database) : Prop where
  blocks : db.blocks = ∅
  receipts : db.receipts = ∅
  accountId : ∀ accountId row, db.accounts.lookup accountId = some row → row.accountId = accountId
  genesis : ∀ row ∈ db.accounts.rows, row.createdByReceiptId = none ∧ row.deletedByReceiptId = none
  older : ∀ row ∈ db.accounts.rows, ∀ b ∈ history, row.lastUpdateBlockHeight < b.height

/-- An account is created when it does not exist, and deleted when it does. -/
def Alternates (accountId : AccountId) : Bool → List (ReceiptView × ActionView) → Prop
  | _, [] => True
  | existed, step :: steps =>
      (createsAccount accountId step = true → existed = false) ∧
        (deletesAccount accountId step = true → existed = true) ∧
          Alternates accountId (existsAfterStep accountId existed step) steps

/-- Whether an account exists in the chain state after the block of a height. -/
def existsAt (genesis : Database) (history : List HistoryBlock) (blockHeight : Nat) (accountId : AccountId) : Bool :=
  existsAfter accountId (stepsOf ((history.filter (·.height ≤ blockHeight)).map (·.effects)))
    (accountId ∈ genesis.accounts)

/-- The answer of the database is the set of lockup accounts in the chain state. -/
structure LockupsAt (genesis : Database) (history : List HistoryBlock) (blockHeight : Nat)
    (accountIds : List AccountId) : Prop where
  nodup : accountIds.Nodup
  exact : ∀ accountId, accountId ∈ accountIds ↔
    isLockup accountId = true ∧ existsAt genesis history blockHeight accountId = true

/-! ### What the blocks amount to -/

/-- What a block does to an account and to its row. An account of 64 characters that a block deletes and creates
again keeps its row. -/
def accountChange (accountId : AccountId) (existed : Bool) (steps : List (ReceiptView × ActionView)) :
    LifeChange CryptoHash :=
  match lastStep (touchesAccount accountId) steps, lastReceipt (createsAccount accountId) steps with
  | none, _ => .idle
  | some last, none => .delete last.1.receiptId
  | some last, some created =>
      if createsAccount accountId last then
        if accountId.len = 64 ∧ existed = true then .idle else .create created
      else .createDelete created last.1.receiptId

/-- What the blocks do to an account, one after the other. -/
def accountChanges (accountId : AccountId) : Bool → List BlockOutcomes → List (Nat × LifeChange CryptoHash)
  | _, [] => []
  | existed, block :: blocks =>
      (block.blockHeight, accountChange accountId existed (successfulActions block.outcomes)) ::
        accountChanges accountId (existsAfter accountId (successfulActions block.outcomes) existed) blocks

section Changes

variable {accountId : AccountId} {existed : Bool} {steps : List (ReceiptView × ActionView)}
  {blocks blocks' : List BlockOutcomes} {x : Option Account} {versionOf : CryptoHash → Option Nat}

/-- An account exists after the steps if the last of them that touched it created it. -/
theorem existsAfter_eq (accountId : AccountId) (steps : List (ReceiptView × ActionView)) (existed : Bool) :
    existsAfter accountId steps existed =
      ((lastStep (touchesAccount accountId) steps).map (createsAccount accountId)).getD existed := by
  induction steps using List.reverseRecOn with
  | nil => rfl
  | append_singleton steps last ih =>
      rw [existsAfter_append, ih, lastStep_append]
      show existsAfterStep accountId _ last = _
      rw [existsAfterStep, touchesAccount]
      cases hcreates : createsAccount accountId last with
      | true => simp [hcreates]
      | false => cases hdeletes : deletesAccount accountId last <;> simp [hcreates]

theorem alive_accountChange (accountId : AccountId) (existed : Bool) (steps : List (ReceiptView × ActionView)) :
    (accountChange accountId existed steps).alive existed = existsAfter accountId steps existed := by
  rw [existsAfter_eq, accountChange]
  cases hlast : lastStep (touchesAccount accountId) steps with
  | none => rfl
  | some last =>
      cases hcreated : lastReceipt (createsAccount accountId) steps with
      | none =>
          -- nothing creates the account, so neither does the last step
          have hcreates := lastReceipt_eq_none.mp hcreated last (mem_of_lastStep hlast).1
          simpa [LifeChange.alive] using hcreates
      | some created =>
          cases hcreates : createsAccount accountId last with
          | true => by_cases hkeeps : accountId.len = 64 ∧ existed = true <;> simp [hcreates, hkeeps, LifeChange.alive]
          | false => simp [hcreates, LifeChange.alive]

theorem aliveAfter_accountChanges (accountId : AccountId) (existed : Bool) (blocks : List BlockOutcomes) :
    aliveAfter (accountChanges accountId existed blocks) existed =
      existsAfter accountId (stepsOf blocks) existed := by
  induction blocks generalizing existed with
  | nil => rfl
  | cons block blocks ih =>
      rw [stepsOf_cons, existsAfter_append, ← ih]
      show aliveAfter _ ((accountChange accountId existed (successfulActions block.outcomes)).alive existed) = _
      rw [alive_accountChange]

theorem accountChanges_append (accountId : AccountId) (existed : Bool) (blocks blocks' : List BlockOutcomes) :
    accountChanges accountId existed (blocks ++ blocks') = accountChanges accountId existed blocks ++
      accountChanges accountId (existsAfter accountId (stepsOf blocks) existed) blocks' := by
  induction blocks generalizing existed with
  | nil => rfl
  | cons block blocks ih =>
      rw [stepsOf_cons, existsAfter_append]
      exact congrArg (List.cons _) (ih _)

theorem heights_accountChanges (accountId : AccountId) (existed : Bool) (blocks : List BlockOutcomes) :
    (accountChanges accountId existed blocks).map Prod.fst = blocks.map (·.blockHeight) := by
  induction blocks generalizing existed with
  | nil => rfl
  | cons block blocks ih => exact congrArg (List.cons _) (ih _)

/-! ### Alternation -/

theorem Alternates.append {steps steps' : List (ReceiptView × ActionView)}
    (h : Alternates accountId existed (steps ++ steps')) :
    Alternates accountId existed steps ∧ Alternates accountId (existsAfter accountId steps existed) steps' := by
  induction steps generalizing existed with
  | nil => exact ⟨trivial, h⟩
  | cons step steps ih =>
      obtain ⟨hcreates, hdeletes, hrest⟩ := h
      exact ⟨⟨hcreates, hdeletes, (ih hrest).1⟩, (ih hrest).2⟩

/-- What is deleted and not created existed before. -/
theorem Alternates.existed_before (h : Alternates accountId existed steps)
    (hcreates : ∀ step ∈ steps, createsAccount accountId step = false)
    (hdeletes : ∃ step ∈ steps, deletesAccount accountId step = true) : existed = true := by
  induction steps generalizing existed with
  | nil => simp at hdeletes
  | cons step steps ih =>
      obtain ⟨_, hfirst, hrest⟩ := h
      cases hstep : deletesAccount accountId step with
      | true => exact hfirst hstep
      | false =>
          have hsame : existsAfterStep accountId existed step = existed := by
            rw [existsAfterStep, hcreates step List.mem_cons_self, hstep]
            rfl
          rw [hsame] at hrest
          refine ih hrest (fun s hs => hcreates s (List.mem_cons_of_mem _ hs)) ?_
          simpa [hstep] using hdeletes

theorem alternates_of_untouched (h : ∀ step ∈ steps, touchesAccount accountId step = false) :
    Alternates accountId existed steps := by
  induction steps generalizing existed with
  | nil => trivial
  | cons step steps ih =>
      obtain ⟨hcreates, hdeletes⟩ := Bool.or_eq_false_iff.mp (h step List.mem_cons_self)
      refine ⟨fun hstep => ?_, fun hstep => ?_, ih fun s hs => h s (List.mem_cons_of_mem _ hs)⟩
      · rw [hcreates] at hstep
        cases hstep
      · rw [hdeletes] at hstep
        cases hstep

/-- Blocks that do not touch an account do nothing to it. -/
theorem idle_accountChanges (h : ∀ step ∈ stepsOf blocks, touchesAccount accountId step = false) :
    ∀ change ∈ accountChanges accountId existed blocks, change.2 = .idle := by
  induction blocks generalizing existed with
  | nil => exact fun change hmem => (List.not_mem_nil hmem).elim
  | cons block blocks ih =>
      rw [stepsOf_cons] at h
      intro change hmem
      rcases List.mem_cons.mp hmem with rfl | hmem
      · have hnone : lastStep (touchesAccount accountId) (successfulActions block.outcomes) = none :=
          lastStep_eq_none.mpr fun step hstep => h step (List.mem_append_left _ hstep)
        simp only [accountChange, hnone]
      · exact ih (fun step hstep => h step (List.mem_append_right _ hstep)) change hmem

theorem possible_accountChange (h : Alternates accountId existed steps) :
    (accountChange accountId existed steps).Possible existed := by
  unfold accountChange
  cases hlast : lastStep (touchesAccount accountId) steps with
  | none => trivial
  | some last =>
      cases hcreated : lastReceipt (createsAccount accountId) steps with
      | none =>
          have hcreates := lastReceipt_eq_none.mp hcreated
          obtain ⟨hmem, htouches⟩ := mem_of_lastStep hlast
          rw [touchesAccount, hcreates last hmem, Bool.false_or] at htouches
          exact h.existed_before hcreates ⟨last, hmem, htouches⟩
      | some created =>
          dsimp only
          split
          · split <;> trivial
          · trivial

theorem possible_accountChanges (h : Alternates accountId existed (stepsOf blocks)) :
    AllPossible existed (accountChanges accountId existed blocks) := by
  induction blocks generalizing existed with
  | nil => trivial
  | cons block blocks ih =>
      rw [stepsOf_cons] at h
      refine ⟨possible_accountChange h.append.1, ?_⟩
      rw [alive_accountChange]
      exact ih h.append.2

/-! ### The row -/

/-- On the older row of an account, a block writes what it does to the account. -/
theorem effect_accountChange {blockHeight : Nat} {x : Option (Lifespan CryptoHash)}
    (hlive : Live x ↔ existed = true) (hold : ∀ row, x = some row → row.version < blockHeight) :
    (accountAction accountId steps).effect blockHeight x =
      (accountChange accountId existed steps).apply blockHeight x := by
  unfold accountAction accountChange
  cases lastStep (touchesAccount accountId) steps with
  | none => rfl
  | some last =>
      cases lastReceipt (createsAccount accountId) steps with
      | none =>
          cases x with
          | none => rfl
          | some row => simp [LifeAction.effect, LifeChange.apply, hold row rfl]
      | some created =>
          dsimp only
          cases createsAccount accountId last with
          | false => exact LifeAction.overwrite_old created _ hold
          | true =>
              by_cases hlen : accountId.len = 64
              · cases existed with
                | true => simpa [hlen, LifeChange.apply] using LifeAction.revive_live created (hlive.mpr rfl)
                | false =>
                    have hdead : ¬ Live x := fun h => Bool.false_ne_true (hlive.mp h)
                    simpa [hlen, LifeChange.apply] using LifeAction.revive_old created hdead hold
              · simpa [hlen, LifeChange.apply] using LifeAction.overwrite_old created none hold

/-- The row after the blocks, from what they do to the account. -/
theorem span_rowAfter (hheights : blocks.Pairwise fun b b' => b.blockHeight < b'.blockHeight)
    (hold : ∀ block ∈ blocks, ∀ row, x = some row → row.lastUpdateBlockHeight < block.blockHeight)
    (hlive : Live (x.map accountLifespan) ↔ existed = true) :
    (rowAfter accountId blocks x).map accountLifespan =
      spanAfter (accountChanges accountId existed blocks) (x.map accountLifespan) := by
  induction blocks generalizing x existed with
  | nil => rfl
  | cons block blocks ih =>
      obtain ⟨hlater, hheights⟩ := List.pairwise_cons.mp hheights
      have hold₀ := hold block List.mem_cons_self
      have hspan : ∀ row, x.map accountLifespan = some row → row.version < block.blockHeight := by
        intro row hrow
        obtain ⟨row', hrow', rfl⟩ := Option.map_eq_some_iff.mp hrow
        exact hold₀ row' hrow'
      have hcall : (blockEffect accountId block x).map accountLifespan =
          (accountChange accountId existed (successfulActions block.outcomes)).apply block.blockHeight
            (x.map accountLifespan) := by
        rw [blockEffect, lifespan_call, effect_accountChange hlive hspan]
      show (rowAfter accountId blocks (blockEffect accountId block x)).map accountLifespan =
        spanAfter (accountChanges accountId _ blocks) (LifeChange.apply _ _ _)
      rw [← hcall]
      refine ih hheights (fun later hmem row hrow => ?_) ?_
      · exact Nat.lt_of_le_of_lt (Accounts.callEffect_height hold₀ row hrow) (hlater later hmem)
      · rw [hcall, LifeChange.live_apply _ _ hlive, alive_accountChange]

/-- A block writes receipts of its own. -/
theorem ids_accountChange {id : CryptoHash} (h : id ∈ (accountChange accountId existed steps).ids) :
    ∃ step ∈ steps, step.1.receiptId = id := by
  unfold accountChange at h
  cases hlast : lastStep (touchesAccount accountId) steps with
  | none => simp [hlast, LifeChange.ids] at h
  | some last =>
      have hmem := (mem_of_lastStep hlast).1
      cases hcreated : lastReceipt (createsAccount accountId) steps with
      | none =>
          simp only [hlast, hcreated, LifeChange.ids, List.mem_singleton] at h
          exact ⟨last, hmem, h.symm⟩
      | some created =>
          simp only [hlast, hcreated] at h
          split at h
          · split at h
            · simp [LifeChange.ids] at h
            · rw [List.mem_singleton.mp h]
              obtain ⟨step, hmem, _, hreceipt⟩ := mem_of_lastReceipt hcreated
              exact ⟨step, hmem, hreceipt⟩
          · simp only [LifeChange.ids, List.mem_cons, List.not_mem_nil, or_false] at h
            rcases h with rfl | rfl
            · obtain ⟨step, hmem, _, hreceipt⟩ := mem_of_lastReceipt hcreated
              exact ⟨step, hmem, hreceipt⟩
            · exact ⟨last, hmem, rfl⟩

theorem dated_accountChanges (h : ∀ block ∈ blocks, ∀ step ∈ successfulActions block.outcomes,
      versionOf step.1.receiptId = some block.blockHeight) :
    Dated versionOf (accountChanges accountId existed blocks) := by
  induction blocks generalizing existed with
  | nil => exact fun change hmem => (List.not_mem_nil hmem).elim
  | cons block blocks ih =>
      intro change hmem id hid
      rcases List.mem_cons.mp hmem with rfl | hmem
      · obtain ⟨step, hstep, rfl⟩ := ids_accountChange hid
        exact h block List.mem_cons_self step hstep
      · exact ih (fun b hb => h b (List.mem_cons_of_mem _ hb)) change hmem id hid

end Changes

/-! ### The tables -/

section Tables

variable {history : List HistoryBlock} {b b' : HistoryBlock} {w w' : World}

def HistoryBlock.receiptRows (b : HistoryBlock) : List Receipt :=
  Receipts.receiptModels b.receipts b.block.header.hash b.chunkHash b.block.header.timestamp b.txHashes

theorem tables_handleAccounts {outcomes : List IndexerExecutionOutcomeWithReceipt} {blockHeight : Nat}
    (h : Finishes (handleAccounts outcomes blockHeight) w () w') :
    w'.db.blocks = w.db.blocks ∧ w'.db.receipts = w.db.receipts := by
  obtain ⟨values, done, _, _, rfl⟩ := Accounts.finishes_handleAccounts h
  clear * -
  induction done generalizing w with
  | nil => exact ⟨rfl, rfl⟩
  | cons write done ih => exact ih

/-- What handling a block does to the three tables. -/
theorem HistoryBlock.tables_handle (h : Finishes b.handle w () w') :
    w'.db.blocks = w.db.blocks.insertAllNew (·.blockHash) [.ofView b.block] ∧
      w'.db.receipts = w.db.receipts.insertAllNew (·.receiptId) b.receiptRows ∧
        ∀ accountId, w'.db.accounts.lookup accountId = blockEffect accountId b.effects
          (w.db.accounts.lookup accountId) := by
  obtain ⟨_, w₁, hblock, h⟩ := Finishes.of_query h
  obtain ⟨_, w₂, hreceipts, h⟩ := Finishes.of_query h
  obtain ⟨db₁, hdb₁, rfl⟩ := execute_ok hblock
  obtain ⟨db₂, hdb₂, rfl⟩ := execute_ok hreceipts
  obtain ⟨rfl, _⟩ := insertBatch_ok hdb₁
  obtain ⟨rfl, _⟩ := insertBatch_ok hdb₂
  obtain ⟨hsame, hsame'⟩ := tables_handleAccounts h
  exact ⟨hsame, hsame', fun accountId => row_after_call h accountId⟩

theorem accounts_history (hrun : InOrder HistoryBlock.handle w history w') (accountId : AccountId) :
    w'.db.accounts.lookup accountId =
      rowAfter accountId (history.map (·.effects)) (w.db.accounts.lookup accountId) := by
  induction hrun with
  | nil => rfl
  | cons hblock _ ih =>
      rw [ih, (HistoryBlock.tables_handle hblock).2.2 accountId]
      rfl

/-- A table that is only inserted into holds the rows of all items. -/
theorem inserted_inOrder {σ ι κ ρ : Type} [DecidableEq κ] {handler : ι → Prog σ Unit} {items : List ι} {s t : σ}
    (table : σ → Table κ ρ) (key : ρ → κ) (rows : ι → List ρ) (hrun : InOrder handler s items t)
    (hitem : ∀ item s t, Finishes (handler item) s () t → table t = (table s).insertAllNew key (rows item)) :
    table t = (table s).insertAllNew key (items.flatMap rows) := by
  induction hrun with
  | nil => rfl
  | cons hfirst _ ih =>
      rw [ih, hitem _ _ _ hfirst, List.flatMap_cons]
      exact List.foldl_append.symm

/-- In a table that was empty, every row of an item has its key, with a row of some item. -/
theorem lookup_inserted {ι κ ρ : Type} [DecidableEq κ] (key : ρ → κ) (rows : ι → List ρ) {items : List ι} {item : ι}
    {row : ρ} (hitem : item ∈ items) (hrow : row ∈ rows item) :
    ∃ item' ∈ items, ∃ row' ∈ rows item', key row' = key row ∧
      (Table.insertAllNew key (items.flatMap rows) (∅ : Table κ ρ)).lookup (key row) = some row' := by
  have hmem : row ∈ items.flatMap rows := List.mem_flatMap.mpr ⟨item, hitem, hrow⟩
  obtain ⟨row', hrow'⟩ : ∃ r', (Table.insertAllNew key (items.flatMap rows) ∅).lookup (key row) = some r' :=
    Table.lookup_insertAllNew_of_mem hmem ∅
  rcases Table.mem_of_lookup_insertAllNew hrow' with hold | ⟨_, hnew, hkey⟩
  · cases hold
  · obtain ⟨item', hitem', hmem'⟩ := List.mem_flatMap.mp hnew
    exact ⟨item', hitem', row', hmem', hkey, hrow'⟩

theorem HistoryBlock.mem_receiptRows {row : Receipt} (h : row ∈ b.receiptRows) :
    row.includedInBlockHash = b.block.header.hash ∧ row.receiptId ∈ b.receipts.map (·.receiptId) := by
  obtain ⟨⟨receipt, index⟩, hmem, hrow⟩ := List.mem_filterMap.mp h
  obtain ⟨transactionHash, _, rfl⟩ := Option.map_eq_some_iff.mp hrow
  exact ⟨rfl, List.mem_map.mpr ⟨receipt, List.fst_mem_of_mem_zipIdx hmem, rfl⟩⟩

/-- A receipt of the history is included at the height of its block. -/
theorem includedAt_history (hhistory : InOrderHistory history) (hbefore : BeforeHistory history w.db)
    (hrun : InOrder HistoryBlock.handle w history w') (hb : b ∈ history) {receipt : ReceiptView}
    (hreceipt : receipt ∈ b.receipts) : includedAt w'.db receipt.receiptId = some b.height := by
  have hreceipts := inserted_inOrder (fun w : World => w.db.receipts) Receipt.receiptId HistoryBlock.receiptRows hrun
    fun _ _ _ h => (HistoryBlock.tables_handle h).2.1
  have hblocks := inserted_inOrder (fun w : World => w.db.blocks) Block.blockHash
    (fun b : HistoryBlock => [.ofView b.block]) hrun fun _ _ _ h => (HistoryBlock.tables_handle h).1
  rw [hbefore.receipts] at hreceipts
  rw [hbefore.blocks] at hblocks
  obtain ⟨outcome, houtcome, rfl⟩ := List.mem_map.mp hreceipt
  obtain ⟨hash, hfound⟩ := Table.mem_iff_lookup.mp (b.found outcome houtcome)
  obtain ⟨model, hmodel, hid⟩ : ∃ row ∈ b.receiptRows, row.receiptId = outcome.receipt.receiptId :=
    Receipts.exists_receiptModel hreceipt hfound
  obtain ⟨b₁, hb₁, row, hrow, hkey, hlookup⟩ := lookup_inserted Receipt.receiptId HistoryBlock.receiptRows hb hmodel
  obtain ⟨hincluded, hown⟩ := b₁.mem_receiptRows hrow
  -- no other block includes the receipt
  obtain rfl : b₁ = b := by
    by_contra hne
    have hsymm : Std.Symm (Function.onFun List.Disjoint fun b : HistoryBlock => b.receipts.map (·.receiptId)) :=
      ⟨fun _ _ h _ hmem hmem' => h hmem' hmem⟩
    have hdisjoint := (List.nodup_flatMap.mp hhistory.receiptIds).2.forall hb₁ hb hne
    refine hdisjoint hown ?_
    rw [hkey, hid]
    exact List.mem_map_of_mem hreceipt
  obtain ⟨b₂, hb₂, block, hblock, hhash, hlookup'⟩ := lookup_inserted Block.blockHash
    (fun b : HistoryBlock => [.ofView b.block]) hb List.mem_cons_self
  obtain rfl := List.mem_singleton.mp hblock
  obtain rfl := List.inj_on_of_nodup_map hhistory.hashes hb₂ hb hhash
  rw [includedAt, hreceipts, ← hid, hlookup, Option.bind_some, hincluded, hblocks]
  exact congrArg (Option.map (·.blockHeight)) hlookup'

/-- What the answer rests on: where the history leaves the accounts, and the heights of its receipts. -/
structure HistoryStored (history : List HistoryBlock) (genesis db : Database) : Prop where
  accounts : ∀ accountId, db.accounts.lookup accountId =
    rowAfter accountId (history.map (·.effects)) (genesis.accounts.lookup accountId)
  included : ∀ b ∈ history, ∀ receipt ∈ b.receipts, includedAt db receipt.receiptId = some b.height

theorem historyStored_of_inOrder (hhistory : InOrderHistory history) (hbefore : BeforeHistory history w.db)
    (hrun : InOrder HistoryBlock.handle w history w') : HistoryStored history w.db w'.db :=
  ⟨accounts_history hrun, fun _ hb _ hreceipt => includedAt_history hhistory hbefore hrun hb hreceipt⟩

/-- The row of an account carries its id. -/
theorem accountId_callEffect {accountId : AccountId} {blockHeight : Nat} {entry x : Option Account}
    (hentry : ∀ e, entry = some e → e.accountId = accountId) (hx : ∀ row, x = some row → row.accountId = accountId) :
    ∀ row, Accounts.callEffect blockHeight entry x = some row → row.accountId = accountId := by
  intro row hrow
  cases entry with
  | none => exact hx row hrow
  | some entry =>
      have hown := hentry entry rfl
      cases hcreated : entry.createdByReceiptId with
      | none =>
          cases x with
          | none => simp [Accounts.callEffect, hcreated] at hrow
          | some old =>
              have hold := hx old rfl
              simp only [Accounts.callEffect, hcreated, Option.map_some, Option.some.injEq] at hrow
              rw [← hrow]
              split <;> exact hold
      | some created =>
          cases x with
          | none =>
              simp only [Accounts.callEffect, hcreated, Option.some.injEq] at hrow
              exact hrow ▸ hown
          | some old =>
              have hold := hx old rfl
              simp only [Accounts.callEffect, hcreated, Option.some.injEq] at hrow
              rw [← hrow]
              split <;> exact hold

theorem accountId_rowAfter {blocks : List BlockOutcomes} {accountId : AccountId} {x : Option Account}
    (hx : ∀ row, x = some row → row.accountId = accountId) :
    ∀ row, rowAfter accountId blocks x = some row → row.accountId = accountId := by
  induction blocks generalizing x with
  | nil => exact hx
  | cons block blocks ih =>
      exact ih (accountId_callEffect (fun e he => (Accounts.wellFormed_entryOf he).account) hx)

/-! ### The answer -/

theorem mem_getLockupAccountIds {db : Database} {blockHeight : Nat} {accountId : AccountId}
    (hkeys : ∀ accountId row, db.accounts.lookup accountId = some row → row.accountId = accountId) :
    accountId ∈ getLockupAccountIdsAtBlockHeight db blockHeight ↔ isLockup accountId = true ∧
      AsOf (includedAt db) blockHeight ((db.accounts.lookup accountId).map accountLifespan) := by
  simp only [getLockupAccountIdsAtBlockHeight, aggregatedLockups, List.mem_map, List.mem_filter,
    Option.all_eq_true, decide_eq_true_eq]
  constructor
  · rintro ⟨_, ⟨⟨⟨row, ⟨hrow, hlockup⟩, rfl⟩, hcreated⟩, hdeleted⟩, rfl⟩
    obtain ⟨key, hlookup⟩ := Table.mem_rows_iff_lookup.mp hrow
    rw [← hkeys key row hlookup] at hlookup
    exact ⟨hlockup, accountLifespan row, by rw [hlookup]; rfl, hcreated, hdeleted⟩
  · rintro ⟨hlockup, span, hspan, hcreated, hdeleted⟩
    obtain ⟨row, hlookup, rfl⟩ := Option.map_eq_some_iff.mp hspan
    obtain rfl := hkeys accountId row hlookup
    exact ⟨_, ⟨⟨⟨row, ⟨Table.mem_rows_iff_lookup.mpr ⟨_, hlookup⟩, hlockup⟩, rfl⟩, hcreated⟩, hdeleted⟩, rfl⟩

theorem nodup_getLockupAccountIds {db : Database} {blockHeight : Nat}
    (hkeys : ∀ accountId row, db.accounts.lookup accountId = some row → row.accountId = accountId) :
    (getLockupAccountIdsAtBlockHeight db blockHeight).Nodup := by
  have hrows : db.accounts.rows.map (·.accountId) = db.accounts.keys := by
    simp only [Table.rows, AList.keys, List.keys, List.map_map]
    refine List.map_congr_left fun entry hentry => hkeys entry.1 entry.2 ?_
    exact AList.mem_lookup_iff.mpr hentry
  have hnodup : (db.accounts.rows.map (·.accountId)).Nodup := hrows ▸ AList.keys_nodup _
  refine List.Nodup.sublist ?_ hnodup
  refine (List.filter_sublist.trans List.filter_sublist).map _ |>.trans ?_
  rw [aggregatedLockups, List.map_map]
  exact List.filter_sublist.map _

end Tables

/-! ### The height -/

def blocksUpTo (history : List HistoryBlock) (blockHeight : Nat) : List BlockOutcomes :=
  (history.filter (·.height ≤ blockHeight)).map (·.effects)

def blocksSince (history : List HistoryBlock) (blockHeight : Nat) : List BlockOutcomes :=
  (history.filter (blockHeight < ·.height)).map (·.effects)

/-- What the blocks up to a height do to an account. -/
def changesUpTo (genesis : Database) (history : List HistoryBlock) (blockHeight : Nat) (accountId : AccountId) :
    List (Nat × LifeChange CryptoHash) :=
  accountChanges accountId (accountId ∈ genesis.accounts) (blocksUpTo history blockHeight)

/-- What the later blocks do to it. -/
def changesSince (genesis : Database) (history : List HistoryBlock) (blockHeight : Nat) (accountId : AccountId) :
    List (Nat × LifeChange CryptoHash) :=
  accountChanges accountId (existsAt genesis history blockHeight accountId) (blocksSince history blockHeight)

/-- The last lifespan of an account is the one that counts at a height: if the account exists after that block, no
later block creates it again; and if that block leaves it deleted, a later one does. -/
structure LastLifespanCounts (genesis : Database) (history : List HistoryBlock) (blockHeight : Nat)
    (accountId : AccountId) : Prop where
  existing : existsAt genesis history blockHeight accountId = true →
    ∀ change ∈ changesSince genesis history blockHeight accountId, change.2.creates = false
  deleted : DeletedAt blockHeight (changesUpTo genesis history blockHeight accountId) →
    ∃ change ∈ changesSince genesis history blockHeight accountId, change.2.creates = true

section Height

variable {history : List HistoryBlock} {genesis db : Database} {w w' : World} {blockHeight : Nat}

theorem blocksUpTo_append (hhistory : InOrderHistory history) (blockHeight : Nat) :
    blocksUpTo history blockHeight ++ blocksSince history blockHeight = history.map (·.effects) := by
  rw [blocksUpTo, blocksSince, ← List.map_append]
  exact congrArg _ (filter_le_append_lt HistoryBlock.height blockHeight hhistory.heights)

/-- The last lifespan of an account that is never touched counts at every height. -/
theorem lastLifespanCounts_of_untouched {accountId : AccountId} (genesis : Database)
    (hhistory : InOrderHistory history) (blockHeight : Nat)
    (h : ∀ step ∈ stepsOf (history.map (·.effects)), touchesAccount accountId step = false) :
    LastLifespanCounts genesis history blockHeight accountId := by
  rw [← blocksUpTo_append hhistory blockHeight, AccessKeys.stepsOf_append] at h
  refine ⟨fun _ change hmem => ?_, ?_⟩
  · rw [idle_accountChanges (fun step hstep => h step (List.mem_append_right _ hstep)) change hmem]
    rfl
  · rintro ⟨change, hmem, _, hdeletes⟩
    rw [idle_accountChanges (fun step hstep => h step (List.mem_append_left _ hstep)) change hmem] at hdeletes
    cases hdeletes

/-- The rows of the genesis have neither a creating nor a deleting receipt. -/
theorem BeforeHistory.bare {accountId : AccountId} (hbefore : BeforeHistory history genesis)
    {lifespan : Lifespan CryptoHash} (h : (genesis.accounts.lookup accountId).map accountLifespan = some lifespan) :
    lifespan.created = none ∧ lifespan.deleted = none := by
  obtain ⟨row, hrow, rfl⟩ := Option.map_eq_some_iff.mp h
  exact hbefore.genesis row (Table.mem_rows_iff_lookup.mpr ⟨accountId, hrow⟩)

theorem BeforeHistory.live_iff {accountId : AccountId} (hbefore : BeforeHistory history genesis) :
    Live ((genesis.accounts.lookup accountId).map accountLifespan) ↔ decide (accountId ∈ genesis.accounts) = true := by
  rw [decide_eq_true_eq, Table.mem_iff_lookup]
  constructor
  · rintro ⟨lifespan, hlifespan, _⟩
    obtain ⟨row, hrow, _⟩ := Option.map_eq_some_iff.mp hlifespan
    exact ⟨row, hrow⟩
  · rintro ⟨row, hrow⟩
    have hlifespan : (genesis.accounts.lookup accountId).map accountLifespan = some (accountLifespan row) := by
      rw [hrow]
      rfl
    exact ⟨accountLifespan row, hlifespan, (hbefore.bare hlifespan).2⟩

/-- The receipts that change an account are included at the heights of their blocks. -/
theorem dated_history (hstored : HistoryStored history genesis db) (accountId : AccountId) (existed : Bool) :
    Dated (includedAt db) (accountChanges accountId existed (history.map (·.effects))) := by
  refine dated_accountChanges fun block hblock step hstep => ?_
  obtain ⟨b, hb, rfl⟩ := List.mem_map.mp hblock
  obtain ⟨receipt, hreceipt, hstep⟩ := List.mem_flatMap.mp hstep
  obtain ⟨action, _, rfl⟩ := List.mem_map.mp hstep
  refine hstored.included b hb _ ?_
  obtain ⟨outcome, houtcome, rfl⟩ := List.mem_map.mp hreceipt
  exact List.mem_map_of_mem (List.mem_of_mem_filter houtcome)

/-- A change has the height of one of the blocks. -/
theorem height_of_mem_accountChanges {accountId : AccountId} {existed : Bool} {select : HistoryBlock → Bool}
    {change : Nat × LifeChange CryptoHash}
    (h : change ∈ accountChanges accountId existed ((history.filter select).map (·.effects))) :
    ∃ block ∈ history, select block = true ∧ block.height = change.1 := by
  have hheight := List.mem_map_of_mem (f := Prod.fst) h
  rw [heights_accountChanges, List.map_map] at hheight
  obtain ⟨block, hblock, heq⟩ := List.mem_map.mp hheight
  obtain ⟨hmem, hselect⟩ := List.mem_filter.mp hblock
  exact ⟨block, hmem, hselect, heq⟩

theorem changesUpTo_append (hhistory : InOrderHistory history) (accountId : AccountId) :
    accountChanges accountId (accountId ∈ genesis.accounts) (history.map (·.effects)) =
      changesUpTo genesis history blockHeight accountId ++ changesSince genesis history blockHeight accountId := by
  rw [← blocksUpTo_append hhistory blockHeight, accountChanges_append]
  rfl

theorem sorted_changesUpTo (hhistory : InOrderHistory history) (accountId : AccountId) :
    (changesUpTo genesis history blockHeight accountId).Pairwise fun a b => a.1 < b.1 := by
  rw [← List.pairwise_map (f := Prod.fst), changesUpTo, heights_accountChanges, blocksUpTo, List.pairwise_map,
    List.pairwise_map]
  exact hhistory.heights.filter _

/-- The row of an account answers for the height exactly if its last lifespan counts. -/
theorem asOf_history_iff {accountId : AccountId} (hhistory : InOrderHistory history)
    (hbefore : BeforeHistory history genesis)
    (halternates : Alternates accountId (accountId ∈ genesis.accounts) (stepsOf (history.map (·.effects))))
    (hstored : HistoryStored history genesis db) :
    (AsOf (includedAt db) blockHeight ((db.accounts.lookup accountId).map accountLifespan) ↔
        existsAt genesis history blockHeight accountId = true) ↔
      LastLifespanCounts genesis history blockHeight accountId := by
  have hheights : (history.map (·.effects)).Pairwise fun b b' => b.blockHeight < b'.blockHeight :=
    List.pairwise_map.mpr hhistory.heights
  have hold : ∀ block ∈ history.map (·.effects), ∀ row, genesis.accounts.lookup accountId = some row →
      row.lastUpdateBlockHeight < block.blockHeight := by
    intro block hblock row hrow
    obtain ⟨b, hb, rfl⟩ := List.mem_map.mp hblock
    exact hbefore.older row (Table.mem_rows_iff_lookup.mpr ⟨accountId, hrow⟩) b hb
  have hdated := dated_history hstored accountId (accountId ∈ genesis.accounts)
  have hpossible := possible_accountChanges halternates
  have hexists : aliveAfter (changesUpTo genesis history blockHeight accountId) (accountId ∈ genesis.accounts) =
      existsAt genesis history blockHeight accountId := aliveAfter_accountChanges _ _ _
  rw [hstored.accounts accountId, span_rowAfter hheights hold hbefore.live_iff]
  rw [changesUpTo_append hhistory accountId] at hdated hpossible ⊢
  have hup : ∀ change ∈ changesUpTo genesis history blockHeight accountId, change.1 ≤ blockHeight := by
    intro change hmem
    obtain ⟨block, _, hselect, heq⟩ := height_of_mem_accountChanges hmem
    exact heq ▸ of_decide_eq_true hselect
  have hsince : ∀ change ∈ changesSince genesis history blockHeight accountId, blockHeight < change.1 := by
    intro change hmem
    obtain ⟨block, _, hselect, heq⟩ := height_of_mem_accountChanges hmem
    exact heq ▸ of_decide_eq_true hselect
  have hiff := asOf_iff (sorted_changesUpTo hhistory accountId) hup hsince hdated hpossible hbefore.live_iff
    fun _ => hbefore.bare
  rw [hexists] at hiff
  exact hiff.trans ⟨fun h => ⟨h.1, h.2⟩, fun h => ⟨h.existing, h.deleted⟩⟩

theorem HistoryStored.lockups_iff (hstored : HistoryStored history genesis db) (hhistory : InOrderHistory history)
    (hbefore : BeforeHistory history genesis)
    (halternates : ∀ accountId, isLockup accountId = true →
      Alternates accountId (accountId ∈ genesis.accounts) (stepsOf (history.map (·.effects)))) (blockHeight : Nat) :
    LockupsAt genesis history blockHeight (getLockupAccountIdsAtBlockHeight db blockHeight) ↔
      ∀ accountId, isLockup accountId = true → LastLifespanCounts genesis history blockHeight accountId := by
  have hkeys : ∀ accountId row, db.accounts.lookup accountId = some row → row.accountId = accountId := by
    intro accountId row hrow
    rw [hstored.accounts accountId] at hrow
    exact accountId_rowAfter (hbefore.accountId accountId) row hrow
  constructor
  · intro hanswer accountId hlockup
    refine (asOf_history_iff hhistory hbefore (halternates accountId hlockup) hstored).mp ?_
    have hexact := hanswer.exact accountId
    rwa [mem_getLockupAccountIds hkeys, and_congr_right_iff, forall_prop_of_true hlockup] at hexact
  · intro hcounts
    refine ⟨nodup_getLockupAccountIds hkeys, fun accountId => ?_⟩
    rw [mem_getLockupAccountIds hkeys, and_congr_right_iff]
    exact fun hlockup =>
      (asOf_history_iff hhistory hbefore (halternates accountId hlockup) hstored).mpr (hcounts accountId hlockup)

/-- The answer for a height is exact if and only if for every lockup account the last lifespan up to the height of the
database is the one that counts. -/
theorem lockups_at_height_iff (hhistory : InOrderHistory history) (hbefore : BeforeHistory history w.db)
    (halternates : ∀ accountId, isLockup accountId = true →
      Alternates accountId (accountId ∈ w.db.accounts) (stepsOf (history.map (·.effects))))
    (hrun : InOrder HistoryBlock.handle w history w') (blockHeight : Nat) :
    LockupsAt w.db history blockHeight (getLockupAccountIdsAtBlockHeight w'.db blockHeight) ↔
      ∀ accountId, isLockup accountId = true → LastLifespanCounts w.db history blockHeight accountId :=
  (historyStored_of_inOrder hhistory hbefore hrun).lockups_iff hhistory hbefore halternates blockHeight

end Height

/-! ### A lockup account that is deleted -/

theorem mem_singleton_txHashes {receiptId : CryptoHash} {accountId : AccountId} {hash : CryptoHash}
    {action : ActionView} {transactionHash : ParentTransactionHashString} :
    ∀ outcome ∈ [IndexerExecutionOutcomeWithReceipt.plain hash (.plain receiptId accountId [action]) []],
      Receipts.receiptOrDataId outcome.receipt ∈
        (AList.singleton (.receiptId receiptId) transactionHash : Receipts.TxHashes) := by
  intro outcome houtcome
  rw [List.mem_singleton.mp houtcome]
  exact AList.mem_keys.mpr List.mem_cons_self

def lockupBlock (height : Nat) (hash chunkHash receiptId : CryptoHash) (action : ActionView) : HistoryBlock where
  block := (quietBlock height hash hash).block
  chunkHash := chunkHash
  outcomes := [.plain hash (.plain receiptId "alice.lockup.near" [action]) []]
  txHashes := AList.singleton (.receiptId receiptId) "t1"
  found := mem_singleton_txHashes

def lockupHistory : List HistoryBlock :=
  [lockupBlock 6 (.ofText "b6") (.ofText "c6") (.ofText "r1") .createAccount,
    lockupBlock 7 (.ofText "b7") (.ofText "c7") (.ofText "r2") (.deleteAccount "bob.near")]

/-- The chunks and the transaction are stored. -/
def worldBeforeLockup : World where
  cache := .withSize 1
  db :=
    { chunks := Table.insertAllNew (·.chunkHash)
        [⟨.ofText "b6", .ofText "c6", 0, "", 0, 0, "validator.near"⟩,
          ⟨.ofText "b7", .ofText "c7", 0, "", 0, 0, "validator.near"⟩] ∅
      transactions := (∅ : Table ParentTransactionHashString Transaction).insert "t1"
        (.fromIndexerTransaction (.plain (.ofText "b6") (.ofText "t1") (.ofText "r1") "alice.lockup.near") "t1"
          (.ofText "r1") (.ofText "b6") (.ofText "c6") 6 0) }

theorem inOrder_lockupHistory : InOrderHistory lockupHistory := ⟨by decide, by decide, by decide⟩

theorem before_lockupHistory : BeforeHistory lockupHistory worldBeforeLockup.db := by
  refine ⟨rfl, rfl, fun accountId row hrow => ?_, by decide, by decide⟩
  cases hrow

/-- The history is about one account. -/
theorem receiver_lockupHistory {accountId : AccountId} (hne : accountId ≠ "alice.lockup.near") :
    ∀ step ∈ stepsOf (lockupHistory.map (·.effects)), touchesAccount accountId step = false := by
  intro step hstep
  have hreceiver : step.1.receiverId = "alice.lockup.near" := by
    revert step
    decide
  rw [touchesAccount, createsAccount, deletesAccount, hreceiver, decide_eq_false (Ne.symm hne)]
  rfl

theorem alternates_lockupHistory (accountId : AccountId) :
    Alternates accountId (accountId ∈ worldBeforeLockup.db.accounts) (stepsOf (lockupHistory.map (·.effects))) := by
  by_cases haccount : accountId = "alice.lockup.near"
  · rw [haccount]
    exact ⟨by decide, by decide, by decide, by decide, trivial⟩
  · refine alternates_of_untouched (receiver_lockupHistory haccount)

theorem run_lockupHistory : ∃ w', InOrder HistoryBlock.handle worldBeforeLockup lockupHistory w' ∧
    getLockupAccountIdsAtBlockHeight w'.db 6 = ["alice.lockup.near"] ∧
      getLockupAccountIdsAtBlockHeight w'.db 7 = ["alice.lockup.near"] := by
  have hrun : InOrder HistoryBlock.handle worldBeforeLockup lockupHistory _ :=
    .cons (finishes_after 1 (by decide)) (.cons (finishes_after 1 (by decide)) .nil)
  exact ⟨_, hrun, by decide, by decide⟩

/-- The account exists after the block that creates it. -/
theorem lockups_at_creation : ∃ w', InOrder HistoryBlock.handle worldBeforeLockup lockupHistory w' ∧
    LockupsAt worldBeforeLockup.db lockupHistory 6 (getLockupAccountIdsAtBlockHeight w'.db 6) := by
  obtain ⟨w', hrun, _⟩ := run_lockupHistory
  refine ⟨w', hrun, (lockups_at_height_iff inOrder_lockupHistory before_lockupHistory
    (fun accountId _ => alternates_lockupHistory accountId) hrun 6).mpr fun accountId _ => ?_⟩
  by_cases haccount : accountId = "alice.lockup.near"
  · rw [haccount]
    exact ⟨fun _ => by decide, by decide⟩
  · exact lastLifespanCounts_of_untouched _ inOrder_lockupHistory 6 (receiver_lockupHistory haccount)

/-- The account that the block has deleted is still in the answer. -/
theorem deleted_lockup_answered :
    ¬ ∀ (history : List HistoryBlock) (w w' : World) (blockHeight : Nat), InOrderHistory history →
      BeforeHistory history w.db →
      (∀ accountId, isLockup accountId = true →
        Alternates accountId (accountId ∈ w.db.accounts) (stepsOf (history.map (·.effects)))) →
      InOrder HistoryBlock.handle w history w' →
      LockupsAt w.db history blockHeight (getLockupAccountIdsAtBlockHeight w'.db blockHeight) := by
  intro hall
  obtain ⟨w', hrun, _, hanswer⟩ := run_lockupHistory
  have hlockups := hall _ _ _ 7 inOrder_lockupHistory before_lockupHistory
    (fun accountId _ => alternates_lockupHistory accountId) hrun
  have hexists := ((hlockups.exact "alice.lockup.near").mp (by rw [hanswer]; decide)).2
  revert hexists
  decide

end ExplorerIndexer

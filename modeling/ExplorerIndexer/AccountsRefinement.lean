import ExplorerIndexer.AccountsRows
import ExplorerIndexer.AsyncAlone

/-! The accounts table as a history of named accounts. Over blocks with increasing heights the adapter, which
collapses a block into one entry per account and writes the entries through guarded statements, leaves the
lifetimes that the successful actions give one at a time. -/

namespace ExplorerIndexer.Accounts

open Async Store Models

/-! ### The history of an account -/

/-- By which receipt an account was created and by which one it was deleted. -/
structure Lifetime where
  createdByReceiptId : Option CryptoHash
  deletedByReceiptId : Option CryptoHash
  deriving DecidableEq

/-- What an action of a receipt does to the lifetime of an account that is not implicit. -/
def liveThrough (accountId : AccountId) (lifetime : Option Lifetime) (step : ReceiptView × ActionView) :
    Option Lifetime :=
  if step.1.receiverId = accountId then
    match step.2 with
    | .createAccount => some ⟨some step.1.receiptId, none⟩
    | .deleteAccount _ =>
        lifetime.map fun existing => { existing with deletedByReceiptId := some step.1.receiptId }
    | _ => lifetime
  else lifetime

def lifetimeOf (row : Account) : Lifetime := ⟨row.createdByReceiptId, row.deletedByReceiptId⟩

/-- The lifetime of an account that had another one before the block, from its entry. -/
def lifetimeAfter (lifetime : Option Lifetime) : Option Account → Option Lifetime
  | none => lifetime
  | some entry =>
      match entry.createdByReceiptId with
      | some _ => some (lifetimeOf entry)
      | none => lifetime.map fun existing => { existing with deletedByReceiptId := entry.deletedByReceiptId }

section Entry

variable {accountId : AccountId} {blockHeight : Nat} {lifetime : Option Lifetime}

/-- One action does the same to the entry of an account and to its history. -/
theorem lifetimeAfter_entryAction (hlen : accountId.len ≠ 64) (entry : Option Account)
    (step : ReceiptView × ActionView) :
    lifetimeAfter lifetime (entryAction accountId blockHeight step.1 entry step.2) =
      liveThrough accountId (lifetimeAfter lifetime entry) step := by
  obtain ⟨receipt, action⟩ := step
  unfold entryAction liveThrough
  by_cases hreceiver : receipt.receiverId = accountId
  · simp only [hreceiver, if_true]
    cases action with
    | createAccount => rfl
    | transfer deposit => simp only [if_neg hlen]
    | deleteAccount beneficiaryId =>
        cases entry with
        | none => rfl
        | some existing =>
            cases hcreated : existing.createdByReceiptId with
            | some created => simp [lifetimeAfter, hcreated, lifetimeOf]
            | none => simp [lifetimeAfter, hcreated, Function.comp_def]
    | _ => rfl
  · simp only [hreceiver, if_false]

theorem lifetimeAfter_foldl (hlen : accountId.len ≠ 64) (steps : List (ReceiptView × ActionView))
    (entry : Option Account) :
    lifetimeAfter lifetime
        (steps.foldl (fun entry step => entryAction accountId blockHeight step.1 entry step.2) entry) =
      steps.foldl (liveThrough accountId) (lifetimeAfter lifetime entry) := by
  induction steps generalizing entry with
  | nil => rfl
  | cons step steps ih => rw [List.foldl_cons, List.foldl_cons, ih, lifetimeAfter_entryAction hlen]

/-- A whole block does the same to the entry of an account and to its history. -/
theorem lifetimeAfter_entryOf (hlen : accountId.len ≠ 64) (steps : List (ReceiptView × ActionView)) :
    lifetimeAfter lifetime (entryOf accountId blockHeight steps) =
      steps.foldl (liveThrough accountId) lifetime :=
  lifetimeAfter_foldl hlen steps none

end Entry

/-! ### The table -/

/-- On a row older than the block, a call has the effect of the block's entry. -/
theorem lifetimeOf_callEffect {accountId : AccountId} {blockHeight : Nat} {entry x : Option Account}
    (hlen : accountId.len ≠ 64) (haccount : ∀ e, entry = some e → e.accountId = accountId)
    (hold : ∀ row, x = some row → row.lastUpdateBlockHeight < blockHeight) :
    (callEffect blockHeight entry x).map lifetimeOf = lifetimeAfter (x.map lifetimeOf) entry := by
  cases entry with
  | none => rfl
  | some entry =>
      have hnamed : isImplicitToRecreate entry = false := by
        rw [isImplicitToRecreate, haccount entry rfl, beq_eq_false_iff_ne.mpr hlen, Bool.false_and]
      cases hcreated : entry.createdByReceiptId with
      | none =>
          cases x with
          | none => simp [callEffect, lifetimeAfter, hcreated]
          | some row =>
              simp [callEffect, lifetimeAfter, hcreated, hold row rfl, lifetimeOf, deletedRow]
      | some created =>
          cases x with
          | none => simp [callEffect, lifetimeAfter, hcreated]
          | some row =>
              simp [callEffect, lifetimeAfter, hcreated, hold row rfl, hnamed, lifetimeOf, updatedRow]

/-- After a call no row is younger than the block, if none was before. -/
theorem callEffect_height {accountId : AccountId} {blockHeight : Nat}
    {steps : List (ReceiptView × ActionView)} {x : Option Account}
    (hold : ∀ row, x = some row → row.lastUpdateBlockHeight < blockHeight) :
    ∀ row, callEffect blockHeight (entryOf accountId blockHeight steps) x = some row →
      row.lastUpdateBlockHeight ≤ blockHeight := by
  intro row hrow
  rcases (guarded_call accountId blockHeight steps).stamped x with hsame | ⟨r, hr, hheight⟩
  · exact Nat.le_of_lt (hold row (hsame ▸ hrow))
  · rw [hr] at hrow
    exact Nat.le_of_eq (Option.some.inj hrow ▸ hheight)

/-- The accounts handler, block after block. -/
def handleBlockAccounts (block : BlockOutcomes) : Prog World Unit :=
  handleAccounts block.outcomes block.blockHeight

theorem lifetime_after_blocks {accountId : AccountId} {blocks : List BlockOutcomes} {w w' : World}
    (hlen : accountId.len ≠ 64) (hrun : InOrder handleBlockAccounts w blocks w')
    (hheights : blocks.Pairwise fun b b' => b.blockHeight < b'.blockHeight)
    (hold : ∀ block ∈ blocks, ∀ row, w.db.accounts.lookup accountId = some row →
      row.lastUpdateBlockHeight < block.blockHeight) :
    (w'.db.accounts.lookup accountId).map lifetimeOf =
      (blocks.flatMap fun block => successfulActions block.outcomes).foldl (liveThrough accountId)
        ((w.db.accounts.lookup accountId).map lifetimeOf) := by
  induction hrun with
  | nil => rfl
  | @cons block blocks w w₁ w' hblock _ ih =>
      obtain ⟨hlater, hheights⟩ := List.pairwise_cons.mp hheights
      have hrow := row_after_call hblock accountId
      have hold₀ := hold block List.mem_cons_self
      have hold₁ : ∀ block' ∈ blocks, ∀ row, w₁.db.accounts.lookup accountId = some row →
          row.lastUpdateBlockHeight < block'.blockHeight := by
        intro block' hblock' row hlookup
        rw [hrow] at hlookup
        exact Nat.lt_of_le_of_lt (callEffect_height hold₀ row hlookup) (hlater block' hblock')
      rw [ih hheights hold₁, hrow,
        lifetimeOf_callEffect hlen (fun e he => (wellFormed_entryOf he).account) hold₀,
        lifetimeAfter_entryOf hlen, List.flatMap_cons, List.foldl_append]

/-- Named accounts have the lifetimes that the successful actions give, one at a time and in order. -/
theorem accounts_refine_lifetimes {blocks : List BlockOutcomes} {w w' : World}
    (hrun : InOrder handleBlockAccounts w blocks w')
    (hheights : blocks.Pairwise fun b b' => b.blockHeight < b'.blockHeight)
    (hold : ∀ block ∈ blocks, ∀ row ∈ w.db.accounts.rows, row.lastUpdateBlockHeight < block.blockHeight)
    (accountId : AccountId) (hlen : accountId.len ≠ 64) :
    (w'.db.accounts.lookup accountId).map lifetimeOf =
      (blocks.flatMap fun block => successfulActions block.outcomes).foldl (liveThrough accountId)
        ((w.db.accounts.lookup accountId).map lifetimeOf) :=
  lifetime_after_blocks hlen hrun hheights fun block hblock row hrow =>
    hold block hblock row (Table.mem_rows_iff_lookup.mpr ⟨accountId, hrow⟩)

/-- One receipt creates and deletes an account, a later one creates it again. -/
def recreatedAccount : List BlockOutcomes :=
  [⟨7, [.plain (.ofText "b7") (.plain (.ofText "r1") "bob.near" [.createAccount, .deleteAccount "eve.near"]) []]⟩,
    ⟨8, [.plain (.ofText "b8") (.plain (.ofText "r2") "bob.near" [.createAccount]) []]⟩]

theorem accounts_refine_lifetimes_recreated :
    ∃ w', InOrder handleBlockAccounts { cache := .withSize 1, db := {} } recreatedAccount w' ∧
      (w'.db.accounts.lookup "bob.near").map lifetimeOf = some ⟨some (.ofText "r2"), none⟩ := by
  have hrun : InOrder handleBlockAccounts { cache := .withSize 1, db := {} } recreatedAccount _ :=
    .cons (finishes_after 1 (by decide)) (.cons (finishes_after 1 (by decide)) .nil)
  refine ⟨_, hrun, ?_⟩
  rw [accounts_refine_lifetimes hrun (by decide) (by decide) "bob.near" (by decide)]
  decide

end ExplorerIndexer.Accounts

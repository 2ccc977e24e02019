import ExplorerIndexer.AccessKeysDeletion
import ExplorerIndexer.AccountsReplay
import ExplorerIndexer.StoreLifespans
import ExplorerIndexer.StoreResumption

/-! Blocks that are handled out of height order. The height guard makes most overtakings harmless, but not all:
a deletion that finds no row leaves nothing behind, an insertion does not look at heights, and a transfer to an
implicit account depends on the row it finds. -/

namespace ExplorerIndexer.BlockOrder

open Async Store Models
open Accounts (successfulActions deletesAccount lastStep lastReceipt lastStep_append lastReceipt_append
  lastStep_eq_none lastReceipt_eq_none)
open AccessKeys (addsKey deletesKey touchesKey SweepAgrees)

/-! ### Accounts -/

/-- Creates the account: a `CreateAccount`, or a transfer to an implicit account. -/
def createsAccount (accountId : AccountId) (step : ReceiptView × ActionView) : Bool :=
  decide (step.1.receiverId = accountId) &&
    match step.2 with
    | .createAccount => true
    | .transfer _ => decide (accountId.len = 64)
    | _ => false

def touchesAccount (accountId : AccountId) (step : ReceiptView × ActionView) : Bool :=
  createsAccount accountId step || deletesAccount accountId step

/-- What the steps of a block amount to for the row of an account. -/
def accountAction (accountId : AccountId) (steps : List (ReceiptView × ActionView)) : LifeAction CryptoHash :=
  match lastStep (touchesAccount accountId) steps, lastReceipt (createsAccount accountId) steps with
  | none, _ => .idle
  | some last, none => .mark last.1.receiptId
  | some last, some created =>
      if createsAccount accountId last then
        if accountId.len = 64 then .revive created else .overwrite created none
      else .overwrite created (some last.1.receiptId)

def accountLifespan (row : Account) : Lifespan CryptoHash :=
  ⟨row.createdByReceiptId, row.deletedByReceiptId, row.lastUpdateBlockHeight⟩

section Accounts

variable {accountId : AccountId} {blockHeight : Nat} {steps : List (ReceiptView × ActionView)}

/-- The three things a step can do to the entry of an account. -/
theorem entryAction_cases (accountId : AccountId) (blockHeight : Nat) (entry : Option Account)
    (step : ReceiptView × ActionView) :
    (createsAccount accountId step = true ∧ deletesAccount accountId step = false ∧
      Accounts.entryAction accountId blockHeight step.1 entry step.2 =
        some (Account.newFromReceipt accountId step.1.receiptId blockHeight)) ∨
    (createsAccount accountId step = false ∧ deletesAccount accountId step = true ∧
      Accounts.entryAction accountId blockHeight step.1 entry step.2 =
        some ((entry.map fun e => { e with deletedByReceiptId := some step.1.receiptId }).getD
          ⟨accountId, none, some step.1.receiptId, blockHeight⟩)) ∨
    (touchesAccount accountId step = false ∧
      Accounts.entryAction accountId blockHeight step.1 entry step.2 = entry) := by
  obtain ⟨receipt, action⟩ := step
  unfold touchesAccount Accounts.entryAction createsAccount deletesAccount
  by_cases hreceiver : receipt.receiverId = accountId
  · cases action with
    | transfer deposit => by_cases hlen : accountId.len = 64 <;> simp [hreceiver, hlen]
    | _ => simp [hreceiver]
  · simp [hreceiver]

/-- The columns of the entry of an account, in terms of the steps. -/
theorem entryOf_columns (accountId : AccountId) (blockHeight : Nat) (steps : List (ReceiptView × ActionView)) :
    (Accounts.entryOf accountId blockHeight steps).map (fun e => (e.createdByReceiptId, e.deletedByReceiptId)) =
      (lastStep (touchesAccount accountId) steps).map fun last =>
        (lastReceipt (createsAccount accountId) steps,
          if createsAccount accountId last then none else some last.1.receiptId) := by
  induction steps using List.reverseRecOn with
  | nil => rfl
  | append_singleton steps step ih =>
      have happend : Accounts.entryOf accountId blockHeight (steps ++ [step]) = Accounts.entryAction accountId
          blockHeight step.1 (Accounts.entryOf accountId blockHeight steps) step.2 := by
        rw [Accounts.entryOf, List.foldl_append]
        rfl
      rw [happend, lastStep_append, lastReceipt_append]
      rcases entryAction_cases accountId blockHeight (Accounts.entryOf accountId blockHeight steps) step with
        ⟨hcreates, hdeletes, heq⟩ | ⟨hcreates, hdeletes, heq⟩ | ⟨htouches, heq⟩
      · simp [heq, touchesAccount, hcreates, Account.newFromReceipt]
      · cases hprev : Accounts.entryOf accountId blockHeight steps with
        | none =>
            rw [hprev] at heq ih
            have hnone : lastStep (touchesAccount accountId) steps = none := Option.map_eq_none_iff.mp ih.symm
            have hcreated : lastReceipt (createsAccount accountId) steps = none :=
              lastReceipt_eq_none.mpr fun s hs => (Bool.or_eq_false_iff.mp (lastStep_eq_none.mp hnone s hs)).1
            simp [heq, touchesAccount, hcreates, hdeletes, hcreated]
        | some prev =>
            rw [hprev] at heq ih
            obtain ⟨last, _, hpair⟩ := Option.map_eq_some_iff.mp ih.symm
            have hcreated : lastReceipt (createsAccount accountId) steps = prev.createdByReceiptId :=
              congrArg Prod.fst hpair
            simp [heq, touchesAccount, hcreates, hdeletes, hcreated]
      · have hcreates : createsAccount accountId step = false := (Bool.or_eq_false_iff.mp htouches).1
        rw [heq, htouches, hcreates]
        exact ih

/-- The action of an entry of the in-memory pass. -/
def entryAccountAction (accountId : AccountId) : Option Account → LifeAction CryptoHash
  | none => .idle
  | some entry =>
      match entry.createdByReceiptId, entry.deletedByReceiptId with
      | none, none => .idle
      | none, some deleted => .mark deleted
      | some created, none => if accountId.len = 64 then .revive created else .overwrite created none
      | some created, some deleted => .overwrite created (some deleted)

theorem entryAccountAction_entryOf (accountId : AccountId) (blockHeight : Nat)
    (steps : List (ReceiptView × ActionView)) :
    entryAccountAction accountId (Accounts.entryOf accountId blockHeight steps) = accountAction accountId steps := by
  have hcolumns := entryOf_columns accountId blockHeight steps
  unfold accountAction
  cases hentry : Accounts.entryOf accountId blockHeight steps with
  | none =>
      rw [hentry] at hcolumns
      rw [Option.map_eq_none_iff.mp hcolumns.symm]
      rfl
  | some entry =>
      rw [hentry] at hcolumns
      obtain ⟨last, hlast, hpair⟩ := Option.map_eq_some_iff.mp hcolumns.symm
      have hcreated : lastReceipt (createsAccount accountId) steps = entry.createdByReceiptId :=
        congrArg Prod.fst hpair
      have hdeleted : (if createsAccount accountId last then none else some last.1.receiptId) =
          entry.deletedByReceiptId := congrArg Prod.snd hpair
      rw [hlast, hcreated]
      simp only [entryAccountAction]
      cases hc : entry.createdByReceiptId with
      | none =>
          cases hcreates : createsAccount accountId last with
          | true =>
              rw [hcreates] at hdeleted
              exact absurd hdeleted.symm ((Accounts.wellFormed_entryOf hentry).touched hc)
          | false =>
              rw [hcreates] at hdeleted
              rw [← hdeleted]
              rfl
      | some created =>
          cases hcreates : createsAccount accountId last <;> simp [← hdeleted, hcreates]

theorem lifespan_entry {entry : Account} (hentry : Accounts.WellFormedEntry accountId blockHeight entry)
    (x : Option Account) :
    (Accounts.callEffect blockHeight (some entry) x).map accountLifespan =
      (entryAccountAction accountId (some entry)).effect blockHeight (x.map accountLifespan) := by
  have himplicit : Accounts.isImplicitToRecreate entry = true ↔
      accountId.len = 64 ∧ entry.deletedByReceiptId = none := by
    simp [Accounts.isImplicitToRecreate, hentry.account]
  cases hc : entry.createdByReceiptId with
  | none =>
      cases hd : entry.deletedByReceiptId with
      | none => exact absurd hd (hentry.touched hc)
      | some deleted =>
          cases x with
          | none => simp [Accounts.callEffect, entryAccountAction, hc, hd, LifeAction.effect]
          | some row =>
              by_cases hv : row.lastUpdateBlockHeight < blockHeight <;>
                simp [Accounts.callEffect, entryAccountAction, hc, hd, LifeAction.effect, accountLifespan,
                  Accounts.deletedRow, hv, hentry.height]
  | some created =>
      cases x with
      | none =>
          cases hd : entry.deletedByReceiptId with
          | some deleted =>
              simp [Accounts.callEffect, entryAccountAction, hc, hd, LifeAction.effect, accountLifespan,
                hentry.height]
          | none =>
              by_cases hlen : accountId.len = 64 <;>
                simp [Accounts.callEffect, entryAccountAction, hc, hd, hlen, LifeAction.effect, accountLifespan,
                  hentry.height]
      | some row =>
          by_cases hv : row.lastUpdateBlockHeight < blockHeight
          · cases hd : entry.deletedByReceiptId with
            | some deleted =>
                simp [Accounts.callEffect, entryAccountAction, hc, hd, LifeAction.effect, accountLifespan,
                  himplicit, hv, Accounts.updatedRow, hentry.height]
            | none =>
                by_cases hlen : accountId.len = 64
                · cases hlive : row.deletedByReceiptId <;>
                    simp [Accounts.callEffect, entryAccountAction, hc, hd, hlen, LifeAction.effect,
                      accountLifespan, himplicit, hv, hlive, Accounts.updatedRow, hentry.height]
                · simp [Accounts.callEffect, entryAccountAction, hc, hd, hlen, LifeAction.effect, accountLifespan,
                    himplicit, hv, Accounts.updatedRow, hentry.height]
          · have hsettled : (entryAccountAction accountId (some entry)).effect blockHeight
                (some (accountLifespan row)) = some (accountLifespan row) :=
              LifeAction.effect_settled _ (Nat.not_lt.mp hv)
            rw [Option.map_some, hsettled]
            simp [Accounts.callEffect, hc, hv]

/-- A call of the accounts handler is the action of the block's steps. -/
theorem lifespan_call (x : Option Account) :
    (Accounts.callEffect blockHeight (Accounts.entryOf accountId blockHeight steps) x).map accountLifespan =
      (accountAction accountId steps).effect blockHeight (x.map accountLifespan) := by
  rw [← entryAccountAction_entryOf accountId blockHeight steps]
  cases hentry : Accounts.entryOf accountId blockHeight steps with
  | none => rfl
  | some entry => exact lifespan_entry (Accounts.wellFormed_entryOf hentry) x

/-- Steps that are no action on an account leave no entry. -/
theorem entryOf_of_idle (h : accountAction accountId steps = .idle) :
    Accounts.entryOf accountId blockHeight steps = none := by
  rw [← entryAccountAction_entryOf accountId blockHeight steps] at h
  cases hentry : Accounts.entryOf accountId blockHeight steps with
  | none => rfl
  | some entry =>
      have hwell := Accounts.wellFormed_entryOf hentry
      rw [hentry] at h
      cases hc : entry.createdByReceiptId with
      | none =>
          obtain ⟨deleted, hd⟩ := Option.ne_none_iff_exists'.mp (hwell.touched hc)
          simp [entryAccountAction, hc, hd] at h
      | some created =>
          cases hd : entry.deletedByReceiptId with
          | none => by_cases hlen : accountId.len = 64 <;> simp [entryAccountAction, hc, hd, hlen] at h
          | some deleted => simp [entryAccountAction, hc, hd] at h

end Accounts

/-- A call of the accounts handler may begin: no other call in flight concerns an account that the block concerns, and
of the blocks below it that are not begun the block only overtakes what it may. -/
structure AccountsMayBegin (buffered : Buffered World BlockOutcomes) (block : BlockOutcomes) : Prop where
  apart : ∀ other ∈ buffered.inFlight, ∀ accountId,
    accountAction accountId (successfulActions other.1.outcomes) = .idle ∨
      accountAction accountId (successfulActions block.outcomes) = .idle
  overtakes : ∀ later ∈ buffered.stream, later.blockHeight < block.blockHeight → ∀ accountId,
    (accountAction accountId (successfulActions later.outcomes)).MayOvertake
      ((buffered.state.db.accounts.lookup accountId).map accountLifespan)
      (accountAction accountId (successfulActions block.outcomes))

/-- A call owns the rows of the accounts that it concerns and leaves the others alone. -/
theorem owned_accounts (accountId : AccountId) :
    Owned (fun w : World => w.db.accounts.lookup accountId) (Accounts.blockEffect accountId)
      (fun block => accountAction accountId (successfulActions block.outcomes) = .idle) AccountsMayBegin
      Accounts.handleBlockAccounts where
  aside_effect block x haside := by
    rw [Accounts.blockEffect, entryOf_of_idle haside]
    rfl
  leaves block haside := by
    refine Accounts.outline_of_rowWrites fun _ _ hwrites hcall => hcall.outline_guarantee fun write hwrite w => ?_
    refine (Accounts.lookup_run (hwrites.atHeight write hwrite) w).trans ?_
    rcases hwrites.effect write hwrite accountId (w.db.accounts.lookup accountId) with hsame | hact
    · exact hsame
    · rwa [entryOf_of_idle haside] at hact
  performs buffered block _ _ :=
    Accounts.outline_of_rowWrites fun _ _ hwrites hcall => outline_of_agreeing _ hcall
      (fun write hwrite w => Accounts.lookup_run (hwrites.atHeight write hwrite) w)
      (fun write hwrite => Accounts.guarded_effect (hwrites.atHeight write hwrite))
      (fun write hwrite => hwrites.effect write hwrite accountId _) (hwrites.acts accountId _)
  alone buffered block hmay entry hentry := hmay.apart entry hentry accountId

/-! ### Access keys -/

/-- What the steps of a block amount to for the row of a key. -/
def keyAction (decoders : Decoders) (key : PublicKey × AccountId) (steps : List (ReceiptView × ActionView)) :
    LifeAction CryptoHash :=
  if steps.any fun step => addsKey decoders key step || deletesKey key step then
    match lastStep (touchesKey decoders key) steps, lastReceipt (addsKey decoders key) steps with
    | none, _ => .idle
    | some last, none => .mark last.1.receiptId
    | some last, some created =>
        .overwrite created (if addsKey decoders key last then none else some last.1.receiptId)
  else
    match lastReceipt (deletesAccount key.2) steps with
    | none => .idle
    | some deleted => .markLive deleted

def keyLifespan (row : AccessKey) : Lifespan CryptoHash :=
  ⟨row.createdByReceiptId, row.deletedByReceiptId, row.lastUpdateBlockHeight⟩

section Keys

variable {decoders : Decoders} {key : PublicKey × AccountId} {blockHeight : Nat}
  {steps : List (ReceiptView × ActionView)}

theorem lifespan_sweep (receiptId : CryptoHash) (x : Option AccessKey) :
    (AccessKeys.sweepEffect blockHeight (some receiptId) x).map keyLifespan =
      (LifeAction.markLive receiptId).effect blockHeight (x.map keyLifespan) := by
  cases x with
  | none => rfl
  | some row =>
      by_cases hv : row.deletedByReceiptId = none ∧ row.lastUpdateBlockHeight < blockHeight <;>
        simp [AccessKeys.sweepEffect, LifeAction.effect, keyLifespan, AccessKeys.sweptRow, hv]

/-- The entry of a key has the action of the steps. -/
theorem lifespan_keyEntry {entry : AccessKey}
    (hentry : AccessKeys.entryOf decoders key blockHeight steps = some entry) (x : Option AccessKey) :
    (AccessKeys.entryEffect blockHeight (some entry) x).map keyLifespan =
      (keyAction decoders key steps).effect blockHeight (x.map keyLifespan) := by
  have hwell := AccessKeys.wellFormed_entryOf hentry
  have hcreated := AccessKeys.entryOf_created hentry
  have hdeleted := AccessKeys.entryOf_deleted hentry
  have hany : (steps.any fun step => addsKey decoders key step || deletesKey key step) = true := by
    by_contra hnone
    rw [AccessKeys.entryOf_eq_none.mpr] at hentry
    · cases hentry
    · intro step hstep
      simpa using List.any_eq_false.mp (Bool.eq_false_iff.mpr hnone) step hstep
  unfold keyAction
  rw [if_pos hany, ← hcreated]
  cases hlast : lastStep (touchesKey decoders key) steps with
  | none =>
      -- a step that adds or deletes the key touches it
      obtain ⟨step, hstep, htouches⟩ := List.any_eq_true.mp hany
      have huntouched := lastStep_eq_none.mp hlast step hstep
      rw [touchesKey, htouches] at huntouched
      cases huntouched
  | some last =>
      rw [hlast, Option.bind_some] at hdeleted
      cases hc : entry.createdByReceiptId with
      | none =>
          cases hadds : addsKey decoders key last with
          | true =>
              rw [hadds] at hdeleted
              exact absurd hdeleted (hwell.touched hc)
          | false =>
              rw [hadds] at hdeleted
              cases x with
              | none => simp [AccessKeys.entryEffect, hc, LifeAction.effect]
              | some row =>
                  by_cases hv : row.lastUpdateBlockHeight < blockHeight <;>
                    simp [AccessKeys.entryEffect, hc, LifeAction.effect, keyLifespan, AccessKeys.deletedRow, hv,
                      hwell.height, hdeleted]
      | some created =>
          cases x with
          | none => simp [AccessKeys.entryEffect, hc, LifeAction.effect, keyLifespan, hwell.height, hdeleted]
          | some row =>
              by_cases hv : row.lastUpdateBlockHeight < blockHeight <;>
                simp [AccessKeys.entryEffect, hc, LifeAction.effect, keyLifespan, AccessKeys.recreatedRow, hv,
                  hwell.height, hdeleted]

/-- What a call of the access keys handler does where the sweep agrees with the steps is their action. -/
theorem lifespan_keyCall (x : Option AccessKey) :
    (AccessKeys.callEffect blockHeight (lastReceipt (deletesAccount key.2) steps)
        (AccessKeys.entryOf decoders key blockHeight steps) x).map keyLifespan =
      (keyAction decoders key steps).effect blockHeight (x.map keyLifespan) := by
  cases hentry : AccessKeys.entryOf decoders key blockHeight steps with
  | some entry => exact lifespan_keyEntry hentry x
  | none =>
      have hnone := AccessKeys.entryOf_eq_none.mp hentry
      have hany : (steps.any fun step => addsKey decoders key step || deletesKey key step) = false := by
        rw [List.any_eq_false]
        intro step hstep
        simp [hnone step hstep]
      simp only [AccessKeys.callEffect, keyAction, hany, Option.isSome_none, Bool.false_eq_true, if_false]
      cases lastReceipt (deletesAccount key.2) steps with
      | none => rfl
      | some receiptId => exact lifespan_sweep receiptId x

/-- Steps that are no action on a key leave no entry and do not delete its account. -/
theorem keyEntry_of_idle (blockHeight : Nat) (h : keyAction decoders key steps = .idle) :
    AccessKeys.entryOf decoders key blockHeight steps = none ∧ lastReceipt (deletesAccount key.2) steps = none := by
  unfold keyAction at h
  cases hany : steps.any fun step => addsKey decoders key step || deletesKey key step with
  | true =>
      rw [if_pos hany] at h
      obtain ⟨step, hstep, htouches⟩ := List.any_eq_true.mp hany
      cases hlast : lastStep (touchesKey decoders key) steps with
      | none =>
          have huntouched := lastStep_eq_none.mp hlast step hstep
          rw [touchesKey, htouches] at huntouched
          cases huntouched
      | some last => cases hadded : lastReceipt (addsKey decoders key) steps <;> simp [hlast, hadded] at h
  | false =>
      rw [if_neg (by simp [hany])] at h
      refine ⟨AccessKeys.entryOf_eq_none.mpr fun step hstep => ?_, ?_⟩
      · simpa using List.any_eq_false.mp hany step hstep
      · cases hdeleted : lastReceipt (deletesAccount key.2) steps with
        | none => rfl
        | some receiptId => simp [hdeleted] at h

end Keys

/-- A call of the access keys handler may begin: its own futures do not race on the table that it finds, no other call
in flight concerns a key that the block concerns, and of the blocks below it that are not begun the block only overtakes
what it may. -/
structure AccessKeysMayBegin (decoders : Decoders) (buffered : Buffered World BlockOutcomes) (block : BlockOutcomes) :
    Prop where
  agrees : SweepAgrees decoders (successfulActions block.outcomes) buffered.state.db.accessKeys
  apart : ∀ other ∈ buffered.inFlight, ∀ key,
    keyAction decoders key (successfulActions other.1.outcomes) = .idle ∨
      keyAction decoders key (successfulActions block.outcomes) = .idle
  overtakes : ∀ later ∈ buffered.stream, later.blockHeight < block.blockHeight → ∀ key,
    (keyAction decoders key (successfulActions later.outcomes)).MayOvertake
      ((buffered.state.db.accessKeys.lookup key).map keyLifespan)
      (keyAction decoders key (successfulActions block.outcomes))

/-- What the steps of a block do to the row of a key, where the sweep agrees with them. -/
def keyEffect (decoders : Decoders) (key : PublicKey × AccountId) (block : BlockOutcomes) (x : Option AccessKey) :
    Option AccessKey :=
  AccessKeys.callEffect block.blockHeight (lastReceipt (deletesAccount key.2) (successfulActions block.outcomes))
    (AccessKeys.entryOf decoders key block.blockHeight (successfulActions block.outcomes)) x

/-- A call owns the rows of the keys that it concerns and leaves the others alone. -/
theorem owned_accessKeys (decoders : Decoders) (key : PublicKey × AccountId) :
    Owned (fun w : World => w.db.accessKeys.lookup key) (keyEffect decoders key)
      (fun block => keyAction decoders key (successfulActions block.outcomes) = .idle) (AccessKeysMayBegin decoders)
      (AccessKeys.handleBlockAccessKeys decoders) where
  aside_effect block x haside := by
    obtain ⟨hentry, hdeleted⟩ := keyEntry_of_idle block.blockHeight haside
    rw [keyEffect, hentry, hdeleted]
    rfl
  leaves block haside := by
    obtain ⟨hentry, hdeleted⟩ := keyEntry_of_idle block.blockHeight haside
    refine AccessKeys.outline_of_rowWrites fun _ _ hwrites hcall => hcall.outline_guarantee fun write hwrite w => ?_
    refine (AccessKeys.lookup_run (hwrites.atHeight write hwrite) w).trans ?_
    rcases hwrites.effect write hwrite key (w.db.accessKeys.lookup key) with hsame | hswept | hentered
    · exact hsame
    · rwa [hdeleted] at hswept
    · rwa [hentry] at hentered
  performs buffered block hmay _ := by
    refine AccessKeys.outline_of_rowWrites fun _ _ hwrites hcall => ?_
    obtain ⟨hagree, hsome⟩ := hwrites.agree hmay.agrees key rfl
    exact outline_of_agreeing _ hcall (fun write hwrite w => AccessKeys.lookup_run (hwrites.atHeight write hwrite) w)
      (hwrites.guarded key) hagree hsome
  alone buffered block hmay entry hentry := hmay.apart entry hentry key

/-! ### Both tables -/

section Runs

variable {decoders : Decoders} {order blocks : List BlockOutcomes} {w late inOrder : World}
  {trace : List (StreamEvent BlockOutcomes)} {concurrency : Nat}

theorem accounts_eq_inOrder (hperm : order.Perm blocks)
    (hheights : blocks.Pairwise fun b b' => b.blockHeight < b'.blockHeight)
    (hlate : StreamRunWith AccountsMayBegin Accounts.handleBlockAccounts concurrency ⟨order, [], w⟩ trace
      ⟨[], [], late⟩) (hok : ∀ block, .handled block false ∉ trace)
    (hinOrder : InOrder Accounts.handleBlockAccounts w blocks inOrder) (accountId : AccountId) :
    (late.db.accounts.lookup accountId).map accountLifespan =
      (inOrder.db.accounts.lookup accountId).map accountLifespan := by
  have hrow : (late.db.accounts.lookup accountId).map accountLifespan = lifeAfter (·.blockHeight)
      (fun block : BlockOutcomes => accountAction accountId (successfulActions block.outcomes)) blocks
      ((w.db.accounts.lookup accountId).map accountLifespan) :=
    life_eq_sorted (·.map accountLifespan) (fun _ x => lifespan_call x) (owned_accounts accountId)
      (fun _ _ hmay later hlater hlt => hmay.overtakes later hlater hlt accountId) hperm hheights hlate hok
  rw [hrow, Accounts.row_after_blocks hinOrder accountId]
  generalize w.db.accounts.lookup accountId = x
  clear hrow hinOrder hlate hheights hperm
  induction blocks generalizing x with
  | nil => rfl
  | cons block blocks ih =>
      rw [lifeAfter_cons, ← lifespan_call x]
      exact ih _

theorem accessKeys_eq_inOrder (hperm : order.Perm blocks)
    (hheights : blocks.Pairwise fun b b' => b.blockHeight < b'.blockHeight)
    (hlate : StreamRunWith (AccessKeysMayBegin decoders) (AccessKeys.handleBlockAccessKeys decoders) concurrency
      ⟨order, [], w⟩ trace ⟨[], [], late⟩) (hok : ∀ block, .handled block false ∉ trace)
    (hinOrder : InOrderWith (fun w block _ => SweepAgrees decoders (successfulActions block.outcomes) w.db.accessKeys)
      (AccessKeys.handleBlockAccessKeys decoders) w blocks inOrder) (key : PublicKey × AccountId) :
    (late.db.accessKeys.lookup key).map keyLifespan = (inOrder.db.accessKeys.lookup key).map keyLifespan := by
  refine (life_eq_sorted (·.map keyLifespan) (fun _ x => lifespan_keyCall x) (owned_accessKeys decoders key)
    (fun _ _ hmay later hlater hlt => hmay.overtakes later hlater hlt key) hperm hheights hlate hok).trans ?_
  refine (observe_run (fun w : World => (w.db.accessKeys.lookup key).map keyLifespan)
    (fun w block _ w' hagrees hcall => ?_) hinOrder).symm
  rw [AccessKeys.row_after_agreeing_call hagrees hcall key]
  exact lifespan_keyCall _

/-- Blocks whose calls begin in another order than that of the heights, any number of them in flight at a time, leave
the rows that the height order leaves: if those in flight concern different rows, each only overtakes what it may, and
none races with itself. -/
theorem late_blocks_leave_inOrder_rows {lateKeys inOrderKeys : World} {traceKeys : List (StreamEvent BlockOutcomes)}
    (hperm : order.Perm blocks) (hheights : blocks.Pairwise fun b b' => b.blockHeight < b'.blockHeight)
    (hlate : StreamRunWith AccountsMayBegin Accounts.handleBlockAccounts concurrency ⟨order, [], w⟩ trace
      ⟨[], [], late⟩) (hok : ∀ block, .handled block false ∉ trace)
    (hinOrder : InOrder Accounts.handleBlockAccounts w blocks inOrder)
    (hlateKeys : StreamRunWith (AccessKeysMayBegin decoders) (AccessKeys.handleBlockAccessKeys decoders) concurrency
      ⟨order, [], w⟩ traceKeys ⟨[], [], lateKeys⟩) (hokKeys : ∀ block, .handled block false ∉ traceKeys)
    (hinOrderKeys : InOrderWith
      (fun w block _ => SweepAgrees decoders (successfulActions block.outcomes) w.db.accessKeys)
      (AccessKeys.handleBlockAccessKeys decoders) w blocks inOrderKeys) :
    (∀ accountId, (late.db.accounts.lookup accountId).map accountLifespan =
        (inOrder.db.accounts.lookup accountId).map accountLifespan) ∧
      ∀ key, (lateKeys.db.accessKeys.lookup key).map keyLifespan =
        (inOrderKeys.db.accessKeys.lookup key).map keyLifespan :=
  ⟨accounts_eq_inOrder hperm hheights hlate hok hinOrder,
    accessKeys_eq_inOrder hperm hheights hlateKeys hokKeys hinOrderKeys⟩

end Runs

/-! ### Two blocks about one account -/

/-- A block in which an account is created. -/
def creationOf (receiptId : CryptoHash) (accountId : AccountId) : List IndexerExecutionOutcomeWithReceipt :=
  [.plain (.ofText "b6") (.plain receiptId accountId [.createAccount]) []]

def creation : List IndexerExecutionOutcomeWithReceipt := creationOf (.ofText "r3") "bob.near"

section Creation

variable {receiptId : CryptoHash} {created accountId : AccountId} {key : PublicKey × AccountId}

theorem accountAction_creationOf (hnamed : created.len ≠ 64) :
    accountAction accountId (successfulActions (creationOf receiptId created)) =
      if created = accountId then .overwrite receiptId none else .idle := by
  by_cases haccount : created = accountId
  · subst haccount
    simp [accountAction, creationOf, successfulActions, Accounts.successfulReceipts, lastReceipt, lastStep,
      touchesAccount, IndexerExecutionOutcomeWithReceipt.plain, IndexerExecutionOutcomeWithReceipt.succeeded,
      ReceiptView.plain, ReceiptView.actions, createsAccount, hnamed]
  · simp [accountAction, creationOf, successfulActions, Accounts.successfulReceipts, lastStep, touchesAccount,
      IndexerExecutionOutcomeWithReceipt.plain, IndexerExecutionOutcomeWithReceipt.succeeded, ReceiptView.plain,
      ReceiptView.actions, createsAccount, deletesAccount, haccount]

/-- A creation may overtake whatever comes before it. -/
theorem mayOvertake_creationOf (hnamed : created.len ≠ 64) (x : Option (Lifespan CryptoHash))
    (action : LifeAction CryptoHash) :
    action.MayOvertake x (accountAction accountId (successfulActions (creationOf receiptId created))) := by
  rw [accountAction_creationOf hnamed]
  split
  · exact .overwrite _ _ _
  · exact .idle _

theorem no_key_creationOf : ∀ step ∈ successfulActions (creationOf receiptId created),
    addsKey .silent key step = false ∧ deletesKey key step = false := by
  intro step hstep
  obtain rfl := List.mem_singleton.mp hstep
  simp [addsKey, deletesKey]

theorem keyAction_creationOf :
    keyAction .silent key (successfulActions (creationOf receiptId created)) = .idle := by
  simp [keyAction, creationOf, successfulActions, Accounts.successfulReceipts, lastReceipt, lastStep,
    IndexerExecutionOutcomeWithReceipt.plain, IndexerExecutionOutcomeWithReceipt.succeeded,
    ReceiptView.plain, ReceiptView.actions, addsKey, deletesKey, deletesAccount]

theorem no_key_deletion : ∀ step ∈ successfulActions AccessKeys.deletion,
    addsKey .silent key step = false ∧ deletesKey key step = false := by
  intro step hstep
  obtain rfl := List.mem_singleton.mp hstep
  simp [addsKey, deletesKey]

end Creation

/-- Three calls, of which the second is in flight all the time. -/
theorem overlapping_calls (meets : Buffered World BlockOutcomes → BlockOutcomes → Prop)
    (handler : BlockOutcomes → Prog World Unit) (first long last : BlockOutcomes) (w : World) {w₁ w₂ w₃ : World}
    (hfirst : meets ⟨[first, long, last], [], w⟩ first)
    (hlong : meets ⟨[long, last], [(first, handler first)], w⟩ long)
    (hlast : meets ⟨[last], [(long, handler long)], w₁⟩ last) (hfirstEnds : Finishes (handler first) w () w₁)
    (hlastEnds : Finishes (handler last) w₁ () w₂) (hlongEnds : Finishes (handler long) w₂ () w₃) :
    ∃ trace, StreamRunWith meets handler 2 ⟨[first, long, last], [], w⟩ trace ⟨[], [], w₃⟩ ∧
      ∀ block, .handled block false ∉ trace := by
  have hstart : StreamRunWith meets handler 2 ⟨[first, long, last], [], w⟩ [] ⟨[first, long, last], [], w⟩ := .start
  have hbegun := (hstart.snoc (.begin Nat.two_pos) fun block hblock => by cases hblock; exact hfirst).snoc
    (.begin Nat.one_lt_two) fun block hblock => by cases hblock; exact hlong
  obtain ⟨_, hrun, hok⟩ := StreamRunWith.ready [] hbegun (by simp) hfirstEnds
  have hbegun := hrun.snoc (.begin Nat.one_lt_two) fun block hblock => by cases hblock; exact hlast
  obtain ⟨_, hrun, hok⟩ := StreamRunWith.ready [(long, handler long)] hbegun
    (fun block hmem => by simpa using (List.mem_append.mp hmem).imp_left (hok block)) hlastEnds
  exact StreamRunWith.ready [] hrun hok hlongEnds

/-- A creation may overtake an earlier deletion, while a block about another account is in flight. -/
theorem creation_may_overtake : ∃ late inOrder trace,
    StreamRunWith AccountsMayBegin Accounts.handleBlockAccounts 2
        ⟨[⟨8, creation⟩, ⟨9, creationOf (.ofText "r4") "eve.near"⟩, ⟨7, AccessKeys.deletion⟩], [],
          AccessKeys.worldWithLiveKey⟩ trace ⟨[], [], late⟩ ∧
      InOrder Accounts.handleBlockAccounts AccessKeys.worldWithLiveKey
        [⟨7, AccessKeys.deletion⟩, ⟨8, creation⟩, ⟨9, creationOf (.ofText "r4") "eve.near"⟩] inOrder ∧
      (late.db.accounts.lookup "bob.near").map accountLifespan =
        (inOrder.db.accounts.lookup "bob.near").map accountLifespan := by
  have hbob : AccountId.len "bob.near" ≠ 64 := by decide
  have heve : AccountId.len "eve.near" ≠ 64 := by decide
  have hapart : ∀ accountId, accountAction accountId (successfulActions creation) = .idle ∨
      accountAction accountId (successfulActions (creationOf (.ofText "r4") "eve.near")) = .idle := by
    intro accountId
    rw [creation, accountAction_creationOf hbob, accountAction_creationOf heve]
    grind
  have hapart' : ∀ accountId,
      accountAction accountId (successfulActions (creationOf (.ofText "r4") "eve.near")) = .idle ∨
        accountAction accountId (successfulActions AccessKeys.deletion) = .idle := by
    intro accountId
    rw [accountAction_creationOf heve]
    by_cases haccount : "eve.near" = accountId
    · subst haccount
      exact .inr (by decide)
    · exact .inl (if_neg haccount)
  obtain ⟨trace, hlate, hok⟩ := overlapping_calls AccountsMayBegin Accounts.handleBlockAccounts ⟨8, creation⟩
    ⟨9, creationOf (.ofText "r4") "eve.near"⟩ ⟨7, AccessKeys.deletion⟩ AccessKeys.worldWithLiveKey
    ⟨nofun, fun _ _ _ _ => mayOvertake_creationOf hbob _ _⟩
    ⟨fun other hother accountId => List.mem_singleton.mp hother ▸ hapart accountId,
      fun _ _ _ _ => mayOvertake_creationOf heve _ _⟩
    ⟨fun other hother accountId => List.mem_singleton.mp hother ▸ hapart' accountId, by simp⟩
    (finishes_after 1 (by decide)) (finishes_after 1 (by decide)) (finishes_after 1 (by decide))
  obtain ⟨traceKeys, hlateKeys, hokKeys⟩ := overlapping_calls (AccessKeysMayBegin .silent)
    (AccessKeys.handleBlockAccessKeys .silent) ⟨8, creation⟩ ⟨9, creationOf (.ofText "r4") "eve.near"⟩
    ⟨7, AccessKeys.deletion⟩ AccessKeys.worldWithLiveKey
    ⟨fun _ _ _ _ _ _ => .inl no_key_creationOf, nofun, fun _ _ _ _ => by
      rw [creation, keyAction_creationOf]; exact .idle _⟩
    ⟨fun _ _ _ _ _ _ => .inl no_key_creationOf, fun _ _ _ => .inr keyAction_creationOf, fun _ _ _ _ => by
      rw [keyAction_creationOf]; exact .idle _⟩
    ⟨fun _ _ _ _ _ _ => .inl no_key_deletion, fun other hother _ => List.mem_singleton.mp hother ▸
      .inl keyAction_creationOf, by simp⟩
    (finishes_after 1 (by decide)) (finishes_after 1 (by decide)) (finishes_after 1 (by decide))
  have hinOrder : InOrder Accounts.handleBlockAccounts AccessKeys.worldWithLiveKey
      [⟨7, AccessKeys.deletion⟩, ⟨8, creation⟩, ⟨9, creationOf (.ofText "r4") "eve.near"⟩] _ :=
    .cons (finishes_after 1 (by decide)) (.cons (finishes_after 1 (by decide))
      (.cons (finishes_after 1 (by decide)) .nil))
  have hinOrderKeys : InOrderWith
      (fun w (block : BlockOutcomes) _ => SweepAgrees .silent (successfulActions block.outcomes) w.db.accessKeys)
      (AccessKeys.handleBlockAccessKeys .silent) AccessKeys.worldWithLiveKey
      [⟨7, AccessKeys.deletion⟩, ⟨8, creation⟩, ⟨9, creationOf (.ofText "r4") "eve.near"⟩] _ :=
    .cons (fun _ _ _ _ _ _ => .inl no_key_deletion) (finishes_after 1 (by decide))
      (.cons (fun _ _ _ _ _ _ => .inl no_key_creationOf) (finishes_after 1 (by decide))
        (.cons (fun _ _ _ _ _ _ => .inl no_key_creationOf) (finishes_after 1 (by decide)) .nil))
  refine ⟨_, _, trace, hlate, hinOrder, ?_⟩
  exact (late_blocks_leave_inOrder_rows (by decide) (by decide) hlate hok hinOrder hlateKeys hokKeys
    hinOrderKeys).1 "bob.near"

/-- A deletion that overtakes the creation of the account is lost: both blocks are in flight, and the later one is ready
first. -/
theorem deletion_overtakes_creation : ∃ late inOrder trace,
    StreamRun Accounts.handleBlockAccounts 2
        ⟨[⟨6, creation⟩, ⟨7, AccessKeys.deletion⟩], [], { cache := .withSize 1, db := {} }⟩ trace ⟨[], [], late⟩ ∧
      (∀ block, .handled block false ∉ trace) ∧
      InOrder Accounts.handleBlockAccounts { cache := .withSize 1, db := {} }
        [⟨6, creation⟩, ⟨7, AccessKeys.deletion⟩] inOrder ∧
      (late.db.accounts.lookup "bob.near").map Accounts.lifetimeOf = some ⟨some (.ofText "r3"), none⟩ ∧
      (inOrder.db.accounts.lookup "bob.near").map Accounts.lifetimeOf =
        some ⟨some (.ofText "r3"), some (.ofText "r2")⟩ := by
  have hbegun : StreamRunWith (fun _ _ => True) Accounts.handleBlockAccounts 2
      ⟨[⟨6, creation⟩, ⟨7, AccessKeys.deletion⟩], [], { cache := .withSize 1, db := {} }⟩ _ _ :=
    (StreamRunWith.start.snoc (.begin Nat.two_pos) fun _ _ => trivial).snoc (.begin Nat.one_lt_two) fun _ _ => trivial
  obtain ⟨_, hrun, hok⟩ := StreamRunWith.ready
    [((⟨6, creation⟩ : BlockOutcomes), Accounts.handleBlockAccounts ⟨6, creation⟩)] hbegun (by simp)
    (finishes_after 1 (by decide))
  obtain ⟨trace, hlate, hok⟩ := StreamRunWith.ready [] hrun hok (finishes_after 1 (by decide))
  refine ⟨_, _, trace, hlate.streamRun, hok,
    .cons (finishes_after 1 (by decide)) (.cons (finishes_after 1 (by decide)) .nil), ?_, ?_⟩ <;> decide

end ExplorerIndexer.BlockOrder

import ExplorerIndexer.AccessKeysConfluence

/-! A deleted account has no live key. The keys it had are swept, the keys of the block's entries are marked in
the in-memory pass, and no statement that reaches a row first leaves it live; later blocks that give the
account no key keep it so. -/

namespace ExplorerIndexer.AccessKeys

open Async Store Models
open Accounts (successfulActions deletesAccount lastStep lastReceipt lastStep_of_split lastReceipt_eq_none)

/-- Gives a key to the account: an `AddKey`, or a transfer to an implicit account. -/
def givesKey (accountId : AccountId) (step : ReceiptView × ActionView) : Bool :=
  decide (step.1.receiverId = accountId) &&
    match step.2 with
    | .addKey _ _ => true
    | .transfer _ => decide (accountId.len = 64)
    | _ => false

/-- A step deletes the account and no step after it gives it a key. -/
def DeletedForGood (accountId : AccountId) (steps : List (ReceiptView × ActionView)) : Prop :=
  ∃ before step after, steps = before ++ step :: after ∧ deletesAccount accountId step = true ∧
    ∀ later ∈ after, givesKey accountId later = false

/-- A row that is absent or marked as deleted. -/
def NotLive (x : Option AccessKey) : Prop := ∀ row, x = some row → row.deletedByReceiptId ≠ none

def NoLiveKey (accountId : AccountId) (w : World) : Prop :=
  ∀ publicKey, NotLive (w.db.accessKeys.lookup (publicKey, accountId))

/-- The access keys handler, block after block. -/
def handleBlockAccessKeys (decoders : Decoders) (block : BlockOutcomes) : Prog World Unit :=
  handleAccessKeys decoders block.outcomes block.blockHeight

/-! ### The entries of the account -/

section Entries

variable {decoders : Decoders} {key : PublicKey × AccountId} {blockHeight : Nat}
  {steps : List (ReceiptView × ActionView)} {step : ReceiptView × ActionView} {e : AccessKey}

theorem givesKey_of_addsKey (h : addsKey decoders key step = true) : givesKey key.2 step = true := by
  obtain ⟨receipt, action⟩ := step
  unfold addsKey at h
  unfold givesKey
  cases action <;> simp_all

theorem not_addsKey (h : givesKey key.2 step = false) : addsKey decoders key step = false := by
  cases hadds : addsKey decoders key step with
  | false => rfl
  | true => rw [givesKey_of_addsKey hadds] at h; cases h

theorem not_givesKey_of_deletesAccount {accountId : AccountId} (h : deletesAccount accountId step = true) :
    givesKey accountId step = false := by
  obtain ⟨receipt, action⟩ := step
  unfold deletesAccount at h
  unfold givesKey
  cases action <;> simp_all

theorem entry_of_deletedForGood (hdeleted : DeletedForGood key.2 steps)
    (hentry : entryOf decoders key blockHeight steps = some e) : e.deletedByReceiptId ≠ none := by
  obtain ⟨before, step, after, rfl, hdeletes, hafter⟩ := hdeleted
  have htouches : touchesKey decoders key step = true := by simp [touchesKey, hdeletes]
  obtain ⟨last, hmem, hlast⟩ := lastStep_of_split before after htouches
  have hnotAdded : addsKey decoders key last = false := by
    rcases List.mem_cons.mp hmem with rfl | hmem
    · exact not_addsKey (not_givesKey_of_deletesAccount hdeletes)
    · exact not_addsKey (hafter last hmem)
  rw [entryOf_deleted hentry, hlast, Option.bind_some, hnotAdded]
  exact Option.some_ne_none _

theorem entry_of_no_key (hnone : ∀ step ∈ steps, givesKey key.2 step = false)
    (hentry : entryOf decoders key blockHeight steps = some e) : e.deletedByReceiptId ≠ none := by
  refine (wellFormed_entryOf hentry).touched ?_
  rw [entryOf_created hentry]
  exact lastReceipt_eq_none.mpr fun step hstep => not_addsKey (hnone step hstep)

theorem lastReceipt_of_deletedForGood {accountId : AccountId} (hdeleted : DeletedForGood accountId steps) :
    ∃ receiptId, lastReceipt (deletesAccount accountId) steps = some receiptId := by
  obtain ⟨before, step, after, rfl, hdeletes, _⟩ := hdeleted
  obtain ⟨last, _, hlast⟩ := lastStep_of_split before after hdeletes
  exact ⟨last.1.receiptId, by rw [lastReceipt, hlast]; rfl⟩

end Entries

/-! ### The rows of the account -/

theorem sweepEffect_notLive (blockHeight : Nat) (deletedByReceiptId : Option CryptoHash) (x : Option AccessKey) :
    sweepEffect blockHeight deletedByReceiptId x = x ∨
      NotLive (sweepEffect blockHeight deletedByReceiptId x) := by
  cases deletedByReceiptId with
  | none => exact .inl rfl
  | some receiptId =>
      cases x with
      | none => exact .inl rfl
      | some row =>
          simp only [sweepEffect, Option.map_some]
          split
          · refine .inr fun row' hrow => ?_
            obtain rfl := Option.some.inj hrow
            exact Option.some_ne_none _
          · exact .inl rfl

theorem entryEffect_notLive (blockHeight : Nat) {entry : Option AccessKey}
    (hentry : ∀ e, entry = some e → e.deletedByReceiptId ≠ none) (x : Option AccessKey) :
    entryEffect blockHeight entry x = x ∨ NotLive (entryEffect blockHeight entry x) := by
  cases entry with
  | none => exact .inl rfl
  | some e =>
      have hdeleted := hentry e rfl
      have hsome : ∀ row : AccessKey, row.deletedByReceiptId = e.deletedByReceiptId → NotLive (some row) := by
        intro row hrow row' hrow'
        obtain rfl := Option.some.inj hrow'
        rwa [hrow]
      cases hcreated : e.createdByReceiptId with
      | none =>
          cases x with
          | none => simp [entryEffect, hcreated]
          | some row =>
              simp only [entryEffect, hcreated, Option.map_some]
              split
              · exact .inr (hsome _ rfl)
              · exact .inl rfl
      | some created =>
          cases x with
          | none =>
              simp only [entryEffect, hcreated]
              exact .inr (hsome e rfl)
          | some row =>
              simp only [entryEffect, hcreated]
              split
              · exact .inr (hsome _ rfl)
              · exact .inl rfl

section Call

variable {decoders : Decoders} {block : BlockOutcomes} {accountId : AccountId} {w w' : World}

/-- If all entries of an account are deleted, a row of the account is left alone or not live. -/
theorem row_after_part {p : Prog World Unit} {events : List Event}
    (h : Steps (handleBlockAccessKeys decoders block) w events p w')
    (hentries : ∀ publicKey e, entryOf decoders (publicKey, accountId) block.blockHeight
      (successfulActions block.outcomes) = some e → e.deletedByReceiptId ≠ none) (publicKey : PublicKey) :
    w'.db.accessKeys.lookup (publicKey, accountId) = w.db.accessKeys.lookup (publicKey, accountId) ∨
      NotLive (w'.db.accessKeys.lookup (publicKey, accountId)) := by
  obtain ⟨done, hdone, rfl⟩ := rowWrites_of_steps h
  rw [hdone.lookup]
  rcases applyAll_first (hdone.guarded (publicKey, accountId)) (w.db.accessKeys.lookup (publicKey, accountId)) with
    hsame | ⟨write, hwrite, hne, heq⟩
  · exact .inl hsame
  · rw [heq]
    refine .inr ?_
    rcases (hdone.effect write hwrite _ _).resolve_left hne with heffect | heffect
    · rw [heffect] at hne ⊢
      exact (sweepEffect_notLive _ _ _).resolve_left hne
    · rw [heffect] at hne ⊢
      exact (entryEffect_notLive _ (hentries publicKey) _).resolve_left hne

/-- A block that gives an account no key leaves it without one, also when it is interrupted. -/
theorem noLiveKey_part {p : Prog World Unit} {events : List Event}
    (h : Steps (handleBlockAccessKeys decoders block) w events p w')
    (hnone : ∀ step ∈ successfulActions block.outcomes, givesKey accountId step = false)
    (hw : NoLiveKey accountId w) : NoLiveKey accountId w' := by
  intro publicKey
  rcases row_after_part h (fun _ _ hentry => entry_of_no_key hnone hentry) publicKey with hsame | hnot
  · rw [hsame]
    exact hw publicKey
  · exact hnot

/-- The block that deletes an account leaves it without a live key. -/
theorem noLiveKey_of_deletedForGood (h : Finishes (handleBlockAccessKeys decoders block) w () w')
    (hold : ∀ row ∈ w.db.accessKeys.rows, row.lastUpdateBlockHeight < block.blockHeight)
    (hdeleted : DeletedForGood accountId (successfulActions block.outcomes)) : NoLiveKey accountId w' := by
  intro publicKey
  obtain ⟨events, hsteps⟩ := h
  rcases row_after_part hsteps (fun _ _ hentry => entry_of_deletedForGood hdeleted hentry) publicKey with
    hsame | hnot
  · intro row hrow hlive
    -- the sweep acts on a live row, so the row cannot have stayed as it was
    obtain ⟨receiptId, hlast⟩ := lastReceipt_of_deletedForGood hdeleted
    rw [hsame] at hrow
    have hrowOld := hold row (Table.mem_rows_iff_lookup.mpr ⟨_, hrow⟩)
    obtain ⟨done, hdone, rfl⟩ := allRowWrites_of_finishes ⟨events, hsteps⟩
    rw [hdone.lookup, hrow] at hsame
    have hacts : sweepEffect block.blockHeight (lastReceipt (deletesAccount accountId)
        (successfulActions block.outcomes)) (some row) ≠ some row := by
      rw [hlast, sweepEffect_live hlive hrowOld]
      intro heq
      have hdeletedBy := congrArg AccessKey.deletedByReceiptId (Option.some.inj heq)
      rw [hlive] at hdeletedBy
      cases hdeletedBy
    rcases hdone.sweeps (publicKey, accountId) (some row) with hidle | ⟨write, hwrite, heffect⟩
    · exact hacts hidle.symm
    · obtain ⟨write', _, hne, heq⟩ := applyAll_effective (hdone.guarded _) hwrite (heffect ▸ hacts)
      exact hne (heq.symm.trans hsame)
  · exact hnot

/-- After a call every row is at the height of the block or as it was. -/
theorem height_after_call {h : Nat} (hrun : Finishes (handleBlockAccessKeys decoders block) w () w')
    (hblock : block.blockHeight < h) (hold : ∀ row ∈ w.db.accessKeys.rows, row.lastUpdateBlockHeight < h) :
    ∀ row ∈ w'.db.accessKeys.rows, row.lastUpdateBlockHeight < h := by
  intro row hrow
  obtain ⟨key, hlookup⟩ := Table.mem_rows_iff_lookup.mp hrow
  obtain ⟨done, hdone, rfl⟩ := allRowWrites_of_finishes hrun
  rw [hdone.lookup] at hlookup
  rcases applyAll_first (hdone.guarded key) (w.db.accessKeys.lookup key) with hsame | ⟨write, hwrite, hne, heq⟩
  · exact hold row (Table.mem_rows_iff_lookup.mpr ⟨key, hsame ▸ hlookup⟩)
  · obtain ⟨r, hr, hversion⟩ := ((hdone.guarded key write hwrite).stamped _).resolve_left hne
    obtain rfl : r = row := Option.some.inj (hr.symm.trans (heq.symm.trans hlookup))
    exact hversion ▸ hblock

end Call

/-! ### Runs over blocks -/

section Blocks

variable {decoders : Decoders} {blocks earlier later : List BlockOutcomes} {block : BlockOutcomes}
  {accountId : AccountId} {w w' : World}

theorem height_after_blocks {h : Nat} (hrun : InOrder (handleBlockAccessKeys decoders) w blocks w')
    (hblocks : ∀ block ∈ blocks, block.blockHeight < h)
    (hold : ∀ row ∈ w.db.accessKeys.rows, row.lastUpdateBlockHeight < h) :
    ∀ row ∈ w'.db.accessKeys.rows, row.lastUpdateBlockHeight < h := by
  induction hrun with
  | nil => exact hold
  | cons hblock _ ih =>
      exact ih (fun block' hblock' => hblocks block' (List.mem_cons_of_mem _ hblock'))
        (height_after_call hblock (hblocks _ List.mem_cons_self) hold)

theorem noLiveKey_blocks (hrun : InOrder (handleBlockAccessKeys decoders) w blocks w')
    (hnone : ∀ block ∈ blocks, ∀ step ∈ successfulActions block.outcomes, givesKey accountId step = false)
    (hw : NoLiveKey accountId w) : NoLiveKey accountId w' := by
  induction hrun with
  | nil => exact hw
  | cons hblock _ ih =>
      obtain ⟨events, hsteps⟩ := hblock
      exact ih (fun block' hblock' => hnone block' (List.mem_cons_of_mem _ hblock'))
        (noLiveKey_part hsteps (hnone _ List.mem_cons_self) hw)

/-- From the block that deletes an account on, the account has no live key, until a block gives it one; this
also holds while the next such block is being handled. -/
theorem deleted_account_has_no_live_key {next : BlockOutcomes} {p : Prog World Unit} {events : List Event}
    {v : World}
    (hheights : (earlier ++ block :: later).Pairwise fun b b' => b.blockHeight < b'.blockHeight)
    (hold : ∀ b ∈ earlier ++ block :: later, ∀ row ∈ w.db.accessKeys.rows,
      row.lastUpdateBlockHeight < b.blockHeight)
    (hdeleted : DeletedForGood accountId (successfulActions block.outcomes))
    (hlater : ∀ b ∈ later, ∀ step ∈ successfulActions b.outcomes, givesKey accountId step = false)
    (hnext : ∀ step ∈ successfulActions next.outcomes, givesKey accountId step = false)
    (hrun : InOrder (handleBlockAccessKeys decoders) w (earlier ++ block :: later) w')
    (hpart : Steps (handleBlockAccessKeys decoders next) w' events p v) :
    NoLiveKey accountId w' ∧ NoLiveKey accountId v := by
  obtain ⟨w₁, hearlier, hrun⟩ := hrun.of_append
  have hbefore : ∀ b ∈ earlier, b.blockHeight < block.blockHeight := fun b hb =>
    (List.pairwise_append.mp hheights).2.2 b hb block List.mem_cons_self
  have hold₁ : ∀ row ∈ w₁.db.accessKeys.rows, row.lastUpdateBlockHeight < block.blockHeight :=
    height_after_blocks hearlier hbefore (hold block (List.mem_append_right _ List.mem_cons_self))
  cases hrun with
  | cons hblock hrun =>
      have hw' : NoLiveKey accountId w' :=
        noLiveKey_blocks hrun hlater (noLiveKey_of_deletedForGood hblock hold₁ hdeleted)
      exact ⟨hw', noLiveKey_part hpart hnext hw'⟩

end Blocks

theorem deleted_account_has_no_live_key_swept : ∃ w',
    InOrder (handleBlockAccessKeys .silent) worldWithLiveKey [⟨7, deletion⟩] w' ∧ NoLiveKey "bob.near" w' := by
  have hrun : InOrder (handleBlockAccessKeys .silent) worldWithLiveKey ([] ++ ⟨7, deletion⟩ :: []) _ :=
    .cons (finishes_after 1 (by decide)) .nil
  refine ⟨_, hrun, (deleted_account_has_no_live_key (by decide) (by decide) ?_ (by decide) (by decide)
    hrun (@Steps.refl World Unit (handleBlockAccessKeys .silent ⟨8, deletion⟩) _)).1⟩
  exact ⟨[], _, [], rfl, by decide, by decide⟩

end ExplorerIndexer.AccessKeys

import ExplorerIndexer.AccessKeysTransfers
import Mathlib.Data.List.Find

/-! The lives of access keys: which receipt created a key last, and which one removed it while it was live. The steps
of a chain take lives further one by one; the in-memory pass of a block does the same, except that the deletion of an
account overwrites the deletions of its keys. -/

namespace ExplorerIndexer.AccessKeys

open Async Store Models
open Accounts (deletesAccount lastStep lastReceipt mem_of_lastReceipt lastStep_eq_none)
open BlockOrder (createsAccount)

/-! ### Lives -/

/-- The receipts a row names. -/
structure KeyLife where
  createdBy : Option CryptoHash
  deletedBy : Option CryptoHash
  deriving DecidableEq

/-- A live key is removed; one that is not live stays as it is. -/
def KeyLife.remove (receiptId : CryptoHash) (life : KeyLife) : KeyLife :=
  { life with deletedBy := life.deletedBy.or (some receiptId) }

def lifeOf (row : AccessKey) : KeyLife := ⟨row.createdByReceiptId, row.deletedByReceiptId⟩

def removesKey (key : PublicKey × AccountId) (step : ReceiptView × ActionView) : Bool :=
  deletesKey key step || deletesAccount key.2 step

/-- A `DeleteKey` that succeeds removes the key, whatever the row says; the deletion of the account removes it if it is
still there. -/
def keyLifeStep (decoders : Decoders) (key : PublicKey × AccountId) (life : Option KeyLife)
    (step : ReceiptView × ActionView) : Option KeyLife :=
  if addsKey decoders key step then some ⟨some step.1.receiptId, none⟩
  else if deletesKey key step then life.map fun l => { l with deletedBy := some step.1.receiptId }
  else if deletesAccount key.2 step then life.map (·.remove step.1.receiptId)
  else life

/-- The life of a key after some steps of the chain. -/
def keyLifeAfter (decoders : Decoders) (key : PublicKey × AccountId) (steps : List (ReceiptView × ActionView))
    (life : Option KeyLife) : Option KeyLife :=
  steps.foldl (keyLifeStep decoders key) life

/-! ### Steps that succeed -/

def liveAfterStep (decoders : Decoders) (key : PublicKey × AccountId) (live : Bool) (step : ReceiptView × ActionView) :
    Bool :=
  if addsKey decoders key step then true
  else if removesKey key step then false
  else live

/-- Whether the key is live on the chain after some steps. -/
def liveAfter (decoders : Decoders) (key : PublicKey × AccountId) (steps : List (ReceiptView × ActionView))
    (live : Bool) : Bool :=
  steps.foldl (liveAfterStep decoders key) live

/-- The step succeeds on a chain with these accounts and live keys. -/
def Possible (existed : AccountId → Bool) (live : PublicKey × AccountId → Bool) (step : ReceiptView × ActionView) :
    Prop :=
  match step.2 with
  | .createAccount => existed step.1.receiverId = false
  | .addKey publicKey _ => existed step.1.receiverId = true ∧ live (publicKey, step.1.receiverId) = false
  | .deleteKey publicKey => existed step.1.receiverId = true ∧ live (publicKey, step.1.receiverId) = true
  | .deleteAccount _ => existed step.1.receiverId = true
  | _ => True

/-- Steps of a chain on accounts whose ids are not 64 characters long, each of which succeeds after those before it,
and none of which creates an account that was deleted. -/
structure Succeeds (decoders : Decoders) (existed : AccountId → Bool) (live : PublicKey × AccountId → Bool)
    (steps : List (ReceiptView × ActionView)) : Prop where
  receivers : ∀ step ∈ steps, step.1.receiverId.len ≠ 64
  possible : ∀ before step after, steps = before ++ step :: after →
    Possible (fun accountId => existsAfter accountId before (existed accountId))
      (fun key => liveAfter decoders key before (live key)) step
  neverRecreated : steps.Pairwise fun step later => ∀ accountId, deletesAccount accountId step = true →
    createsAccount accountId later = false

section Steps

variable {decoders : Decoders} {existed : AccountId → Bool} {live : PublicKey × AccountId → Bool}
  {key : PublicKey × AccountId} {steps before after : List (ReceiptView × ActionView)}
  {step : ReceiptView × ActionView} {life : Option KeyLife} {alive : Bool}

theorem keyLifeAfter_append (decoders : Decoders) (key : PublicKey × AccountId)
    (before after : List (ReceiptView × ActionView)) (life : Option KeyLife) :
    keyLifeAfter decoders key (before ++ after) life =
      keyLifeAfter decoders key after (keyLifeAfter decoders key before life) := List.foldl_append

theorem liveAfter_append (decoders : Decoders) (key : PublicKey × AccountId)
    (before after : List (ReceiptView × ActionView)) (alive : Bool) :
    liveAfter decoders key (before ++ after) alive =
      liveAfter decoders key after (liveAfter decoders key before alive) := List.foldl_append

theorem keyLifeAfter_idle (h : ∀ step ∈ steps, touchesKey decoders key step = false) (life : Option KeyLife) :
    keyLifeAfter decoders key steps life = life := by
  induction steps with
  | nil => rfl
  | cons step steps ih =>
      have hidle := h step List.mem_cons_self
      simp only [touchesKey, Bool.or_eq_false_iff] at hidle
      have hstep : keyLifeStep decoders key life step = life := by simp [keyLifeStep, hidle]
      rw [keyLifeAfter, List.foldl_cons, hstep]
      exact ih fun step hmem => h step (List.mem_cons_of_mem _ hmem)

theorem not_addsKey_of_removesKey (h : removesKey key step = true) : addsKey decoders key step = false := by
  obtain ⟨receipt, action⟩ := step
  unfold removesKey deletesKey deletesAccount at h
  unfold addsKey
  cases action <;> simp_all

/-- A key is live on the chain exactly when its life has no end. -/
theorem live_iff_keyLifeAfter (steps : List (ReceiptView × ActionView))
    (h : ∀ l, life = some l → (l.deletedBy = none ↔ alive = true)) :
    ∀ l, keyLifeAfter decoders key steps life = some l →
      (l.deletedBy = none ↔ liveAfter decoders key steps alive = true) := by
  induction steps generalizing life alive with
  | nil => exact h
  | cons step steps ih =>
      refine ih fun l hl => ?_
      unfold keyLifeStep at hl
      unfold liveAfterStep removesKey
      by_cases hadds : addsKey decoders key step = true
      · rw [if_pos hadds] at hl ⊢
        cases hl
        simp
      rw [if_neg hadds] at hl ⊢
      by_cases hdeletes : deletesKey key step = true
      · rw [if_pos hdeletes] at hl
        obtain ⟨before, _, rfl⟩ := Option.map_eq_some_iff.mp hl
        simp [hdeletes]
      rw [if_neg hdeletes] at hl
      by_cases haccount : deletesAccount key.2 step = true
      · rw [if_pos haccount] at hl
        obtain ⟨before, _, rfl⟩ := Option.map_eq_some_iff.mp hl
        simp [haccount, KeyLife.remove]
      · rw [if_neg haccount] at hl
        simpa [hdeletes, haccount] using h l hl

/-- What an earlier part of the steps leaves is where the rest goes on. -/
theorem Succeeds.of_append (h : Succeeds decoders existed live (before ++ after)) :
    Succeeds decoders existed live before ∧
      Succeeds decoders (fun accountId => existsAfter accountId before (existed accountId))
        (fun key => liveAfter decoders key before (live key)) after := by
  obtain ⟨hbefore, hafter, _⟩ := List.pairwise_append.mp h.neverRecreated
  refine ⟨⟨fun step hmem => h.receivers step (List.mem_append_left _ hmem), ?_, hbefore⟩,
    ⟨fun step hmem => h.receivers step (List.mem_append_right _ hmem), ?_, hafter⟩⟩
  · intro first step rest heq
    exact h.possible first step (rest ++ after) (by rw [heq, List.append_assoc, List.cons_append])
  · intro first step rest heq
    have hpossible := h.possible (before ++ first) step rest (by rw [heq, List.append_assoc])
    simpa only [existsAfter_append, liveAfter_append] using hpossible

/-- An account that is not created does not come into existence. -/
theorem not_existsAfter {accountId : AccountId} (h : ∀ step ∈ steps, createsAccount accountId step = false) :
    existsAfter accountId steps false = false := by
  induction steps with
  | nil => rfl
  | cons step steps ih =>
      have hstep : existsAfterStep accountId false step = false := by
        rw [existsAfterStep, h step List.mem_cons_self]
        simp
      rw [existsAfter, List.foldl_cons, hstep]
      exact ih fun step hmem => h step (List.mem_cons_of_mem _ hmem)

/-- A step that touches a key needs its account. -/
theorem existed_of_touchesKey (hpossible : Possible existed live step) (hreceiver : step.1.receiverId.len ≠ 64)
    (htouches : touchesKey decoders key step = true) : existed key.2 = true := by
  obtain ⟨receipt, action⟩ := step
  unfold touchesKey addsKey deletesKey deletesAccount at htouches
  cases action <;> simp_all [Possible]

/-- After the deletion of its account nothing touches a key any more. -/
theorem Succeeds.untouched (h : Succeeds decoders existed live (before ++ step :: after))
    (hdeletes : deletesAccount key.2 step = true) : ∀ later ∈ after, touchesKey decoders key later = false := by
  intro later hlater
  by_contra htouches
  obtain ⟨middle, rest, rfl⟩ := List.append_of_mem hlater
  have hcreates : createsAccount key.2 step = false := by
    obtain ⟨receipt, action⟩ := step
    unfold deletesAccount at hdeletes
    cases action <;> simp_all [createsAccount]
  have hnever := (List.pairwise_cons.mp (List.pairwise_append.mp h.neverRecreated).2.1).1
  have hgone : existsAfter key.2 (before ++ step :: middle) (existed key.2) = false := by
    rw [existsAfter_append, existsAfter, List.foldl_cons, existsAfterStep, hcreates, hdeletes]
    exact not_existsAfter fun other hother => hnever other (List.mem_append_left _ hother) key.2 hdeletes
  have hpossible := h.possible (before ++ step :: middle) later rest (by simp)
  have hreceiver := h.receivers later (by simp)
  exact absurd (existed_of_touchesKey hpossible hreceiver (by simpa using htouches)) (by simp [hgone])

/-- On a table that knows which keys are live, every removal is that of a live key, or changes nothing. -/
theorem Succeeds.removes_live (h : Succeeds decoders existed live (before ++ step :: after))
    (hconsistent : ∀ l, life = some l → (l.deletedBy = none ↔ live key = true))
    (hremoves : removesKey key step = true) :
    keyLifeStep decoders key (keyLifeAfter decoders key before life) step =
      (keyLifeAfter decoders key before life).map (·.remove step.1.receiptId) := by
  have hnotAdded : addsKey decoders key step = false := not_addsKey_of_removesKey hremoves
  rw [keyLifeStep, hnotAdded, if_neg Bool.false_ne_true]
  by_cases hdeletes : deletesKey key step = true
  · rw [if_pos hdeletes]
    refine Option.map_congr fun l hl => ?_
    have hpossible := h.possible before step after rfl
    have hlive : l.deletedBy = none := by
      refine (live_iff_keyLifeAfter before hconsistent l hl).mpr ?_
      obtain ⟨receipt, action⟩ := step
      unfold deletesKey at hdeletes
      cases action <;> simp_all [Possible]
    rw [KeyLife.remove, hlive, Option.none_or]
  · rw [if_neg hdeletes, if_pos]
    simpa [removesKey, hdeletes] using hremoves

end Steps

/-! ### The in-memory pass -/

/-- What an entry makes of a life: it replaces it if it has a creation, and else its end. -/
def enterLife (entry : Option AccessKey) (life : Option KeyLife) : Option KeyLife :=
  match entry with
  | none => life
  | some e =>
      match e.createdByReceiptId with
      | some creator => some ⟨some creator, e.deletedByReceiptId⟩
      | none => life.map fun l => { l with deletedBy := e.deletedByReceiptId }

def changesKey (decoders : Decoders) (key : PublicKey × AccountId) (step : ReceiptView × ActionView) : Bool :=
  addsKey decoders key step || deletesKey key step

section Pass

variable {decoders : Decoders} {existed : AccountId → Bool} {live : PublicKey × AccountId → Bool}
  {key : PublicKey × AccountId} {steps before after : List (ReceiptView × ActionView)}
  {step : ReceiptView × ActionView} {life : Option KeyLife} {blockHeight : Nat} {entry : AccessKey}

/-- A key has an entry if some step changes it. -/
theorem entryOf_eq_none_iff (blockHeight : Nat) : entryOf decoders key blockHeight steps = none ↔
    lastStep (changesKey decoders key) steps = none := by
  simp only [entryOf_eq_none, lastStep_eq_none, changesKey, Bool.or_eq_false_iff]

/-- Deleting a key marks its entry. -/
theorem enterLife_delete {entry : Option AccessKey} {receiptId : CryptoHash} {created : AccessKey}
    (hcreated : created.createdByReceiptId = none) (hdeleted : created.deletedByReceiptId = some receiptId) :
    ((enterLife entry life).map fun l => { l with deletedBy := some receiptId }) =
      enterLife (some ((entry.map fun e => { e with deletedByReceiptId := some receiptId }).getD created)) life := by
  cases entry with
  | none => simp only [Option.map_none, Option.getD_none, enterLife, hcreated, hdeleted]
  | some e =>
      simp only [Option.map_some, Option.getD_some, enterLife]
      cases e.createdByReceiptId with
      | some creator => rfl
      | none => cases life <;> rfl

/-- As long as the account is not deleted, the pass takes the life further as the steps do. -/
theorem keyLifeAfter_eq (hkept : ∀ step ∈ steps, deletesAccount key.2 step = false) (blockHeight : Nat) :
    keyLifeAfter decoders key steps life = enterLife (entryOf decoders key blockHeight steps) life := by
  induction steps using List.reverseRecOn with
  | nil => rfl
  | append_singleton steps step ih =>
      have hprev := ih fun step hmem => hkept step (List.mem_append_left _ hmem)
      have hstep := hkept step (List.mem_append_right _ List.mem_cons_self)
      rw [keyLifeAfter_append, entryOf_append]
      show keyLifeStep decoders key (keyLifeAfter decoders key steps life) step = _
      unfold keyLifeStep
      rcases entryAction_cases decoders key blockHeight (entryOf decoders key blockHeight steps) step with
        ⟨hadds, _, view, heq⟩ | ⟨hadds, hdeletes, heq⟩ | ⟨_, _, hdeletes, _⟩ | ⟨htouches, heq⟩
      · rw [heq, if_pos hadds]
        rfl
      · rw [heq, hadds, hdeletes, hprev]
        exact enterLife_delete rfl rfl
      · rw [hstep] at hdeletes
        cases hdeletes
      · simp only [touchesKey, Bool.or_eq_false_iff] at htouches
        rw [heq, htouches.1.1, htouches.1.2, htouches.2]
        exact hprev

end Pass

/-! ### The deletion of the account -/

/-- Steps in which the receipt deletes the account of the key: nothing before deletes it, and nothing after touches the
key. -/
structure DeletedBetween (decoders : Decoders) (key : PublicKey × AccountId) (receiptId : CryptoHash)
    (before : List (ReceiptView × ActionView)) (step : ReceiptView × ActionView)
    (after : List (ReceiptView × ActionView)) : Prop where
  deletes : deletesAccount key.2 step = true
  receipt : step.1.receiptId = receiptId
  kept : ∀ earlier ∈ before, deletesAccount key.2 earlier = false
  untouched : ∀ later ∈ after, touchesKey decoders key later = false

section Deletion

variable {decoders : Decoders} {existed : AccountId → Bool} {live : PublicKey × AccountId → Bool}
  {key : PublicKey × AccountId} {steps before after : List (ReceiptView × ActionView)}
  {step : ReceiptView × ActionView} {life : Option KeyLife} {blockHeight : Nat} {receiptId : CryptoHash}

theorem Succeeds.deletedBetween (h : Succeeds decoders existed live steps)
    (hlast : lastReceipt (deletesAccount key.2) steps = some receiptId) :
    ∃ before step after, steps = before ++ step :: after ∧
      DeletedBetween decoders key receiptId before step after := by
  obtain ⟨step, hmem, hdeletes, hreceipt⟩ := mem_of_lastReceipt hlast
  obtain ⟨before, after, rfl⟩ := List.append_of_mem hmem
  refine ⟨before, step, after, rfl, hdeletes, hreceipt, fun earlier hmem => ?_, h.untouched hdeletes⟩
  by_contra hearlier
  obtain ⟨first, rest, rfl⟩ := List.append_of_mem hmem
  rw [List.append_assoc, List.cons_append] at h
  have huntouched := h.untouched (by simpa using hearlier) step (by simp)
  simp [touchesKey, hdeletes] at huntouched

theorem not_changesKey_of_deletesAccount (h : deletesAccount key.2 step = true) :
    changesKey decoders key step = false := by
  obtain ⟨receipt, action⟩ := step
  unfold deletesAccount at h
  unfold changesKey addsKey deletesKey
  cases action <;> simp_all

theorem lastStep_append_of_none {p : ReceiptView × ActionView → Bool} (h : ∀ step ∈ after, p step = false) :
    lastStep p (before ++ after) = lastStep p before := by
  have hnone : after.reverse.find? p = none := lastStep_eq_none.mpr h
  rw [lastStep, List.reverse_append, List.find?_append, hnone, Option.none_or, lastStep]

/-- Only the deletion itself comes after the last change of the key. -/
theorem DeletedBetween.lastStep_eq (h : DeletedBetween decoders key receiptId before step after)
    {p : ReceiptView × ActionView → Bool} (hp : ∀ step, p step = true → changesKey decoders key step = true) :
    lastStep p (before ++ step :: after) = lastStep p before := by
  refine lastStep_append_of_none fun later hmem => ?_
  by_contra hchanges
  have hchanges' := hp later (by simpa using hchanges)
  rcases List.mem_cons.mp hmem with rfl | hmem
  · rw [not_changesKey_of_deletesAccount h.deletes] at hchanges'
    cases hchanges'
  · have huntouched := h.untouched later hmem
    simp only [touchesKey, Bool.or_eq_false_iff] at huntouched
    simp [changesKey, huntouched] at hchanges'

theorem DeletedBetween.lastTouch_eq (h : DeletedBetween decoders key receiptId before step after) :
    lastStep (touchesKey decoders key) before = lastStep (changesKey decoders key) (before ++ step :: after) := by
  rw [h.lastStep_eq fun _ => id, lastStep, lastStep]
  refine List.find?_congr fun earlier hmem => ?_
  rw [touchesKey, h.kept earlier (List.mem_reverse.mp hmem), Bool.or_false, changesKey]

theorem entryOf_append_of_untouched (before : List (ReceiptView × ActionView))
    (h : ∀ step ∈ after, touchesKey decoders key step = false) :
    entryOf decoders key blockHeight (before ++ after) = entryOf decoders key blockHeight before := by
  induction after using List.reverseRecOn with
  | nil => rw [List.append_nil]
  | append_singleton after step ih =>
      have huntouched := h step (List.mem_append_right _ List.mem_cons_self)
      rw [← List.append_assoc, entryOf_append, ih fun step hmem => h step (List.mem_append_left _ hmem)]
      rcases entryAction_cases decoders key blockHeight (entryOf decoders key blockHeight before) step with
        ⟨hadds, _, _⟩ | ⟨_, hdeletes, _⟩ | ⟨_, _, hdeletes, _⟩ | ⟨_, heq⟩
      · simp [touchesKey, hadds] at huntouched
      · simp [touchesKey, hdeletes] at huntouched
      · simp [touchesKey, hdeletes] at huntouched
      · exact heq

/-- In memory the deletion overwrites the end of the entry. -/
theorem DeletedBetween.entryOf_eq (h : DeletedBetween decoders key receiptId before step after) (blockHeight : Nat) :
    entryOf decoders key blockHeight (before ++ step :: after) =
      (entryOf decoders key blockHeight before).map fun e => { e with deletedByReceiptId := some receiptId } := by
  rw [List.append_cons, entryOf_append_of_untouched _ h.untouched, entryOf_append, ← h.receipt]
  have hreceiver : step.1.receiverId = key.2 ∧ ∃ beneficiaryId, step.2 = .deleteAccount beneficiaryId := by
    obtain ⟨receipt, action⟩ := step
    have hdeletes := h.deletes
    unfold deletesAccount at hdeletes
    cases action <;> simp_all
  obtain ⟨hreceiver, beneficiaryId, haction⟩ := hreceiver
  simp only [entryAction, hreceiver, haction, if_true]

/-- On the chain the deletion ends the life of the key if it is live. -/
theorem DeletedBetween.keyLifeAfter_eq (h : DeletedBetween decoders key receiptId before step after)
    (blockHeight : Nat) (life : Option KeyLife) :
    keyLifeAfter decoders key (before ++ step :: after) life =
      (enterLife (entryOf decoders key blockHeight before) life).map (·.remove receiptId) := by
  obtain ⟨hnotAdded, hnotDeleted⟩ := Bool.or_eq_false_iff.mp (not_changesKey_of_deletesAccount h.deletes)
  rw [List.append_cons, keyLifeAfter_append, keyLifeAfter_idle h.untouched, keyLifeAfter_append,
    AccessKeys.keyLifeAfter_eq h.kept blockHeight]
  show keyLifeStep decoders key _ step = _
  rw [keyLifeStep, hnotAdded, hnotDeleted, h.deletes, h.receipt]
  rfl

end Deletion

end ExplorerIndexer.AccessKeys

import ExplorerIndexer.AccessKeysConfluence
import Mathlib.Data.List.Find
import Mathlib.Data.List.TakeWhile

/-! The two maps after the loop over a block's actions, for accounts whose ids do not have 64 characters. Each entry
is told by the actions that name its key and by the deletions of its account, in whichever order they come. -/

namespace ExplorerIndexer.AccessKeys

open Async Store Models
open Accounts (successfulReceipts successfulActions deletesAccount lastStep lastReceipt lastStep_eq_none
  mem_of_lastStep)

/-! ### The actions on a key -/

/-- An `AddKey` of the key on its account. -/
def isAddKey (key : PublicKey × AccountId) (step : ReceiptView × ActionView) : Bool :=
  decide (step.1.receiverId = key.2) &&
    match step.2 with
    | .addKey publicKey _ => decide (publicKey = key.1)
    | _ => false

/-- An `AddKey` or a `DeleteKey` of the key on its account. -/
def namesKey (key : PublicKey × AccountId) (step : ReceiptView × ActionView) : Bool :=
  isAddKey key step || deletesKey key step

/-- An action that names the key, or a `DeleteAccount` of its account. -/
def concernsKey (key : PublicKey × AccountId) (step : ReceiptView × ActionView) : Bool :=
  namesKey key step || deletesAccount key.2 step

/-- The actions from the first one on that names the key. -/
def sinceNamed (key : PublicKey × AccountId) (steps : List (ReceiptView × ActionView)) :
    List (ReceiptView × ActionView) :=
  steps.dropWhile fun step => !namesKey key step

/-- What the maps have after some actions. -/
structure CollectedFrom (steps : List (ReceiptView × ActionView)) (keys : CollectedKeys) : Prop where
  entry : ∀ key, key ∈ keys.accessKeys ↔ ∃ step ∈ steps, namesKey key step = true
  created : ∀ key e, keys.accessKeys.lookup key = some e → e.createdByReceiptId = lastReceipt (isAddKey key) steps
  deleted : ∀ key e, keys.accessKeys.lookup key = some e → (e.deletedByReceiptId = none ↔
    ∃ step, lastStep (concernsKey key) (sinceNamed key steps) = some step ∧ isAddKey key step = true)
  deletedAccounts : ∀ accountId, keys.deletedAccounts.lookup accountId = lastReceipt (deletesAccount accountId) steps

section Collected

variable {decoders : Decoders} {key : PublicKey × AccountId} {steps : List (ReceiptView × ActionView)}
  {outcomes : List IndexerExecutionOutcomeWithReceipt}

theorem addsKey_eq {step : ReceiptView × ActionView} (h : step.1.receiverId.len ≠ 64) :
    addsKey decoders key step = isAddKey key step := by
  obtain ⟨receipt, action⟩ := step
  unfold addsKey isAddKey
  by_cases hreceiver : receipt.receiverId = key.2
  · have hlen : key.2.len ≠ 64 := hreceiver ▸ h
    cases action with
    | transfer deposit => simp [hlen]
    | _ => rfl
  · simp [hreceiver]

theorem lastStep_congr {p q : ReceiptView × ActionView → Bool} (h : ∀ step ∈ steps, p step = q step) :
    lastStep p steps = lastStep q steps :=
  List.find?_congr fun step hstep => h step (List.mem_reverse.mp hstep)

/-- The last of the actions on a key comes after it was named first. -/
theorem lastStep_sinceNamed (h : ∃ step ∈ steps, namesKey key step = true) :
    lastStep (concernsKey key) (sinceNamed key steps) = lastStep (concernsKey key) steps := by
  have hsplit := List.takeWhile_append_dropWhile (p := fun step => !namesKey key step) (l := steps)
  have hnamed : ∃ step ∈ sinceNamed key steps, namesKey key step = true := by
    obtain ⟨step, hstep, hnames⟩ := h
    rw [← hsplit] at hstep
    rcases List.mem_append.mp hstep with hbefore | hsince
    · have hnot := List.mem_takeWhile_imp hbefore
      rw [hnames] at hnot
      cases hnot
    · exact ⟨step, hsince, hnames⟩
  have hsome : (lastStep (concernsKey key) (sinceNamed key steps)).isSome = true := by
    obtain ⟨step, hstep, hnames⟩ := hnamed
    refine List.find?_isSome.mpr ⟨step, List.mem_reverse.mpr hstep, ?_⟩
    rw [concernsKey, hnames, Bool.true_or]
  obtain ⟨last, hlast⟩ := Option.isSome_iff_exists.mp hsome
  calc lastStep (concernsKey key) (sinceNamed key steps)
      = some last := hlast
    _ = (lastStep (concernsKey key) (sinceNamed key steps)).or
          (lastStep (concernsKey key) (steps.takeWhile fun step => !namesKey key step)) := by
        rw [hlast, Option.some_or]
    _ = lastStep (concernsKey key) ((steps.takeWhile fun step => !namesKey key step) ++ sinceNamed key steps) := by
        rw [lastStep, lastStep, lastStep, List.reverse_append, List.find?_append]
    _ = lastStep (concernsKey key) steps := congrArg _ hsplit

theorem receiver_of_mem (hlen : ∀ outcome ∈ outcomes, outcome.receipt.receiverId.len ≠ 64)
    {step : ReceiptView × ActionView} (h : step ∈ successfulActions outcomes) : step.1.receiverId.len ≠ 64 := by
  obtain ⟨receipt, hreceipt, hstep⟩ := List.mem_flatMap.mp h
  obtain ⟨action, _, rfl⟩ := List.mem_map.mp hstep
  obtain ⟨outcome, houtcome, rfl⟩ := List.mem_map.mp hreceipt
  exact hlen outcome (List.mem_filter.mp houtcome).1

/-- A `DeleteAccount` changes no entry of another account. -/
theorem lookup_deleteAccount_of_ne (blockHeight : Nat) (keys : CollectedKeys) (receipt : ReceiptView)
    (beneficiaryId : AccountId) (h : key.2 ≠ receipt.receiverId) :
    (applyAction decoders blockHeight receipt keys (.deleteAccount beneficiaryId)).accessKeys.lookup key =
      keys.accessKeys.lookup key := by
  rw [lookup_applyAction, entryAction, if_neg (Ne.symm h)]

theorem collectedFrom (decoders : Decoders) (blockHeight : Nat)
    (hlen : ∀ outcome ∈ outcomes, outcome.receipt.receiverId.len ≠ 64) :
    CollectedFrom (successfulActions outcomes) (collectAccessKeys decoders outcomes blockHeight) := by
  obtain ⟨hkeys, haccounts⟩ := lookup_collectAccessKeys decoders outcomes blockHeight
  have hadds : ∀ key, ∀ step ∈ successfulActions outcomes, addsKey decoders key step = isAddKey key step :=
    fun key step hstep => addsKey_eq (receiver_of_mem hlen hstep)
  have hentry : ∀ key, key ∈ (collectAccessKeys decoders outcomes blockHeight).accessKeys ↔
      ∃ step ∈ successfulActions outcomes, namesKey key step = true := by
    intro key
    rw [← not_iff_not, ← AList.lookup_eq_none, hkeys, entryOf_eq_none]
    simp only [not_exists, not_and, Bool.not_eq_true, namesKey, Bool.or_eq_false_iff]
    exact forall₂_congr fun step hstep => by rw [hadds key step hstep]
  refine ⟨hentry, fun key e hlookup => ?_, fun key e hlookup => ?_, haccounts⟩
  · rw [entryOf_created (hkeys key ▸ hlookup), lastReceipt, lastReceipt, lastStep_congr (hadds key)]
  · have hnamed := (hentry key).mp (Table.mem_iff_lookup.mpr ⟨e, hlookup⟩)
    have htouches : lastStep (touchesKey decoders key) (successfulActions outcomes) =
        lastStep (concernsKey key) (successfulActions outcomes) :=
      lastStep_congr fun step hstep => by rw [touchesKey, concernsKey, namesKey, hadds key step hstep]
    rw [entryOf_deleted (hkeys key ▸ hlookup), htouches, lastStep_sinceNamed hnamed]
    cases hlast : lastStep (concernsKey key) (successfulActions outcomes) with
    | none =>
        obtain ⟨step, hstep, hnames⟩ := hnamed
        have hnot := lastStep_eq_none.mp hlast step hstep
        rw [concernsKey, hnames, Bool.true_or] at hnot
        cases hnot
    | some last =>
        rw [Option.bind_some, hadds key last (mem_of_lastStep hlast).1]
        cases hadd : isAddKey key last with
        | true => simp [hadd]
        | false => simp [hadd]

/-- The pass over a block's actions is exact. -/
theorem access_keys_collected (decoders : Decoders) (blockHeight : Nat)
    (hlen : ∀ outcome ∈ outcomes, outcome.receipt.receiverId.len ≠ 64) :
    CollectedFrom (successfulActions outcomes) (collectAccessKeys decoders outcomes blockHeight) ∧
      ∀ (keys : CollectedKeys) (receipt : ReceiptView) (beneficiaryId : AccountId) (key : PublicKey × AccountId),
        key.2 ≠ receipt.receiverId →
          (applyAction decoders blockHeight receipt keys (.deleteAccount beneficiaryId)).accessKeys.lookup key =
            keys.accessKeys.lookup key :=
  ⟨collectedFrom decoders blockHeight hlen, fun keys receipt beneficiaryId _ hne =>
    lookup_deleteAccount_of_ne blockHeight keys receipt beneficiaryId hne⟩

/-- The account is deleted and created again with the same key: the deletion is noted and the key is live. -/
theorem access_keys_collected_recreation :
    CollectedFrom (successfulActions recreation) (collectAccessKeys .silent recreation 7) ∧
      liveKey.key ∈ (collectAccessKeys .silent recreation 7).accessKeys ∧
        (collectAccessKeys .silent recreation 7).deletedAccounts.lookup "bob.near" = some (.ofText "r2") :=
  ⟨(access_keys_collected .silent 7 (by decide)).1, by decide, by decide⟩

end Collected

end ExplorerIndexer.AccessKeys

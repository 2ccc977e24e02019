import ExplorerIndexer.AccessKeysDeletion

/-! The permission of a key. Only the insertion of a row sets it: the statements that change a row leave its
permission alone, also when a block adds the key again. -/

namespace ExplorerIndexer.AccessKeys

open Async Store Models
open Accounts (successfulActions deletesAccount lastReceipt)

/-- The permission that an `AddKey` gives to the key. -/
def addedPermission (key : PublicKey × AccountId) (step : ReceiptView × ActionView) : Option AccessKeyPermission :=
  if step.1.receiverId = key.2 then
    match step.2 with
    | .addKey publicKey accessKey => if publicKey = key.1 then some (.ofView accessKey.permission) else none
    | _ => none
  else none

/-- The permission that the most recent `AddKey` of the key gives it. -/
def mostRecentPermission (key : PublicKey × AccountId) (steps : List (ReceiptView × ActionView)) :
    Option AccessKeyPermission := steps.reverse.findSome? (addedPermission key)

/-- The actions of the blocks, in order. -/
def stepsOf (blocks : List BlockOutcomes) : List (ReceiptView × ActionView) :=
  blocks.flatMap fun block => successfulActions block.outcomes

/-- The permission of the row that was there first: the initial one, or the one inserted by the first block that
adds the key. -/
def firstPermission (key : PublicKey × AccountId) (initial : Option AccessKey) (blocks : List BlockOutcomes) :
    Option AccessKeyPermission :=
  (initial.map (·.permissionKind)).or
    (blocks.findSome? fun block => mostRecentPermission key (successfulActions block.outcomes))

section Entry

variable {decoders : Decoders} {key : PublicKey × AccountId} {blockHeight : Nat}
  {steps : List (ReceiptView × ActionView)} {step : ReceiptView × ActionView} {entry : Option AccessKey}

theorem mostRecentPermission_append : mostRecentPermission key (steps ++ [step]) =
    (addedPermission key step).or (mostRecentPermission key steps) := by
  rw [mostRecentPermission, List.reverse_append, List.reverse_singleton, List.singleton_append,
    List.findSome?_cons]
  cases addedPermission key step <;> rfl

/-- The permission of an entry that was created. -/
def createdPermission (entry : Option AccessKey) : Option AccessKeyPermission :=
  entry.bind fun e => e.createdByReceiptId.map fun _ => e.permissionKind

theorem createdPermission_entryAction (hnamed : key.2.len ≠ 64) :
    createdPermission (entryAction decoders key blockHeight entry step) =
      (addedPermission key step).or (createdPermission entry) := by
  obtain ⟨receipt, action⟩ := step
  unfold entryAction addedPermission
  by_cases hreceiver : receipt.receiverId = key.2
  · cases action with
    | deleteAccount beneficiaryId => cases entry <;> simp [createdPermission, hreceiver]
    | addKey publicKey accessKey =>
        by_cases hkey : publicKey = key.1 <;> simp [createdPermission, hreceiver, hkey, AccessKey.fromActionView]
    | deleteKey publicKey =>
        by_cases hkey : publicKey = key.1
        · cases entry <;> simp [createdPermission, hreceiver, hkey]
        · simp [hreceiver, hkey]
    | transfer deposit => simp [hreceiver, hnamed]
    | _ => simp
  · simp [hreceiver]

/-- The entry of a named account's key was created with the permission of the last `AddKey`. -/
theorem createdPermission_entryOf (hnamed : key.2.len ≠ 64) :
    createdPermission (entryOf decoders key blockHeight steps) = mostRecentPermission key steps := by
  induction steps using List.reverseRecOn with
  | nil => rfl
  | append_singleton steps step ih =>
      rw [entryOf_append, createdPermission_entryAction hnamed, ih, mostRecentPermission_append]

end Entry

/-! ### The permission of a row -/

section Call

variable {decoders : Decoders} {block : BlockOutcomes} {blocks : List BlockOutcomes}
  {key : PublicKey × AccountId} {blockHeight : Nat} {w w' : World}

theorem permission_effect (key : PublicKey × AccountId) (blockHeight : Nat) (write : Write) (row : AccessKey) :
    (write.effect key blockHeight (some row)).map (·.permissionKind) = some row.permissionKind := by
  cases write with
  | insert batch => rfl
  | sweep _ _ _ | update _ | recreate _ =>
      simp only [Write.effect, Option.map_some]
      split <;> rfl

theorem permission_applyAll (done : List Write) {row : AccessKey} :
    (applyAll (Write.effect key blockHeight) done (some row)).map (·.permissionKind) = some row.permissionKind := by
  induction done generalizing row with
  | nil => rfl
  | cons write done ih =>
      have hone := permission_effect key blockHeight write row
      obtain ⟨row', hrow', hsame⟩ := Option.map_eq_some_iff.mp hone
      rw [applyAll_cons, hrow', ih, hsame]

/-- An absent row is inserted as the entry, if that was created. -/
theorem permission_entryEffect (entry : Option AccessKey) :
    (entryEffect blockHeight entry none).map (·.permissionKind) = createdPermission entry := by
  cases entry with
  | none => rfl
  | some e => cases hcreated : e.createdByReceiptId <;> simp [entryEffect, createdPermission, hcreated]

theorem permission_after_call (hnamed : key.2.len ≠ 64)
    (h : Finishes (handleBlockAccessKeys decoders block) w () w') :
    (w'.db.accessKeys.lookup key).map (·.permissionKind) =
      ((w.db.accessKeys.lookup key).map (·.permissionKind)).or
        (mostRecentPermission key (successfulActions block.outcomes)) := by
  cases hrow : w.db.accessKeys.lookup key with
  | none =>
      rw [row_after_entry h (.inl (by rw [hrow, sweepEffect_absent])), hrow, permission_entryEffect,
        createdPermission_entryOf hnamed]
      rfl
  | some row =>
      obtain ⟨done, hdone, rfl⟩ := allRowWrites_of_finishes h
      rw [hdone.lookup, hrow, permission_applyAll]
      rfl

/-- A row keeps the permission it was inserted with. -/
theorem permission_after_blocks (hnamed : key.2.len ≠ 64)
    (hrun : InOrder (handleBlockAccessKeys decoders) w blocks w') :
    (w'.db.accessKeys.lookup key).map (·.permissionKind) =
      firstPermission key (w.db.accessKeys.lookup key) blocks := by
  induction hrun with
  | nil => exact Option.or_none.symm
  | @cons block blocks w₁ w₂ w₃ hblock _ ih =>
      rw [ih, firstPermission, firstPermission, permission_after_call hnamed hblock, Option.or_assoc,
        List.findSome?_cons]
      cases mostRecentPermission key (successfulActions block.outcomes) <;> rfl

end Call

/-- The row of a key has the permission of its most recent `AddKey` if and only if the row that was there first
had that permission already. -/
theorem permission_of_added_key {decoders : Decoders} {blocks : List BlockOutcomes} {key : PublicKey × AccountId}
    {w w' : World} {row : AccessKey} {permission : AccessKeyPermission} (hnamed : key.2.len ≠ 64)
    (hrun : InOrder (handleBlockAccessKeys decoders) w blocks w') (hrow : w'.db.accessKeys.lookup key = some row)
    (hadded : mostRecentPermission key (stepsOf blocks) = some permission) :
    row.permissionKind = permission ↔
      firstPermission key (w.db.accessKeys.lookup key) blocks = mostRecentPermission key (stepsOf blocks) := by
  have hfirst := permission_after_blocks hnamed hrun
  rw [hrow, Option.map_some] at hfirst
  rw [← hfirst, hadded, Option.some_inj]

/-- A key with full access that is deleted and then added again for function calls only. -/
def readdedKey : List BlockOutcomes :=
  [⟨7, [.plain (.ofText "b7") (.plain (.ofText "r1") "bob.near" [.addKey "ed25519:5vh" ⟨0, .fullAccess⟩]) []]⟩,
    ⟨8, [.plain (.ofText "b8") (.plain (.ofText "r2") "bob.near" [.deleteKey "ed25519:5vh"]) []]⟩,
    ⟨9, [.plain (.ofText "b9") (.plain (.ofText "r3") "bob.near"
      [.addKey "ed25519:5vh" ⟨0, .functionCall none "eve.near" []⟩]) []]⟩]

/-- The same key, added again with the access that it had. -/
def restoredKey : List BlockOutcomes :=
  readdedKey.take 2 ++
    [⟨9, [.plain (.ofText "b9") (.plain (.ofText "r3") "bob.near" [.addKey "ed25519:5vh" ⟨0, .fullAccess⟩]) []]⟩]

theorem permission_of_added_key_twice : ∃ w' row,
    InOrder (handleBlockAccessKeys .silent) { cache := .withSize 1, db := {} } restoredKey w' ∧
      w'.db.accessKeys.lookup ("ed25519:5vh", "bob.near") = some row ∧ row.deletedByReceiptId = none ∧
      row.permissionKind = .fullAccess := by
  have hrun : InOrder (handleBlockAccessKeys .silent) { cache := .withSize 1, db := {} } restoredKey _ :=
    .cons (finishes_after 1 (by decide)) (.cons (finishes_after 1 (by decide))
      (.cons (finishes_after 1 (by decide)) .nil))
  have hnamed : (("ed25519:5vh", "bob.near") : PublicKey × AccountId).2.len ≠ 64 := by decide
  exact ⟨_, ⟨"ed25519:5vh", "bob.near", some (.ofText "r3"), none, .fullAccess, 9⟩, hrun, by decide, rfl,
    (permission_of_added_key hnamed hrun (by decide) (by decide)).mpr (by decide)⟩

/-- The key is live with the permission of its earlier life. -/
theorem readded_key_keeps_permission : ∃ w' row,
    InOrder (handleBlockAccessKeys .silent) { cache := .withSize 1, db := {} } readdedKey w' ∧
      w'.db.accessKeys.lookup ("ed25519:5vh", "bob.near") = some row ∧ row.deletedByReceiptId = none ∧
      (∀ block ∈ readdedKey, ∀ step ∈ successfulActions block.outcomes,
        deletesAccount "bob.near" step = false) ∧
      mostRecentPermission ("ed25519:5vh", "bob.near") (stepsOf readdedKey) = some .functionCall ∧
      row.permissionKind = .fullAccess := by
  have hrun : InOrder (handleBlockAccessKeys .silent) { cache := .withSize 1, db := {} } readdedKey _ :=
    .cons (finishes_after 1 (by decide)) (.cons (finishes_after 1 (by decide))
      (.cons (finishes_after 1 (by decide)) .nil))
  exact ⟨_, ⟨"ed25519:5vh", "bob.near", some (.ofText "r3"), none, .fullAccess, 9⟩, hrun, by decide, rfl, by decide,
    by decide, rfl⟩

end ExplorerIndexer.AccessKeys

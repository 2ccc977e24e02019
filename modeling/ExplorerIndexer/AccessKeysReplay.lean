import ExplorerIndexer.AccessKeysDeletion
import ExplorerIndexer.AsyncReplay

/-! Handling blocks again. Once a block has been handled, each of its statements leaves each row alone, and later
blocks do not change that: a row that they touch is at their height. So blocks can be handled again in any order
and be cut off anywhere. -/

namespace ExplorerIndexer.AccessKeys

open Async Store Models
open Accounts (successfulActions deletesAccount lastReceipt)

/-! ### Blocks that have nothing left to do -/

/-- Neither the sweep of a block nor its entry changes the row of the key. -/
def Settled (decoders : Decoders) (block : BlockOutcomes) (key : PublicKey × AccountId)
    (x : Option AccessKey) : Prop :=
  sweepEffect block.blockHeight (lastReceipt (deletesAccount key.2) (successfulActions block.outcomes)) x = x ∧
    entryEffect block.blockHeight (entryOf decoders key block.blockHeight (successfulActions block.outcomes)) x = x

theorem guarded_sweepEffect (blockHeight : Nat) (deletedBy : Option CryptoHash) :
    Guarded AccessKey.lastUpdateBlockHeight blockHeight (sweepEffect blockHeight deletedBy) := by
  cases deletedBy with
  | none => exact ⟨fun _ _ => rfl, fun _ => .inl rfl⟩
  | some receiptId =>
      exact guarded_update AccessKey.lastUpdateBlockHeight (·.deletedByReceiptId.isNone)
        (sweptRow blockHeight receiptId) fun _ => rfl

theorem guarded_entryEffect {blockHeight : Nat} {entry : Option AccessKey}
    (hentry : ∀ e, entry = some e → e.lastUpdateBlockHeight = blockHeight) :
    Guarded AccessKey.lastUpdateBlockHeight blockHeight (entryEffect blockHeight entry) := by
  cases entry with
  | none => exact ⟨fun _ _ => rfl, fun _ => .inl rfl⟩
  | some e =>
      refine ⟨fun r hr => ?_, fun x => ?_⟩
      · cases hcreated : e.createdByReceiptId <;> simp [entryEffect, hcreated, Nat.not_lt.mpr hr]
      · cases x with
        | none =>
            cases hcreated : e.createdByReceiptId with
            | none => exact .inl (by simp [entryEffect, hcreated])
            | some created => exact .inr ⟨e, by simp [entryEffect, hcreated], hentry e rfl⟩
        | some row =>
            by_cases hold : row.lastUpdateBlockHeight < blockHeight
            · exact .inr ⟨_, entryEffect_row hold, hentry e rfl⟩
            · cases hcreated : e.createdByReceiptId <;> simp [entryEffect, hcreated, hold]

section Call

variable {decoders : Decoders} {block later : BlockOutcomes} {key : PublicKey × AccountId} {w w' : World}

/-- A block that is through has nothing left to do. -/
theorem settled_after_call (h : Finishes (handleBlockAccessKeys decoders block) w () w') :
    Settled decoders block key (w'.db.accessKeys.lookup key) := by
  obtain ⟨done, hdone, rfl⟩ := allRowWrites_of_finishes h
  have hguard := hdone.guarded key
  have hsweep := guarded_sweepEffect block.blockHeight
    (lastReceipt (deletesAccount key.2) (successfulActions block.outcomes))
  have hentry : Guarded AccessKey.lastUpdateBlockHeight block.blockHeight (entryEffect block.blockHeight
      (entryOf decoders key block.blockHeight (successfulActions block.outcomes))) :=
    guarded_entryEffect fun e he => (wellFormed_entryOf he).height
  rw [hdone.lookup]
  rcases applyAll_first hguard (w.db.accessKeys.lookup key) with hsame | ⟨write, hwrite, hne, heq⟩
  · -- no statement acted on the row, so none would have
    have hidle : ∀ write ∈ done, write.effect key block.blockHeight (w.db.accessKeys.lookup key) =
        w.db.accessKeys.lookup key := by
      intro write hwrite
      by_contra hacts
      obtain ⟨write', _, hne, heq⟩ := applyAll_effective hguard hwrite hacts
      exact hne (heq.symm.trans hsame)
    rw [hsame]
    constructor
    · rcases hdone.sweeps key (w.db.accessKeys.lookup key) with hx | ⟨write, hwrite, heffect⟩
      · exact hx.symm
      · exact heffect.symm.trans (hidle write hwrite)
    · rcases hdone.enters key (w.db.accessKeys.lookup key) with hx | ⟨write, hwrite, heffect⟩
      · exact hx.symm
      · exact heffect.symm.trans (hidle write hwrite)
  · -- the row has the height of the block
    obtain ⟨row, hrow, hversion⟩ := ((hguard write hwrite).stamped _).resolve_left hne
    rw [heq, hrow]
    exact ⟨hsweep.settled row (Nat.le_of_eq hversion.symm), hentry.settled row (Nat.le_of_eq hversion.symm)⟩

/-- A later block does not bring an earlier one back to life. -/
theorem Settled.after_call (h : Settled decoders block key (w.db.accessKeys.lookup key))
    (hle : block.blockHeight ≤ later.blockHeight)
    (hrun : Finishes (handleBlockAccessKeys decoders later) w () w') :
    Settled decoders block key (w'.db.accessKeys.lookup key) := by
  obtain ⟨done, hdone, rfl⟩ := allRowWrites_of_finishes hrun
  have hlater : Guarded AccessKey.lastUpdateBlockHeight later.blockHeight
      (applyAll (Write.effect key later.blockHeight) done) := guarded_applyAll (hdone.guarded key)
  rw [hdone.lookup]
  exact ⟨(guarded_sweepEffect _ _).after_later hlater hle h.1,
    (guarded_entryEffect fun e he => (wellFormed_entryOf he).height).after_later hlater hle h.2⟩

/-- A block that has nothing left to do does nothing, also when it is cut off. -/
theorem Settled.unchanged {p : Prog World Unit} {events : List Event}
    (h : Settled decoders block key (w.db.accessKeys.lookup key))
    (hrun : Steps (handleBlockAccessKeys decoders block) w events p w') :
    w'.db.accessKeys.lookup key = w.db.accessKeys.lookup key := by
  obtain ⟨done, hdone, rfl⟩ := rowWrites_of_steps hrun
  rw [hdone.lookup]
  refine applyAll_idle fun write hwrite => ?_
  rcases hdone.effect write hwrite key (w.db.accessKeys.lookup key) with hidle | hsweep | hentry
  · exact hidle
  · exact hsweep.trans h.1
  · exact hentry.trans h.2

end Call

/-- After blocks in order, none of them has anything left to do. -/
theorem settled_after_blocks {decoders : Decoders} {blocks : List BlockOutcomes} {w w' : World}
    (hheights : blocks.Pairwise fun b b' => b.blockHeight < b'.blockHeight)
    (hrun : InOrder (handleBlockAccessKeys decoders) w blocks w') (key : PublicKey × AccountId) :
    ∀ block ∈ blocks, Settled decoders block key (w'.db.accessKeys.lookup key) := by
  induction blocks using List.reverseRecOn generalizing w' with
  | nil => exact fun _ hmem => (List.not_mem_nil hmem).elim
  | append_singleton blocks last ih =>
      obtain ⟨w₁, hfirst, hlast⟩ := hrun.of_append
      obtain ⟨hpairs, _, hbefore⟩ := List.pairwise_append.mp hheights
      cases hlast with
      | cons hcall hnil =>
          cases hnil with
          | nil =>
              intro block hmem
              rcases List.mem_append.mp hmem with hmem | hmem
              · have hlt := hbefore block hmem last List.mem_cons_self
                exact (ih hpairs hfirst block hmem).after_call (Nat.le_of_lt hlt) hcall
              · rw [List.mem_singleton.mp hmem]
                exact settled_after_call hcall

/-! ### Heights never decrease -/

/-- Every row is still there, at no lower height. -/
def NotOlder (w w' : World) : Prop :=
  ∀ key row, w.db.accessKeys.lookup key = some row → ∃ row', w'.db.accessKeys.lookup key = some row' ∧
    row.lastUpdateBlockHeight ≤ row'.lastUpdateBlockHeight

theorem NotOlder.refl (w : World) : NotOlder w w := fun _ row hrow => ⟨row, hrow, Nat.le_refl _⟩

theorem NotOlder.trans (w₁ w₂ w₃ : World) (h : NotOlder w₁ w₂) (h' : NotOlder w₂ w₃) : NotOlder w₁ w₃ := by
  intro key row hrow
  obtain ⟨row₂, hrow₂, hle⟩ := h key row hrow
  obtain ⟨row₃, hrow₃, hle'⟩ := h' key row₂ hrow₂
  exact ⟨row₃, hrow₃, Nat.le_trans hle hle'⟩

/-- An update of rows below a height to that height makes none older. -/
theorem notOlder_updateWhere {w : World} {condition : PublicKey × AccountId → AccessKey → Bool}
    {change : AccessKey → AccessKey}
    (hchange : ∀ key row, condition key row = true →
      row.lastUpdateBlockHeight ≤ (change row).lastUpdateBlockHeight) :
    NotOlder w { w with db := { w.db with accessKeys := w.db.accessKeys.updateWhere condition change } } := by
  intro key row hrow
  rw [Table.lookup_updateWhere, hrow, Option.map_some]
  by_cases hcondition : condition key row = true
  · exact ⟨change row, by rw [if_pos hcondition], hchange key row hcondition⟩
  · exact ⟨row, by rw [if_neg hcondition], Nat.le_refl _⟩

theorem notOlder_run (write : Write) (w : World) : NotOlder w (write.run w) := by
  cases write with
  | sweep blockHeight accountId deletedByReceiptId =>
      refine notOlder_updateWhere fun key row hcondition => ?_
      simp only [Bool.and_eq_true, decide_eq_true_eq] at hcondition
      exact Nat.le_of_lt hcondition.1.2
  | update value =>
      refine notOlder_updateWhere fun key row hcondition => ?_
      simp only [Bool.and_eq_true, decide_eq_true_eq] at hcondition
      exact Nat.le_of_lt hcondition.1.2
  | insert batch =>
      intro key row hrow
      refine ⟨row, ?_, Nat.le_refl _⟩
      have hlookup := Table.lookup_insertAllNew AccessKey.key batch w.db.accessKeys key
      rwa [hrow, Option.some_or] at hlookup
  | recreate value =>
      refine notOlder_updateWhere fun key row hcondition => ?_
      simp only [Bool.and_eq_true, decide_eq_true_eq] at hcondition
      exact Nat.le_of_lt hcondition.1.2

/-! ### The whole run -/

/-- Blocks that were handled in order can be handled again in any order, any number of times and cut off anywhere:
no row appears or changes, and all the while no row gets a lower height. -/
theorem access_keys_survive_replays {decoders : Decoders} {blocks : List BlockOutcomes} {w once : World}
    {m : Moment World} (hheights : blocks.Pairwise fun b b' => b.blockHeight < b'.blockHeight)
    (honce : InOrder (handleBlockAccessKeys decoders) w blocks once)
    (hagain : Handlings (handleBlockAccessKeys decoders) blocks ⟨.ret (), once⟩ m) :
    (∀ key, m.state.db.accessKeys.lookup key = once.db.accessKeys.lookup key) ∧
      Handlings (handleBlockAccessKeys decoders) blocks ⟨.ret (), w⟩ m ∧
      ∀ m₁ m₂, Handlings (handleBlockAccessKeys decoders) blocks ⟨.ret (), w⟩ m₁ →
        Handlings (handleBlockAccessKeys decoders) blocks m₁ m₂ → NotOlder m₁.state m₂.state := by
  refine ⟨?_, (honce.handlings fun _ hmem => hmem).trans hagain, fun m₁ m₂ hfirst hrest => ?_⟩
  · refine hagain.invariant (I := fun s => ∀ key, s.db.accessKeys.lookup key = once.db.accessKeys.lookup key)
      (fun block hblock s t events p hpart hs key => ?_) fun _ => rfl
    have hsettled := settled_after_blocks hheights honce key block hblock
    rw [← hs key] at hsettled ⊢
    exact hsettled.unchanged hpart
  · refine hfirst.between NotOlder.refl NotOlder.trans (fun block _ => ?_) hrest
    exact outline_handleAccessKeys_of_kept (fun write w _ => notOlder_run write w) (fun _ _ h => h)
      (.const NotOlder True) _ _ _

theorem access_keys_survive_replays_swept : ∃ once w',
    InOrder (handleBlockAccessKeys .silent) worldWithLiveKey [⟨7, deletion⟩, ⟨8, recreation⟩] once ∧
      InOrder (handleBlockAccessKeys .silent) once [⟨7, deletion⟩, ⟨8, recreation⟩, ⟨7, deletion⟩] w' ∧
      ∀ key, w'.db.accessKeys.lookup key = once.db.accessKeys.lookup key := by
  have hrun : InOrder (handleBlockAccessKeys .silent) worldWithLiveKey
      ([⟨7, deletion⟩, ⟨8, recreation⟩] ++ [⟨7, deletion⟩, ⟨8, recreation⟩, ⟨7, deletion⟩]) _ :=
    .cons (finishes_after 1 (by decide)) (.cons (finishes_after 1 (by decide))
      (.cons (finishes_after 1 (by decide)) (.cons (finishes_after 1 (by decide))
        (.cons (finishes_after 1 (by decide)) .nil))))
  obtain ⟨once, honce, hagain⟩ := hrun.of_append
  exact ⟨once, _, honce, hagain,
    (access_keys_survive_replays (by decide) honce (hagain.handlings (by simp))).1⟩

end ExplorerIndexer.AccessKeys

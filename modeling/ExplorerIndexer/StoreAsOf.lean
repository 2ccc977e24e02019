import ExplorerIndexer.StoreLifespans
import Mathlib.Data.List.Induction

/-! Asking a row with one lifespan about an earlier version. The row only keeps the last creation and the last
deletion; an inclusive comparison at both ends gives the entities of that version, up to those that were deleted in
it and those that were created again since. -/

namespace ExplorerIndexer.Store

variable {ι : Type}

/-- What one version does to an entity. -/
inductive LifeChange (ι : Type) where
  | idle
  | delete (deleted : ι)
  | create (created : ι)
  | createDelete (created deleted : ι)
  deriving DecidableEq

namespace LifeChange

def creates : LifeChange ι → Bool
  | idle | delete _ => false
  | create _ | createDelete _ _ => true

def deletes : LifeChange ι → Bool
  | idle | create _ => false
  | delete _ | createDelete _ _ => true

/-- Whether the entity exists afterwards. -/
def alive (existed : Bool) : LifeChange ι → Bool
  | idle => existed
  | create _ => true
  | delete _ | createDelete _ _ => false

/-- What is written to its row. -/
def apply (version : Nat) : LifeChange ι → Option (Lifespan ι) → Option (Lifespan ι)
  | idle, x => x
  | delete deleted, x => x.map fun row => { row with deleted := some deleted, version }
  | create created, _ => some ⟨some created, none, version⟩
  | createDelete created deleted, _ => some ⟨some created, some deleted, version⟩

/-- What the row refers to. -/
def ids : LifeChange ι → List ι
  | idle => []
  | delete deleted => [deleted]
  | create created => [created]
  | createDelete created deleted => [created, deleted]

/-- Only what exists is deleted. -/
def Possible (existed : Bool) : LifeChange ι → Prop
  | delete _ => existed = true
  | _ => True

/-- The row of an entity is live exactly if the entity exists. -/
theorem live_apply {existed : Bool} {x : Option (Lifespan ι)} (change : LifeChange ι) (version : Nat)
    (hlive : Live x ↔ existed = true) : Live (change.apply version x) ↔ change.alive existed = true := by
  cases change with
  | idle => exact hlive
  | delete deleted => cases x <;> simp [Live, apply, alive]
  | create created => simp [Live, apply, alive]
  | createDelete created deleted => simp [Live, apply, alive]

end LifeChange

def aliveAfter (changes : List (Nat × LifeChange ι)) (existed : Bool) : Bool :=
  changes.foldl (fun existed change => change.2.alive existed) existed

def spanAfter (changes : List (Nat × LifeChange ι)) (x : Option (Lifespan ι)) : Option (Lifespan ι) :=
  changes.foldl (fun x change => change.2.apply change.1 x) x

/-- Each change is possible when it comes. -/
def AllPossible : Bool → List (Nat × LifeChange ι) → Prop
  | _, [] => True
  | existed, change :: changes => change.2.Possible existed ∧ AllPossible (change.2.alive existed) changes

/-- The row belongs to the version: it was created by then and not deleted before. What is not known is `none`. -/
def AsOf (versionOf : ι → Option Nat) (n : Nat) (x : Option (Lifespan ι)) : Prop :=
  ∃ row, x = some row ∧ (∀ created ∈ row.created.bind versionOf, created ≤ n) ∧
    ∀ deleted ∈ row.deleted.bind versionOf, n ≤ deleted

/-- Sorted items, cut at a version. -/
theorem filter_le_append_lt {β : Type} (version : β → Nat) (n : Nat) {items : List β}
    (h : items.Pairwise fun a b => version a < version b) :
    (items.filter fun item => version item ≤ n) ++ (items.filter fun item => n < version item) = items := by
  induction items with
  | nil => rfl
  | cons item items ih =>
      obtain ⟨hfirst, hrest⟩ := List.pairwise_cons.mp h
      by_cases hle : version item ≤ n
      · rw [List.filter_cons_of_pos (by simpa using hle), List.filter_cons_of_neg (by simpa using hle),
          List.cons_append, ih hrest]
      · have hlater : ∀ other ∈ item :: items, n < version other := by
          intro other hmem
          rcases List.mem_cons.mp hmem with rfl | hmem
          · exact Nat.not_le.mp hle
          · exact Nat.lt_trans (Nat.not_le.mp hle) (hfirst other hmem)
        rw [List.filter_eq_nil_iff.mpr fun other hmem => by simpa using hlater other hmem, List.nil_append]
        exact List.filter_eq_self.mpr fun other hmem => by simpa using hlater other hmem

section AsOf

variable {versionOf : ι → Option Nat} {n : Nat} {changes later : List (Nat × LifeChange ι)}
  {existed : Bool} {x : Option (Lifespan ι)}

theorem live_spanAfter (hlive : Live x ↔ existed = true) :
    Live (spanAfter changes x) ↔ aliveAfter changes existed = true := by
  induction changes generalizing x existed with
  | nil => exact hlive
  | cons change changes ih => exact ih (change.2.live_apply change.1 hlive)

theorem spanAfter_append (changes later : List (Nat × LifeChange ι)) (x : Option (Lifespan ι)) :
    spanAfter (changes ++ later) x = spanAfter later (spanAfter changes x) := List.foldl_append

theorem AllPossible.append {existed : Bool} {changes later : List (Nat × LifeChange ι)}
    (h : AllPossible existed (changes ++ later)) :
    AllPossible existed changes ∧ AllPossible (aliveAfter changes existed) later := by
  induction changes generalizing existed with
  | nil => exact ⟨trivial, h⟩
  | cons change changes ih => exact ⟨⟨h.1, (ih h.2).1⟩, (ih h.2).2⟩

/-- What the changes write is of their versions. -/
def Dated (versionOf : ι → Option Nat) (changes : List (Nat × LifeChange ι)) : Prop :=
  ∀ change ∈ changes, ∀ id ∈ change.2.ids, versionOf id = some change.1

/-! ### Up to the version -/

/-- The row was written by changes up to the version; its deletion is that of one of them. -/
structure WrittenBy (versionOf : ι → Option Nat) (n : Nat) (changes : List (Nat × LifeChange ι))
    (row : Lifespan ι) : Prop where
  created : ∀ created ∈ row.created.bind versionOf, created ≤ n
  deleted : ∀ id, row.deleted = some id →
    ∃ change ∈ changes, change.2.deletes = true ∧ versionOf id = some change.1

theorem WrittenBy.snoc {row : Lifespan ι} {change : Nat × LifeChange ι} (h : WrittenBy versionOf n changes row) :
    WrittenBy versionOf n (changes ++ [change]) row := by
  refine ⟨h.created, fun id hid => ?_⟩
  obtain ⟨other, hother, hdeletes⟩ := h.deleted id hid
  exact ⟨other, List.mem_append_left _ hother, hdeletes⟩

theorem writtenBy_spanAfter (hn : ∀ change ∈ changes, change.1 ≤ n) (hdated : Dated versionOf changes)
    (hstart : ∀ row, x = some row → row.created = none ∧ row.deleted = none) :
    ∀ row, spanAfter changes x = some row → WrittenBy versionOf n changes row := by
  induction changes using List.reverseRecOn with
  | nil =>
      intro row hrow
      obtain ⟨hcreated, hdeleted⟩ := hstart row hrow
      refine ⟨fun created hmem => ?_, fun id hid => ?_⟩
      · rw [hcreated] at hmem
        cases hmem
      · rw [hdeleted] at hid
        cases hid
  | append_singleton changes change ih =>
      have ih := ih (fun c hc => hn c (List.mem_append_left _ hc)) fun c hc => hdated c (List.mem_append_left _ hc)
      have hlast : change ∈ changes ++ [change] := List.mem_append_right _ List.mem_cons_self
      intro row hrow
      rw [spanAfter_append] at hrow
      obtain ⟨version, kind⟩ := change
      have hversion : version ≤ n := hn _ hlast
      cases kind with
      | idle => exact (ih row hrow).snoc
      | delete deleted =>
          obtain ⟨row', hrow', rfl⟩ := Option.map_eq_some_iff.mp hrow
          refine ⟨(ih row' hrow').created, fun id hid => ?_⟩
          cases hid
          exact ⟨_, hlast, rfl, hdated _ hlast deleted List.mem_cons_self⟩
      | create created =>
          cases hrow
          refine ⟨fun c hc => ?_, fun id hid => ?_⟩
          · rw [Option.bind_some, hdated _ hlast created List.mem_cons_self] at hc
            cases hc
            exact hversion
          · cases hid
      | createDelete created deleted =>
          cases hrow
          refine ⟨fun c hc => ?_, fun id hid => ?_⟩
          · rw [Option.bind_some, hdated _ hlast created List.mem_cons_self] at hc
            cases hc
            exact hversion
          · cases hid
            exact ⟨_, hlast, rfl, hdated _ hlast deleted (List.mem_cons_of_mem _ List.mem_cons_self)⟩

/-- The entity is deleted in the last of the versions. -/
def DeletedAt (n : Nat) (changes : List (Nat × LifeChange ι)) : Prop :=
  ∃ change ∈ changes, change.1 = n ∧ change.2.deletes = true

instance (n : Nat) (changes : List (Nat × LifeChange ι)) : Decidable (DeletedAt n changes) :=
  inferInstanceAs (Decidable (∃ change ∈ changes, _))

/-- A deletion in the version itself is the last thing that was written. -/
theorem deleted_spanAfter (hsorted : changes.Pairwise fun a b => a.1 < b.1)
    (hn : ∀ change ∈ changes, change.1 ≤ n) (hdated : Dated versionOf changes)
    (hpossible : AllPossible existed changes) (hlive : Live x ↔ existed = true) (hdeleted : DeletedAt n changes) :
    ∃ row id, spanAfter changes x = some row ∧ row.deleted = some id ∧ versionOf id = some n := by
  obtain ⟨⟨version, kind⟩, hmem, rfl, hdeletes⟩ := hdeleted
  obtain ⟨before, after, rfl⟩ := List.append_of_mem hmem
  obtain rfl : after = [] := by
    rcases after with _ | ⟨next, after⟩
    · rfl
    · have hlt := (List.pairwise_cons.mp (List.pairwise_append.mp hsorted).2.1).1 next List.mem_cons_self
      exact absurd (hn next (by simp)) (Nat.not_le.mpr hlt)
  have hids := hdated _ hmem
  rw [spanAfter_append]
  cases kind with
  | idle => cases hdeletes
  | create created => cases hdeletes
  | delete deleted =>
      have hexisted : aliveAfter before existed = true := hpossible.append.2.1
      obtain ⟨row, hrow, _⟩ := (live_spanAfter hlive).mpr hexisted
      rw [hrow]
      exact ⟨_, deleted, rfl, rfl, hids deleted List.mem_cons_self⟩
  | createDelete created deleted =>
      exact ⟨_, deleted, rfl, rfl, hids deleted (List.mem_cons_of_mem _ List.mem_cons_self)⟩

/-! ### After the version -/

/-- A creation after the version stays in the row, or a later one does. -/
theorem not_asOf_of_created (hn : ∀ change ∈ later, n < change.1) (hdated : Dated versionOf later)
    (h : (∃ row created, x = some row ∧ row.created.bind versionOf = some created ∧ n < created) ∨
      ∃ change ∈ later, change.2.creates = true) : ¬ AsOf versionOf n (spanAfter later x) := by
  induction later generalizing x with
  | nil =>
      rintro ⟨row, hrow, hcreated, _⟩
      obtain ⟨row', created, hrow', hbind, hlt⟩ := h.resolve_right (by simp)
      obtain rfl := Option.some.inj (hrow'.symm.trans hrow)
      exact absurd (hcreated created hbind) (Nat.not_le.mpr hlt)
  | cons change later ih =>
      refine ih (fun c hc => hn c (List.mem_cons_of_mem _ hc)) (fun c hc => hdated c (List.mem_cons_of_mem _ hc)) ?_
      have hlt := hn change List.mem_cons_self
      have hids := hdated change List.mem_cons_self
      obtain ⟨version, kind⟩ := change
      cases kind with
      | idle => simpa [LifeChange.creates, LifeChange.apply] using h
      | delete deleted =>
          rcases h with ⟨row, created, rfl, hbind, hcreated⟩ | hcreates
          · exact .inl ⟨_, created, rfl, hbind, hcreated⟩
          · exact .inr (by simpa [LifeChange.creates] using hcreates)
      | create created => exact .inl ⟨_, version, rfl, hids created List.mem_cons_self, hlt⟩
      | createDelete created deleted => exact .inl ⟨_, version, rfl, hids created List.mem_cons_self, hlt⟩

/-- Without a later creation, what existed at the version is found. -/
theorem asOf_of_existed (hn : ∀ change ∈ later, n < change.1) (hdated : Dated versionOf later)
    (hcreates : ∀ change ∈ later, change.2.creates = false)
    (hx : ∃ row, x = some row ∧ (∀ created ∈ row.created.bind versionOf, created ≤ n) ∧
      ∀ deleted ∈ row.deleted.bind versionOf, n ≤ deleted) : AsOf versionOf n (spanAfter later x) := by
  induction later generalizing x with
  | nil => exact hx
  | cons change later ih =>
      refine ih (fun c hc => hn c (List.mem_cons_of_mem _ hc)) (fun c hc => hdated c (List.mem_cons_of_mem _ hc))
        (fun c hc => hcreates c (List.mem_cons_of_mem _ hc)) ?_
      have hlt := hn change List.mem_cons_self
      have hids := hdated change List.mem_cons_self
      have hcreate := hcreates change List.mem_cons_self
      obtain ⟨version, kind⟩ := change
      obtain ⟨row, rfl, hcreated, hdeleted⟩ := hx
      cases kind with
      | idle => exact ⟨row, rfl, hcreated, hdeleted⟩
      | delete deleted =>
          refine ⟨_, rfl, hcreated, fun d hd => ?_⟩
          rw [Option.bind_some, hids deleted List.mem_cons_self] at hd
          cases hd
          exact Nat.le_of_lt hlt
      | create created => cases hcreate
      | createDelete created deleted => cases hcreate

/-- Without a later creation, nothing happens to what did not exist at the version. -/
theorem spanAfter_of_dead (hpossible : AllPossible false later)
    (hcreates : ∀ change ∈ later, change.2.creates = false) : spanAfter later x = x := by
  induction later with
  | nil => rfl
  | cons change later ih =>
      have hcreate := hcreates change List.mem_cons_self
      obtain ⟨version, kind⟩ := change
      cases kind with
      | idle => exact ih hpossible.2 fun c hc => hcreates c (List.mem_cons_of_mem _ hc)
      | delete deleted => cases hpossible.1
      | create created => cases hcreate
      | createDelete created deleted => cases hcreate

/-! ### Both -/

/-- The row, asked for an earlier version, answers with what existed then exactly if what existed was not created
again since, and what was deleted in that version was. -/
theorem asOf_iff (hsorted : changes.Pairwise fun a b => a.1 < b.1) (hn : ∀ change ∈ changes, change.1 ≤ n)
    (hlater : ∀ change ∈ later, n < change.1) (hdated : Dated versionOf (changes ++ later))
    (hpossible : AllPossible existed (changes ++ later)) (hlive : Live x ↔ existed = true)
    (hstart : ∀ row, x = some row → row.created = none ∧ row.deleted = none) :
    (AsOf versionOf n (spanAfter (changes ++ later) x) ↔ aliveAfter changes existed = true) ↔
      (aliveAfter changes existed = true → ∀ change ∈ later, change.2.creates = false) ∧
        (DeletedAt n changes → ∃ change ∈ later, change.2.creates = true) := by
  obtain ⟨hpossible₁, hpossible₂⟩ := hpossible.append
  have hdated₁ : Dated versionOf changes := fun c hc => hdated c (List.mem_append_left _ hc)
  have hdated₂ : Dated versionOf later := fun c hc => hdated c (List.mem_append_right _ hc)
  have hwritten := writtenBy_spanAfter hn hdated₁ hstart
  have hdead := deleted_spanAfter hsorted hn hdated₁ hpossible₁ hlive
  have hlive₁ : Live (spanAfter changes x) ↔ aliveAfter changes existed = true := live_spanAfter hlive
  rw [spanAfter_append]
  generalize spanAfter changes x = y at hwritten hdead hlive₁
  generalize aliveAfter changes existed = alive at hpossible₂ hlive₁
  by_cases hcreates : ∃ change ∈ later, change.2.creates = true
  · -- the row only knows the later creation
    have hnot := not_asOf_of_created (x := y) hlater hdated₂ (.inr hcreates)
    obtain ⟨change, hmem, hcreate⟩ := hcreates
    have hall : ¬ ∀ change ∈ later, change.2.creates = false := fun h => by
      rw [h change hmem] at hcreate
      cases hcreate
    simp only [iff_false_left hnot, hall, imp_false]
    exact ⟨fun h => ⟨h, fun _ => ⟨change, hmem, hcreate⟩⟩, fun h => h.1⟩
  · have hnone : ∀ change ∈ later, change.2.creates = false := by simpa using hcreates
    simp only [hcreates, imp_false]
    cases alive with
    | true =>
        obtain ⟨row, rfl, hnull⟩ := hlive₁.mpr rfl
        have hasOf := asOf_of_existed hlater hdated₂ hnone ⟨row, rfl, (hwritten row rfl).created, by simp [hnull]⟩
        refine ⟨fun _ => ⟨fun _ => hnone, fun hdeleted => ?_⟩, fun _ => iff_of_true hasOf rfl⟩
        obtain ⟨row', id, hrow', hid, _⟩ := hdead hdeleted
        obtain rfl := Option.some.inj hrow'
        rw [hnull] at hid
        cases hid
    | false =>
        rw [spanAfter_of_dead hpossible₂ hnone]
        simp only [Bool.false_eq_true, iff_false, false_implies, true_and]
        refine not_congr ⟨?_, fun hdeleted => ?_⟩
        · -- a dead row that is found was deleted in the version itself
          rintro ⟨row, rfl, _, hdeleted⟩
          cases hnull : row.deleted with
          | none => exact absurd (hlive₁.mp ⟨row, rfl, hnull⟩) Bool.false_ne_true
          | some id =>
              obtain ⟨change, hmem, hdeletes, hversion⟩ := (hwritten row rfl).deleted id hnull
              have hge := hdeleted change.1 (by rw [hnull, Option.bind_some, hversion]; rfl)
              exact ⟨change, hmem, Nat.le_antisymm (hn change hmem) hge, hdeletes⟩
        · obtain ⟨row, id, rfl, hid, hversion⟩ := hdead hdeleted
          refine ⟨row, rfl, (hwritten row rfl).created, fun d hd => ?_⟩
          rw [hid, Option.bind_some, hversion] at hd
          cases hd
          exact Nat.le_refl n

end AsOf

end ExplorerIndexer.Store

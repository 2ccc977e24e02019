import Mathlib.Data.List.Pairwise

/-! Partial unique indexes of a table, and inserts that ignore the rows which conflict. A null equals nothing, not
even another null, and an index says nothing about the rows that its `WHERE` does not cover. -/

namespace ExplorerIndexer.Store

variable {α ρ : Type}

/-- `=` on a nullable column, where unknown counts as false. -/
def sqlEq [DecidableEq α] (a b : Option α) : Bool :=
  match a, b with
  | some a, some b => a = b
  | _, _ => false

/-- `CREATE UNIQUE INDEX … ON … (columns) WHERE …`. -/
structure UniqueIndex (ρ : Type) where
  covers : ρ → Bool
  agree : ρ → ρ → Bool

/-- The index keeps the two rows from being stored both. -/
def UniqueIndex.conflict (index : UniqueIndex ρ) (a b : ρ) : Bool := index.covers a && index.covers b && index.agree a b

/-- The rows of a batch that `ON CONFLICT DO NOTHING` adds to those of the table. -/
def newRows (conflicting : ρ → ρ → Bool) : List ρ → List ρ → List ρ
  | [], _ => []
  | row :: batch, rows =>
      if rows.any (conflicting row) then newRows conflicting batch rows
      else row :: newRows conflicting batch (row :: rows)

/-- No two rows of the table conflict. -/
def Apart (conflicting : ρ → ρ → Bool) (rows : List ρ) : Prop := rows.Pairwise fun a b => conflicting a b = false

variable {conflicting : ρ → ρ → Bool} {batch rows : List ρ} {row : ρ}

/-- A batch adds nothing once each of its rows conflicts with one of the table. -/
theorem newRows_eq_nil (h : ∀ row ∈ batch, ∃ other ∈ rows, conflicting row other = true) :
    newRows conflicting batch rows = [] := by
  induction batch with
  | nil => rfl
  | cons first batch ih =>
      rw [newRows, if_pos (List.any_eq_true.mpr (h first List.mem_cons_self))]
      exact ih fun row hrow => h row (List.mem_cons_of_mem _ hrow)

theorem mem_of_mem_newRows (h : row ∈ newRows conflicting batch rows) : row ∈ batch := by
  induction batch generalizing rows with
  | nil => exact h
  | cons first batch ih =>
      rw [newRows] at h
      split at h
      · exact List.mem_cons_of_mem _ (ih h)
      · rcases List.mem_cons.mp h with rfl | h
        · exact List.mem_cons_self
        · exact List.mem_cons_of_mem _ (ih h)

/-- A row that would conflict with itself conflicts with a row of the table after the insert: it was added, or
another one was in its place. -/
theorem exists_conflicting (hrow : row ∈ batch) (hself : conflicting row row = true) :
    ∃ other ∈ rows ++ newRows conflicting batch rows, conflicting row other = true := by
  induction batch generalizing rows with
  | nil => exact (List.not_mem_nil hrow).elim
  | cons first batch ih =>
      rw [newRows]
      rcases List.mem_cons.mp hrow with rfl | hrow
      · split
        · rename_i hany
          obtain ⟨other, hother, hconflict⟩ := List.any_eq_true.mp hany
          exact ⟨other, List.mem_append_left _ hother, hconflict⟩
        · exact ⟨row, List.mem_append_right _ List.mem_cons_self, hself⟩
      · split
        · exact ih hrow
        · obtain ⟨other, hother, hconflict⟩ := @ih (first :: rows) hrow
          exact ⟨other, List.perm_middle.symm.mem_iff.mp hother, hconflict⟩

theorem apart_append_newRows (hsymm : ∀ a b, conflicting a b = conflicting b a) (h : Apart conflicting rows) :
    Apart conflicting (rows ++ newRows conflicting batch rows) := by
  induction batch generalizing rows with
  | nil =>
      rw [newRows, List.append_nil]
      exact h
  | cons first batch ih =>
      rw [newRows]
      split
      · exact ih h
      · rename_i hnone
        have hfirst : Apart conflicting (first :: rows) := List.pairwise_cons.mpr
          ⟨fun other hother => Bool.eq_false_iff.mpr fun heq => hnone (List.any_eq_true.mpr ⟨other, hother, heq⟩), h⟩
        refine (List.perm_middle.pairwise_iff ?_).mpr (ih hfirst)
        intro a b hab
        rw [hsymm, hab]

/-- In a table without conflicts at most one row is in the place of another. -/
theorem countP_le_one (hsymm : ∀ a b, conflicting a b = conflicting b a)
    (htrans : ∀ a b c, conflicting a b = true → conflicting b c = true → conflicting a c = true)
    (h : Apart conflicting rows) (row : ρ) : rows.countP (conflicting row) ≤ 1 := by
  induction rows with
  | nil => exact Nat.zero_le 1
  | cons first rows ih =>
      obtain ⟨hfirst, hrest⟩ := List.pairwise_cons.mp h
      rw [List.countP_cons]
      split
      · rename_i hconflict
        have hnone : rows.countP (conflicting row) = 0 := by
          refine List.countP_eq_zero.mpr fun other hother hconflict' => ?_
          have hother' := htrans first row other ((hsymm first row).trans hconflict) hconflict'
          rw [hfirst other hother] at hother'
          cases hother'
        omega
      · exact ih hrest

/-- Exactly one row is in the place of a row that was inserted. -/
theorem countP_eq_one (hsymm : ∀ a b, conflicting a b = conflicting b a)
    (htrans : ∀ a b c, conflicting a b = true → conflicting b c = true → conflicting a c = true)
    (h : Apart conflicting rows) (hrow : ∃ other ∈ rows, conflicting row other = true) :
    rows.countP (conflicting row) = 1 := by
  have hle := countP_le_one hsymm htrans h row
  have hpos := List.countP_pos_iff.mpr hrow
  omega

end ExplorerIndexer.Store

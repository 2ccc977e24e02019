import ExplorerIndexer.AsyncOutline
import ExplorerIndexer.Database

/-! Proof outlines of the statements: what a task knows after an insert, a query or a critical section. -/

namespace ExplorerIndexer

open Async Store Models

variable {total : Prop} {rely guarantee : World → World → Prop} {P : World → Prop}

theorem outline_withCache {β : Type} {act : ReceiptsCache → β × ReceiptsCache} {M : β → World → Prop}
    (hact : ∀ w, P w → guarantee w { w with cache := (act w.cache).2 } ∧
      M (act w.cache).1 { w with cache := (act w.cache).2 })
    (hstable : ∀ b, Stable rely (M b)) : Outline total rely guarantee P (withCache act) M :=
  .access hact hstable fun _ => .ret fun _ h => h

/-- A critical section that only changes the cache. -/
theorem outline_updateCache {act : ReceiptsCache → ReceiptsCache} {M : World → Prop}
    (hact : ∀ w, P w → guarantee w { w with cache := act w.cache } ∧ M { w with cache := act w.cache })
    (hstable : Stable rely M) :
    Outline total rely guarantee P (withCache fun cache => ((), act cache)) fun _ => M :=
  outline_withCache hact fun _ => hstable

/-- An insert is done once the rows it adds violate no foreign key. -/
theorem outline_insert {κ ρ : Type} [DecidableEq κ] {key : ρ → κ} {table : Database → Table κ ρ}
    {store : Database → Table κ ρ → Database} {references : Database → ρ → Option String} {batch : List ρ}
    {M : World → Prop} {n : Nat}
    (hrefs : total → ∀ w, P w → ∀ row ∈ Table.inserted key batch (table w.db), references w.db row = none)
    (hinsert : ∀ w, P w → (∀ row ∈ Table.inserted key batch (table w.db), references w.db row = none) →
      guarantee w { w with db := store w.db ((table w.db).insertAllNew key batch) } ∧
        M { w with db := store w.db ((table w.db).insertAllNew key batch) })
    (hstable : Stable rely M) :
    Outline total rely guarantee P
      (awaitRetryOrPanic (execute (insertBatch key table store references batch)) (n + 1)) fun _ => M := by
  refine .query (M := fun _ => M) ?_ ?_ ?_ (fun _ => hstable) fun _ => .ret fun _ h => h
  · intro w b w' hw hok
    obtain ⟨db, hdb, rfl⟩ := execute_ok hok
    obtain ⟨rfl, hnone⟩ := insertBatch_ok hdb
    exact hinsert w hw hnone
  · intro w error _ _ hhandled
    cases hhandled
  · refine fun htotal => ⟨by simp, fun w hw => ?_⟩
    unfold execute
    rw [insertBatch_of_references (hrefs htotal w hw)]
    exact ⟨_, rfl⟩

/-- A query reads the database at some moment, and its rows come in any order. -/
theorem outline_rows {α ρ : Type} {attempts : Option Nat} {read : Database → List ρ} {next : List ρ → α}
    {M : α → World → Prop}
    (hread : ∀ w, P w → guarantee w w ∧ ∀ rows, rows.Perm (read w.db) → M (next rows) w)
    (hstable : ∀ value, Stable rely (M value)) :
    Outline False rely guarantee P
      (.query attempts (selectFrom read) (fun _ => false) fun rows =>
        .anyOrder (rows.getD []) fun rows => .ret (next rows)) M := by
  refine .query (M := fun rows w => ∀ rows', rows'.Perm (rows.getD []) → M (next rows') w) ?_ ?_ False.elim ?_
    fun rows => .anyOrder fun rows' hperm => .ret fun w hw => hw rows' hperm
  · intro w rows w' hw hok
    obtain ⟨rfl, rfl⟩ := selectFrom_ok hok
    exact hread _ hw
  · intro w error _ _ hhandled
    cases hhandled
  · exact fun rows w w' hw hstep rows' hperm => hstable _ w w' (hw rows' hperm) hstep

end ExplorerIndexer

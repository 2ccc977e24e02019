import ExplorerIndexer.StoreTable

/-! Stores of several keyed tables with references between their rows. Rows are only added: a batch leaves the rows
that are there alone, and it is refused if a row that it adds refers to something that is not there. -/

namespace ExplorerIndexer.Store

/-- Some tables of a store, by their names. -/
structure Tables (Name σ : Type) where
  Key : Name → Type
  Row : Name → Type
  decEqKey : ∀ name, DecidableEq (Key name)
  key : ∀ name, Row name → Key name
  get : ∀ name, σ → Table (Key name) (Row name)
  set : ∀ name, σ → Table (Key name) (Row name) → σ
  get_set : ∀ name s t, get name (set name s t) = t
  get_set_of_ne : ∀ name name' s t, name' ≠ name → get name' (set name s t) = get name' s

namespace Tables

variable {Name σ : Type} (T : Tables Name σ)

instance (name : Name) : DecidableEq (T.Key name) := T.decEqKey name

/-- Every row stays as it is. -/
def Extends (s t : σ) : Prop :=
  ∀ name k row, (T.get name s).lookup k = some row → (T.get name t).lookup k = some row

/-- The tables are the same; the rest of the store may differ. -/
def Same (s t : σ) : Prop := ∀ name, T.get name t = T.get name s

/-- `INSERT … ON CONFLICT DO NOTHING` -/
def insert (name : Name) (batch : List (T.Row name)) (s : σ) : σ :=
  T.set name s ((T.get name s).insertAllNew (T.key name) batch)

variable {T} {s t u : σ}

theorem Extends.refl (s : σ) : T.Extends s s := fun _ _ _ h => h

theorem Extends.trans (hst : T.Extends s t) (htu : T.Extends t u) : T.Extends s u :=
  fun name k row h => htu name k row (hst name k row h)

theorem Same.extends (h : T.Same s t) : T.Extends s t := fun name k row hrow => by rwa [h name]

theorem Extends.mem (h : T.Extends s t) {name : Name} {k : T.Key name} (hk : k ∈ T.get name s) : k ∈ T.get name t :=
  Table.mem_mono (h name) hk

theorem get_insert (name : Name) (batch : List (T.Row name)) (s : σ) :
    T.get name (T.insert name batch s) = (T.get name s).insertAllNew (T.key name) batch := T.get_set _ _ _

theorem get_insert_of_ne {name name' : Name} (hne : name' ≠ name) (batch : List (T.Row name)) (s : σ) :
    T.get name' (T.insert name batch s) = T.get name' s := T.get_set_of_ne _ _ _ _ hne

theorem extends_insert (name : Name) (batch : List (T.Row name)) (s : σ) : T.Extends s (T.insert name batch s) := by
  intro name' k row hrow
  by_cases hname : name' = name
  · subst hname
    rw [get_insert]
    exact Table.lookup_insertAllNew_of_some hrow
  · rwa [get_insert_of_ne hname]

/-- A batch has a row under each of its keys afterwards. -/
theorem mem_insert {name : Name} {batch : List (T.Row name)} {row : T.Row name} (hrow : row ∈ batch) (s : σ) :
    T.key name row ∈ T.get name (T.insert name batch s) := by
  rw [get_insert]
  exact Table.mem_insertAllNew.mpr (.inr ⟨row, hrow, rfl⟩)

/-! ### Where rows come from -/

/-- Every row is under its own key and has a source. -/
def Sourced (T : Tables Name σ) (source : ∀ name, σ → T.Row name → Prop) (s : σ) : Prop :=
  ∀ name k row, (T.get name s).lookup k = some row → T.key name row = k ∧ source name s row

/-- What is a source of a row stays one while rows are added. -/
def Lasting (T : Tables Name σ) (source : ∀ name, σ → T.Row name → Prop) : Prop :=
  ∀ s t name row, T.Extends s t → source name s row → source name t row

section Sources

variable {source : ∀ name, σ → T.Row name → Prop} (hlasting : T.Lasting source)

include hlasting

theorem Sourced.same (h : T.Sourced source s) (hsame : T.Same s t) : T.Sourced source t := by
  intro name k row hrow
  rw [hsame name] at hrow
  exact (h name k row hrow).imp_right (hlasting s t name row hsame.extends)

theorem Sourced.insert (h : T.Sourced source s) {name : Name} {batch : List (T.Row name)}
    (hbatch : ∀ row ∈ batch, source name s row) : T.Sourced source (T.insert name batch s) := by
  have hextends := extends_insert name batch s
  intro name' k row hrow
  by_cases hname : name' = name
  · subst hname
    rw [get_insert] at hrow
    rcases Table.mem_of_lookup_insertAllNew hrow with hold | ⟨_, hnew, hkey⟩
    · exact (h name' k row hold).imp_right (hlasting _ _ _ _ hextends)
    · exact ⟨hkey, hlasting _ _ _ _ hextends (hbatch row hnew)⟩
  · rw [get_insert_of_ne hname] at hrow
    exact (h name' k row hrow).imp_right (hlasting _ _ _ _ hextends)

omit hlasting in
/-- If the sources of a table tell its rows by their keys, a row with a source is stored as soon as its key is. -/
theorem Sourced.lookup (h : T.Sourced source s) {name : Name} {row : T.Row name}
    (htell : ∀ row', source name s row' → T.key name row' = T.key name row → row' = row)
    (hmem : T.key name row ∈ T.get name s) : (T.get name s).lookup (T.key name row) = some row := by
  obtain ⟨row', hrow'⟩ := Table.mem_iff_lookup.mp hmem
  obtain ⟨hkey, hsource⟩ := h name _ row' hrow'
  obtain rfl := htell row' hsource hkey
  exact hrow'

end Sources

end Tables

/-! ### References -/

/-- Tables whose rows refer to each other: the constraint that a row breaks, if any. Rows that are added break no
constraint. -/
structure Schema (Name σ : Type) extends Tables Name σ where
  broken : ∀ name, σ → Row name → Option String
  broken_extends : ∀ s t name row, toTables.Extends s t → broken name s row = none → broken name t row = none

namespace Schema

variable {Name σ : Type} {S : Schema Name σ} {s t : σ}

/-- No row breaks a constraint. -/
def Consistent (S : Schema Name σ) (s : σ) : Prop :=
  ∀ name k row, (S.get name s).lookup k = some row → S.broken name s row = none

/-- The rows that a batch adds break no constraint. -/
def Admits (S : Schema Name σ) (name : Name) (batch : List (S.Row name)) (s : σ) : Prop :=
  ∀ row ∈ Table.inserted (S.key name) batch (S.get name s), S.broken name s row = none

theorem Consistent.same (h : S.Consistent s) (hsame : S.Same s t) : S.Consistent t := by
  intro name k row hrow
  rw [hsame name] at hrow
  exact S.broken_extends s t name row hsame.extends (h name k row hrow)

theorem Consistent.insert (h : S.Consistent s) {name : Name} {batch : List (S.Row name)}
    (hadmits : S.Admits name batch s) : S.Consistent (S.insert name batch s) := by
  have hextends := Tables.extends_insert (T := S.toTables) name batch s
  intro name' k row hrow
  by_cases hname : name' = name
  · subst hname
    rw [Tables.get_insert] at hrow
    rcases Table.lookup_or_inserted hrow with hold | hnew
    · exact S.broken_extends _ _ _ _ hextends (h name' k row hold)
    · exact S.broken_extends _ _ _ _ hextends (hadmits row hnew)
  · rw [Tables.get_insert_of_ne hname] at hrow
    exact S.broken_extends _ _ _ _ hextends (h name' k row hrow)

/-- A step of the store: a batch of rows with sources is added, or the tables are left alone. -/
inductive Step (S : Schema Name σ) (source : ∀ name, σ → S.Row name → Prop) : σ → σ → Prop
  | insert {name : Name} {batch : List (S.Row name)} {s : σ} (hsource : ∀ row ∈ batch, source name s row)
      (hadmits : S.Admits name batch s) : Step S source s (S.insert name batch s)
  | aside {s t : σ} (hsame : S.Same s t) : Step S source s t

variable {source : ∀ name, σ → S.Row name → Prop}

theorem Step.extends (h : S.Step source s t) : S.Extends s t := by
  cases h with
  | insert _ _ => exact Tables.extends_insert _ _ _
  | aside hsame => exact hsame.extends

theorem Step.consistent (h : S.Step source s t) (hs : S.Consistent s) : S.Consistent t := by
  cases h with
  | insert _ hadmits => exact hs.insert hadmits
  | aside hsame => exact hs.same hsame

theorem Step.sourced (h : S.Step source s t) (hlasting : S.Lasting source) (hs : S.Sourced source s) :
    S.Sourced source t := by
  cases h with
  | insert hsource _ => exact hs.insert hlasting hsource
  | aside hsame => exact hs.same hlasting hsame

end Schema

end ExplorerIndexer.Store

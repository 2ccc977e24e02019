import Mathlib.Data.List.AList

/-! Keyed tables: finite maps from keys to rows, with the operations of a hash map and of an SQL table
with a primary key. Two tables with the same content may list their rows in different orders, so
tables are compared by `lookup`. -/

namespace ExplorerIndexer.Store

/-- A finite map from keys to rows, at most one row for each key. -/
abbrev Table (κ ρ : Type) := AList fun _ : κ => ρ

namespace Table

variable {κ ρ : Type} [DecidableEq κ]

def rows (t : Table κ ρ) : List ρ := t.entries.map Sigma.snd

omit [DecidableEq κ] in
theorem mem_rows {t : Table κ ρ} {r : ρ} : r ∈ t.rows ↔ ∃ k, ⟨k, r⟩ ∈ t.entries := by
  simp only [rows, List.mem_map]
  constructor
  · rintro ⟨⟨k, r'⟩, hmem, rfl⟩
    exact ⟨k, hmem⟩
  · rintro ⟨k, hmem⟩
    exact ⟨⟨k, r⟩, hmem, rfl⟩

theorem mem_rows_iff_lookup {t : Table κ ρ} {r : ρ} : r ∈ t.rows ↔ ∃ k, t.lookup k = some r := by
  simp only [mem_rows, ← Option.mem_def, AList.mem_lookup_iff]

theorem mem_iff_lookup {t : Table κ ρ} {k : κ} : k ∈ t ↔ ∃ r, t.lookup k = some r := by
  rw [← AList.lookup_isSome, Option.isSome_iff_exists]

section Grows

variable {t t' : Table κ ρ} (hgrows : ∀ k r, t.lookup k = some r → t'.lookup k = some r)

include hgrows

theorem mem_rows_mono {r : ρ} (hr : r ∈ t.rows) : r ∈ t'.rows := by
  obtain ⟨k, hk⟩ := mem_rows_iff_lookup.mp hr
  exact mem_rows_iff_lookup.mpr ⟨k, hgrows k r hk⟩

theorem mem_mono {k : κ} (hk : k ∈ t) : k ∈ t' := by
  obtain ⟨r, hr⟩ := mem_iff_lookup.mp hk
  exact mem_iff_lookup.mpr ⟨r, hgrows k r hr⟩

end Grows

/-- A column that tells the keys apart has no value twice. -/
theorem nodup_map_rows {γ : Type} {t : Table κ ρ} {column : ρ → γ}
    (h : ∀ k k' r r', t.lookup k = some r → t.lookup k' = some r' → column r = column r' → k = k') :
    (t.rows.map column).Nodup := by
  rw [rows, List.map_map]
  refine List.Nodup.map_on ?_ t.nodupKeys.nodup
  rintro ⟨k, r⟩ hmem ⟨k', r'⟩ hmem' heq
  have hlookup := Option.mem_def.mp (AList.mem_lookup_iff.mpr hmem)
  have hlookup' := Option.mem_def.mp (AList.mem_lookup_iff.mpr hmem')
  obtain rfl := h k k' r r' hlookup hlookup' heq
  rw [Option.some.inj (hlookup.symm.trans hlookup')]

/-- Every row is under its own key. -/
def Keyed (key : ρ → κ) (t : Table κ ρ) : Prop := ∀ k r, t.lookup k = some r → key r = k

section Keyed

variable {key : ρ → κ} {t : Table κ ρ} {values : List ρ}

theorem mem_of_lookup (hvalues : values.Perm t.rows) {k : κ} {r : ρ} (h : t.lookup k = some r) : r ∈ values :=
  hvalues.mem_iff.mpr (mem_rows_iff_lookup.mpr ⟨k, h⟩)

theorem Keyed.lookup_of_mem (hkeyed : t.Keyed key) (hvalues : values.Perm t.rows) {r : ρ} (hr : r ∈ values) :
    t.lookup (key r) = some r := by
  obtain ⟨k, hk⟩ := mem_rows_iff_lookup.mp (hvalues.mem_iff.mp hr)
  rwa [hkeyed k r hk]

/-- Searching some of the rows for a key is looking the key up. -/
theorem Keyed.find?_filter (hkeyed : t.Keyed key) (hvalues : values.Perm t.rows) (p : ρ → Bool) (k : κ) :
    (values.filter p).find? (fun r => decide (key r = k)) = (t.lookup k).filter p := by
  ext r
  rw [Option.filter_eq_some_iff]
  constructor
  · intro hfind
    obtain ⟨hmem, hp⟩ := List.mem_filter.mp (List.mem_of_find?_eq_some hfind)
    have hkey : key r = k := by simpa using List.find?_some hfind
    exact ⟨hkey ▸ hkeyed.lookup_of_mem hvalues hmem, hp⟩
  · rintro ⟨hlookup, hp⟩
    have hmem : r ∈ values.filter p := List.mem_filter.mpr ⟨mem_of_lookup hvalues hlookup, hp⟩
    obtain ⟨found, hfound⟩ := Option.isSome_iff_exists.mp
      (List.find?_isSome (p := fun r => decide (key r = k)).mpr ⟨r, hmem, decide_eq_true (hkeyed k r hlookup)⟩)
    have hkey : key found = k := by simpa using List.find?_some hfound
    have hsame := hkeyed.lookup_of_mem hvalues (List.mem_filter.mp (List.mem_of_find?_eq_some hfound)).1
    rw [hkey, hlookup] at hsame
    rwa [Option.some.inj hsame]

end Keyed

/-- `INSERT … ON CONFLICT DO NOTHING` for one row. -/
def insertNew (k : κ) (r : ρ) (t : Table κ ρ) : Table κ ρ := if k ∈ t then t else t.insert k r

theorem lookup_insertNew (k k' : κ) (r : ρ) (t : Table κ ρ) :
    (t.insertNew k r).lookup k' = if k' = k then (t.lookup k).or (some r) else t.lookup k' := by
  unfold insertNew
  by_cases hmem : k ∈ t
  · rw [if_pos hmem]
    obtain ⟨r', hr'⟩ := Option.isSome_iff_exists.mp (AList.lookup_isSome.mpr hmem)
    split
    · rename_i hk
      rw [hk, hr', Option.some_or]
    · rfl
  · rw [if_neg hmem]
    split
    · rename_i hk
      rw [hk, AList.lookup_insert, AList.lookup_eq_none.mpr hmem, Option.none_or]
    · rename_i hk
      exact AList.lookup_insert_ne hk

/-- `INSERT … ON CONFLICT DO NOTHING` for a batch, row by row. -/
def insertAllNew (key : ρ → κ) (batch : List ρ) (t : Table κ ρ) : Table κ ρ :=
  batch.foldl (fun t r => t.insertNew (key r) r) t

/-- A batch keeps the rows that exist and adds, for every other key, its first row of the batch. -/
theorem lookup_insertAllNew (key : ρ → κ) (batch : List ρ) (t : Table κ ρ) (k : κ) :
    (t.insertAllNew key batch).lookup k =
      (t.lookup k).or (batch.find? fun r => decide (key r = k)) := by
  induction batch generalizing t with
  | nil => simp [insertAllNew]
  | cons r batch ih =>
      show ((t.insertNew (key r) r).insertAllNew key batch).lookup k = _
      rw [ih, lookup_insertNew, List.find?_cons]
      by_cases hk : key r = k
      · subst hk
        simp
      · simp [hk, Ne.symm hk]

theorem lookup_insertAllNew_of_some {key : ρ → κ} {batch : List ρ} {t : Table κ ρ} {k : κ} {r : ρ}
    (h : t.lookup k = some r) : (t.insertAllNew key batch).lookup k = some r := by
  rw [lookup_insertAllNew, h, Option.some_or]

/-- Every row of a batch has its key in the table afterwards. -/
theorem lookup_insertAllNew_of_mem {key : ρ → κ} {batch : List ρ} {r : ρ} (hr : r ∈ batch)
    (t : Table κ ρ) : ∃ r', (t.insertAllNew key batch).lookup (key r) = some r' := by
  rw [lookup_insertAllNew]
  cases t.lookup (key r) with
  | some r' => exact ⟨r', Option.some_or⟩
  | none =>
      rw [Option.none_or]
      exact Option.isSome_iff_exists.mp (List.find?_isSome.mpr ⟨r, hr, by simp⟩)

/-- What a batch leaves under a key was there before or is a row of the batch. -/
theorem mem_of_lookup_insertAllNew {key : ρ → κ} {batch : List ρ} {t : Table κ ρ} {k : κ} {r : ρ}
    (h : (t.insertAllNew key batch).lookup k = some r) :
    t.lookup k = some r ∨ (t.lookup k = none ∧ r ∈ batch ∧ key r = k) := by
  rw [lookup_insertAllNew] at h
  cases hk : t.lookup k with
  | some r' =>
      rw [hk, Option.some_or] at h
      exact .inl h
  | none =>
      rw [hk, Option.none_or] at h
      exact .inr ⟨rfl, List.mem_of_find?_eq_some h, by simpa using List.find?_some h⟩

theorem mem_insertAllNew {key : ρ → κ} {batch : List ρ} {t : Table κ ρ} {k : κ} :
    k ∈ t.insertAllNew key batch ↔ k ∈ t ∨ ∃ r ∈ batch, key r = k := by
  rw [← AList.lookup_isSome, lookup_insertAllNew, Option.isSome_or, Bool.or_eq_true, AList.lookup_isSome,
    List.find?_isSome]
  simp only [decide_eq_true_eq]

theorem insertAllNew_append (key : ρ → κ) (batch batch' : List ρ) (t : Table κ ρ) :
    t.insertAllNew key (batch ++ batch') = (t.insertAllNew key batch).insertAllNew key batch' := List.foldl_append

/-- A batch whose keys are all there changes nothing. -/
theorem insertAllNew_of_forall_mem {key : ρ → κ} {batch : List ρ} {t : Table κ ρ} (h : ∀ r ∈ batch, key r ∈ t) :
    t.insertAllNew key batch = t := by
  induction batch with
  | nil => rfl
  | cons r batch ih =>
      show (t.insertNew (key r) r).insertAllNew key batch = t
      rw [insertNew, if_pos (h r List.mem_cons_self)]
      exact ih fun r' hr' => h r' (List.mem_cons_of_mem _ hr')

theorem insertAllNew_resume {key : ρ → κ} {done batch : List ρ} (h : done <+: batch) (t : Table κ ρ) :
    (t.insertAllNew key done).insertAllNew key batch = t.insertAllNew key batch := by
  obtain ⟨rest, rfl⟩ := h
  have hsame : (t.insertAllNew key done).insertAllNew key done = t.insertAllNew key done :=
    insertAllNew_of_forall_mem fun r hr => mem_insertAllNew.mpr (.inr ⟨r, hr, rfl⟩)
  rw [insertAllNew_append, hsame, insertAllNew_append]

theorem insertAllNew_repeated {key : ρ → κ} {done batch : List ρ} (h : done <+: batch) (t : Table κ ρ) :
    (t.insertAllNew key batch).insertAllNew key done = t.insertAllNew key batch :=
  insertAllNew_of_forall_mem fun r hr => mem_insertAllNew.mpr (.inr ⟨r, h.subset hr, rfl⟩)

/-- The rows of a batch that find no row under their key and are inserted. -/
def inserted (key : ρ → κ) : List ρ → Table κ ρ → List ρ
  | [], _ => []
  | r :: batch, t => if key r ∈ t then inserted key batch t else r :: inserted key batch (t.insert (key r) r)

theorem mem_inserted {key : ρ → κ} {batch : List ρ} {t : Table κ ρ} {r : ρ}
    (h : r ∈ inserted key batch t) : r ∈ batch ∧ key r ∉ t := by
  induction batch generalizing t with
  | nil => cases h
  | cons r' batch ih =>
      rw [inserted] at h
      split at h
      · exact ⟨List.mem_cons_of_mem _ (ih h).1, (ih h).2⟩
      · rename_i hnot
        rcases List.mem_cons.mp h with rfl | h
        · exact ⟨List.mem_cons_self, hnot⟩
        · refine ⟨List.mem_cons_of_mem _ (ih h).1, fun hmem => (ih h).2 ?_⟩
          exact AList.mem_insert _ |>.mpr (.inr hmem)

/-- For a key that is not in the table, the first row of the batch under it is inserted. -/
theorem exists_inserted {key : ρ → κ} {batch : List ρ} {t : Table κ ρ} {r : ρ} (hr : r ∈ batch)
    (hnot : key r ∉ t) : ∃ r' ∈ inserted key batch t, key r' = key r := by
  induction batch generalizing t with
  | nil => cases hr
  | cons r' batch ih =>
      rw [inserted]
      by_cases hkey : key r' = key r
      · rw [if_neg (hkey ▸ hnot)]
        exact ⟨r', List.mem_cons_self, hkey⟩
      · have hr' : r ∈ batch := (List.mem_cons.mp hr).resolve_left fun h => hkey (h ▸ rfl)
        split
        · exact ih hr' hnot
        · obtain ⟨r'', hmem, hk⟩ := ih (t := t.insert (key r') r') hr' fun hmem =>
            ((AList.mem_insert _).mp hmem).elim (fun h => hkey h.symm) hnot
          exact ⟨r'', List.mem_cons_of_mem _ hmem, hk⟩

/-- `UPDATE … SET … WHERE …` for a change that leaves the keys alone. -/
def updateWhere (p : κ → ρ → Bool) (f : ρ → ρ) (t : Table κ ρ) : Table κ ρ :=
  ⟨t.entries.map (Sigma.map id fun k r => if p k r then f r else r),
    List.NodupKeys.map₂ _ _ t.nodupKeys⟩

theorem lookup_updateWhere (p : κ → ρ → Bool) (f : ρ → ρ) (t : Table κ ρ) (k : κ) :
    (t.updateWhere p f).lookup k = (t.lookup k).map fun r => if p k r then f r else r :=
  List.dlookup_map₂ k

/-- `entry(k).and_modify(f).or_insert_with(r)` of a hash map. -/
def modifyOr (k : κ) (f : ρ → ρ) (r : ρ) (t : Table κ ρ) : Table κ ρ :=
  match t.lookup k with
  | some r' => t.insert k (f r')
  | none => t.insert k r

theorem lookup_modifyOr (k k' : κ) (f : ρ → ρ) (r : ρ) (t : Table κ ρ) :
    (t.modifyOr k f r).lookup k' =
      if k' = k then some (((t.lookup k).map f).getD r) else t.lookup k' := by
  unfold modifyOr
  by_cases hk : k' = k
  · subst hk
    cases t.lookup k' <;> simp
  · cases t.lookup k <;> simp [hk]

theorem lookup_insert' (k k' : κ) (r : ρ) (t : Table κ ρ) :
    AList.lookup k' (AList.insert k r t) = if k' = k then some r else t.lookup k' := by
  by_cases hk : k' = k
  · rw [if_pos hk, hk, AList.lookup_insert]
  · rw [if_neg hk, AList.lookup_insert_ne hk]

/-- A row that a batch leaves under a key was there before or is one of the rows that are inserted. -/
theorem lookup_or_inserted {key : ρ → κ} {batch : List ρ} {t : Table κ ρ} {k : κ} {r : ρ}
    (h : (t.insertAllNew key batch).lookup k = some r) : t.lookup k = some r ∨ r ∈ inserted key batch t := by
  induction batch generalizing t with
  | nil => exact .inl h
  | cons r' batch ih =>
      rw [inserted]
      replace h : ((t.insertNew (key r') r').insertAllNew key batch).lookup k = some r := h
      by_cases hmem : key r' ∈ t
      · rw [if_pos hmem]
        rw [insertNew, if_pos hmem] at h
        exact ih h
      · rw [if_neg hmem]
        rw [insertNew, if_neg hmem] at h
        rcases ih h with hold | hnew
        · rw [lookup_insert'] at hold
          split at hold
          · cases hold
            exact .inr List.mem_cons_self
          · exact .inl hold
        · exact .inr (List.mem_cons_of_mem _ hnew)

/-- Inserting entries one after the other, the last one under a key stays. -/
theorem lookup_foldl_insert {ε : Type} (key : ε → κ) (value : ε → ρ) (entries : List ε) (t : Table κ ρ) (k : κ) :
    (entries.foldl (fun t e => t.insert (key e) (value e)) t).lookup k =
      ((entries.reverse.find? fun e => decide (key e = k)).map value).or (t.lookup k) := by
  induction entries generalizing t with
  | nil => rfl
  | cons e entries ih =>
      rw [List.foldl_cons, ih, lookup_insert', List.reverse_cons, List.find?_append]
      cases entries.reverse.find? fun e => decide (key e = k) with
      | some e' => rfl
      | none =>
          by_cases hk : key e = k
          · simp [hk]
          · simp [hk, Ne.symm hk]

theorem lookup_foldl_insert_of_ne {ε : Type} {key : ε → κ} {value : ε → ρ} {entries : List ε} {t : Table κ ρ} {k : κ}
    (h : ∀ e ∈ entries, key e ≠ k) :
    (entries.foldl (fun t e => t.insert (key e) (value e)) t).lookup k = t.lookup k := by
  have hnone : (entries.reverse.find? fun e => decide (key e = k)) = none :=
    List.find?_eq_none.mpr fun e he => by simpa using h e (List.mem_reverse.mp he)
  rw [lookup_foldl_insert, hnone, Option.map_none, Option.none_or]

theorem of_lookup_foldl_insert {ε : Type} {key : ε → κ} {value : ε → ρ} {entries : List ε} {t : Table κ ρ} {k : κ}
    {r : ρ} (h : (entries.foldl (fun t e => t.insert (key e) (value e)) t).lookup k = some r) :
    (∃ e ∈ entries, key e = k ∧ value e = r) ∨ t.lookup k = some r := by
  rw [lookup_foldl_insert, Option.or_eq_some_iff] at h
  rcases h with h | ⟨_, h⟩
  · obtain ⟨e, hfind, hvalue⟩ := Option.map_eq_some_iff.mp h
    have hkey := List.find?_some hfind
    exact .inl ⟨e, List.mem_reverse.mp (List.mem_of_find?_eq_some hfind), of_decide_eq_true hkey, hvalue⟩
  · exact .inr h

/-- A key is there once an entry was inserted under it. -/
theorem mem_foldl_insert {ε : Type} {key : ε → κ} {value : ε → ρ} {entries : List ε} {t : Table κ ρ} {k : κ} :
    k ∈ entries.foldl (fun t e => t.insert (key e) (value e)) t ↔ (∃ e ∈ entries, key e = k) ∨ k ∈ t := by
  rw [← AList.lookup_isSome, lookup_foldl_insert, Option.isSome_or, Bool.or_eq_true, Option.isSome_map,
    List.find?_isSome, AList.lookup_isSome]
  simp only [List.mem_reverse, decide_eq_true_eq]

/-! ### Parts of items -/

/-- A table of the parts of some items, each under its item and its position: the rows of an item are its parts, in
order and without a gap, and there are no others. -/
theorem lookup_parts {ι ε : Type} {key : ρ → κ × Nat} {items : List ι} {id : ι → κ} {parts : ι → List ε}
    {row : ι → ε × Nat → ρ} {t : Table (κ × Nat) ρ} (hid : (items.map id).Nodup)
    (hkey : ∀ item part, key (row item part) = (id item, part.2))
    (ht : ∀ k r, t.lookup k = some r ↔ key r = k ∧ r ∈ items.flatMap fun item => (parts item).zipIdx.map (row item))
    {item : ι} (hitem : item ∈ items) (i : Nat) :
    t.lookup (id item, i) = (parts item)[i]?.map fun part => row item (part, i) := by
  have hmem : ∀ part, (parts item)[i]? = some part → t.lookup (id item, i) = some (row item (part, i)) := by
    intro part hpart
    refine (ht _ _).mpr ⟨hkey item (part, i), List.mem_flatMap.mpr ⟨item, hitem, ?_⟩⟩
    exact List.mem_map_of_mem (List.mk_mem_zipIdx_iff_getElem?.mpr hpart)
  cases hpart : (parts item)[i]? with
  | some part => exact hmem part hpart
  | none =>
      rw [Option.map_none]
      refine Option.eq_none_iff_forall_ne_some.mpr fun r hr => ?_
      obtain ⟨hrow, hr⟩ := (ht _ _).mp hr
      obtain ⟨item', hitem', hr⟩ := List.mem_flatMap.mp hr
      obtain ⟨⟨part, j⟩, hpart', rfl⟩ := List.mem_map.mp hr
      rw [hkey] at hrow
      obtain ⟨hsame, rfl⟩ := Prod.mk.injEq .. ▸ hrow
      obtain rfl := List.inj_on_of_nodup_map hid hitem' hitem hsame
      rw [List.mk_mem_zipIdx_iff_getElem?, hpart] at hpart'
      cases hpart'

end Table

end ExplorerIndexer.Store

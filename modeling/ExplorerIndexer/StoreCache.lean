import ExplorerIndexer.StoreTable

/-! A bounded cache: a table that lists its most recently used entry first, with a policy that names
the keys a new entry drives out. What the cache answers under a key it still holds does not depend on
the policy. -/

namespace ExplorerIndexer.Store

structure SizedCache (κ ν : Type) where
  entries : Table κ ν
  /-- The keys driven out of this content by an entry set under this key. -/
  evicts : Table κ ν → κ → List κ

namespace SizedCache

variable {κ ν : Type} [DecidableEq κ]

def lookup (c : SizedCache κ ν) (k : κ) : Option ν := c.entries.lookup k

/-- At `size` entries, a new one drives out the entry that was not used for the longest time. -/
def withSize (size : Nat) : SizedCache κ ν where
  entries := ∅
  evicts content _ := if content.keys.length < size then [] else content.keys.getLast?.toList

def cacheGet (k : κ) (c : SizedCache κ ν) : Option ν × SizedCache κ ν :=
  match c.lookup k with
  | some v => (some v, { c with entries := c.entries.insert k v })
  | none => (none, c)

def cacheSet (k : κ) (v : ν) (c : SizedCache κ ν) : SizedCache κ ν :=
  { c with entries := ((c.evicts c.entries k).foldl (fun t k' => t.erase k') c.entries).insert k v }

def cacheRemove (k : κ) (c : SizedCache κ ν) : Option ν × SizedCache κ ν :=
  (c.lookup k, { c with entries := c.entries.erase k })

@[simp] theorem cacheGet_fst (k : κ) (c : SizedCache κ ν) : (c.cacheGet k).1 = c.lookup k := by
  unfold cacheGet
  cases c.lookup k <;> rfl

@[simp] theorem lookup_cacheGet (k k' : κ) (c : SizedCache κ ν) :
    (c.cacheGet k).2.lookup k' = c.lookup k' := by
  unfold cacheGet
  cases hk : c.lookup k with
  | none => rfl
  | some v =>
      show (AList.insert k v c.entries).lookup k' = c.entries.lookup k'
      rw [Table.lookup_insert']
      split
      · rename_i heq
        rw [heq]
        exact hk.symm
      · rfl

@[simp] theorem lookup_cacheSet (k : κ) (v : ν) (c : SizedCache κ ν) :
    (c.cacheSet k v).lookup k = some v := AList.lookup_insert _

theorem lookup_foldl_erase {keys : List κ} {t : Table κ ν} {k : κ} {v : ν}
    (h : (keys.foldl (fun t k' => t.erase k') t).lookup k = some v) : t.lookup k = some v := by
  induction keys generalizing t with
  | nil => exact h
  | cons k' keys ih =>
      have herase := ih h
      by_cases hk : k = k'
      · rw [hk, AList.lookup_erase] at herase
        cases herase
      · rwa [AList.lookup_erase_ne hk] at herase

/-- An entry found after a `cache_set` is the new one or was there before. -/
theorem of_lookup_cacheSet {k k' : κ} {v w : ν} {c : SizedCache κ ν}
    (h : (c.cacheSet k v).lookup k' = some w) :
    (k' = k ∧ w = v) ∨ (k' ≠ k ∧ c.lookup k' = some w) := by
  unfold lookup cacheSet at h
  rw [Table.lookup_insert'] at h
  split at h
  · rename_i hk
    exact .inl ⟨hk, (Option.some.inj h).symm⟩
  · rename_i hk
    exact .inr ⟨hk, lookup_foldl_erase h⟩

/-- After a series of `cache_set`, an entry is one of the new ones or was there before. -/
theorem of_lookup_foldl_cacheSet {ε : Type} {key : ε → κ} {value : ε → ν} {items : List ε} {c : SizedCache κ ν}
    {k : κ} {v : ν} (h : (items.foldl (fun c e => c.cacheSet (key e) (value e)) c).lookup k = some v) :
    (∃ e ∈ items, key e = k ∧ value e = v) ∨ ((∀ e ∈ items, key e ≠ k) ∧ c.lookup k = some v) := by
  induction items generalizing c with
  | nil => exact .inr ⟨fun e he => (List.not_mem_nil he).elim, h⟩
  | cons e items ih =>
      rcases ih h with ⟨e', he', hentry⟩ | ⟨hne, hrest⟩
      · exact .inl ⟨e', List.mem_cons_of_mem _ he', hentry⟩
      · rcases of_lookup_cacheSet hrest with ⟨hk, hv⟩ | ⟨hk, hrest⟩
        · exact .inl ⟨e, List.mem_cons_self, hk.symm, hv.symm⟩
        · refine .inr ⟨fun e' he' => ?_, hrest⟩
          rcases List.mem_cons.mp he' with rfl | he'
          · exact Ne.symm hk
          · exact hne e' he'

/-- What a fold of changes leaves under a key, if each of them leaves only what was there. -/
theorem of_lookup_foldl {ε : Type} {items : List ε} {change : SizedCache κ ν → ε → SizedCache κ ν} {k : κ} {v : ν}
    (hchange : ∀ c, ∀ e ∈ items, (change c e).lookup k = some v → c.lookup k = some v) {c : SizedCache κ ν}
    (h : (items.foldl change c).lookup k = some v) : c.lookup k = some v := by
  have hback : (items.foldl change c).lookup k = some v → c.lookup k = some v :=
    List.foldlRecOn (motive := fun c' => c'.lookup k = some v → c.lookup k = some v) items change id
      fun c' hc' e he hlookup => hc' (hchange c' e he hlookup)
  exact hback h

@[simp] theorem cacheRemove_fst (k : κ) (c : SizedCache κ ν) : (c.cacheRemove k).1 = c.lookup k := rfl

theorem lookup_cacheRemove (k k' : κ) (c : SizedCache κ ν) :
    (c.cacheRemove k).2.lookup k' = if k' = k then none else c.lookup k' := by
  show (AList.erase k c.entries).lookup k' = _
  split
  · rename_i hk
    rw [hk, AList.lookup_erase]
  · rename_i hk
    exact AList.lookup_erase_ne hk

/-! ### Entries that stay -/

/-- The cache without a bound. -/
def unbounded (c : SizedCache κ ν) : SizedCache κ ν := { c with evicts := fun _ _ => [] }

/-- A cache that drives no entry out. -/
def NeverEvicts (c : SizedCache κ ν) : Prop := ∀ content k, c.evicts content k = []

omit [DecidableEq κ] in
theorem neverEvicts_unbounded (c : SizedCache κ ν) : c.unbounded.NeverEvicts := fun _ _ => rfl

theorem NeverEvicts.cacheSet {c : SizedCache κ ν} (h : c.NeverEvicts) (k : κ) (v : ν) :
    (c.cacheSet k v).NeverEvicts := h

/-- An entry of a cache that drives no entry out. -/
structure Retains (c : SizedCache κ ν) (k : κ) : Prop where
  neverEvicts : c.NeverEvicts
  mem : k ∈ c.entries

theorem mem_cacheSet_self (c : SizedCache κ ν) (k : κ) (v : ν) : k ∈ (c.cacheSet k v).entries :=
  AList.mem_insert _ |>.mpr (.inl rfl)

theorem Retains.cacheSet {c : SizedCache κ ν} {k : κ} (h : c.Retains k) (k' : κ) (v : ν) :
    (c.cacheSet k' v).Retains k := by
  refine ⟨h.neverEvicts, ?_⟩
  unfold SizedCache.cacheSet
  rw [h.neverEvicts]
  exact (AList.mem_insert _).mpr (.inr h.mem)

theorem Retains.cacheRemove {c : SizedCache κ ν} {k k' : κ} (h : c.Retains k) (hne : k ≠ k') :
    (c.cacheRemove k').2.Retains k := ⟨h.neverEvicts, AList.mem_erase.mpr ⟨hne, h.mem⟩⟩

omit [DecidableEq κ] in
theorem Retains.foldl {ε : Type} {items : List ε} {change : SizedCache κ ν → ε → SizedCache κ ν} {k : κ}
    (hchange : ∀ c, ∀ e ∈ items, c.Retains k → (change c e).Retains k) {c : SizedCache κ ν} (h : c.Retains k) :
    (items.foldl change c).Retains k :=
  List.foldlRecOn (motive := (·.Retains k)) items change h fun c hc e he => hchange c e he hc

omit [DecidableEq κ] in
/-- An entry that one change of a fold brings stays, if the other changes retain entries. -/
theorem Retains.of_foldl {ε : Type} {items : List ε} {change : SizedCache κ ν → ε → SizedCache κ ν} {k : κ}
    (hnever : ∀ c, ∀ e ∈ items, c.NeverEvicts → (change c e).NeverEvicts)
    (hchange : ∀ c, ∀ e ∈ items, c.Retains k → (change c e).Retains k) {e : ε} (he : e ∈ items)
    (hbring : ∀ c, c.NeverEvicts → k ∈ (change c e).entries) {c : SizedCache κ ν} (h : c.NeverEvicts) :
    (items.foldl change c).Retains k := by
  obtain ⟨front, back, rfl⟩ := List.append_of_mem he
  have hfront : (front.foldl change c).NeverEvicts :=
    List.foldlRecOn (motive := NeverEvicts) front change h fun c hc e' he' =>
      hnever c e' (List.mem_append_left _ he') hc
  rw [List.foldl_append, List.foldl_cons]
  refine Retains.foldl (fun c e' he' => hchange c e' ?_) ⟨hnever _ e he hfront, hbring _ hfront⟩
  exact List.mem_append_right _ (List.mem_cons_of_mem _ he')

section Sets

variable {ε : Type} {items : List ε} {key : ε → κ} {value : ε → ν} {c : SizedCache κ ν} {k : κ}

theorem Retains.foldl_cacheSet (h : c.Retains k) :
    (items.foldl (fun c e => c.cacheSet (key e) (value e)) c).Retains k :=
  h.foldl fun _ _ _ hc => hc.cacheSet _ _

theorem NeverEvicts.retains_foldl_cacheSet (h : c.NeverEvicts) {e : ε} (he : e ∈ items) :
    (items.foldl (fun c e => c.cacheSet (key e) (value e)) c).Retains (key e) := by
  refine .of_foldl ?_ ?_ he ?_ h
  · exact fun c e' _ hc => hc.cacheSet _ _
  · exact fun c e' _ hc => hc.cacheSet _ _
  · exact fun c _ => mem_cacheSet_self c _ _

end Sets

end SizedCache

end ExplorerIndexer.Store

import Mathlib.Data.List.Basic
import Mathlib.Data.Prod.Lex

/-! Nested loops over lists that push numbered rows. The items of such loops have positions, one number for each loop,
and come in their lexicographic order. -/

namespace ExplorerIndexer.Nested

variable {α β κ ρ σ : Type}

/-! ### Rows that are numbered by the length of what is there -/

/-- The rows pushed for the items, each with the number of rows before it. -/
def numbered (row : α → Nat → ρ) (items : List α) : List ρ := items.zipIdx.map fun (item, index) => row item index

@[simp] theorem length_numbered (row : α → Nat → ρ) (items : List α) : (numbered row items).length = items.length := by
  rw [numbered, List.length_map, List.length_zipIdx]

theorem of_mem_numbered {row : α → Nat → ρ} {items : List α} {r : ρ} (h : r ∈ numbered row items) :
    ∃ item ∈ items, ∃ index, row item index = r := by
  obtain ⟨⟨item, index⟩, hmem, rfl⟩ := List.mem_map.mp h
  exact ⟨item, List.fst_mem_of_mem_zipIdx hmem, index, rfl⟩

theorem map_numbered {γ : Type} (row : α → Nat → ρ) (column : ρ → γ) (items : List α) :
    (numbered row items).map column = numbered (fun item index => column (row item index)) items := by
  rw [numbered, numbered, List.map_map]
  rfl

/-- A column that depends on the item alone. -/
theorem map_numbered_item {γ : Type} {row : α → Nat → ρ} {column : ρ → γ} {f : α → γ}
    (hcolumn : ∀ item index, column (row item index) = f item) (items : List α) :
    (numbered row items).map column = items.map f := by
  rw [map_numbered]
  simp only [hcolumn]
  rw [numbered, ← List.zipIdx_map_fst 0 items, List.map_map, List.zipIdx_map_fst]
  rfl

/-- One push. -/
theorem push_numbered (row : α → Nat → ρ) (items : List α) (item : α) :
    numbered row items ++ [row item (numbered row items).length] = numbered row (items ++ [item]) := by
  rw [length_numbered, numbered, numbered, List.zipIdx_append, List.map_append, Nat.zero_add]
  rfl

/-- A loop whose body pushes rows for some items at a time. -/
theorem foldl_numbered (row : α → Nat → ρ) {body : List ρ → β → List ρ} {itemsOf : β → List α}
    (hbody : ∀ items b, body (numbered row items) b = numbered row (items ++ itemsOf b)) (l : List β) (items : List α) :
    l.foldl body (numbered row items) = numbered row (items ++ l.flatMap itemsOf) := by
  induction l generalizing items with
  | nil => rw [List.foldl_nil, List.flatMap_nil, List.append_nil]
  | cons b l ih => rw [List.foldl_cons, hbody, ih, List.flatMap_cons, List.append_assoc]

/-- A loop whose body pushes one row. -/
theorem foldl_push (row : α → Nat → ρ) {body : List ρ → β → List ρ} (itemOf : β → α)
    (hbody : ∀ rows b, body rows b = rows ++ [row (itemOf b) rows.length]) (l : List β) (items : List α) :
    l.foldl body (numbered row items) = numbered row (items ++ l.map itemOf) := by
  rw [← List.flatMap_singleton' (l.map itemOf), List.flatMap_map]
  exact foldl_numbered row (fun items b => (hbody _ b).trans (push_numbered row items (itemOf b))) l items

/-- A column that depends on the number alone. -/
theorem map_numbered_index {γ : Type} {row : α → Nat → ρ} {column : ρ → γ} {f : Nat → γ}
    (hcolumn : ∀ item index, column (row item index) = f index) (items : List α) :
    (numbered row items).map column = (List.range items.length).map f := by
  rw [map_numbered]
  simp only [hcolumn]
  rw [numbered, List.range_eq_range', ← List.zipIdx_map_snd 0 items, List.map_map]
  rfl

/-! ### Positions -/

/-- The items of a loop with their positions. -/
def outer (l : List α) : List (Nat × α) := l.zipIdx.map fun (a, index) => (index, a)

/-- The items of a loop inside another one. -/
def inner (f : α → List β) (l : List (κ × α)) : List ((κ ×ₗ Nat) × β) :=
  l.flatMap fun (position, a) => (f a).zipIdx.map fun (b, index) => (toLex (position, index), b)

/-- The items that a loop does not skip. -/
def kept (f : α → Option β) (l : List (κ × α)) : List (κ × β) :=
  l.filterMap fun (position, a) => (f a).map (position, ·)

variable {l : List (κ × α)} {position : κ} {index : Nat} {b : β}

theorem map_snd_outer (l : List α) : (outer l).map Prod.snd = l := by
  rw [outer, List.map_map]
  exact List.zipIdx_map_fst 0 l

theorem map_snd_inner (f : α → List β) (l : List (κ × α)) : (inner f l).map Prod.snd = (l.map Prod.snd).flatMap f := by
  rw [inner, List.map_flatMap, List.flatMap_map]
  refine List.flatMap_congr fun entry _ => ?_
  rw [List.map_map]
  exact List.zipIdx_map_fst 0 (f entry.2)

theorem map_snd_kept (f : α → Option β) (l : List (κ × α)) : (kept f l).map Prod.snd = (l.map Prod.snd).filterMap f := by
  rw [kept, List.map_filterMap, List.filterMap_map]
  refine List.filterMap_congr fun entry _ => ?_
  rw [Option.map_map]
  exact Option.map_id'

theorem mem_outer {l : List α} {a : α} : (index, a) ∈ outer l ↔ l[index]? = some a := by
  simp only [outer, List.mem_map, Prod.exists, List.mk_mem_zipIdx_iff_getElem?, Prod.mk.injEq]
  constructor
  · rintro ⟨_, _, ha, rfl, rfl⟩
    exact ha
  · intro ha
    exact ⟨a, index, ha, rfl, rfl⟩

theorem mem_inner {f : α → List β} :
    (toLex (position, index), b) ∈ inner f l ↔ ∃ a, (position, a) ∈ l ∧ (f a)[index]? = some b := by
  simp only [inner, List.mem_flatMap, List.mem_map, Prod.exists, List.mk_mem_zipIdx_iff_getElem?, Prod.mk.injEq,
    EmbeddingLike.apply_eq_iff_eq]
  constructor
  · rintro ⟨_, a, hmem, _, _, hb, ⟨rfl, rfl⟩, rfl⟩
    exact ⟨a, hmem, hb⟩
  · rintro ⟨a, hmem, hb⟩
    exact ⟨position, a, hmem, b, index, hb, ⟨rfl, rfl⟩, rfl⟩

theorem mem_kept {f : α → Option β} : (position, b) ∈ kept f l ↔ ∃ a, (position, a) ∈ l ∧ f a = some b := by
  simp only [kept, List.mem_filterMap, Prod.exists, Option.map_eq_some_iff, Prod.mk.injEq]
  constructor
  · rintro ⟨_, a, hmem, _, hb, rfl, rfl⟩
    exact ⟨a, hmem, hb⟩
  · rintro ⟨a, hmem, hb⟩
    exact ⟨position, a, hmem, b, hb, rfl, rfl⟩

/-- The items come in the order of their positions. -/
def InOrder [LT κ] (l : List (κ × α)) : Prop := l.Pairwise fun a b => a.1 < b.1

theorem inOrder_outer (l : List α) : InOrder (outer l) := by
  rw [InOrder, outer, List.pairwise_map, ← List.pairwise_map (f := Prod.snd), List.zipIdx_map_snd]
  exact List.pairwise_lt_range'

theorem inOrder_inner [Preorder κ] (f : α → List β) (h : InOrder l) : InOrder (inner f l) := by
  rw [InOrder, inner, List.pairwise_flatMap]
  refine ⟨fun entry _ => ?_, h.imp fun {first later} hlt x hx y hy => ?_⟩
  · rw [List.pairwise_map]
    have hindexes : (f entry.2).zipIdx.Pairwise fun x y => x.2 < y.2 := by
      rw [← List.pairwise_map (f := Prod.snd), List.zipIdx_map_snd]
      exact List.pairwise_lt_range'
    refine hindexes.imp ?_
    rintro ⟨_, index⟩ ⟨_, later⟩ hlt
    exact Prod.Lex.toLex_lt_toLex.mpr (.inr ⟨rfl, hlt⟩)
  · obtain ⟨_, _, rfl⟩ := List.mem_map.mp hx
    obtain ⟨_, _, rfl⟩ := List.mem_map.mp hy
    exact Prod.Lex.toLex_lt_toLex.mpr (.inl hlt)

theorem inOrder_kept [LT κ] (f : α → Option β) (h : InOrder l) : InOrder (kept f l) := by
  rw [InOrder, kept, List.pairwise_filterMap]
  refine h.imp fun {first later} hlt x hx y hy => ?_
  obtain ⟨_, _, rfl⟩ := Option.map_eq_some_iff.mp hx
  obtain ⟨_, _, rfl⟩ := Option.map_eq_some_iff.mp hy
  exact hlt

/-- Of two items, the one that comes first has the smaller position. -/
theorem InOrder.lt_iff [Preorder κ] (h : InOrder l) {n m : Nat} {a b : κ × α} (ha : l[n]? = some a)
    (hb : l[m]? = some b) : n < m ↔ a.1 < b.1 := by
  obtain ⟨hn, rfl⟩ := List.getElem?_eq_some_iff.mp ha
  obtain ⟨hm, rfl⟩ := List.getElem?_eq_some_iff.mp hb
  have hordered := List.pairwise_iff_getElem.mp h
  constructor
  · exact hordered n m hn hm
  · intro hlt
    rcases Nat.lt_trichotomy n m with hbefore | rfl | hafter
    · exact hbefore
    · exact absurd hlt (lt_irrefl _)
    · exact absurd hlt (lt_asymm (hordered m n hm hn hafter))

end ExplorerIndexer.Nested

import Mathlib.Data.List.Defs
import Mathlib.Data.List.Nodup

/-! Rows that are stored in batches, each of which is written as a whole or not at all. If no two batches share a key,
a table that consists of whole batches tells from a single row whether a batch has been written. -/

namespace ExplorerIndexer.Store

variable {ρ κ : Type}

/-! ### Cutting a list into batches -/

theorem flatten_toChunks_go {n : Nat} (rows : List ρ) (acc : Array ρ) (done : Array (List ρ)) :
    (List.toChunks.go n rows acc done).flatten = done.toList.flatten ++ acc.toList ++ rows := by
  induction rows generalizing acc done with
  | nil => simp [List.toChunks.go]
  | cons row rows ih =>
      rw [List.toChunks.go]
      split
      · rw [ih]
        simp
      · rw [ih]
        simp

/-- The batches make up the list. -/
theorem flatten_toChunks (n : Nat) (rows : List ρ) : (rows.toChunks n).flatten = rows := by
  cases rows with
  | nil => cases n <;> rfl
  | cons row rows =>
      cases n with
      | zero => simp [List.toChunks]
      | succ n =>
          rw [List.toChunks, flatten_toChunks_go]
          · rfl
          · exact Nat.succ_ne_zero n

theorem mem_of_mem_toChunks {n : Nat} {rows batch : List ρ} {row : ρ} (hbatch : batch ∈ rows.toChunks n)
    (hrow : row ∈ batch) : row ∈ rows := by
  rw [← flatten_toChunks n rows]
  exact List.mem_flatten.mpr ⟨batch, hbatch, hrow⟩

theorem exists_chunk_of_mem (n : Nat) {rows : List ρ} {row : ρ} (hrow : row ∈ rows) :
    ∃ batch ∈ rows.toChunks n, row ∈ batch := by
  rw [← flatten_toChunks n rows] at hrow
  exact List.mem_flatten.mp hrow

theorem ne_nil_of_mem_push {acc : Array ρ} {done : Array (List ρ)} (hacc : acc.toList ≠ [])
    (hdone : ∀ batch ∈ done.toList, batch ≠ []) : ∀ batch ∈ (done.push acc.toList).toList, batch ≠ [] := by
  intro batch hmem
  rw [Array.toList_push] at hmem
  rcases List.mem_append.mp hmem with hmem | hmem
  · exact hdone batch hmem
  · rwa [List.mem_singleton.mp hmem]

theorem ne_nil_of_mem_toChunks_go {n : Nat} {rows : List ρ} {acc : Array ρ} {done : Array (List ρ)}
    (hacc : acc.toList ≠ []) (hdone : ∀ batch ∈ done.toList, batch ≠ []) :
    ∀ batch ∈ List.toChunks.go n rows acc done, batch ≠ [] := by
  induction rows generalizing acc done with
  | nil => exact ne_nil_of_mem_push hacc hdone
  | cons row rows ih =>
      rw [List.toChunks.go]
      split
      · exact ih (by simp) (ne_nil_of_mem_push hacc hdone)
      · exact ih (by simp) hdone

theorem ne_nil_of_mem_toChunks {n : Nat} {rows batch : List ρ} (h : batch ∈ rows.toChunks n) : batch ≠ [] := by
  cases rows with
  | nil => cases n <;> cases h
  | cons row rows =>
      cases n with
      | zero =>
          rw [List.mem_singleton.mp h]
          exact List.cons_ne_nil _ _
      | succ n =>
          rw [List.toChunks] at h
          · exact ne_nil_of_mem_toChunks_go (by simp) (by simp) batch h
          · exact Nat.succ_ne_zero n

/-! ### A buffer that is flushed when it is full -/

/-- The batch that leaves a buffer of at most `n` rows, if it is full, and the buffer afterwards. -/
def flushFull (n : Nat) (buffer : List ρ) : List (List ρ) × List ρ :=
  if buffer.length = n then ([buffer], []) else ([], buffer)

/-- Rows that went through such a buffer make up the flushed batches and the buffer, in order. -/
structure Buffered (n : Nat) (rows : List ρ) (flushed : List (List ρ)) (buffer : List ρ) : Prop where
  inOrder : flushed.flatten ++ buffer = rows
  flushed : ∀ batch ∈ flushed, batch.length ≤ n
  buffer : buffer.length ≤ n

section Buffered

variable {n : Nat} {rows buffer : List ρ} {flushed : List (List ρ)}

theorem Buffered.nil (n : Nat) : Buffered n ([] : List ρ) [] [] :=
  ⟨rfl, fun _ hmem => (List.not_mem_nil hmem).elim, Nat.zero_le n⟩

/-- What is left in the end makes the last batch. -/
theorem Buffered.close (h : Buffered n rows flushed buffer) :
    (flushed ++ [buffer]).flatten = rows ∧ ∀ batch ∈ flushed ++ [buffer], batch.length ≤ n := by
  refine ⟨by rw [List.flatten_append, List.flatten_singleton, h.inOrder], fun batch hmem => ?_⟩
  rcases List.mem_append.mp hmem with hmem | hmem
  · exact h.flushed batch hmem
  · rw [List.mem_singleton.mp hmem]
    exact h.buffer

theorem Buffered.flush (h : Buffered n rows flushed buffer) :
    Buffered n rows (flushed ++ (flushFull n buffer).1) (flushFull n buffer).2 := by
  unfold flushFull
  split
  · obtain ⟨hrows, hbatches⟩ := h.close
    exact ⟨by rw [List.append_nil, hrows], hbatches, Nat.zero_le n⟩
  · rw [List.append_nil]
    exact h

theorem length_flushFull_lt (hn : 0 < n) (h : buffer.length ≤ n) : (flushFull n buffer).2.length < n := by
  unfold flushFull
  split
  · exact hn
  · exact Nat.lt_of_le_of_ne h ‹_›

/-- A row goes into the buffer, which is flushed before if it is full. -/
theorem Buffered.push (hn : 0 < n) (h : Buffered n rows flushed buffer) (row : ρ) :
    Buffered n (rows ++ [row]) (flushed ++ (flushFull n buffer).1) ((flushFull n buffer).2 ++ [row]) := by
  have hflush := h.flush
  refine ⟨by rw [← List.append_assoc, hflush.inOrder], hflush.flushed, ?_⟩
  rw [List.length_append]
  exact length_flushFull_lt hn h.buffer

end Buffered

/-! ### Tables of whole batches -/

/-- The batches that may be written: no two of them share a key, and none has a key twice or no row. -/
structure Batches (key : ρ → κ) (isBatch : List ρ → Prop) : Prop where
  nonempty : ∀ batch, isBatch batch → batch ≠ []
  keys : ∀ batch, isBatch batch → (batch.map key).Nodup
  apart : ∀ batch batch', isBatch batch → isBatch batch' → ∀ row ∈ batch, ∀ row' ∈ batch',
    key row = key row' → batch = batch'

/-- The table consists of different batches. -/
def Whole (isBatch : List ρ → Prop) (rows : List ρ) : Prop :=
  ∃ stored : List (List ρ), stored.Nodup ∧ (∀ batch ∈ stored, isBatch batch) ∧ rows = stored.flatten

theorem whole_nil (isBatch : List ρ → Prop) : Whole isBatch [] :=
  ⟨[], List.nodup_nil, fun _ hmem => (List.not_mem_nil hmem).elim, rfl⟩

section Whole

variable {key : ρ → κ} {isBatch : List ρ → Prop} {rows batch : List ρ}

/-- A batch is there with all its rows, or none of its keys is. -/
theorem Whole.all_or_none (h : Whole isBatch rows) (hbatches : Batches key isBatch) (hbatch : isBatch batch) :
    (∀ row ∈ batch, row ∈ rows) ∨ ∀ row ∈ batch, ∀ row' ∈ rows, key row ≠ key row' := by
  obtain ⟨stored, _, hstored, rfl⟩ := h
  by_cases hmem : batch ∈ stored
  · exact .inl fun row hrow => List.mem_flatten.mpr ⟨batch, hmem, hrow⟩
  · refine .inr fun row hrow row' hrow' hkey => hmem ?_
    obtain ⟨batch', hmem', hrow'⟩ := List.mem_flatten.mp hrow'
    rwa [hbatches.apart batch batch' hbatch (hstored batch' hmem') row hrow row' hrow' hkey]

/-- A batch of which no key is there can be added. -/
theorem Whole.append (h : Whole isBatch rows) (hbatches : Batches key isBatch) (hbatch : isBatch batch)
    (hnone : ∀ row ∈ batch, ∀ row' ∈ rows, key row ≠ key row') : Whole isBatch (rows ++ batch) := by
  obtain ⟨stored, hnodup, hstored, rfl⟩ := h
  have hnew : batch ∉ stored := by
    intro hmem
    obtain ⟨row, hrow⟩ := List.exists_mem_of_ne_nil batch (hbatches.nonempty batch hbatch)
    exact hnone row hrow row (List.mem_flatten.mpr ⟨batch, hmem, hrow⟩) rfl
  refine ⟨stored ++ [batch], ?_, fun batch' hmem => ?_, by rw [List.flatten_append, List.flatten_singleton]⟩
  · exact List.nodup_append'.mpr ⟨hnodup, List.nodup_singleton batch, List.disjoint_singleton.mpr hnew⟩
  · rcases List.mem_append.mp hmem with hmem | hmem
    · exact hstored batch' hmem
    · rwa [List.mem_singleton.mp hmem]

/-- No key is there twice. -/
theorem Whole.nodup (h : Whole isBatch rows) (hbatches : Batches key isBatch) : (rows.map key).Nodup := by
  obtain ⟨stored, hnodup, hstored, rfl⟩ := h
  rw [List.map_flatten, List.nodup_flatten]
  constructor
  · intro keys hkeys
    obtain ⟨batch, hmem, rfl⟩ := List.mem_map.mp hkeys
    exact hbatches.keys batch (hstored batch hmem)
  · rw [List.pairwise_map]
    refine hnodup.imp_of_mem fun {batch batch'} hmem hmem' hne k hk hk' => hne ?_
    obtain ⟨row, hrow, rfl⟩ := List.mem_map.mp hk
    obtain ⟨row', hrow', hkey⟩ := List.mem_map.mp hk'
    exact hbatches.apart batch batch' (hstored batch hmem) (hstored batch' hmem') row hrow row' hrow' hkey.symm

end Whole

end ExplorerIndexer.Store

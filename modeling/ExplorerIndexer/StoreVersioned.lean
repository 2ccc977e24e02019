import ExplorerIndexer.AsyncWrites

/-! Rows that carry the version of their last change, and writes that are guarded by it: a write at
version `h` leaves alone every row whose version is already `h` or more, and stamps `h` on what it
changes. Within one version a row therefore changes at most once, whatever the order of the writes,
and a write that is repeated later changes nothing. -/

namespace ExplorerIndexer.Store

open Async

variable {ρ σ ω : Type}

/-- `f`, the effect of a write on a row that may be absent, is guarded at version `h`. -/
structure Guarded (version : ρ → Nat) (h : Nat) (f : Option ρ → Option ρ) : Prop where
  settled : ∀ r, h ≤ version r → f (some r) = some r
  stamped : ∀ x, f x = x ∨ ∃ r, f x = some r ∧ version r = h

variable {version : ρ → Nat} {h : Nat}

variable (version) in
/-- An update of the rows below version `h` that a condition selects. -/
theorem guarded_update (condition : ρ → Bool) (change : ρ → ρ) (hchange : ∀ r, version (change r) = h) :
    Guarded version h fun x =>
      x.map fun r => if condition r = true ∧ version r < h then change r else r where
  settled r hr := by simp [Nat.not_lt.mpr hr]
  stamped x := by
    cases x with
    | none => exact .inl rfl
    | some r =>
        rw [Option.map_some]
        by_cases hc : condition r = true ∧ version r < h
        · rw [if_pos hc]
          exact .inr ⟨change r, rfl, hchange r⟩
        · rw [if_neg hc]
          exact .inl rfl

/-- An insertion that gives way to an existing row. -/
theorem guarded_insert {new : Option ρ} (hnew : ∀ r, new = some r → version r = h) :
    Guarded version h fun x => x.or new where
  settled r _ := Option.some_or
  stamped x := by
    cases x with
    | some r => exact .inl Option.some_or
    | none =>
        rw [Option.none_or]
        cases new with
        | none => exact .inl rfl
        | some r => exact .inr ⟨r, rfl, hnew r rfl⟩

/-- Repeating a guarded write changes nothing. -/
theorem Guarded.twice {f : Option ρ → Option ρ} (hf : Guarded version h f) (x : Option ρ) :
    f (f x) = f x := by
  rcases hf.stamped x with hsame | ⟨r, hr, hversion⟩
  · rw [hsame, hsame]
  · rw [hr, hf.settled r (Nat.le_of_eq hversion.symm)]

/-- A write that changes nothing changes nothing after a write at a later version either. -/
theorem Guarded.after_later {h' : Nat} {f g : Option ρ → Option ρ} {x : Option ρ}
    (hf : Guarded version h f) (hg : Guarded version h' g) (hle : h ≤ h') (hidle : f x = x) :
    f (g x) = g x := by
  rcases hg.stamped x with hsame | ⟨r, hr, hversion⟩
  · rw [hsame, hidle]
  · rw [hr, hf.settled r (hversion ▸ hle)]

theorem applyAll_idle {effect : ω → Option ρ → Option ρ} {writes : List ω} {x : Option ρ}
    (hidle : ∀ w ∈ writes, effect w x = x) : applyAll effect writes x = x := by
  induction writes with
  | nil => rfl
  | cons w writes ih =>
      rw [applyAll_cons, hidle w List.mem_cons_self]
      exact ih fun w' hw' => hidle w' (List.mem_cons_of_mem w hw')

section Effects

variable {effect : ω → Option ρ → Option ρ} {writes : List ω} {x y : Option ρ}

theorem applyAll_settled {r : ρ} (hguard : ∀ w ∈ writes, Guarded version h (effect w))
    (hr : h ≤ version r) : applyAll effect writes (some r) = some r :=
  applyAll_idle fun w hw => (hguard w hw).settled r hr

/-- Among guarded writes at one version only the first effective one acts. -/
theorem applyAll_first (hguard : ∀ w ∈ writes, Guarded version h (effect w)) (x : Option ρ) :
    applyAll effect writes x = x ∨
      ∃ w ∈ writes, effect w x ≠ x ∧ applyAll effect writes x = effect w x := by
  induction writes with
  | nil => exact .inl rfl
  | cons w writes ih =>
      have hrest : ∀ w' ∈ writes, Guarded version h (effect w') :=
        fun w' hw' => hguard w' (List.mem_cons_of_mem w hw')
      rw [applyAll_cons]
      rcases (hguard w List.mem_cons_self).stamped x with hidle | ⟨r, hr, hversion⟩
      · rw [hidle]
        rcases ih hrest with hsame | ⟨w', hw', hne, heq⟩
        · exact .inl hsame
        · exact .inr ⟨w', List.mem_cons_of_mem w hw', hne, heq⟩
      · have hdone : applyAll effect writes (effect w x) = effect w x := by
          rw [hr]
          exact applyAll_settled hrest (Nat.le_of_eq hversion.symm)
        rw [hdone]
        by_cases hne : effect w x = x
        · exact .inl hne
        · exact .inr ⟨w, List.mem_cons_self, hne, rfl⟩

/-- Guarded writes at one version, one after the other, are guarded. -/
theorem guarded_applyAll (hguard : ∀ w ∈ writes, Guarded version h (effect w)) :
    Guarded version h (applyAll effect writes) where
  settled _ hr := applyAll_settled hguard hr
  stamped x := by
    rcases applyAll_first hguard x with hsame | ⟨w, hw, hne, heq⟩
    · exact .inl hsame
    · rw [heq]
      exact .inr (((hguard w hw).stamped x).resolve_left hne)

/-- If one of the writes is effective, then so is the whole list. -/
theorem applyAll_effective (hguard : ∀ w ∈ writes, Guarded version h (effect w)) {w : ω}
    (hw : w ∈ writes) (hne : effect w x ≠ x) :
    ∃ w' ∈ writes, effect w' x ≠ x ∧ applyAll effect writes x = effect w' x := by
  induction writes with
  | nil => cases hw
  | cons v writes ih =>
      have hrest : ∀ w' ∈ writes, Guarded version h (effect w') :=
        fun w' hw' => hguard w' (List.mem_cons_of_mem v hw')
      rw [applyAll_cons]
      by_cases hv : effect v x = x
      · rw [hv]
        rcases List.mem_cons.mp hw with rfl | hw
        · exact absurd hv hne
        · obtain ⟨w', hw', hne', heq⟩ := ih hrest hw
          exact ⟨w', List.mem_cons_of_mem v hw', hne', heq⟩
      · obtain ⟨r, hr, hversion⟩ := ((hguard v List.mem_cons_self).stamped x).resolve_left hv
        refine ⟨v, List.mem_cons_self, hv, ?_⟩
        rw [hr]
        exact applyAll_settled hrest (Nat.le_of_eq hversion.symm)

/-- Writes whose effective ones agree give that value in every order. -/
theorem applyAll_agree (hguard : ∀ w ∈ writes, Guarded version h (effect w))
    (hagree : ∀ w ∈ writes, effect w x = x ∨ effect w x = y)
    (hsome : x = y ∨ ∃ w ∈ writes, effect w x = y) : applyAll effect writes x = y := by
  rcases applyAll_first hguard x with hsame | ⟨w, hw, hne, heq⟩
  · rw [hsame]
    rcases hsome with hxy | ⟨w, hw, hy⟩
    · exact hxy
    · by_contra hne
      obtain ⟨w', hw', hne', heq⟩ := applyAll_effective hguard hw fun hx => hne (hx.symm.trans hy)
      exact hne' (heq.symm.trans hsame)
  · rw [heq]
    exact (hagree w hw).resolve_left hne

theorem applyAll_agree_perm {ordered : List ω} (hperm : ordered.Perm writes)
    (hguard : ∀ w ∈ writes, Guarded version h (effect w)) (hagree : ∀ w ∈ writes, effect w x = x ∨ effect w x = y)
    (hsome : x = y ∨ ∃ w ∈ writes, effect w x = y) : applyAll effect ordered x = y := by
  refine applyAll_agree (fun w hw => hguard w (hperm.mem_iff.mp hw)) (fun w hw => hagree w (hperm.mem_iff.mp hw)) ?_
  rcases hsome with hxy | ⟨w, hw, hy⟩
  · exact .inl hxy
  · exact .inr ⟨w, hperm.mem_iff.mpr hw, hy⟩

/-- A part of the writes whose effective ones agree has done nothing yet, or all there is to do. -/
theorem applyAll_part (hguard : ∀ w ∈ writes, Guarded version h (effect w))
    (hagree : ∀ w ∈ writes, effect w x = x ∨ effect w x = y) :
    applyAll effect writes x = x ∨ applyAll effect writes x = y := by
  rcases applyAll_first hguard x with hsame | ⟨w, hw, hne, heq⟩
  · exact .inl hsame
  · exact .inr (heq.trans ((hagree w hw).resolve_left hne))

end Effects

end ExplorerIndexer.Store

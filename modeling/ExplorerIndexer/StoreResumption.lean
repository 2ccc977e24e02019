import ExplorerIndexer.AsyncOwned
import ExplorerIndexer.StoreVersioned

/-! Items whose handling comes down to guarded writes of rows, each item at a version of its own. A row that an item has
written is at its version, so what the item does to it a second time, or an earlier item, is nothing. -/

namespace ExplorerIndexer.Store

open Async

variable {σ ω α κ ι ρ τ υ : Type}

/-- An item leaves a row alone, or one of its effects acts on it. -/
def rowEffects (effects : ι → κ → List (Option ρ → Option ρ)) : Effects (κ → Option ρ) ι where
  part item x y := ∀ k, y k = x k ∨ ∃ f ∈ effects item k, y k = f (x k)
  settled item x := ∀ k, ∀ f ∈ effects item k, f (x k) = x k

theorem lawful_rowEffects {effects : ι → κ → List (Option ρ → Option ρ)} {version : ρ → Nat} {height : ι → Nat}
    (hguard : ∀ item k, ∀ f ∈ effects item k, Guarded version (height item) f) :
    (rowEffects effects).Lawful fun item next => height item ≤ height next where
  refl _ _ _ := .inl rfl
  trans item x y z hxy hyz k := by
    rcases hxy k with hsame | ⟨f, hf, hact⟩
    · rw [← hsame]
      exact hyz k
    · rcases (hguard item k f hf).stamped (x k) with hsame | ⟨r, hr, hversion⟩
      · rw [← hact.trans hsame]
        exact hyz k
      · -- the row is at the version of the item, so nothing else acts on it
        refine .inr ⟨f, hf, ?_⟩
        rw [hr] at hact ⊢
        rcases hyz k with hidle | ⟨g, hg, hidle⟩
        · exact hidle.trans hact
        · rw [hidle, hact, (hguard item k g hg).settled r (Nat.le_of_eq hversion.symm)]
  idle item x y hsettled hpart := by
    funext k
    rcases hpart k with hsame | ⟨f, hf, hact⟩
    · exact hsame
    · exact hact.trans (hsettled k f hf)
  later item next x y hle hsettled hpart k f hf := by
    rcases hpart k with hsame | ⟨g, hg, hact⟩
    · rw [hsame]
      exact hsettled k f hf
    · rw [hact]
      exact (hguard item k f hf).after_later (hguard next k g hg) hle (hsettled k f hf)

/-- What a part of the handling does to a row is guarded. -/
theorem guarded_of_part {effects : ι → κ → List (Option ρ → Option ρ)} {version : ρ → Nat} {height : ι → Nat}
    (hguard : ∀ item k, ∀ f ∈ effects item k, Guarded version (height item) f) {item : ι} {x y : κ → Option ρ}
    (h : (rowEffects effects).part item x y) (k : κ) :
    y k = x k ∨ ∃ f, Guarded version (height item) f ∧ y k = f (x k) :=
  (h k).imp_right fun ⟨f, hf, hact⟩ => ⟨f, hguard item k f hf, hact⟩

/-- Rows that are there stay, if no effect removes one. -/
theorem present_of_arrived {effects : ι → κ → List (Option ρ → Option ρ)} {x y : κ → Option ρ} {done rest : List ι}
    (hkeeps : ∀ item k, ∀ f ∈ effects item k, ∀ r, f (some r) ≠ none)
    (h : (rowEffects effects).Arrived x done rest y) {k : κ} (hk : x k ≠ none) : y k ≠ none := by
  have hpart : ∀ {item y z}, (rowEffects effects).part item y z → y k ≠ none → z k ≠ none := by
    intro item y z hpart hy
    rcases hpart k with hsame | ⟨f, hf, hact⟩
    · exact hsame ▸ hy
    · obtain ⟨r, hr⟩ := Option.ne_none_iff_exists'.mp hy
      rw [hact, hr]
      exact hkeeps item k f hf r
  have hundisturbed : ∀ {items z}, (rowEffects effects).Undisturbed x items z → z k ≠ none := by
    intro items z hitems
    induction hitems with
    | nil => exact hk
    | snoc _ hsnoc _ ih => exact hpart hsnoc ih
  obtain ⟨z, hdone, rfl | ⟨next, _, hnext⟩⟩ := h
  · exact hundisturbed hdone
  · exact hpart hnext (hundisturbed hdone)

/-- Writes of rows at one version, each of which is guarded, have nothing left to do when all were made. -/
theorem outline_of_guarded {run : ω → σ → σ} (rows : σ → κ → Option ρ) {effect : κ → ω → Option ρ → Option ρ}
    {version : ρ → Nat} {h : Nat} {R : σ → σ → Prop} {p : Prog σ α} {writes : List ω} (hp : Async.Writes run p writes)
    (hrun : ∀ w ∈ writes, ∀ s k, rows (run w s) k = effect k w (rows s k))
    (hguard : ∀ w ∈ writes, ∀ k, Guarded version h (effect k w)) (hkeeps : ∀ w ∈ writes, ∀ s, R s (run w s))
    (hrows : ∀ s t, R s t → ∀ k, rows t k = rows s k ∨ ∃ f, Guarded version h f ∧ rows t k = f (rows s k)) :
    Outline False R R (fun _ => True) p fun _ s => ∀ w ∈ writes, ∀ k, effect k w (rows s k) = rows s k := by
  refine hp.outline (fun w hw s => ⟨hkeeps w hw s, fun k => ?_⟩) fun w hw s t hs hst k => ?_
  · rw [hrun w hw s k, (hguard w hw k).twice]
  · rcases hrows s t hst k with hsame | ⟨f, hf, hact⟩
    · rw [hsame, hs k]
    · rw [hact, (hguard w hw k).after_later hf (Nat.le_refl h) (hs k)]

/-- Writes at one version that agree on what becomes of a row leave that, if nobody else changes the row. -/
theorem outline_of_agreeing {run : ω → σ → σ} (observe : σ → Option ρ) {effect : ω → Option ρ → Option ρ}
    {version : ρ → Nat} {h : Nat} {p : Prog σ α} {writes : List ω} {x y : Option ρ} (hp : Async.Writes run p writes)
    (hrun : ∀ w ∈ writes, ∀ s, observe (run w s) = effect w (observe s))
    (hguard : ∀ w ∈ writes, Guarded version h (effect w))
    (hagree : ∀ w ∈ writes, effect w x = x ∨ effect w x = y) (hsome : x = y ∨ ∃ w ∈ writes, effect w x = y) :
    Outline False (SameView observe) (fun _ _ => True) (fun s => observe s = x) p fun _ s => observe s = y := by
  let R : σ → σ → Prop := fun s t => observe t = observe s ∨ ∃ w ∈ writes, observe t = effect w (observe s)
  have hidle : Outline False R R (fun _ => True) p fun _ s => ∀ w ∈ writes, ∀ _ : Unit,
      effect w (observe s) = observe s :=
    outline_of_guarded (fun s _ => observe s) hp (fun w hw s _ => hrun w hw s) (fun w hw _ => hguard w hw)
      (fun w hw s => .inr ⟨w, hw, hrun w hw s⟩)
      fun s t hst _ => hst.imp_right fun ⟨w, hw, hact⟩ => ⟨effect w, hguard w hw, hact⟩
  have hsettled : ∀ w ∈ writes, effect w y = x ∨ effect w y = y := by
    intro w hw
    rcases hsome with rfl | ⟨w', hw', hy⟩
    · exact hagree w hw
    · rcases (hguard w' hw').stamped x with hsame | ⟨r, hr, hversion⟩
      · obtain rfl : x = y := hsame.symm.trans hy
        exact hagree w hw
      · rw [← hy, hr, (hguard w hw).settled r (Nat.le_of_eq hversion.symm)]
        exact .inr rfl
  have hkept : Stable R fun s => observe s = x ∨ observe s = y := by
    rintro s t hs (hsame | ⟨w, hw, hact⟩)
    · rwa [hsame]
    · rw [hact]
      rcases hs with hx | hy
      · exact hx ▸ hagree w hw
      · exact hy ▸ hsettled w hw
  refine ((((hidle.frame hkept hkept).rely_mono fun _ _ hview => .inl hview).guarantee_mono fun _ _ _ => trivial).pre
    fun s hs => ⟨trivial, .inl hs⟩).post fun _ s hs => ?_
  rcases hs.2 with hx | hy
  · rcases hsome with hxy | ⟨w, hw, hy⟩
    · exact hx.trans hxy
    · have hstays := hs.1 w hw ()
      rw [hx] at hstays
      exact hx.trans (hstays.symm.trans hy)
  · exact hy

/-! ### Two tables -/

/-- The effects on two things that are seen. -/
def bothEffects (E : Effects τ ι) (F : Effects υ ι) : Effects (τ × υ) ι where
  part item x y := E.part item x.1 y.1 ∧ F.part item x.2 y.2
  settled item x := E.settled item x.1 ∧ F.settled item x.2

section Both

variable {E : Effects τ ι} {F : Effects υ ι} {precedes : ι → ι → Prop} {x y : τ × υ} {items done rest : List ι}

theorem lawful_bothEffects (hE : E.Lawful precedes) (hF : F.Lawful precedes) :
    (bothEffects E F).Lawful precedes where
  refl item x := ⟨hE.refl item x.1, hF.refl item x.2⟩
  trans item _ _ _ hxy hyz := ⟨hE.trans item _ _ _ hxy.1 hyz.1, hF.trans item _ _ _ hxy.2 hyz.2⟩
  idle item _ _ hsettled hpart := Prod.ext (hE.idle item _ _ hsettled.1 hpart.1) (hF.idle item _ _ hsettled.2 hpart.2)
  later item next _ _ hle hsettled hpart :=
    ⟨hE.later item next _ _ hle hsettled.1 hpart.1, hF.later item next _ _ hle hsettled.2 hpart.2⟩

theorem undisturbed_fst (h : (bothEffects E F).Undisturbed x items y) : E.Undisturbed x.1 items y.1 := by
  induction h with
  | nil => exact .nil
  | snoc _ hpart hsettled ih => exact ih.snoc hpart.1 hsettled.1

theorem undisturbed_snd (h : (bothEffects E F).Undisturbed x items y) : F.Undisturbed x.2 items y.2 := by
  induction h with
  | nil => exact .nil
  | snoc _ hpart hsettled ih => exact ih.snoc hpart.2 hsettled.2

theorem arrived_fst (h : (bothEffects E F).Arrived x done rest y) : E.Arrived x.1 done rest y.1 := by
  obtain ⟨z, hdone, hy⟩ := h
  exact ⟨z.1, undisturbed_fst hdone, hy.imp (congrArg Prod.fst) fun ⟨next, hnext, hpart⟩ => ⟨next, hnext, hpart.1⟩⟩

theorem arrived_snd (h : (bothEffects E F).Arrived x done rest y) : F.Arrived x.2 done rest y.2 := by
  obtain ⟨z, hdone, hy⟩ := h
  exact ⟨z.2, undisturbed_snd hdone, hy.imp (congrArg Prod.snd) fun ⟨next, hnext, hpart⟩ => ⟨next, hnext, hpart.2⟩⟩

end Both

end ExplorerIndexer.Store

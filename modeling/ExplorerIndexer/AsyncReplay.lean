import ExplorerIndexer.AsyncOutline

/-! Handlings one after the other, each of an item of the list, in any order and any number of times. A handling
runs to its end or is cut off anywhere; what is left of it and the state make up a moment of the run. -/

namespace ExplorerIndexer.Async

structure Moment (σ : Type) where
  program : Prog σ Unit
  state : σ

inductive HandlingStep {σ ι : Type} (handler : ι → Prog σ Unit) (items : List ι) : Moment σ → Moment σ → Prop
  | step {p q : Prog σ Unit} {s t : σ} {event : Event} (hstep : Step p s event q t) :
      HandlingStep handler items ⟨p, s⟩ ⟨q, t⟩
  /-- The handling is over, or it is cut off. -/
  | next {p : Prog σ Unit} {s : σ} {item : ι} (hitem : item ∈ items) :
      HandlingStep handler items ⟨p, s⟩ ⟨handler item, s⟩

abbrev Handlings {σ ι : Type} (handler : ι → Prog σ Unit) (items : List ι) : Moment σ → Moment σ → Prop :=
  Relation.ReflTransGen (HandlingStep handler items)

variable {σ ι : Type} {handler : ι → Prog σ Unit} {items : List ι} {s t : σ} {m m₁ m₂ : Moment σ}

theorem Steps.handlings {p q : Prog σ Unit} {events : List Event} (h : Steps p s events q t) :
    Handlings handler items ⟨p, s⟩ ⟨q, t⟩ := by
  induction h with
  | refl => exact .refl
  | head hstep _ ih => exact .head (.step hstep) ih

/-- The items in order are one such run. -/
theorem InOrder.handlings {first : List ι} (h : InOrder handler s first t) (hfirst : ∀ item ∈ first, item ∈ items) :
    Handlings handler items ⟨.ret (), s⟩ ⟨.ret (), t⟩ := by
  induction h with
  | nil => exact .refl
  | cons hitem _ ih =>
      obtain ⟨events, hsteps⟩ := hitem
      have hrest := ih fun item hmem => hfirst item (List.mem_cons_of_mem _ hmem)
      exact .head (.next (hfirst _ List.mem_cons_self)) (hsteps.handlings.trans hrest)

/-- What every part of a handling keeps is kept throughout. -/
theorem Handlings.invariant {I : σ → Prop}
    (hkeep : ∀ item ∈ items, ∀ s t events p, Steps (handler item) s events p t → I s → I t)
    (h : Handlings handler items ⟨.ret (), s⟩ m) (hs : I s) : I m.state := by
  -- the handling under way started from a state with the invariant
  have hstarted : (m.program = .ret () ∧ I m.state) ∨ ∃ item ∈ items, ∃ s events,
      Steps (handler item) s events m.program m.state ∧ I s := by
    induction h with
    | refl => exact .inl ⟨rfl, hs⟩
    | tail _ hstep ih =>
        cases hstep with
        | step hstep =>
            rcases ih with ⟨hret, _⟩ | ⟨item, hitem, s, events, hsteps, hs⟩
            · cases hret
              exact hstep.ret_elim.elim
            · exact .inr ⟨item, hitem, s, _, hsteps.trans (.single hstep), hs⟩
        | @next p s item hitem =>
            refine .inr ⟨item, hitem, s, [], .refl, ?_⟩
            rcases ih with ⟨_, hs⟩ | ⟨item', hitem', s', events, hsteps, hs⟩
            · exact hs
            · exact hkeep item' hitem' _ _ _ _ hsteps hs
  rcases hstarted with ⟨_, hs⟩ | ⟨item, hitem, s, events, hsteps, hs⟩
  · exact hs
  · exact hkeep item hitem _ _ _ _ hsteps hs

section Between

variable {R : σ → σ → Prop} (hrefl : ∀ s, R s s) (htrans : ∀ s t u, R s t → R t u → R s u)
    (hout : ∀ item ∈ items, Outline False R R (fun _ => True) (handler item) fun _ _ => True)

/-- What is left of the handling is at some point of its outline. -/
def Moment.Outlined (R : σ → σ → Prop) (m : Moment σ) : Prop :=
  ∃ P, Outline False R R P m.program (fun _ _ => True) ∧ Stable R P ∧ P m.state

include hrefl hout

theorem HandlingStep.outlined (h : m₁.Outlined R) (hstep : HandlingStep handler items m₁ m₂) :
    R m₁.state m₂.state ∧ m₂.Outlined R := by
  cases hstep with
  | step hstep =>
      obtain ⟨hR, hnext⟩ := Midway.step h hstep
      exact ⟨hR.elim (fun heq => heq ▸ hrefl _) id, hnext⟩
  | next hitem => exact ⟨hrefl _, _, hout _ hitem, .const R True, trivial⟩

include htrans

theorem Handlings.outlined (h : m₁.Outlined R) (hrun : Handlings handler items m₁ m₂) :
    R m₁.state m₂.state ∧ m₂.Outlined R := by
  induction hrun with
  | refl => exact ⟨hrefl _, h⟩
  | tail _ hstep ih =>
      obtain ⟨hR, hnext⟩ := hstep.outlined hrefl hout ih.2
      exact ⟨htrans _ _ _ ih.1 hR, hnext⟩

/-- What every single step does to the state, any part of a run does. -/
theorem Handlings.between (hstart : Handlings handler items ⟨.ret (), s⟩ m₁)
    (hrun : Handlings handler items m₁ m₂) : R m₁.state m₂.state := by
  have hs : Moment.Outlined R ⟨.ret (), s⟩ := ⟨_, .ret fun _ _ => trivial, .const R True, trivial⟩
  exact (hrun.outlined hrefl htrans hout (hstart.outlined hrefl htrans hout hs).2).1

end Between

end ExplorerIndexer.Async

import ExplorerIndexer.AsyncProgram

/-! The run of a program that nothing disturbs: it is alone, every statement reaches the store, the left
one of two tasks runs first and collections are gone through as they are listed. It can be computed. -/

namespace ExplorerIndexer.Async

namespace Prog

variable {σ α β γ : Type}

/-- Runs the body of a loop until it answers `Sum.inr`, at most `rounds` times. -/
def rounds (body : β → σ → Option ((β ⊕ γ) × σ)) : Nat → β → σ → Option (γ × σ)
  | 0, _, _ => none
  | n + 1, start, s =>
      match body start s with
      | some (.inl again, t) => rounds body n again t
      | some (.inr c, t) => some (c, t)
      | none => none

/-- The result and the last state of the undisturbed run; `none` if the program does not return. -/
def alone (fuel : Nat) {α : Type} : Prog σ α → σ → Option (α × σ)
  | .ret value, s => some (value, s)
  | .fail, _ => none
  | .panic, _ => none
  | .access act next, s => (next (act s).1).alone fuel (act s).2
  | .query attempts stmt handled next, s =>
      if attempts = some 0 then none
      else match stmt s with
        | .ok (b, t) => (next (some b)).alone fuel t
        | .error error => if handled error then (next none).alone fuel s else none
  | .anyOrder items next, s => (next items).alone fuel s
  | .join left right next, s =>
      (left.alone fuel s).bind fun first =>
        (right.alone fuel first.2).bind fun second => (next first.1 second.1).alone fuel second.2
  | .loop body start next, s =>
      (rounds (fun b s => (body b).alone fuel s) fuel start s).bind fun last => (next last.1).alone fuel last.2

end Prog

variable {σ α β γ : Type}

theorem finishes_rounds {body : β → Prog σ (β ⊕ γ)} {next : γ → Prog σ α} {fuel n : Nat} {start : β}
    {s t u : σ} {c : γ} {value : α}
    (hbody : ∀ b s r t, (body b).alone fuel s = some (r, t) → Finishes (body b) s r t)
    (h : Prog.rounds (fun b s => (body b).alone fuel s) n start s = some (c, t))
    (hnext : Finishes (next c) t value u) : Finishes (.loop body start next) s value u := by
  induction n generalizing start s with
  | zero => cases h
  | succ n ih =>
      refine .of_step .loop ?_
      rw [Prog.rounds] at h
      cases hstart : (body start).alone fuel s with
      | none =>
          rw [hstart] at h
          cases h
      | some result =>
          obtain ⟨answer, s'⟩ := result
          have hround := hbody start s answer s' hstart
          rw [hstart] at h
          cases answer with
          | inl again => exact hround.bind (ih h)
          | inr c' =>
              cases h
              exact hround.bind hnext

/-- The computed run is a run. -/
theorem finishes_alone {fuel : Nat} {p : Prog σ α} {s t : σ} {value : α}
    (h : p.alone fuel s = some (value, t)) : Finishes p s value t := by
  induction p generalizing s t with
  | ret value' =>
      cases h
      exact .ret value' s
  | fail => cases h
  | panic => cases h
  | access act next ih => exact .of_step .access (ih _ h)
  | query attempts stmt handled next ih =>
      rw [Prog.alone] at h
      split at h
      · cases h
      · rename_i hattempts
        cases hstmt : stmt s with
        | ok result =>
            rw [hstmt] at h
            exact .of_step (.queryDone hattempts hstmt) (ih _ h)
        | error error =>
            simp only [hstmt] at h
            split at h
            · rename_i hhandled
              exact .of_step (.queryHandled hattempts hstmt hhandled) (ih _ h)
            · cases h
  | anyOrder items next ih => exact .of_step (.anyOrder (.refl items)) (ih _ h)
  | join left right next ihleft ihright ih =>
      obtain ⟨first, hleft, h⟩ := Option.bind_eq_some_iff.mp h
      obtain ⟨second, hright, h⟩ := Option.bind_eq_some_iff.mp h
      exact .join_left_first (ihleft hleft) (ihright hright) (ih _ _ h)
  | loop body start next ihbody ih =>
      obtain ⟨last, hrounds, h⟩ := Option.bind_eq_some_iff.mp h
      exact finishes_rounds (fun b s r t => ihbody b) hrounds (ih _ h)

/-- The state after the undisturbed run of a task. -/
def Prog.after (fuel : Nat) (p : Prog σ Unit) (s : σ) : σ := ((p.alone fuel s).map Prod.snd).getD s

theorem finishes_after (fuel : Nat) {p : Prog σ Unit} {s : σ} (h : (p.alone fuel s).isSome = true) :
    Finishes p s () (p.after fuel s) := by
  obtain ⟨⟨value, t⟩, hrun⟩ := Option.isSome_iff_exists.mp h
  rw [Prog.after, hrun]
  exact finishes_alone hrun

/-! ### Programs that always return -/

/-- No state makes a statement of the program fail, and the program has no loop. -/
inductive Unfailing {σ : Type} : {α : Type} → Prog σ α → Prop
  | ret {α : Type} (value : α) : Unfailing (.ret value)
  | access {α β : Type} {act : σ → β × σ} {next : β → Prog σ α} (hnext : ∀ b, Unfailing (next b)) :
      Unfailing (.access act next)
  | query {α β : Type} {attempts : Option Nat} {stmt : Statement σ β} {handled : QueryError → Bool}
      {next : Option β → Prog σ α} (hattempts : attempts ≠ some 0)
      (hstmt : ∀ s, ∃ result, stmt s = .ok result) (hnext : ∀ b, Unfailing (next b)) :
      Unfailing (.query attempts stmt handled next)
  | anyOrder {α β : Type} {items : List β} {next : List β → Prog σ α}
      (hnext : ∀ items', Unfailing (next items')) : Unfailing (.anyOrder items next)
  | join {α β γ : Type} {left : Prog σ β} {right : Prog σ γ} {next : β → γ → Prog σ α}
      (hleft : Unfailing left) (hright : Unfailing right) (hnext : ∀ b c, Unfailing (next b c)) :
      Unfailing (.join left right next)

theorem Unfailing.finishes {p : Prog σ α} (h : Unfailing p) (s : σ) : ∃ value t, Finishes p s value t := by
  induction h generalizing s with
  | ret value => exact ⟨value, s, .ret value s⟩
  | access _ ih =>
      obtain ⟨value, t, hrest⟩ := ih _ _
      exact ⟨value, t, .of_step .access hrest⟩
  | query hattempts hstmt _ ih =>
      obtain ⟨result, hok⟩ := hstmt s
      obtain ⟨value, t, hrest⟩ := ih (some result.1) result.2
      exact ⟨value, t, .of_step (.queryDone hattempts hok) hrest⟩
  | anyOrder _ ih =>
      obtain ⟨value, t, hrest⟩ := ih _ s
      exact ⟨value, t, .of_step (.anyOrder (.refl _)) hrest⟩
  | join _ _ _ ihleft ihright ih =>
      obtain ⟨b, s₁, hl⟩ := ihleft s
      obtain ⟨c, s₂, hr⟩ := ihright s₁
      obtain ⟨value, t, hrest⟩ := ih b c s₂
      exact ⟨value, t, .join_left_first hl hr hrest⟩

theorem Unfailing.bind {p : Prog σ α} {f : α → Prog σ β} (hp : Unfailing p) (hf : ∀ a, Unfailing (f a)) :
    Unfailing (p.bind f) := by
  induction hp with
  | ret value => exact hf value
  | access _ ih => exact .access fun b => ih b hf
  | query hattempts hstmt _ ih => exact .query hattempts hstmt fun b => ih b hf
  | anyOrder _ ih => exact .anyOrder fun items' => ih items' hf
  | join hleft hright _ _ _ ih => exact .join hleft hright fun b c => ih b c hf

theorem Unfailing.forEach {items : List β} {body : β → Prog σ Unit} (hbody : ∀ item, Unfailing (body item)) :
    Unfailing (Prog.forEach items body) := by
  induction items with
  | nil => exact .ret ()
  | cons item items ih => exact (hbody item).bind fun _ => ih

theorem Unfailing.both {left right : Prog σ Unit} (hleft : Unfailing left) (hright : Unfailing right) :
    Unfailing (Prog.both left right) :=
  .join hleft hright fun _ _ => .ret ()

end ExplorerIndexer.Async

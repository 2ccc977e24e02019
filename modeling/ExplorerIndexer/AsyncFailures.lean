import ExplorerIndexer.AsyncProgram

/-! Where an `Err` comes from. In a program that contains none to begin with, a task ends with `Err` exactly if
one of its statements, or of the tasks it joins, was given up after its last attempt. -/

namespace ExplorerIndexer.Async

variable {σ α β γ : Type}

/-- The program text contains no `Err`: only a statement that is given up can produce one. -/
inductive ErrFree {σ : Type} : {α : Type} → Prog σ α → Prop
  | ret {α : Type} (value : α) : ErrFree (.ret value)
  | panic {α : Type} : ErrFree (.panic : Prog σ α)
  | access {α β : Type} {act : σ → β × σ} {next : β → Prog σ α} (hnext : ∀ b, ErrFree (next b)) :
      ErrFree (.access act next)
  | query {α β : Type} {attempts : Option Nat} {stmt : Statement σ β} {handled : QueryError → Bool}
      {next : Option β → Prog σ α} (hnext : ∀ b, ErrFree (next b)) :
      ErrFree (.query attempts stmt handled next)
  | anyOrder {α β : Type} {items : List β} {next : List β → Prog σ α} (hnext : ∀ l, ErrFree (next l)) :
      ErrFree (.anyOrder items next)
  | join {α β γ : Type} {left : Prog σ β} {right : Prog σ γ} {next : β → γ → Prog σ α}
      (hleft : ErrFree left) (hright : ErrFree right) (hnext : ∀ b c, ErrFree (next b c)) :
      ErrFree (.join left right next)
  | loop {α β γ : Type} {body : β → Prog σ (β ⊕ γ)} {start : β} {next : γ → Prog σ α}
      (hbody : ∀ b, ErrFree (body b)) (hnext : ∀ c, ErrFree (next c)) : ErrFree (.loop body start next)

/-- Some task of the program has ended with `Err`. -/
inductive Doomed {σ : Type} : {α : Type} → Prog σ α → Prop
  | fail {α : Type} : Doomed (.fail : Prog σ α)
  | joinLeft {α β γ : Type} {left : Prog σ β} {right : Prog σ γ} {next : β → γ → Prog σ α}
      (hleft : Doomed left) : Doomed (.join left right next)
  | joinRight {α β γ : Type} {left : Prog σ β} {right : Prog σ γ} {next : β → γ → Prog σ α}
      (hright : Doomed right) : Doomed (.join left right next)

/-! ### Programs without `Err` -/

theorem ErrFree.bind {p : Prog σ α} {f : α → Prog σ β} (hp : ErrFree p) (hf : ∀ a, ErrFree (f a)) :
    ErrFree (p.bind f) := by
  induction hp with
  | ret value => exact hf value
  | panic => exact .panic
  | access _ ih => exact .access fun b => ih b hf
  | query _ ih => exact .query fun b => ih b hf
  | anyOrder _ ih => exact .anyOrder fun l => ih l hf
  | join hleft hright _ _ _ ih => exact .join hleft hright fun b c => ih b c hf
  | loop hbody _ _ ih => exact .loop hbody fun c => ih c hf

theorem ErrFree.both {left right : Prog σ Unit} (hleft : ErrFree left) (hright : ErrFree right) :
    ErrFree (Prog.both left right) := .join hleft hright fun _ _ => .ret ()

theorem ErrFree.joinAll {tasks : List (Prog σ Unit)} (h : ∀ task ∈ tasks, ErrFree task) :
    ErrFree (Prog.joinAll tasks) := by
  induction tasks with
  | nil => exact .ret ()
  | cons task tasks ih =>
      exact (h task List.mem_cons_self).both (ih fun task' hmem => h task' (List.mem_cons_of_mem _ hmem))

/-- The same task for every item. -/
theorem ErrFree.joinAll_map {items : List β} {task : β → Prog σ Unit} (h : ∀ item, ErrFree (task item)) :
    ErrFree (Prog.joinAll (items.map task)) := by
  apply ErrFree.joinAll
  intro p hmem
  obtain ⟨item, _, rfl⟩ := List.mem_map.mp hmem
  exact h item

theorem ErrFree.forEach {items : List β} {body : β → Prog σ Unit} (h : ∀ item, ErrFree (body item)) :
    ErrFree (Prog.forEach items body) := by
  induction items with
  | nil => exact .ret ()
  | cons item items ih => exact (h item).bind fun _ => ih

/-- Only giving up a statement leads out of the programs without `Err`. -/
theorem ErrFree.step {p q : Prog σ α} {s t : σ} {event : Event} (hp : ErrFree p)
    (hstep : Step p s event q t) (hevent : event ≠ .gaveUp) : ErrFree q := by
  induction hp generalizing s t event with
  | ret value => exact hstep.ret_elim.elim
  | panic => cases hstep
  | access hnext => cases hstep with | access => exact hnext _
  | query hnext =>
      cases hstep with
      | queryDone _ _ => exact hnext _
      | queryHandled _ _ _ => exact hnext _
      | queryRefused _ _ _ => exact .query hnext
      | queryLost _ => exact .query hnext
      | queryGaveUp => exact (hevent rfl).elim
  | anyOrder hnext => cases hstep with | anyOrder _ => exact hnext _
  | join hleft hright hnext ihleft ihright _ =>
      cases hstep with
      | joinLeft hstep => exact .join (ihleft hstep hevent) hright hnext
      | joinRight hstep => exact .join hleft (ihright hstep hevent) hnext
      | joinRet => exact hnext _ _
      | joinFailLeft => cases hleft
      | joinFailRight => cases hright
  | loop hbody hnext _ _ =>
      cases hstep with
      | loop =>
          refine (hbody _).bind fun answer => ?_
          cases answer with
          | inl again => exact .loop hbody hnext
          | inr c => exact hnext c

/-! ### Programs with an `Err` -/

theorem Doomed.of_gaveUp {p q : Prog σ α} {s t : σ} {event : Event} (hstep : Step p s event q t)
    (hevent : event = .gaveUp) : Doomed q := by
  induction hstep with
  | queryGaveUp => exact .fail
  | joinLeft _ ih => exact .joinLeft (ih hevent)
  | joinRight _ ih => exact .joinRight (ih hevent)
  | _ => cases hevent

theorem Doomed.step {p q : Prog σ α} {s t : σ} {event : Event} (hp : Doomed p)
    (hstep : Step p s event q t) : Doomed q := by
  induction hp generalizing s t event with
  | fail => exact hstep.fail_elim.elim
  | joinLeft hleft ih =>
      cases hstep with
      | joinLeft hstep => exact .joinLeft (ih hstep)
      | joinRight hstep => exact .joinLeft hleft
      | joinRet => cases hleft
      | joinFailLeft => exact .fail
      | joinFailRight => exact .fail
  | joinRight hright ih =>
      cases hstep with
      | joinLeft hstep => exact .joinRight hright
      | joinRight hstep => exact .joinRight (ih hstep)
      | joinRet => cases hright
      | joinFailLeft => exact .fail
      | joinFailRight => exact .fail

theorem Doomed.steps {p q : Prog σ α} {s t : σ} {events : List Event} (hp : Doomed p)
    (hsteps : Steps p s events q t) : Doomed q := by
  induction hsteps with
  | refl => exact hp
  | head hstep _ ih => exact ih (hp.step hstep)

/-- A task that has given up a statement does not return. -/
theorem Steps.ret_of_gaveUp {p : Prog σ α} {s t : σ} {events : List Event} {value : α}
    (h : Steps p s events (.ret value) t) : Event.gaveUp ∉ events := by
  generalize hq : Prog.ret value = q at h
  induction h with
  | refl => exact List.not_mem_nil
  | head hstep hrest ih =>
      intro hmem
      rcases List.mem_cons.mp hmem with heq | hmem
      · have hdoomed := (Doomed.of_gaveUp hstep heq.symm).steps hrest
        rw [← hq] at hdoomed
        cases hdoomed
      · exact ih hq hmem

theorem ErrFree.steps {p q : Prog σ α} {s t : σ} {events : List Event} (hp : ErrFree p)
    (hsteps : Steps p s events q t) (hevents : Event.gaveUp ∉ events) : ErrFree q := by
  induction hsteps with
  | refl => exact hp
  | head hstep _ ih =>
      rw [List.mem_cons, not_or] at hevents
      exact ih (hp.step hstep (Ne.symm hevents.1)) hevents.2

/-- A task that ends with `Err` has given up a statement. -/
theorem ErrFree.gaveUp_of_fail {p : Prog σ α} {s t : σ} {events : List Event} (hp : ErrFree p)
    (h : Steps p s events .fail t) : Event.gaveUp ∈ events := by
  by_contra hevents
  cases hp.steps h hevents

/-! ### Giving up -/

/-- A statement that is lost as often as it is tried. -/
theorem Steps.give_up (n : Nat) (stmt : Statement σ β) (handled : QueryError → Bool)
    (next : Option β → Prog σ α) (s : σ) :
    Steps (.query (some n) stmt handled next) s (List.replicate n .lost ++ [.gaveUp]) .fail s := by
  induction n with
  | zero => exact .single .queryGaveUp
  | succ n ih => exact .head (.queryLost (by simp)) ih

end ExplorerIndexer.Async

import Mathlib.Data.List.Perm.Basic
import Mathlib.Logic.Relation

/-! Programs of cooperating tasks over a shared state. A program is what an `async` body does between
its suspension points: each access to the shared state is one atomic action, the control flow around
it is kept as a tree. Two tasks joined together interleave their actions in any order, a statement
sent to a store may be lost at any attempt, and a statement that runs out of attempts fails its task.
-/

namespace ExplorerIndexer.Async

/-- Why a store did not execute a statement: it was not reached, or a named constraint refused it. -/
inductive QueryError where
  | unavailable
  | violates (constraintName : String)
  deriving DecidableEq

/-- A statement either runs to completion, with a result and the next state, or changes nothing. -/
abbrev Statement (σ β : Type) := σ → Except QueryError (β × σ)

inductive Prog (σ : Type) : Type → Type 1 where
  /-- The task is ready with `Ok value`. -/
  | ret {α : Type} (value : α) : Prog σ α
  /-- The task is ready with an `Err`. -/
  | fail {α : Type} : Prog σ α
  /-- The task panicked: it never becomes ready. -/
  | panic {α : Type} : Prog σ α
  /-- One uninterrupted access to the shared state, such as a critical section. -/
  | access {α β : Type} (act : σ → β × σ) (next : β → Prog σ α) : Prog σ α
  /-- A statement with a number of attempts left (`none`: unlimited). An error that `handled`
  accepts ends the attempts with `none` instead of consuming them. -/
  | query {α β : Type} (attempts : Option Nat) (stmt : Statement σ β)
      (handled : QueryError → Bool) (next : Option β → Prog σ α) : Prog σ α
  /-- Going through an unordered collection: the items come in some order. -/
  | anyOrder {α β : Type} (items : List β) (next : List β → Prog σ α) : Prog σ α
  /-- Both tasks run; the first `Err` drops the other one. -/
  | join {α β γ : Type} (left : Prog σ β) (right : Prog σ γ) (next : β → γ → Prog σ α) : Prog σ α
  /-- The body runs again as long as it answers `Sum.inl`. -/
  | loop {α β γ : Type} (body : β → Prog σ (β ⊕ γ)) (start : β) (next : γ → Prog σ α) : Prog σ α

namespace Prog

protected def bind {σ α β : Type} : Prog σ α → (α → Prog σ β) → Prog σ β
  | .ret value, f => f value
  | .fail, _ => .fail
  | .panic, _ => .panic
  | .access act next, f => .access act fun b => (next b).bind f
  | .query attempts stmt handled next, f => .query attempts stmt handled fun b => (next b).bind f
  | .anyOrder items next, f => .anyOrder items fun l => (next l).bind f
  | .join left right next, f => .join left right fun b c => (next b c).bind f
  | .loop body start next, f => .loop body start fun c => (next c).bind f

instance {σ : Type} : Monad (Prog σ) where
  pure := .ret
  bind := Prog.bind

variable {σ α β γ : Type}

@[simp] theorem bind_ret (value : α) (f : α → Prog σ β) : (Prog.ret value).bind f = f value := rfl

@[simp] theorem bind_fail (f : α → Prog σ β) : (Prog.fail : Prog σ α).bind f = .fail := rfl

theorem bind_assoc (p : Prog σ α) (f : α → Prog σ β) (g : β → Prog σ γ) :
    (p.bind f).bind g = p.bind fun a => (f a).bind g := by
  induction p with
  | ret value => rfl
  | fail => rfl
  | panic => rfl
  | access act next ih => simp only [Prog.bind, ih]
  | query attempts stmt handled next ih => simp only [Prog.bind, ih]
  | anyOrder items next ih => simp only [Prog.bind, ih]
  | join left right next _ _ ih => simp only [Prog.bind, ih]
  | loop body start next _ ih => simp only [Prog.bind, ih]

theorem bind_ret_right (p : Prog σ α) : p.bind .ret = p := by
  induction p with
  | ret value => rfl
  | fail => rfl
  | panic => rfl
  | access act next ih => simp only [Prog.bind, ih]
  | query attempts stmt handled next ih => simp only [Prog.bind, ih]
  | anyOrder items next ih => simp only [Prog.bind, ih]
  | join left right next _ _ ih => simp only [Prog.bind, ih]
  | loop body start next _ ih => simp only [Prog.bind, ih]

instance : LawfulMonad (Prog σ) :=
  LawfulMonad.mk' _ bind_ret_right (fun _ _ => rfl) bind_assoc

/-- Both tasks, for their effects: `try_join!` of two futures. -/
def both (left right : Prog σ Unit) : Prog σ Unit := .join left right fun _ _ => .ret ()

/-- All tasks at once, for their effects: `try_join_all`. -/
def joinAll : List (Prog σ Unit) → Prog σ Unit
  | [] => .ret ()
  | task :: tasks => both task (joinAll tasks)

/-- One task per item, one after the other: a `for` loop over a list. -/
def forEach : List β → (β → Prog σ Unit) → Prog σ Unit
  | [], _ => .ret ()
  | item :: items, body => (body item).bind fun _ => forEach items body

end Prog

/-- What an observer sees of a step: the outcome of a statement's attempt, a statement that is given
up after its last attempt, or nothing. -/
inductive Event where
  | internal
  | done
  | refused
  | lost
  | gaveUp
  deriving DecidableEq

/-- One step of a program. A statement is lost at the will of the environment; it is refused when its
constraints do not hold. Neither changes the state. -/
inductive Step {σ : Type} : {α : Type} → Prog σ α → σ → Event → Prog σ α → σ → Prop
  | access {α β : Type} {act : σ → β × σ} {next : β → Prog σ α} {s : σ} :
      Step (.access act next) s .internal (next (act s).1) (act s).2
  | queryDone {α β : Type} {attempts : Option Nat} {stmt : Statement σ β}
      {handled : QueryError → Bool} {next : Option β → Prog σ α} {s t : σ} {b : β}
      (hattempts : attempts ≠ some 0) (hrun : stmt s = .ok (b, t)) :
      Step (.query attempts stmt handled next) s .done (next (some b)) t
  | queryHandled {α β : Type} {attempts : Option Nat} {stmt : Statement σ β}
      {handled : QueryError → Bool} {next : Option β → Prog σ α} {s : σ} {error : QueryError}
      (hattempts : attempts ≠ some 0) (hrun : stmt s = .error error) (hhandled : handled error = true) :
      Step (.query attempts stmt handled next) s .refused (next none) s
  | queryRefused {α β : Type} {attempts : Option Nat} {stmt : Statement σ β}
      {handled : QueryError → Bool} {next : Option β → Prog σ α} {s : σ} {error : QueryError}
      (hattempts : attempts ≠ some 0) (hrun : stmt s = .error error) (hhandled : handled error = false) :
      Step (.query attempts stmt handled next) s .refused
        (.query (attempts.map Nat.pred) stmt handled next) s
  | queryLost {α β : Type} {attempts : Option Nat} {stmt : Statement σ β}
      {handled : QueryError → Bool} {next : Option β → Prog σ α} {s : σ}
      (hattempts : attempts ≠ some 0) :
      Step (.query attempts stmt handled next) s .lost
        (.query (attempts.map Nat.pred) stmt handled next) s
  | queryGaveUp {α β : Type} {stmt : Statement σ β} {handled : QueryError → Bool}
      {next : Option β → Prog σ α} {s : σ} :
      Step (.query (some 0) stmt handled next) s .gaveUp .fail s
  | anyOrder {α β : Type} {items items' : List β} {next : List β → Prog σ α} {s : σ}
      (hperm : items'.Perm items) : Step (.anyOrder items next) s .internal (next items') s
  | joinLeft {α β γ : Type} {left left' : Prog σ β} {right : Prog σ γ} {next : β → γ → Prog σ α}
      {s t : σ} {event : Event} (hstep : Step left s event left' t) :
      Step (.join left right next) s event (.join left' right next) t
  | joinRight {α β γ : Type} {left : Prog σ β} {right right' : Prog σ γ} {next : β → γ → Prog σ α}
      {s t : σ} {event : Event} (hstep : Step right s event right' t) :
      Step (.join left right next) s event (.join left right' next) t
  | joinRet {α β γ : Type} {b : β} {c : γ} {next : β → γ → Prog σ α} {s : σ} :
      Step (.join (.ret b) (.ret c) next) s .internal (next b c) s
  | joinFailLeft {α β γ : Type} {right : Prog σ γ} {next : β → γ → Prog σ α} {s : σ} :
      Step (.join .fail right next) s .internal .fail s
  | joinFailRight {α β γ : Type} {left : Prog σ β} {next : β → γ → Prog σ α} {s : σ} :
      Step (.join left .fail next) s .internal .fail s
  | loop {α β γ : Type} {body : β → Prog σ (β ⊕ γ)} {start : β} {next : γ → Prog σ α} {s : σ} :
      Step (.loop body start next) s .internal
        ((body start).bind (Sum.elim (fun again => .loop body again next) next)) s

/-- A run: the events of its steps, in order. -/
inductive Steps {σ α : Type} : Prog σ α → σ → List Event → Prog σ α → σ → Prop
  | refl {p : Prog σ α} {s : σ} : Steps p s [] p s
  | head {p q r : Prog σ α} {s t u : σ} {event : Event} {events : List Event}
      (hstep : Step p s event q t) (hrest : Steps q t events r u) : Steps p s (event :: events) r u

/-- Some run of the program ends with `Ok value`. -/
def Finishes {σ α : Type} (p : Prog σ α) (s : σ) (value : α) (t : σ) : Prop :=
  ∃ events, Steps p s events (.ret value) t

variable {σ α β γ : Type}

theorem Steps.single {p q : Prog σ α} {s t : σ} {event : Event} (hstep : Step p s event q t) :
    Steps p s [event] q t := .head hstep .refl

theorem Steps.trans {p q r : Prog σ α} {s t u : σ} {events events' : List Event}
    (hfirst : Steps p s events q t) (hsecond : Steps q t events' r u) :
    Steps p s (events ++ events') r u := by
  induction hfirst with
  | refl => exact hsecond
  | head hstep _ ih => exact .head hstep (ih hsecond)

theorem Step.ret_elim {value : α} {q : Prog σ α} {s t : σ} {event : Event}
    (h : Step (.ret value) s event q t) : False := by cases h

theorem Step.fail_elim {q : Prog σ α} {s t : σ} {event : Event}
    (h : Step .fail s event q t) : False := by cases h

theorem Steps.of_ret {value : α} {q : Prog σ α} {s t : σ} {events : List Event}
    (h : Steps (.ret value) s events q t) : q = .ret value ∧ t = s ∧ events = [] := by
  cases h with
  | refl => exact ⟨rfl, rfl, rfl⟩
  | head hstep _ => exact hstep.ret_elim.elim

/-! ### Sequencing -/

theorem Step.bind {p q : Prog σ α} {s t : σ} {event : Event} (h : Step p s event q t)
    (f : α → Prog σ β) : Step (p.bind f) s event (q.bind f) t := by
  cases h with
  | access => exact .access
  | queryDone hattempts hrun => exact .queryDone hattempts hrun
  | queryHandled hattempts hrun hhandled => exact .queryHandled hattempts hrun hhandled
  | queryRefused hattempts hrun hhandled => exact .queryRefused hattempts hrun hhandled
  | queryLost hattempts => exact .queryLost hattempts
  | queryGaveUp => exact .queryGaveUp
  | anyOrder hperm => exact .anyOrder hperm
  | joinLeft hstep => exact .joinLeft hstep
  | joinRight hstep => exact .joinRight hstep
  | joinRet => exact .joinRet
  | joinFailLeft => exact .joinFailLeft
  | joinFailRight => exact .joinFailRight
  | @loop _ _ _ body start next _ =>
      rw [Prog.bind_assoc]
      have hnext : (fun a => (Sum.elim (fun again => Prog.loop body again next) next a).bind f) =
          Sum.elim (fun again => Prog.loop body again fun c => (next c).bind f)
            (fun c => (next c).bind f) := by
        funext a
        cases a <;> rfl
      rw [hnext]
      exact .loop

theorem Steps.bind {p q : Prog σ α} {s t : σ} {events : List Event} (h : Steps p s events q t)
    (f : α → Prog σ β) : Steps (p.bind f) s events (q.bind f) t := by
  induction h with
  | refl => exact .refl
  | head hstep _ ih => exact .head (hstep.bind f) ih

/-- A run that goes through an unordered collection first fixes the order. -/
theorem Steps.of_anyOrder {items : List β} {next : List β → Prog σ α} {q : Prog σ α} {s t : σ}
    {events : List Event} (h : Steps (.anyOrder items next) s events q t) :
    (q = .anyOrder items next ∧ t = s) ∨
      ∃ items' events', items'.Perm items ∧ Steps (next items') s events' q t := by
  cases h with
  | refl => exact .inl ⟨rfl, rfl⟩
  | head hstep hrest =>
      cases hstep with
      | anyOrder hperm => exact .inr ⟨_, _, hperm, hrest⟩

theorem Finishes.of_anyOrder {items : List β} {next : List β → Prog σ α} {s t : σ} {value : α}
    (h : Finishes (.anyOrder items next) s value t) :
    ∃ items', items'.Perm items ∧ Finishes (next items') s value t := by
  obtain ⟨events, hsteps⟩ := h
  rcases hsteps.of_anyOrder with ⟨hq, _⟩ | ⟨items', events', hperm, hrest⟩
  · cases hq
  · exact ⟨items', hperm, events', hrest⟩

/-- A statement whose errors are all retried was executed in the end. -/
theorem Finishes.of_query {attempts : Option Nat} {stmt : Statement σ β} {next : Option β → Prog σ α} {s t : σ}
    {value : α} (h : Finishes (.query attempts stmt (fun _ => false) next) s value t) :
    ∃ b u, stmt s = .ok (b, u) ∧ Finishes (next (some b)) u value t := by
  obtain ⟨events, hsteps⟩ := h
  induction events generalizing attempts with
  | nil => cases hsteps
  | cons event events ih =>
      cases hsteps with
      | head hstep hrest =>
          cases hstep with
          | queryDone _ hrun => exact ⟨_, _, hrun, events, hrest⟩
          | queryHandled _ _ hhandled => cases hhandled
          | queryRefused _ _ _ => exact ih hrest
          | queryLost _ => exact ih hrest
          | queryGaveUp =>
              cases hrest with
              | head hstep _ => exact hstep.fail_elim.elim

/-! ### Runs that follow a chosen schedule

These build one run of a program; they are what a scheduler that starves one task produces. -/

theorem Finishes.ret (value : α) (s : σ) : Finishes (.ret value) s value s := ⟨[], .refl⟩

theorem Finishes.bind {p : Prog σ α} {f : α → Prog σ β} {s t u : σ} {a : α} {b : β}
    (hfirst : Finishes p s a t) (hsecond : Finishes (f a) t b u) : Finishes (p.bind f) s b u := by
  obtain ⟨events, hp⟩ := hfirst
  obtain ⟨events', hf⟩ := hsecond
  exact ⟨events ++ events', (hp.bind f).trans hf⟩

theorem Finishes.of_step {p q : Prog σ α} {s t u : σ} {event : Event} {a : α}
    (hstep : Step p s event q t) (hrest : Finishes q t a u) : Finishes p s a u := by
  obtain ⟨events, hq⟩ := hrest
  exact ⟨event :: events, .head hstep hq⟩

theorem Steps.joinLeft {left left' : Prog σ β} {s t : σ} {events : List Event}
    (h : Steps left s events left' t) (right : Prog σ γ) (next : β → γ → Prog σ α) :
    Steps (.join left right next) s events (.join left' right next) t := by
  induction h with
  | refl => exact .refl
  | head hstep _ ih => exact .head (.joinLeft hstep) ih

theorem Steps.joinRight {right right' : Prog σ γ} {s t : σ} {events : List Event}
    (left : Prog σ β) (h : Steps right s events right' t) (next : β → γ → Prog σ α) :
    Steps (.join left right next) s events (.join left right' next) t := by
  induction h with
  | refl => exact .refl
  | head hstep _ ih => exact .head (.joinRight hstep) ih

/-- The left task runs first. -/
theorem Finishes.join_left_first {left : Prog σ β} {right : Prog σ γ} {next : β → γ → Prog σ α}
    {s t u v : σ} {b : β} {c : γ} {a : α} (hleft : Finishes left s b t) (hright : Finishes right t c u)
    (hnext : Finishes (next b c) u a v) : Finishes (.join left right next) s a v := by
  obtain ⟨eventsLeft, hl⟩ := hleft
  obtain ⟨eventsRight, hr⟩ := hright
  obtain ⟨eventsNext, hn⟩ := hnext
  exact ⟨_, ((hl.joinLeft right next).trans (.joinRight _ hr next)).trans (.head .joinRet hn)⟩

/-- The right task runs first. -/
theorem Finishes.join_right_first {left : Prog σ β} {right : Prog σ γ} {next : β → γ → Prog σ α}
    {s t u v : σ} {b : β} {c : γ} {a : α} (hright : Finishes right s c t) (hleft : Finishes left t b u)
    (hnext : Finishes (next b c) u a v) : Finishes (.join left right next) s a v := by
  obtain ⟨eventsLeft, hl⟩ := hleft
  obtain ⟨eventsRight, hr⟩ := hright
  obtain ⟨eventsNext, hn⟩ := hnext
  exact ⟨_, ((Steps.joinRight left hr next).trans (hl.joinLeft _ next)).trans (.head .joinRet hn)⟩

/-! ### One program after the other -/

/-- Every item is handled to its end before the next one. -/
inductive InOrder {σ ι : Type} (handler : ι → Prog σ Unit) : σ → List ι → σ → Prop
  | nil {s : σ} : InOrder handler s [] s
  | cons {item : ι} {items : List ι} {s t u : σ} (hitem : Finishes (handler item) s () t)
      (hitems : InOrder handler t items u) : InOrder handler s (item :: items) u

theorem InOrder.of_append {ι : Type} {handler : ι → Prog σ Unit} {first rest : List ι} {s u : σ}
    (h : InOrder handler s (first ++ rest) u) : ∃ t, InOrder handler s first t ∧ InOrder handler t rest u := by
  induction first generalizing s with
  | nil => exact ⟨s, .nil, h⟩
  | cons item first ih =>
      cases h with
      | cons hitem hitems =>
          obtain ⟨t, hfirst, hrest⟩ := ih hitems
          exact ⟨t, .cons hitem hfirst, hrest⟩

theorem InOrder.snoc {ι : Type} {handler : ι → Prog σ Unit} {items : List ι} {item : ι} {s t u : σ}
    (h : InOrder handler s items t) (hitem : Finishes (handler item) t () u) :
    InOrder handler s (items ++ [item]) u := by
  induction h with
  | nil => exact .cons hitem .nil
  | cons hfirst _ ih => exact .cons hfirst (ih hitem)

/-- A run in order in which every item meets a condition on the state that it finds and on the items that
follow it. -/
inductive InOrderWith {σ ι : Type} (meets : σ → ι → List ι → Prop) (handler : ι → Prog σ Unit) :
    σ → List ι → σ → Prop
  | nil {s : σ} : InOrderWith meets handler s [] s
  | cons {item : ι} {items : List ι} {s t u : σ} (hmeets : meets s item items)
      (hitem : Finishes (handler item) s () t) (hitems : InOrderWith meets handler t items u) :
      InOrderWith meets handler s (item :: items) u

end ExplorerIndexer.Async

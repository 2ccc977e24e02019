import ExplorerIndexer.AsyncOutline

/-! Calls by any number of clients that share a state. A call is a task with the request it serves; calls begin at
any time, take their steps in any order and may be cut off anywhere, and the rest of the system may change the state
in between. -/

namespace ExplorerIndexer.Async

structure Calls (ι σ : Type) where
  tasks : List (ι × Prog σ Unit)
  state : σ

inductive CallsStep {ι σ : Type} (body : ι → Prog σ Unit) (callable : ι → Prop) (environment : σ → σ → Prop) :
    Calls ι σ → Calls ι σ → Prop
  | call {tasks : List (ι × Prog σ Unit)} {s : σ} {request : ι} (hcall : callable request) :
      CallsStep body callable environment ⟨tasks, s⟩ ⟨tasks ++ [(request, body request)], s⟩
  | run {before after : List (ι × Prog σ Unit)} {request : ι} {p q : Prog σ Unit} {s t : σ} {event : Event}
      (hstep : Step p s event q t) :
      CallsStep body callable environment ⟨before ++ (request, p) :: after, s⟩
        ⟨before ++ (request, q) :: after, t⟩
  /-- The call has returned, or it is cut off. -/
  | leave {before after : List (ι × Prog σ Unit)} {task : ι × Prog σ Unit} {s : σ} :
      CallsStep body callable environment ⟨before ++ task :: after, s⟩ ⟨before ++ after, s⟩
  | environment {tasks : List (ι × Prog σ Unit)} {s t : σ} (henvironment : environment s t) :
      CallsStep body callable environment ⟨tasks, s⟩ ⟨tasks, t⟩

abbrev CallsRun {ι σ : Type} (body : ι → Prog σ Unit) (callable : ι → Prop) (environment : σ → σ → Prop) :
    Calls ι σ → Calls ι σ → Prop := Relation.ReflTransGen (CallsStep body callable environment)

/-- The call has returned `Ok`. -/
def Calls.Returned {ι σ : Type} (calls : Calls ι σ) (request : ι) : Prop :=
  (request, Prog.ret ()) ∈ calls.tasks

variable {ι σ : Type} {body : ι → Prog σ Unit} {callable : ι → Prop} {environment rely : σ → σ → Prop}
  {P R : σ → Prop} {Q : ι → σ → Prop} {calls calls' : Calls ι σ} {s : σ}

theorem CallsRun.steps {before after : List (ι × Prog σ Unit)} {request : ι} {p q : Prog σ Unit} {s t : σ}
    {events : List Event} (h : Steps p s events q t) :
    CallsRun body callable environment ⟨before ++ (request, p) :: after, s⟩
      ⟨before ++ (request, q) :: after, t⟩ := by
  induction h with
  | refl => exact .refl
  | head hstep _ ih => exact .head (.run hstep) ih

/-- Every call is at some point of an outline that ends with what the request asks for. -/
def Calls.Outlined (rely : σ → σ → Prop) (Q : ι → σ → Prop) (calls : Calls ι σ) : Prop :=
  ∀ task ∈ calls.tasks, ∃ P', Outline False rely rely P' task.2 (fun _ => Q task.1) ∧ Stable rely P' ∧
    P' calls.state

section Rules

variable (hbody : ∀ request, callable request → Outline False rely rely P (body request) fun _ => Q request)
    (hP : Stable rely P) (henvironment : ∀ s t, environment s t → rely s t)

include hbody hP henvironment

/-- The calls' outlines endure each other and the rest of the system. -/
theorem CallsStep.outlined (hs : P calls.state) (h : calls.Outlined rely Q)
    (hstep : CallsStep body callable environment calls calls') :
    (calls'.state = calls.state ∨ rely calls.state calls'.state) ∧ calls'.Outlined rely Q := by
  cases hstep with
  | call hcall =>
      refine ⟨.inl rfl, fun task htask => ?_⟩
      rcases List.mem_append.mp htask with hmem | hmem
      · exact h task hmem
      · rw [List.mem_singleton.mp hmem]
        exact ⟨P, hbody _ hcall, hP, hs⟩
  | @run before after request p q s t event hrun =>
      obtain ⟨hrely, hq⟩ := Midway.step (h (request, p) (List.mem_append_right _ List.mem_cons_self)) hrun
      exact ⟨hrely, forall_mem_replace h (fun _ hother => Midway.others hother hrely) hq⟩
  | leave =>
      refine ⟨.inl rfl, fun task htask => h task (List.mem_append.mpr ?_)⟩
      exact (List.mem_append.mp htask).imp_right (List.mem_cons_of_mem _)
  | environment hchange =>
      have hrely := henvironment _ _ hchange
      exact ⟨.inr hrely, fun task htask => Midway.others (h task htask) (.inr hrely)⟩

/-- What everyone respects still holds later, and every call is still at some point of its outline. -/
theorem CallsRun.outlined (hs : P calls.state) (h : calls.Outlined rely Q) (hR : Stable rely R)
    (hstart : R calls.state) (hrun : CallsRun body callable environment calls calls') :
    R calls'.state ∧ P calls'.state ∧ calls'.Outlined rely Q := by
  induction hrun with
  | refl => exact ⟨hstart, hs, h⟩
  | tail _ hstep ih =>
      obtain ⟨hR', hP', hout⟩ := ih
      obtain ⟨hrely, hnext⟩ := hstep.outlined hbody hP henvironment hP' hout
      exact ⟨hrely.elim (fun heq => heq ▸ hR') (hR _ _ hR'), hrely.elim (fun heq => heq ▸ hP') (hP _ _ hP'), hnext⟩

/-- From a state without calls, an assertion that everyone respects holds throughout, and every call that has
returned has done what the request asks for. -/
theorem CallsRun.invariant (hs : P s) (hrun : CallsRun body callable environment ⟨[], s⟩ calls) :
    P calls.state ∧ calls.Outlined rely Q ∧ ∀ request, calls.Returned request → Q request calls.state := by
  have hnone : Calls.Outlined rely Q ⟨[], s⟩ := fun _ hmem => (List.not_mem_nil hmem).elim
  obtain ⟨_, hs', hout⟩ := hrun.outlined hbody hP henvironment hs hnone hP hs
  refine ⟨hs', hout, fun request hreturned => ?_⟩
  obtain ⟨P', hret, _, ht⟩ := hout _ hreturned
  cases hret with
  | ret hpost => exact hpost _ ht

end Rules

end ExplorerIndexer.Async

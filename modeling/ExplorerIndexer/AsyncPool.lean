import ExplorerIndexer.AsyncOutline

/-! A pool of tasks over one state. Tasks come and go at any time and take their steps in any order; when none is
left, the environment may change the state, as a restart does. -/

namespace ExplorerIndexer.Async

structure Pool (σ : Type) where
  tasks : List (Prog σ Unit)
  state : σ

inductive PoolStep {σ : Type} (spawnable : Prog σ Unit → Prop) (restart : σ → σ → Prop) : Pool σ → Pool σ → Prop
  | spawn {tasks : List (Prog σ Unit)} {p : Prog σ Unit} {s : σ} (hspawn : spawnable p) :
      PoolStep spawnable restart ⟨tasks, s⟩ ⟨tasks ++ [p], s⟩
  | run {before after : List (Prog σ Unit)} {p q : Prog σ Unit} {s t : σ} {event : Event}
      (hstep : Step p s event q t) :
      PoolStep spawnable restart ⟨before ++ p :: after, s⟩ ⟨before ++ q :: after, t⟩
  /-- The task is ready, or it is interrupted. -/
  | leave {before after : List (Prog σ Unit)} {p : Prog σ Unit} {s : σ} :
      PoolStep spawnable restart ⟨before ++ p :: after, s⟩ ⟨before ++ after, s⟩
  | restart {s t : σ} (hrestart : restart s t) : PoolStep spawnable restart ⟨[], s⟩ ⟨[], t⟩

/-- The pools that can be reached from a state without tasks. -/
inductive PoolReachable {σ : Type} (spawnable : Prog σ Unit → Prop) (restart : σ → σ → Prop) (start : σ) :
    Pool σ → Prop
  | start : PoolReachable spawnable restart start ⟨[], start⟩
  | step {pool pool' : Pool σ} (hreach : PoolReachable spawnable restart start pool)
      (hstep : PoolStep spawnable restart pool pool') : PoolReachable spawnable restart start pool'

variable {σ : Type} {spawnable : Prog σ Unit → Prop} {restart : σ → σ → Prop} {rely : σ → σ → Prop}
  {P : σ → Prop} {start : σ}

/-- Every task of the pool is at some point of its outline. -/
def Outlined (rely : σ → σ → Prop) (pool : Pool σ) : Prop :=
  ∀ p ∈ pool.tasks, ∃ P', Outline False rely rely P' p (fun _ _ => True) ∧ Stable rely P' ∧ P' pool.state

/-- What a step does to the state: nothing, a step of a task, or a restart. -/
def Moves (rely restart : σ → σ → Prop) (s t : σ) : Prop := t = s ∨ rely s t ∨ restart s t

theorem PoolStep.outlined {pool pool' : Pool σ} (h : PoolStep spawnable restart pool pool') (hs : P pool.state)
    (hout : Outlined rely pool) (hP : Stable rely P) (hrestart : ∀ s t, restart s t → P s → P t)
    (hspawn : ∀ p, spawnable p → Outline False rely rely P p fun _ _ => True) :
    Moves rely restart pool.state pool'.state ∧ P pool'.state ∧ Outlined rely pool' := by
  cases h with
  | spawn hspawnable =>
      refine ⟨.inl rfl, hs, fun p hp => ?_⟩
      rcases List.mem_append.mp hp with hp | hp
      · exact hout p hp
      · rw [List.mem_singleton.mp hp]
        exact ⟨P, hspawn _ hspawnable, hP, hs⟩
  | @run before after p q s t event hrun =>
      obtain ⟨hrely, hq⟩ := Midway.step (hout p (List.mem_append_right _ List.mem_cons_self)) hrun
      refine ⟨hrely.imp_right .inl, hrely.elim (fun heq => heq ▸ hs) (hP s t hs), ?_⟩
      exact forall_mem_replace hout (fun _ h => Midway.others h hrely) hq
  | leave =>
      refine ⟨.inl rfl, hs, fun p hp => hout p (List.mem_append.mpr ?_)⟩
      exact (List.mem_append.mp hp).imp_right (List.mem_cons_of_mem _)
  | restart hchange =>
      exact ⟨.inr (.inr hchange), hrestart _ _ hchange hs, fun p hp => (List.not_mem_nil hp).elim⟩

/-- If the outlines of all tasks endure each other, an assertion they respect holds in every pool. -/
theorem PoolReachable.invariant {pool : Pool σ} (h : PoolReachable spawnable restart start pool) (hstart : P start)
    (hP : Stable rely P) (hrestart : ∀ s t, restart s t → P s → P t)
    (hspawn : ∀ p, spawnable p → Outline False rely rely P p fun _ _ => True) :
    P pool.state ∧ Outlined rely pool := by
  induction h with
  | start => exact ⟨hstart, fun p hp => (List.not_mem_nil hp).elim⟩
  | step _ hstep ih => exact (hstep.outlined ih.1 ih.2 hP hrestart hspawn).2

theorem PoolReachable.later {pool pool' : Pool σ} (h : PoolReachable spawnable restart start pool)
    (hlater : Relation.ReflTransGen (PoolStep spawnable restart) pool pool') :
    PoolReachable spawnable restart start pool' := by
  induction hlater with
  | refl => exact h
  | tail _ hstep ih => exact ih.step hstep

/-- From one pool to a later one, the state takes the steps of the tasks and of restarts. -/
theorem PoolReachable.moves {pool pool' : Pool σ} (h : PoolReachable spawnable restart start pool) (hstart : P start)
    (hP : Stable rely P) (hrestart : ∀ s t, restart s t → P s → P t)
    (hspawn : ∀ p, spawnable p → Outline False rely rely P p fun _ _ => True)
    (hlater : Relation.ReflTransGen (PoolStep spawnable restart) pool pool') :
    Relation.ReflTransGen (Moves rely restart) pool.state pool'.state := by
  induction hlater with
  | refl => exact .refl
  | tail hpast hstep ih =>
      obtain ⟨hs, hout⟩ := (h.later hpast).invariant hstart hP hrestart hspawn
      exact ih.tail (hstep.outlined hs hout hP hrestart hspawn).1

theorem poolSteps_of_steps {before after : List (Prog σ Unit)} {p q : Prog σ Unit} {s t : σ} {events : List Event}
    (hsteps : Steps p s events q t) :
    Relation.ReflTransGen (PoolStep spawnable restart) ⟨before ++ p :: after, s⟩ ⟨before ++ q :: after, t⟩ := by
  induction hsteps with
  | refl => exact .refl
  | head hstep _ ih => exact .head (.run hstep) ih

/-- A task that runs from its beginning to its end while no other one is there. -/
theorem poolSteps_of_finishes {p : Prog σ Unit} {s t : σ} (hspawn : spawnable p) (hfin : Finishes p s () t) :
    Relation.ReflTransGen (PoolStep spawnable restart) ⟨[], s⟩ ⟨[], t⟩ := by
  obtain ⟨events, hsteps⟩ := hfin
  have hrun : Relation.ReflTransGen (PoolStep spawnable restart) ⟨[] ++ p :: [], s⟩ ⟨[] ++ .ret () :: [], t⟩ :=
    poolSteps_of_steps hsteps
  exact (Relation.ReflTransGen.single (.spawn hspawn)).trans (hrun.tail .leave)

theorem PoolReachable.finishes {p : Prog σ Unit} {s t : σ}
    (h : PoolReachable spawnable restart start ⟨[], s⟩) (hspawn : spawnable p) (hfin : Finishes p s () t) :
    PoolReachable spawnable restart start ⟨[], t⟩ := h.later (poolSteps_of_finishes hspawn hfin)

end ExplorerIndexer.Async

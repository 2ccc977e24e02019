import ExplorerIndexer.AsyncProgram
import Mathlib.Algebra.Group.Nat.Defs
import Mathlib.Data.List.Range

/-! The loops behind retried statements: `await_retry_or_panic!` with its count of attempts, and the loops that try
forever. They sleep longer and longer between two attempts. A loop does to the state what the statement with a number of
attempts does, event by event. -/

namespace ExplorerIndexer.Retry

open Async

/-- `INTERVAL`, in milliseconds. -/
def firstInterval : Nat := 100

/-- `MAX_DELAY_TIME` -/
def maxDelayTime : Nat := 120000

/-- `if interval < MAX_DELAY_TIME { interval *= 2; }` -/
def nextInterval (interval : Nat) : Nat := if interval < maxDelayTime then interval * 2 else interval

/-- The variables of a loop. -/
structure Vars where
  interval : Nat
  retryAttempt : Nat

/-- Where a loop is. It ends with `break Some(_)`, with `break None`, or by returning an `Err`. -/
inductive Loop (β : Type) where
  | attempt (vars : Vars)
  | sleeping (vars : Vars)
  | ended (result : Except Unit (Option β))

/-- What is seen of a loop. -/
inductive LoopEvent where
  | query (event : Event)
  | slept (milliseconds : Nat)

variable {σ β : Type}

/-- A step of the loop; without a number of retries it never returns an `Err`. -/
inductive LoopStep (numberOfRetries : Option Nat) (stmt : Statement σ β) (isErrorHandled : QueryError → Bool) :
    Loop β → σ → LoopEvent → Loop β → σ → Prop
  | returnErr {vars : Vars} {s : σ} (hlast : numberOfRetries = some vars.retryAttempt) :
      LoopStep numberOfRetries stmt isErrorHandled (.attempt vars) s (.query .gaveUp) (.ended (.error ())) s
  | ok {vars : Vars} {s t : σ} {b : β} (hleft : numberOfRetries ≠ some vars.retryAttempt) (hrun : stmt s = .ok (b, t)) :
      LoopStep numberOfRetries stmt isErrorHandled (.attempt vars) s (.query .done) (.ended (.ok (some b))) t
  | handled {vars : Vars} {s : σ} {error : QueryError} (hleft : numberOfRetries ≠ some vars.retryAttempt)
      (hrun : stmt s = .error error) (hhandled : isErrorHandled error = true) :
      LoopStep numberOfRetries stmt isErrorHandled (.attempt vars) s (.query .refused) (.ended (.ok none)) s
  | refused {vars : Vars} {s : σ} {error : QueryError} (hleft : numberOfRetries ≠ some vars.retryAttempt)
      (hrun : stmt s = .error error) (hhandled : isErrorHandled error = false) :
      LoopStep numberOfRetries stmt isErrorHandled (.attempt vars) s (.query .refused)
        (.sleeping { vars with retryAttempt := vars.retryAttempt + 1 }) s
  /-- The database is not reached. -/
  | lost {vars : Vars} {s : σ} (hleft : numberOfRetries ≠ some vars.retryAttempt) :
      LoopStep numberOfRetries stmt isErrorHandled (.attempt vars) s (.query .lost)
        (.sleeping { vars with retryAttempt := vars.retryAttempt + 1 }) s
  | wake {vars : Vars} {s : σ} :
      LoopStep numberOfRetries stmt isErrorHandled (.sleeping vars) s (.slept vars.interval)
        (.attempt { vars with interval := nextInterval vars.interval }) s

/-- A run of a loop from some point on. -/
inductive LoopRun (numberOfRetries : Option Nat) (stmt : Statement σ β) (isErrorHandled : QueryError → Bool)
    (start : Loop β) (s : σ) : List LoopEvent → Loop β → σ → Prop
  | start : LoopRun numberOfRetries stmt isErrorHandled start s [] start s
  | snoc {trace : List LoopEvent} {event : LoopEvent} {point point' : Loop β} {t u : σ}
      (hrun : LoopRun numberOfRetries stmt isErrorHandled start s trace point t)
      (hstep : LoopStep numberOfRetries stmt isErrorHandled point t event point' u) :
      LoopRun numberOfRetries stmt isErrorHandled start s (trace ++ [event]) point' u

def Loop.start : Loop β := .attempt ⟨firstInterval, 0⟩

def LoopEvent.query? : LoopEvent → Option Event
  | query event => some event
  | slept _ => none

def LoopEvent.slept? : LoopEvent → Option Nat
  | query _ => none
  | slept milliseconds => some milliseconds

/-- The attempts in a run. -/
def queries (trace : List LoopEvent) : List Event := trace.filterMap LoopEvent.query?

/-- How long a run has slept, time after time. -/
def delays (trace : List LoopEvent) : List Nat := trace.filterMap LoopEvent.slept?

variable {numberOfRetries : Option Nat} {stmt : Statement σ β} {isErrorHandled : QueryError → Bool}
  {point point' : Loop β} {s t : σ} {trace : List LoopEvent} {event : LoopEvent}

theorem LoopRun.head {start : Loop β} {u : σ}
    (hstep : LoopStep numberOfRetries stmt isErrorHandled start s event point t)
    (hrun : LoopRun numberOfRetries stmt isErrorHandled point t trace point' u) :
    LoopRun numberOfRetries stmt isErrorHandled start s (event :: trace) point' u := by
  induction hrun with
  | start => exact LoopRun.snoc .start hstep
  | snoc _ hlast ih => exact .snoc ih hlast

/-! ### The statement that a loop stands for -/

/-- The attempts that are left. -/
def attemptsLeft (numberOfRetries : Option Nat) (vars : Vars) : Option Nat :=
  numberOfRetries.map (· - vars.retryAttempt)

theorem attemptsLeft_start (numberOfRetries : Option Nat) :
    attemptsLeft numberOfRetries ⟨firstInterval, 0⟩ = numberOfRetries := by
  cases numberOfRetries <;> rfl

def Loop.program (numberOfRetries : Option Nat) (stmt : Statement σ β) (isErrorHandled : QueryError → Bool) :
    Loop β → Prog σ (Option β)
  | attempt vars | sleeping vars => .query (attemptsLeft numberOfRetries vars) stmt isErrorHandled .ret
  | ended (.ok result) => .ret result
  | ended (.error ()) => .fail

/-- The count does not run past the number of retries. -/
def Loop.Counted (numberOfRetries : Option Nat) : Loop β → Prop
  | attempt vars | sleeping vars => ∀ n, numberOfRetries = some n → vars.retryAttempt ≤ n
  | ended _ => True

theorem attemptsLeft_ne_zero {vars : Vars} (hcounted : ∀ n, numberOfRetries = some n → vars.retryAttempt ≤ n)
    (hleft : numberOfRetries ≠ some vars.retryAttempt) : attemptsLeft numberOfRetries vars ≠ some 0 := by
  cases numberOfRetries with
  | none => exact nofun
  | some n =>
      have hle := hcounted n rfl
      have hne : n ≠ vars.retryAttempt := fun h => hleft (congrArg some h)
      rw [attemptsLeft, Option.map_some]
      intro hzero
      have hsub : n - vars.retryAttempt = 0 := Option.some.inj hzero
      omega

theorem attemptsLeft_eq_zero {vars : Vars} (hcounted : ∀ n, numberOfRetries = some n → vars.retryAttempt ≤ n)
    (hzero : attemptsLeft numberOfRetries vars = some 0) : numberOfRetries = some vars.retryAttempt := by
  cases numberOfRetries with
  | none => cases hzero
  | some n =>
      have hle := hcounted n rfl
      have hsub : n - vars.retryAttempt = 0 := Option.some.inj hzero
      exact congrArg some (by omega)

theorem attemptsLeft_pred (numberOfRetries : Option Nat) (vars : Vars) (interval : Nat) :
    (attemptsLeft numberOfRetries vars).map Nat.pred =
      attemptsLeft numberOfRetries ⟨interval, vars.retryAttempt + 1⟩ := by
  rw [attemptsLeft, Option.map_map]
  rfl

theorem counted_succ {vars : Vars} (hcounted : ∀ n, numberOfRetries = some n → vars.retryAttempt ≤ n)
    (hleft : numberOfRetries ≠ some vars.retryAttempt) : ∀ n, numberOfRetries = some n → vars.retryAttempt + 1 ≤ n := by
  intro n hn
  have hne : n ≠ vars.retryAttempt := fun h => hleft (h ▸ hn)
  have hle := hcounted n hn
  omega

/-- An attempt of the loop is a step of the statement; while the loop sleeps, nothing happens. -/
theorem LoopStep.refines (hstep : LoopStep numberOfRetries stmt isErrorHandled point s event point' t)
    (hcounted : point.Counted numberOfRetries) :
    Steps (point.program numberOfRetries stmt isErrorHandled) s event.query?.toList
        (point'.program numberOfRetries stmt isErrorHandled) t ∧ point'.Counted numberOfRetries := by
  cases hstep with
  | returnErr hlast =>
      refine ⟨.single ?_, trivial⟩
      rw [Loop.program, attemptsLeft, hlast, Option.map_some, Nat.sub_self]
      exact .queryGaveUp
  | ok hleft hrun => exact ⟨.single (.queryDone (attemptsLeft_ne_zero hcounted hleft) hrun), trivial⟩
  | handled hleft hrun hhandled =>
      exact ⟨.single (.queryHandled (attemptsLeft_ne_zero hcounted hleft) hrun hhandled), trivial⟩
  | @refused vars s error hleft hrun hhandled =>
      refine ⟨.single ?_, counted_succ hcounted hleft⟩
      rw [Loop.program, Loop.program, ← attemptsLeft_pred numberOfRetries vars vars.interval]
      exact .queryRefused (attemptsLeft_ne_zero hcounted hleft) hrun hhandled
  | @lost vars s hleft =>
      refine ⟨.single ?_, counted_succ hcounted hleft⟩
      rw [Loop.program, Loop.program, ← attemptsLeft_pred numberOfRetries vars vars.interval]
      exact .queryLost (attemptsLeft_ne_zero hcounted hleft)
  | wake => exact ⟨.refl, hcounted⟩

theorem queries_snoc (trace : List LoopEvent) (event : LoopEvent) :
    queries (trace ++ [event]) = queries trace ++ event.query?.toList := by
  rw [queries, List.filterMap_append]
  cases event <;> rfl

theorem LoopRun.refines (hrun : LoopRun numberOfRetries stmt isErrorHandled .start s trace point t) :
    Steps (.query numberOfRetries stmt isErrorHandled .ret) s (queries trace)
        (point.program numberOfRetries stmt isErrorHandled) t ∧ point.Counted numberOfRetries := by
  induction hrun with
  | start =>
      refine ⟨?_, fun _ _ => Nat.zero_le _⟩
      rw [Loop.start, Loop.program, attemptsLeft_start]
      exact .refl
  | snoc _ hstep ih =>
      obtain ⟨hsteps, hcounted⟩ := hstep.refines ih.2
      rw [queries_snoc]
      exact ⟨ih.1.trans hsteps, hcounted⟩

/-! ### Every run of the statement is one of the loop -/

/-- After an attempt that has failed, the loop sleeps and tries again. -/
theorem LoopRun.again {vars : Vars} {events : List Event} {failed : Event} {u : σ}
    (hfailed : LoopStep numberOfRetries stmt isErrorHandled (.attempt vars) s (.query failed)
      (.sleeping { vars with retryAttempt := vars.retryAttempt + 1 }) s)
    (hrest : ∃ trace, LoopRun numberOfRetries stmt isErrorHandled
      (.attempt ⟨nextInterval vars.interval, vars.retryAttempt + 1⟩) s trace point u ∧ queries trace = events) :
    ∃ trace, LoopRun numberOfRetries stmt isErrorHandled (.attempt vars) s trace point u ∧
      queries trace = failed :: events := by
  obtain ⟨trace, hrun, rfl⟩ := hrest
  exact ⟨.query failed :: .slept vars.interval :: trace, .head hfailed (.head .wake hrun), rfl⟩

theorem LoopRun.last {vars : Vars} {last : Event} {u : σ}
    (hstep : LoopStep numberOfRetries stmt isErrorHandled (.attempt vars) s (.query last) point u) :
    ∃ trace, LoopRun numberOfRetries stmt isErrorHandled (.attempt vars) s trace point u ∧ queries trace = [last] :=
  ⟨[.query last], .head hstep .start, rfl⟩

/-- The end of a run that is left to a program which is at an end. -/
theorem result_of_steps_ret {value : Option β} {events : List Event} {result : Except Unit (Option β)}
    (h : Steps (.ret value) s events ((Loop.ended result).program numberOfRetries stmt isErrorHandled) t) :
    result = .ok value ∧ t = s ∧ events = [] := by
  obtain ⟨hresult, rfl, rfl⟩ := h.of_ret
  match result with
  | .ok result =>
      cases hresult
      exact ⟨rfl, rfl, rfl⟩
  | .error () => cases hresult

theorem result_of_steps_fail {events : List Event} {result : Except Unit (Option β)}
    (h : Steps .fail s events ((Loop.ended result).program numberOfRetries stmt isErrorHandled) t) :
    result = .error () ∧ t = s ∧ events = [] := by
  generalize hend : (Loop.ended result).program numberOfRetries stmt isErrorHandled = p at h
  cases h with
  | refl =>
      match result with
      | .ok _ => cases hend
      | .error () => exact ⟨rfl, rfl, rfl⟩
  | head hstep _ => exact hstep.fail_elim.elim

theorem loopRun_of_steps {events : List Event} {result : Except Unit (Option β)} {vars : Vars}
    (hcounted : ∀ n, numberOfRetries = some n → vars.retryAttempt ≤ n)
    (h : Steps (.query (attemptsLeft numberOfRetries vars) stmt isErrorHandled .ret) s events
      ((Loop.ended result).program numberOfRetries stmt isErrorHandled) t) :
    ∃ trace, LoopRun numberOfRetries stmt isErrorHandled (.attempt vars) s trace (.ended result) t ∧
      queries trace = events := by
  generalize hstart : Prog.query (attemptsLeft numberOfRetries vars) stmt isErrorHandled .ret = p at h
  generalize hend : (Loop.ended result).program numberOfRetries stmt isErrorHandled = q at h
  induction h generalizing vars with
  | refl =>
      rw [← hstart] at hend
      match result with
      | .ok _ => cases hend
      | .error () => cases hend
  | head hstep hrest ih =>
      subst hstart
      generalize hattempts : attemptsLeft numberOfRetries vars = attempts at hstep
      have hleft : attempts ≠ some 0 → numberOfRetries ≠ some vars.retryAttempt := by
        intro hne hlast
        rw [← hattempts, attemptsLeft, hlast, Option.map_some, Nat.sub_self] at hne
        exact hne rfl
      have hagain : Prog.query (attemptsLeft numberOfRetries ⟨nextInterval vars.interval, vars.retryAttempt + 1⟩) stmt
          isErrorHandled .ret = .query (attempts.map Nat.pred) stmt isErrorHandled .ret := by
        rw [← hattempts, attemptsLeft_pred]
      cases hstep with
      | queryDone hne hrun =>
          obtain ⟨rfl, rfl, rfl⟩ := result_of_steps_ret (hend ▸ hrest)
          exact LoopRun.last (.ok (hleft hne) hrun)
      | queryHandled hne hrun hhandled =>
          obtain ⟨rfl, rfl, rfl⟩ := result_of_steps_ret (hend ▸ hrest)
          exact LoopRun.last (.handled (hleft hne) hrun hhandled)
      | queryRefused hne hrun hhandled =>
          exact LoopRun.again (.refused (hleft hne) hrun hhandled) (ih (counted_succ hcounted (hleft hne)) hagain hend)
      | queryLost hne => exact LoopRun.again (.lost (hleft hne)) (ih (counted_succ hcounted (hleft hne)) hagain hend)
      | queryGaveUp =>
          obtain ⟨rfl, rfl, rfl⟩ := result_of_steps_fail (hend ▸ hrest)
          exact LoopRun.last (.returnErr (attemptsLeft_eq_zero hcounted hattempts))

/-! ### How long a loop sleeps -/

/-- The sleep after a number of sleeps. -/
def delay (sleeps : Nat) : Nat := nextInterval^[sleeps] firstInterval

theorem delay_succ (sleeps : Nat) : delay (sleeps + 1) = nextInterval (delay sleeps) :=
  Function.iterate_succ_apply' nextInterval sleeps firstInterval

/-- The sleeps are doubled until one is longer than the longest delay. -/
theorem delay_eq (sleeps : Nat) : delay sleeps = 100 * 2 ^ min sleeps 11 := by
  induction sleeps with
  | zero => rfl
  | succ sleeps ih =>
      rw [delay_succ, ih, nextInterval, maxDelayTime]
      by_cases hdoubled : sleeps < 11
      · have hpow : 2 ^ sleeps ≤ 2 ^ 10 := Nat.pow_le_pow_right (by decide) (Nat.le_of_lt_succ hdoubled)
        rw [Nat.min_eq_left hdoubled.le, Nat.min_eq_left hdoubled, if_pos (by omega), Nat.pow_succ, Nat.mul_assoc]
      · rw [Nat.min_eq_right (by omega), Nat.min_eq_right (by omega), if_neg (by decide)]

/-- Between any two attempts the loop has slept, each time for its interval. -/
def Paced (trace : List LoopEvent) : Loop β → Prop
  | .attempt vars => vars.interval = delay vars.retryAttempt ∧ (queries trace).length = vars.retryAttempt ∧
      delays trace = (List.range vars.retryAttempt).map delay
  | .sleeping vars => ∃ sleeps, vars = ⟨delay sleeps, sleeps + 1⟩ ∧ (queries trace).length = sleeps + 1 ∧
      delays trace = (List.range sleeps).map delay
  | .ended _ => ∃ sleeps, (queries trace).length = sleeps + 1 ∧ delays trace = (List.range sleeps).map delay

theorem delays_snoc (trace : List LoopEvent) (event : LoopEvent) :
    delays (trace ++ [event]) = delays trace ++ event.slept?.toList := by
  rw [delays, List.filterMap_append]
  cases event <;> rfl

theorem LoopStep.paced (hstep : LoopStep numberOfRetries stmt isErrorHandled point s event point' t)
    (h : Paced trace point) : Paced (trace ++ [event]) point' := by
  have hattempt : ∀ {vars : Vars} {attempted : Event}, Paced trace (.attempt vars : Loop β) →
      (queries (trace ++ [.query attempted])).length = vars.retryAttempt + 1 ∧
        delays (trace ++ [.query attempted]) = (List.range vars.retryAttempt).map delay := by
    rintro vars attempted ⟨_, hqueries, hdelays⟩
    refine ⟨?_, by rw [delays_snoc, hdelays]; exact List.append_nil _⟩
    rw [queries_snoc, List.length_append, hqueries]
    rfl
  cases hstep with
  | returnErr _ => exact ⟨_, hattempt h⟩
  | ok _ _ => exact ⟨_, hattempt h⟩
  | handled _ _ _ => exact ⟨_, hattempt h⟩
  | refused _ _ _ => exact ⟨_, by rw [h.1], hattempt h⟩
  | lost _ => exact ⟨_, by rw [h.1], hattempt h⟩
  | wake =>
      obtain ⟨sleeps, rfl, hqueries, hdelays⟩ := h
      refine ⟨(delay_succ sleeps).symm, ?_, ?_⟩
      · rw [queries_snoc, List.length_append, hqueries]
        rfl
      · rw [delays_snoc, hdelays, List.range_succ, List.map_append]
        rfl

theorem LoopRun.paced (hrun : LoopRun numberOfRetries stmt isErrorHandled .start s trace point t) :
    Paced trace point := by
  induction hrun with
  | start => exact ⟨rfl, rfl, rfl⟩
  | snoc _ hstep ih => exact hstep.paced ih

/-- A retry loop ends as the statement with its attempts does: in the same states, with the same result, after the same
attempts. Before the last attempt it has slept once for each of the others, for 100 milliseconds at first and then twice
as long each time, up to 204.8 seconds. -/
theorem retry_loop_refines (numberOfRetries : Option Nat) (stmt : Statement σ β) (isErrorHandled : QueryError → Bool)
    (s t : σ) (result : Except Unit (Option β)) :
    (∀ events, Steps (.query numberOfRetries stmt isErrorHandled .ret) s events
        ((Loop.ended result).program numberOfRetries stmt isErrorHandled) t ↔
        ∃ trace, LoopRun numberOfRetries stmt isErrorHandled .start s trace (.ended result) t ∧
          queries trace = events) ∧
      ∀ trace, LoopRun numberOfRetries stmt isErrorHandled .start s trace (.ended result) t →
        delays trace = (List.range ((queries trace).length - 1)).map fun sleeps => 100 * 2 ^ min sleeps 11 := by
  refine ⟨fun events => ⟨fun h => ?_, ?_⟩, fun trace hrun => ?_⟩
  · refine loopRun_of_steps (fun _ _ => Nat.zero_le _) ?_
    rwa [attemptsLeft_start]
  · rintro ⟨trace, hrun, rfl⟩
    exact hrun.refines.1
  · obtain ⟨sleeps, hqueries, hdelays⟩ := hrun.paced
    rw [hqueries, Nat.add_sub_cancel, hdelays]
    exact List.map_congr_left fun sleeps _ => delay_eq sleeps

end ExplorerIndexer.Retry

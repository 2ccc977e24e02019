import ExplorerIndexer.AsyncProgram
import Mathlib.Data.List.Perm.Subperm

/-! Programs whose statements return nothing they look at. Such a program is determined, up to the
order of its statements, by the list of what they write: every finished run applies a permutation of
that list and every interrupted run a part of it. -/

namespace ExplorerIndexer.Async

variable {σ ω α β γ : Type}

/-- The state after a list of writes. -/
def applyAll (run : ω → σ → σ) (writes : List ω) (s : σ) : σ := writes.foldl (fun s w => run w s) s

@[simp] theorem applyAll_nil (run : ω → σ → σ) (s : σ) : applyAll run [] s = s := rfl

@[simp] theorem applyAll_cons (run : ω → σ → σ) (w : ω) (writes : List ω) (s : σ) :
    applyAll run (w :: writes) s = applyAll run writes (run w s) := rfl

/-- An observation that every write turns into an effect sees the effects one after the other. -/
theorem observe_applyAll {τ : Type} (observe : σ → τ) {run : ω → σ → σ} {effect : ω → τ → τ} {writes : List ω}
    (h : ∀ w ∈ writes, ∀ s, observe (run w s) = effect w (observe s)) (s : σ) :
    observe (applyAll run writes s) = applyAll effect writes (observe s) := by
  induction writes generalizing s with
  | nil => rfl
  | cons w writes ih =>
      rw [applyAll_cons, applyAll_cons, ih fun w' hmem => h w' (List.mem_cons_of_mem _ hmem), h w List.mem_cons_self]

/-- `Writes run p writes`: a run of `p` to its end performs exactly the listed writes, in an order
that depends on the run. A task that failed performs none of what it had left. -/
inductive Writes (run : ω → σ → σ) : {α : Type} → Prog σ α → List ω → Prop
  | ret {α : Type} (value : α) : Writes run (.ret value) []
  | fail {α : Type} (writes : List ω) : Writes run (.fail : Prog σ α) writes
  | query {α β : Type} {attempts : Option Nat} {stmt : Statement σ β} {next : Option β → Prog σ α}
      {w : ω} {writes : List ω} (hstmt : ∀ s b t, stmt s = .ok (b, t) → t = run w s)
      (hnext : ∀ b, Writes run (next b) writes) :
      Writes run (.query attempts stmt (fun _ => false) next) (w :: writes)
  | anyOrder {α β : Type} {items : List β} {next : List β → Prog σ α} {writes : List ω}
      (hnext : ∀ items', items'.Perm items → Writes run (next items') writes) :
      Writes run (.anyOrder items next) writes
  | join {α β γ : Type} {left : Prog σ β} {right : Prog σ γ} {next : β → γ → Prog σ α}
      {writesLeft writesRight writes : List ω} (hleft : Writes run left writesLeft)
      (hright : Writes run right writesRight) (hnext : ∀ b c, Writes run (next b c) writes) :
      Writes run (.join left right next) (writesLeft ++ writesRight ++ writes)
  | perm {α : Type} {p : Prog σ α} {writes writes' : List ω} (h : Writes run p writes)
      (hperm : writes.Perm writes') : Writes run p writes'

variable {run : ω → σ → σ}

theorem Writes.of_ret {value : α} {writes : List ω} (h : Writes run (.ret value : Prog σ α) writes) :
    writes = [] := by
  generalize hp : (Prog.ret value : Prog σ α) = p at h
  induction h with
  | ret => rfl
  | fail => cases hp
  | query => cases hp
  | anyOrder => cases hp
  | join => cases hp
  | perm _ hperm ih => exact (ih hp ▸ hperm).nil_eq.symm

theorem Writes.bind {p : Prog σ α} {f : α → Prog σ β} {writes writes' : List ω}
    (h : Writes run p writes) (hf : ∀ a, Writes run (f a) writes') :
    Writes run (p.bind f) (writes ++ writes') := by
  induction h with
  | ret value => exact hf value
  | fail => exact .fail _
  | query hstmt _ ih => exact .query hstmt fun b => ih b hf
  | anyOrder _ ih => exact .anyOrder fun items' hperm => ih items' hperm hf
  | join hleft hright _ _ _ ih =>
      rw [List.append_assoc]
      exact .join hleft hright fun b c => ih b c hf
  | perm _ hperm ih => exact .perm (ih hf) (hperm.append_right _)

theorem Writes.forEach {items : List β} {body : β → Prog σ Unit} {write : β → ω}
    (hbody : ∀ item ∈ items, Writes run (body item) [write item]) :
    Writes run (Prog.forEach items body) (items.map write) := by
  induction items with
  | nil => exact .ret ()
  | cons item items ih =>
      exact (hbody item List.mem_cons_self).bind fun _ =>
        ih fun item' hitem' => hbody item' (List.mem_cons_of_mem _ hitem')

theorem Writes.both {left right : Prog σ Unit} {writesLeft writesRight : List ω}
    (hleft : Writes run left writesLeft) (hright : Writes run right writesRight) :
    Writes run (Prog.both left right) (writesLeft ++ writesRight) := by
  rw [← List.append_nil (writesLeft ++ writesRight)]
  exact .join hleft hright fun _ _ => .ret ()

/-- A step performs one of the writes that are left, or none. -/
theorem Writes.step {p q : Prog σ α} {s t : σ} {event : Event} {writes : List ω}
    (h : Writes run p writes) (hstep : Step p s event q t) :
    (t = s ∧ Writes run q writes) ∨
      ∃ w rest, writes.Perm (w :: rest) ∧ t = run w s ∧ Writes run q rest := by
  induction h with
  | ret => exact hstep.ret_elim.elim
  | fail => exact hstep.fail_elim.elim
  | query hstmt hnext =>
      cases hstep with
      | queryDone _ hrun => exact .inr ⟨_, _, .refl _, hstmt _ _ _ hrun, hnext _⟩
      | queryHandled _ _ hhandled => cases hhandled
      | queryRefused => exact .inl ⟨rfl, .query hstmt hnext⟩
      | queryLost => exact .inl ⟨rfl, .query hstmt hnext⟩
      | queryGaveUp => exact .inl ⟨rfl, .fail _⟩
  | anyOrder hnext =>
      cases hstep with
      | anyOrder hperm => exact .inl ⟨rfl, hnext _ hperm⟩
  | join hleft hright hnext ihleft ihright =>
      cases hstep with
      | joinLeft hstep =>
          rcases ihleft hstep with ⟨ht, hq⟩ | ⟨w, rest, hperm, ht, hq⟩
          · exact .inl ⟨ht, .join hq hright hnext⟩
          · exact .inr ⟨w, _, (hperm.append_right _).append_right _, ht, .join hq hright hnext⟩
      | joinRight hstep =>
          rcases ihright hstep with ⟨ht, hq⟩ | ⟨w, rest, hperm, ht, hq⟩
          · exact .inl ⟨ht, .join hleft hq hnext⟩
          · refine .inr ⟨w, _, ?_, ht, .join hleft hq hnext⟩
            exact ((hperm.append_left _).trans List.perm_middle).append_right _
      | joinRet =>
          rw [hleft.of_ret, hright.of_ret]
          exact .inl ⟨rfl, hnext _ _⟩
      | joinFailLeft => exact .inl ⟨rfl, .fail _⟩
      | joinFailRight => exact .inl ⟨rfl, .fail _⟩
  | perm _ hperm ih =>
      rcases ih hstep with ⟨ht, hq⟩ | ⟨w, rest, hrest, ht, hq⟩
      · exact .inl ⟨ht, hq.perm hperm⟩
      · exact .inr ⟨w, rest, hperm.symm.trans hrest, ht, hq⟩

/-- A run has performed a part of the writes and is left with the others. -/
theorem Writes.steps {p q : Prog σ α} {s t : σ} {events : List Event} {writes : List ω}
    (h : Writes run p writes) (hsteps : Steps p s events q t) :
    ∃ done rest, (done ++ rest).Perm writes ∧ t = applyAll run done s ∧ Writes run q rest := by
  induction hsteps generalizing writes with
  | refl => exact ⟨[], writes, .refl _, rfl, h⟩
  | head hstep _ ih =>
      rcases h.step hstep with ⟨rfl, hq⟩ | ⟨w, rest, hperm, rfl, hq⟩
      · exact ih hq
      · obtain ⟨done, rest', hdone, ht, hr⟩ := ih hq
        exact ⟨w :: done, rest', (hdone.cons w).trans hperm.symm, ht, hr⟩

/-- A finished run has performed every write once. -/
theorem Writes.finishes {p : Prog σ α} {s t : σ} {value : α} {writes : List ω}
    (h : Writes run p writes) (hfin : Finishes p s value t) :
    ∃ done, done.Perm writes ∧ t = applyAll run done s := by
  obtain ⟨events, hsteps⟩ := hfin
  obtain ⟨done, rest, hperm, ht, hret⟩ := h.steps hsteps
  rw [hret.of_ret, List.append_nil] at hperm
  exact ⟨done, hperm, ht⟩

/-- An interrupted run has performed some of the writes, each at most once. -/
theorem Writes.interrupted {p q : Prog σ α} {s t : σ} {events : List Event} {writes : List ω}
    (h : Writes run p writes) (hsteps : Steps p s events q t) :
    ∃ done, done.Subperm writes ∧ t = applyAll run done s := by
  obtain ⟨done, rest, hperm, ht, _⟩ := h.steps hsteps
  exact ⟨done, (List.sublist_append_left done rest).subperm.trans hperm.subperm, ht⟩

end ExplorerIndexer.Async

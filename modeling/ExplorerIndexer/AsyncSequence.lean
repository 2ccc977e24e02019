import ExplorerIndexer.AsyncReplay
import ExplorerIndexer.AsyncWrites

/-! Programs that make their writes one after the other. An interrupted run has made the first of them, a finished one
all. Where writes that are repeated change nothing, the program can be cut off anywhere and started again: it takes up
where it was. -/

namespace ExplorerIndexer.Async

variable {σ ω α β : Type} {run : ω → σ → σ}

/-- `Sequence run p writes`: a run of `p` to its end makes the listed writes in their order. -/
inductive Sequence (run : ω → σ → σ) : {α : Type} → Prog σ α → List ω → Prop
  | ret {α : Type} (value : α) : Sequence run (.ret value) []
  | fail {α : Type} (writes : List ω) : Sequence run (.fail : Prog σ α) writes
  | query {α β : Type} {attempts : Option Nat} {stmt : Statement σ β} {next : Option β → Prog σ α} {w : ω}
      {writes : List ω} (hstmt : ∀ s b t, stmt s = .ok (b, t) → t = run w s)
      (hnext : ∀ b, Sequence run (next b) writes) :
      Sequence run (.query attempts stmt (fun _ => false) next) (w :: writes)

theorem Sequence.bind {p : Prog σ α} {f : α → Prog σ β} {writes writes' : List ω} (h : Sequence run p writes)
    (hf : ∀ a, Sequence run (f a) writes') : Sequence run (p.bind f) (writes ++ writes') := by
  induction h with
  | ret value => exact hf value
  | fail => exact .fail _
  | query hstmt _ ih => exact .query hstmt ih

theorem Sequence.forEach {items : List β} {body : β → Prog σ Unit} {write : β → ω}
    (hbody : ∀ item, Sequence run (body item) [write item]) :
    Sequence run (Prog.forEach items body) (items.map write) := by
  induction items with
  | nil => exact .ret ()
  | cons item items ih => exact (hbody item).bind fun _ => ih

/-- A step makes the first of the writes that are left, or none. -/
theorem Sequence.step {p q : Prog σ α} {s t : σ} {event : Event} {writes : List ω} (h : Sequence run p writes)
    (hstep : Step p s event q t) :
    (t = s ∧ Sequence run q writes) ∨ ∃ w rest, writes = w :: rest ∧ t = run w s ∧ Sequence run q rest := by
  cases h with
  | ret => exact hstep.ret_elim.elim
  | fail => exact hstep.fail_elim.elim
  | query hstmt hnext =>
      cases hstep with
      | queryDone _ hrun => exact .inr ⟨_, _, rfl, hstmt _ _ _ hrun, hnext _⟩
      | queryHandled _ _ hhandled => cases hhandled
      | queryRefused => exact .inl ⟨rfl, .query hstmt hnext⟩
      | queryLost => exact .inl ⟨rfl, .query hstmt hnext⟩
      | queryGaveUp => exact .inl ⟨rfl, .fail _⟩

/-- A run has made the first of the writes and is left with the others. -/
theorem Sequence.steps {p q : Prog σ α} {s t : σ} {events : List Event} {writes : List ω} (h : Sequence run p writes)
    (hsteps : Steps p s events q t) :
    ∃ done rest, writes = done ++ rest ∧ t = applyAll run done s ∧ Sequence run q rest := by
  induction hsteps generalizing writes with
  | refl => exact ⟨[], writes, rfl, rfl, h⟩
  | head hstep _ ih =>
      rcases h.step hstep with ⟨rfl, hq⟩ | ⟨w, rest, rfl, rfl, hq⟩
      · exact ih hq
      · obtain ⟨done, rest', rfl, ht, hr⟩ := ih hq
        exact ⟨w :: done, rest', rfl, ht, hr⟩

theorem Sequence.finishes {p : Prog σ α} {s t : σ} {value : α} {writes : List ω} (h : Sequence run p writes)
    (hfin : Finishes p s value t) : t = applyAll run writes s := by
  obtain ⟨events, hsteps⟩ := hfin
  obtain ⟨done, rest, rfl, rfl, hret⟩ := h.steps hsteps
  cases hret
  rw [List.append_nil]

/-- Writes that may be repeated from the beginning: those that were made already change nothing. -/
structure Resumable (run : ω → σ → σ) : Prop where
  resume : ∀ done writes, done <+: writes → ∀ s, applyAll run writes (applyAll run done s) = applyAll run writes s
  repeated : ∀ done writes, done <+: writes → ∀ s, applyAll run done (applyAll run writes s) = applyAll run writes s

section Resumed

variable {ι : Type} {handler : ι → Prog σ Unit} {items : List ι} {done writes : List ω} {s t : σ} {m : Moment σ}

/-- A program whose first writes were made before, and perhaps more of them than it makes now. -/
theorem Resumable.steps {p q : Prog σ α} {events : List Event} (hrun : Resumable run) (hp : Sequence run p writes)
    (hdone : done <+: writes) (hsteps : Steps p (applyAll run done s) events q t) :
    ∃ done', done' <+: writes ∧ t = applyAll run done' s := by
  obtain ⟨done', rest, rfl, rfl, _⟩ := hp.steps hsteps
  rcases List.prefix_or_prefix_of_prefix hdone (List.prefix_append done' rest) with hlater | hearlier
  · exact ⟨done', List.prefix_append _ _, hrun.resume done done' hlater s⟩
  · exact ⟨done, hdone, hrun.repeated done' done hearlier s⟩

/-- However often the program was started and cut off, the first of its writes were made. -/
theorem Handlings.resumed (hrun : Resumable run) (hhandler : ∀ item ∈ items, Sequence run (handler item) writes)
    (h : Handlings handler items ⟨.ret (), s⟩ m) : ∃ done, done <+: writes ∧ m.state = applyAll run done s := by
  refine h.invariant (I := fun t => ∃ done, done <+: writes ∧ t = applyAll run done s) ?_
    ⟨[], List.nil_prefix, rfl⟩
  rintro item hitem _ t events p hsteps ⟨done, hdone, rfl⟩
  exact hrun.steps (hhandler item hitem) hdone hsteps

/-- And the one that gets to its end completes them. -/
theorem Handlings.completed (hrun : Resumable run) (hhandler : ∀ item ∈ items, Sequence run (handler item) writes)
    (h : Handlings handler items ⟨.ret (), s⟩ m) {item : ι} (hitem : item ∈ items)
    (hfin : Finishes (handler item) m.state () t) : t = applyAll run writes s := by
  obtain ⟨done, hdone, hstate⟩ := h.resumed hrun hhandler
  rw [(hhandler item hitem).finishes hfin, hstate, hrun.resume done writes hdone]

end Resumed

end ExplorerIndexer.Async

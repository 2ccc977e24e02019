import ExplorerIndexer.AsyncAlone
import ExplorerIndexer.AsyncOutline
import ExplorerIndexer.AsyncRounds
import ExplorerIndexer.AsyncStream

/-! Programs that can come to their end. Statements may be refused in some states, but from the states in question there
is a run on which all of them succeed, with the tasks that run side by side one after the other. -/

namespace ExplorerIndexer.Async

variable {σ α β : Type}

/-- From every state with `P`, the program has a run to its end, with `Q` then. -/
def CanFinish (P : σ → Prop) (p : Prog σ α) (Q : α → σ → Prop) : Prop :=
  ∀ s, P s → ∃ value t, Finishes p s value t ∧ Q value t

section Rules

variable {P P' : σ → Prop} {p : Prog σ α} {Q Q' M : α → σ → Prop}

theorem CanFinish.pre (h : CanFinish P p Q) (hpre : ∀ s, P' s → P s) : CanFinish P' p Q := fun s hs => h s (hpre s hs)

theorem CanFinish.post (h : CanFinish P p Q) (hpost : ∀ a s, Q a s → Q' a s) : CanFinish P p Q' := fun s hs =>
  (h s hs).imp fun a ha => ha.imp fun t ht => ht.imp_right (hpost a t)

theorem CanFinish.ret {value : α} (hpost : ∀ s, P s → Q value s) : CanFinish P (.ret value) Q :=
  fun s hs => ⟨value, s, .ret value s, hpost s hs⟩

theorem CanFinish.bind {f : α → Prog σ β} {R : β → σ → Prop} (h : CanFinish P p M)
    (hf : ∀ a, CanFinish (M a) (f a) R) : CanFinish P (p.bind f) R := by
  intro s hs
  obtain ⟨a, t, hfirst, hm⟩ := h s hs
  obtain ⟨b, u, hrest, hr⟩ := hf a t hm
  exact ⟨b, u, hfirst.bind hrest, hr⟩

theorem CanFinish.access {act : σ → β × σ} {next : β → Prog σ α} {N : β → σ → Prop}
    (hact : ∀ s, P s → N (act s).1 (act s).2) (hnext : ∀ b, CanFinish (N b) (next b) Q) :
    CanFinish P (.access act next) Q := by
  intro s hs
  obtain ⟨a, t, hrest, hq⟩ := hnext _ _ (hact s hs)
  exact ⟨a, t, .of_step .access hrest, hq⟩

/-- A statement succeeds, or its error is one that is expected. -/
theorem CanFinish.query {attempts : Option Nat} {stmt : Statement σ β} {handled : QueryError → Bool}
    {next : Option β → Prog σ α} {N : Option β → σ → Prop} (hattempts : attempts ≠ some 0)
    (hstmt : ∀ s, P s → (∃ b t, stmt s = .ok (b, t) ∧ N (some b) t) ∨
      ∃ error, stmt s = .error error ∧ handled error = true ∧ N none s)
    (hnext : ∀ b, CanFinish (N b) (next b) Q) : CanFinish P (.query attempts stmt handled next) Q := by
  intro s hs
  rcases hstmt s hs with ⟨b, t, hok, hn⟩ | ⟨error, herror, hhandled, hn⟩
  · obtain ⟨a, u, hrest, hq⟩ := hnext _ _ hn
    exact ⟨a, u, .of_step (.queryDone hattempts hok) hrest, hq⟩
  · obtain ⟨a, u, hrest, hq⟩ := hnext _ _ hn
    exact ⟨a, u, .of_step (.queryHandled hattempts herror hhandled) hrest, hq⟩

/-- One task comes to its end and then the other. -/
theorem CanFinish.both {left right : Prog σ Unit} {N R : σ → Prop} (hleft : CanFinish P left fun _ => N)
    (hright : CanFinish N right fun _ => R) : CanFinish P (Prog.both left right) fun _ => R := by
  intro s hs
  obtain ⟨_, t, hfirst, hn⟩ := hleft s hs
  obtain ⟨_, u, hrest, hr⟩ := hright t hn
  exact ⟨(), u, .join_left_first hfirst hrest (.ret () u), hr⟩

/-- All tasks come to their end, one after the other. -/
theorem CanFinish.joinAll_each {items : List β} {task : β → Prog σ Unit} {I : List β → σ → Prop}
    (h : ∀ done item rest, items = done ++ item :: rest → CanFinish (I done) (task item) fun _ => I (done ++ [item])) :
    CanFinish (I []) (Prog.joinAll (items.map task)) fun _ => I items := by
  suffices hrest : ∀ rest done, items = done ++ rest →
      CanFinish (I done) (Prog.joinAll (rest.map task)) fun _ => I items from hrest items [] rfl
  intro rest
  induction rest with
  | nil =>
      intro done hitems
      rw [List.append_nil] at hitems
      exact .ret fun _ hs => hitems ▸ hs
  | cons item rest ih =>
      intro done hitems
      refine (h done item rest hitems).both (ih (done ++ [item]) ?_)
      rw [hitems, List.append_assoc, List.singleton_append]

theorem CanFinish.joinAll_map {items : List β} {task : β → Prog σ Unit}
    (h : ∀ item ∈ items, CanFinish P (task item) fun _ => P) :
    CanFinish P (Prog.joinAll (items.map task)) fun _ => P :=
  .joinAll_each (I := fun _ => P) fun _ item _ hitems => h item (hitems ▸ List.mem_append_right _ List.mem_cons_self)

theorem CanFinish.forEach {items : List β} {body : β → Prog σ Unit}
    (h : ∀ item ∈ items, CanFinish P (body item) fun _ => P) : CanFinish P (Prog.forEach items body) fun _ => P := by
  induction items with
  | nil => exact .ret fun _ hs => hs
  | cons item items ih =>
      exact (h item List.mem_cons_self).bind fun _ => ih fun other hmem => h other (List.mem_cons_of_mem _ hmem)

/-! ### Other ways to know it -/

theorem ReturnsWithin.finishes {others : σ → σ → Prop} {rounds : Nat} {s : σ}
    (h : ReturnsWithin others Q rounds p s) : ∃ value t, Finishes p s value t ∧ Q value t := by
  induction h with
  | ret hpost => exact ⟨_, _, .ret _ _, hpost⟩
  | step _ hcan _ ih =>
      obtain ⟨event, q, u, hevent, hstep⟩ := hcan _ .refl
      obtain ⟨value, t, hrest, hq⟩ := ih _ .refl event q u hevent hstep
      exact ⟨value, t, .of_step hstep hrest, hq⟩
  | round _ ih =>
      obtain ⟨value, t, hrest, hq⟩ := ih _ .refl
      exact ⟨value, t, .of_step .loop hrest, hq⟩

/-- What an outline knows of all runs holds at the end of this one. -/
theorem CanFinish.outlined {total : Prop} {rely guarantee : σ → σ → Prop} (h : CanFinish P p Q)
    (hout : Outline total rely guarantee P' p Q') (hpre : ∀ s, P s → P' s) (hP' : Stable rely P') :
    CanFinish P p fun a s => Q a s ∧ Q' a s := by
  intro s hs
  obtain ⟨a, t, hfin, hq⟩ := h s hs
  exact ⟨a, t, hfin, hq, hout.finishes (hpre s hs) hP' hfin⟩

/-- A precondition that the program respects holds at the end of this run, too. -/
theorem CanFinish.kept {total : Prop} {rely guarantee : σ → σ → Prop} (h : CanFinish P p Q)
    (hself : ∀ s t, guarantee s t → rely s t) (hP : Stable rely P) (hout : Outline total rely guarantee P p Q') :
    CanFinish P p fun a s => Q' a s ∧ P s :=
  (h.outlined (hout.keep hself hP) (fun _ hs => hs) hP).post fun _ _ hs => hs.2

end Rules

/-! ### Streams -/

section Streams

variable {ι : Type} {handler : ι → Prog σ Unit} {concurrency : Nat} {stream : List ι} {I : List ι → σ → Prop}
  {s : σ}

end Streams

end ExplorerIndexer.Async

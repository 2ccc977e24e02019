import ExplorerIndexer.AsyncFailures
import ExplorerIndexer.AsyncOutline

/-! A stream of items with a bounded number of handlers in flight: `buffer_unordered`. The handler of the next item
is begun as soon as there is room; a handler that is ready leaves with its result, in any order. -/

namespace ExplorerIndexer.Async

structure Buffered (σ ι : Type) where
  /-- The items that are not begun yet. -/
  stream : List ι
  inFlight : List (ι × Prog σ Unit)
  state : σ

/-- What an observer sees of a stream. -/
inductive StreamEvent (ι : Type) where
  | began (item : ι)
  | stepped (item : ι) (event : Event)
  | handled (item : ι) (ok : Bool)

/-- One step of a stream whose consumer takes every result and looks at none of them. -/
inductive StreamStep {σ ι : Type} (handler : ι → Prog σ Unit) (concurrency : Nat) :
    Buffered σ ι → StreamEvent ι → Buffered σ ι → Prop
  | begin {item : ι} {stream : List ι} {inFlight : List (ι × Prog σ Unit)} {s : σ}
      (hroom : inFlight.length < concurrency) :
      StreamStep handler concurrency ⟨item :: stream, inFlight, s⟩ (.began item)
        ⟨stream, inFlight ++ [(item, handler item)], s⟩
  | run {item : ι} {stream : List ι} {before after : List (ι × Prog σ Unit)} {p q : Prog σ Unit} {s t : σ}
      {event : Event} (hstep : Step p s event q t) :
      StreamStep handler concurrency ⟨stream, before ++ (item, p) :: after, s⟩ (.stepped item event)
        ⟨stream, before ++ (item, q) :: after, t⟩
  | ok {item : ι} {stream : List ι} {before after : List (ι × Prog σ Unit)} {s : σ} :
      StreamStep handler concurrency ⟨stream, before ++ (item, .ret ()) :: after, s⟩ (.handled item true)
        ⟨stream, before ++ after, s⟩
  | err {item : ι} {stream : List ι} {before after : List (ι × Prog σ Unit)} {s : σ} :
      StreamStep handler concurrency ⟨stream, before ++ (item, .fail) :: after, s⟩ (.handled item false)
        ⟨stream, before ++ after, s⟩

/-- A run of a stream from its start, with the events seen so far. -/
inductive StreamRun {σ ι : Type} (handler : ι → Prog σ Unit) (concurrency : Nat) (start : Buffered σ ι) :
    List (StreamEvent ι) → Buffered σ ι → Prop
  | start : StreamRun handler concurrency start [] start
  | snoc {trace : List (StreamEvent ι)} {event : StreamEvent ι} {buffered buffered' : Buffered σ ι}
      (hrun : StreamRun handler concurrency start trace buffered)
      (hstep : StreamStep handler concurrency buffered event buffered') :
      StreamRun handler concurrency start (trace ++ [event]) buffered'

variable {σ ι : Type} {handler : ι → Prog σ Unit} {concurrency : Nat}

/-- Between the beginnings of two consecutive items, the first one was handled with `Ok`. -/
def NothingSkipped (trace : List (StreamEvent ι)) : Prop :=
  ∀ before item middle next rest, trace = before ++ .began item :: (middle ++ .began next :: rest) →
    (∀ other, .began other ∉ middle) → .handled item true ∈ middle

/-- Between the beginnings of two consecutive items, no statement of the first one was given up. -/
def NothingGivenUp (trace : List (StreamEvent ι)) : Prop :=
  ∀ before item middle next rest, trace = before ++ .began item :: (middle ++ .began next :: rest) →
    (∀ other, .began other ∉ middle) → .stepped item .gaveUp ∉ middle

/-! ### Parts of runs -/

theorem StreamRun.split {start final : Buffered σ ι} {trace : List (StreamEvent ι)}
    (h : StreamRun handler concurrency start trace final) {front back : List (StreamEvent ι)}
    (htrace : trace = front ++ back) :
    ∃ mid, StreamRun handler concurrency start front mid ∧ StreamRun handler concurrency mid back final := by
  induction h generalizing back with
  | start =>
      obtain ⟨rfl, rfl⟩ := List.append_eq_nil_iff.mp htrace.symm
      exact ⟨start, .start, .start⟩
  | @snoc trace event buffered buffered' hrun hstep ih =>
      rcases List.eq_nil_or_concat back with rfl | ⟨back, last, rfl⟩
      · rw [List.append_nil] at htrace
        exact ⟨buffered', htrace ▸ hrun.snoc hstep, .start⟩
      · rw [List.concat_eq_append, ← List.append_assoc] at htrace
        obtain ⟨hfront, hlast⟩ := List.append_inj' htrace rfl
        obtain ⟨mid, hfirst, hsecond⟩ := ih hfront
        cases hlast
        rw [List.concat_eq_append]
        exact ⟨mid, hfirst, hsecond.snoc hstep⟩

theorem StreamRun.eq_of_nil {start final : Buffered σ ι} (h : StreamRun handler concurrency start [] final) :
    final = start := by
  generalize htrace : ([] : List (StreamEvent ι)) = trace at h
  cases h with
  | start => rfl
  | snoc _ _ => simp at htrace

theorem StreamRun.of_cons {start final : Buffered σ ι} {event : StreamEvent ι} {trace : List (StreamEvent ι)}
    (h : StreamRun handler concurrency start (event :: trace) final) :
    ∃ mid, StreamStep handler concurrency start event mid ∧ StreamRun handler concurrency mid trace final := by
  obtain ⟨mid, hfirst, hsecond⟩ := h.split (show event :: trace = [event] ++ trace from rfl)
  generalize htrace : [event] = front at hfirst
  cases hfirst with
  | start => cases htrace
  | snoc hrun hstep =>
      obtain ⟨hnil, hevent⟩ := List.append_inj' (show [] ++ [event] = _ from htrace) rfl
      cases hevent
      rw [← hnil] at hrun
      exact ⟨mid, hrun.eq_of_nil ▸ hstep, hsecond⟩

/-- The items that were begun and those that are left are items of the stream. -/
theorem StreamRun.of_stream {start final : Buffered σ ι} {trace : List (StreamEvent ι)}
    (h : StreamRun handler concurrency start trace final) :
    (∀ item, .began item ∈ trace → item ∈ start.stream) ∧ ∀ item ∈ final.stream, item ∈ start.stream := by
  induction h with
  | start => exact ⟨fun _ hmem => (List.not_mem_nil hmem).elim, fun _ hmem => hmem⟩
  | snoc _ hstep ih =>
      obtain ⟨hbegan, hrest⟩ := ih
      cases hstep with
      | begin _ =>
          refine ⟨fun other hmem => ?_, fun other hmem => hrest other (List.mem_cons_of_mem _ hmem)⟩
          rcases List.mem_append.mp hmem with hmem | hmem
          · exact hbegan other hmem
          · cases List.mem_singleton.mp hmem
            exact hrest _ List.mem_cons_self
      | run _ => exact ⟨fun other hmem => hbegan other (by simpa using hmem), hrest⟩
      | ok => exact ⟨fun other hmem => hbegan other (by simpa using hmem), hrest⟩
      | err => exact ⟨fun other hmem => hbegan other (by simpa using hmem), hrest⟩

/-! ### One handler at a time -/

theorem StreamStep.began_alone {item : ι} {buffered buffered' : Buffered σ ι}
    (h : StreamStep handler 1 buffered (.began item) buffered') :
    buffered.inFlight = [] ∧ buffered'.inFlight = [(item, handler item)] ∧ buffered'.state = buffered.state := by
  cases h with
  | begin hroom =>
      have hnil := List.length_eq_zero_iff.mp (Nat.lt_one_iff.mp hroom)
      subst hnil
      exact ⟨rfl, rfl, rfl⟩

theorem inFlight_alone {item item' : ι} {p p' : Prog σ Unit} {before after : List (ι × Prog σ Unit)}
    (h : [(item, p)] = before ++ (item', p') :: after) :
    before = [] ∧ item = item' ∧ p = p' ∧ after = [] := by
  cases before with
  | nil =>
      rw [List.nil_append, List.cons.injEq] at h
      obtain ⟨hentry, hafter⟩ := h
      cases hentry
      exact ⟨rfl, rfl, rfl, hafter.symm⟩
  | cons entry before => simp at h

theorem StreamStep.idle_elim {stream : List ι} {s : σ} {event : StreamEvent ι} {buffered : Buffered σ ι}
    (h : StreamStep handler 1 ⟨stream, [], s⟩ event buffered) : ∃ item, event = .began item := by
  generalize hflight : ([] : List (ι × Prog σ Unit)) = inFlight at h
  cases h with
  | begin _ => exact ⟨_, rfl⟩
  | run _ => simp at hflight
  | ok => simp at hflight
  | err => simp at hflight

/-- The events of a handler that runs alone: its steps and, if it is ready, its result. -/
inductive Handling (item : ι) (p : Prog σ Unit) (s : σ) : List (StreamEvent ι) → Buffered σ ι → Prop
  | running {events : List Event} {q : Prog σ Unit} {t : σ} {stream : List ι} (hsteps : Steps p s events q t) :
      Handling item p s (events.map (.stepped item)) ⟨stream, [(item, q)], t⟩
  | ok {events : List Event} {t : σ} {stream : List ι} (hsteps : Steps p s events (.ret ()) t) :
      Handling item p s (events.map (.stepped item) ++ [.handled item true]) ⟨stream, [], t⟩
  | err {events : List Event} {t : σ} {stream : List ι} (hsteps : Steps p s events .fail t) :
      Handling item p s (events.map (.stepped item) ++ [.handled item false]) ⟨stream, [], t⟩

theorem Handling.step {item : ι} {p : Prog σ Unit} {s : σ} {trace : List (StreamEvent ι)}
    {buffered buffered' : Buffered σ ι} {event : StreamEvent ι} (h : Handling item p s trace buffered)
    (hstep : StreamStep handler 1 buffered event buffered') (hevent : ∀ other, event ≠ .began other) :
    Handling item p s (trace ++ [event]) buffered' := by
  cases h with
  | @running events q t stream hsteps =>
      generalize hflight : [(item, q)] = inFlight at hstep
      cases hstep with
      | begin _ => exact (hevent _ rfl).elim
      | run hrun =>
          obtain ⟨rfl, rfl, rfl, rfl⟩ := inFlight_alone hflight
          have hall : Handling item p s _ ⟨stream, [(item, _)], _⟩ := .running (hsteps.trans (.single hrun))
          rwa [List.map_append] at hall
      | ok =>
          obtain ⟨rfl, rfl, rfl, rfl⟩ := inFlight_alone hflight
          exact .ok hsteps
      | err =>
          obtain ⟨rfl, rfl, rfl, rfl⟩ := inFlight_alone hflight
          exact .err hsteps
  | ok _ =>
      obtain ⟨other, hbegan⟩ := hstep.idle_elim
      exact (hevent other hbegan).elim
  | err _ =>
      obtain ⟨other, hbegan⟩ := hstep.idle_elim
      exact (hevent other hbegan).elim

theorem Handling.of_run {item : ι} {stream : List ι} {p : Prog σ Unit} {s : σ} {trace : List (StreamEvent ι)}
    {buffered : Buffered σ ι} (h : StreamRun handler 1 ⟨stream, [(item, p)], s⟩ trace buffered)
    (hbegan : ∀ other, .began other ∉ trace) : Handling item p s trace buffered := by
  induction h with
  | start => exact .running .refl
  | snoc _ hstep ih =>
      refine (ih fun other hmem => hbegan other (List.mem_append_left _ hmem)).step hstep ?_
      rintro other rfl
      exact hbegan other (by simp)

/-- A handler that has left was `Ok` exactly if it has not given up a statement. -/
theorem Handling.ok_iff {item : ι} {p : Prog σ Unit} {s : σ} {trace : List (StreamEvent ι)}
    {buffered : Buffered σ ι} (h : Handling item p s trace buffered) (hp : ErrFree p)
    (hidle : buffered.inFlight = []) : .handled item true ∈ trace ↔ .stepped item .gaveUp ∉ trace := by
  cases h with
  | running _ => cases hidle
  | ok hsteps => simpa using hsteps.ret_of_gaveUp
  | err hsteps => simpa using hp.gaveUp_of_fail hsteps

/-- With one handler at a time, whose results are dropped, an item is skipped exactly if one of its statements is
given up. -/
theorem StreamRun.handled_iff {start final : Buffered σ ι} {before middle rest : List (StreamEvent ι)}
    {item next : ι} (h : StreamRun handler 1 start
      (before ++ .began item :: (middle ++ .began next :: rest)) final)
    (hbegan : ∀ other, .began other ∉ middle) (hhandler : ErrFree (handler item)) :
    .handled item true ∈ middle ↔ .stepped item .gaveUp ∉ middle := by
  obtain ⟨mid, _, hrest⟩ := h.split rfl
  obtain ⟨⟨stream, inFlight, s⟩, hbegin, hrest⟩ := hrest.of_cons
  obtain ⟨_, hflight, _⟩ := hbegin.began_alone
  change inFlight = _ at hflight
  subst hflight
  obtain ⟨last, hmiddle, hnext⟩ := hrest.split rfl
  obtain ⟨_, hbegin', _⟩ := hnext.of_cons
  exact (Handling.of_run hmiddle hbegan).ok_iff hhandler hbegin'.began_alone.1

theorem StreamRun.nothingSkipped_iff {start final : Buffered σ ι} {trace : List (StreamEvent ι)}
    (h : StreamRun handler 1 start trace final) (hhandler : ∀ item, ErrFree (handler item)) :
    NothingSkipped trace ↔ NothingGivenUp trace := by
  constructor
  · rintro hskip before item middle next rest rfl hbegan
    exact (h.handled_iff hbegan (hhandler item)).mp (hskip before item middle next rest rfl hbegan)
  · rintro hgive before item middle next rest rfl hbegan
    exact (h.handled_iff hbegan (hhandler item)).mpr (hgive before item middle next rest rfl hbegan)

/-! ### Outlines of handlers -/

/-- Where a run is: between two items, or in a handler with an outline. -/
inductive Underway (stream : List ι) (between always : List ι → σ → Prop) (done : List ι) : Buffered σ ι → Prop
  | idle {rest : List ι} {s : σ} (hstream : stream = done ++ rest) (hbetween : between done s) :
      Underway stream between always done ⟨rest, [], s⟩
  | busy {item : ι} {rest : List ι} {p : Prog σ Unit} {P : σ → Prop} {s : σ} (hstream : stream = done ++ item :: rest)
      (hP : P s) (hout : Outline False (fun _ _ => False) (fun s t => ∀ items, always items s → always items t) P p
        fun _ => between (done ++ [item])) :
      Underway stream between always done ⟨rest, [(item, p)], s⟩

theorem Underway.of_inFlight {stream rest done : List ι} {between always : List ι → σ → Prop} {item : ι}
    {p : Prog σ Unit} {before after : List (ι × Prog σ Unit)} {s : σ}
    (h : Underway stream between always done ⟨rest, before ++ (item, p) :: after, s⟩) :
    before = [] ∧ after = [] ∧ stream = done ++ item :: rest ∧ ∃ P : σ → Prop, P s ∧
      Outline False (fun _ _ => False) (fun s t => ∀ items, always items s → always items t) P p
        fun _ => between (done ++ [item]) := by
  generalize hflight : before ++ (item, p) :: after = inFlight at h
  cases h with
  | idle _ _ => simp at hflight
  | busy hstream hP hout =>
      obtain ⟨rfl, rfl, rfl, rfl⟩ := inFlight_alone hflight.symm
      exact ⟨rfl, rfl, hstream, _, hP, hout⟩

/-- What a run keeps whose handlers all are `Ok`: between two items the assertion on the items that are done, and all
the time what every step of a handler keeps. -/
theorem StreamRun.outlined {stream : List ι} {s : σ} {trace : List (StreamEvent ι)} {buffered : Buffered σ ι}
    {between always : List ι → σ → Prop} (h : StreamRun handler 1 ⟨stream, [], s⟩ trace buffered)
    (hok : ∀ item, .handled item false ∉ trace) (hstart : between [] s)
    (halways : ∀ done s, between done s → always done s)
    (houtline : ∀ done item rest, stream = done ++ item :: rest →
      Outline False (fun _ _ => False) (fun s t => ∀ items, always items s → always items t) (between done)
        (handler item) fun _ => between (done ++ [item])) :
    ∃ done, always done buffered.state ∧ ∀ item, .handled item true ∈ trace → item ∈ done := by
  suffices hinvariant : ∃ done, (always done buffered.state ∧ ∀ item, .handled item true ∈ trace → item ∈ done) ∧
      Underway stream between always done buffered from hinvariant.imp fun _ h => h.1
  induction h with
  | start => exact ⟨[], ⟨halways _ _ hstart, fun _ hmem => (List.not_mem_nil hmem).elim⟩, .idle rfl hstart⟩
  | snoc _ hstep ih =>
      obtain ⟨done, ⟨hall, hdone⟩, hstate⟩ := ih fun item hmem => hok item (List.mem_append_left _ hmem)
      cases hstep with
      | begin hroom =>
          obtain rfl := List.length_eq_zero_iff.mp (Nat.lt_one_iff.mp hroom)
          cases hstate with
          | idle hstream hbetween =>
              exact ⟨done, ⟨hall, fun other hmem => hdone other (by simpa using hmem)⟩,
                .busy hstream hbetween (houtline done _ _ hstream)⟩
      | run hrun =>
          obtain ⟨rfl, rfl, hstream, P, hP, hout⟩ := hstate.of_inFlight
          obtain ⟨P', hout', _, hP', hkept⟩ := hout.step hP (fun _ _ _ h => h.elim) hrun False.elim
          refine ⟨done, ⟨?_, fun other hmem => hdone other (by simpa using hmem)⟩, .busy hstream hP' hout'⟩
          rcases hkept with rfl | hkept
          · exact hall
          · exact hkept done hall
      | @ok item rest before after t =>
          obtain ⟨rfl, rfl, hstream, P, hP, hout⟩ := hstate.of_inFlight
          have hbetween : between (done ++ [item]) t := by
            cases hout with
            | ret hpost => exact hpost t hP
          refine ⟨done ++ [item], ⟨halways _ _ hbetween, fun other hmem => ?_⟩, .idle ?_ hbetween⟩
          · rcases List.mem_append.mp hmem with hmem | hmem
            · exact List.mem_append_left _ (hdone other hmem)
            · cases List.mem_singleton.mp hmem
              exact List.mem_append_right _ List.mem_cons_self
          · rw [hstream, List.append_assoc, List.singleton_append]
      | err => exact (hok _ (List.mem_append_right _ List.mem_cons_self)).elim

/-! ### Handlers next to each other -/

/-- Where a run is: its state keeps an assertion, every handler in flight is at some point of its outline, and what
the handlers that were `Ok` have left still holds. -/
structure Settling (rely : σ → σ → Prop) (P : σ → Prop) (Q : ι → σ → Prop) (s : σ) (trace : List (StreamEvent ι))
    (buffered : Buffered σ ι) : Prop where
  steps : Relation.ReflTransGen rely s buffered.state
  state : P buffered.state
  inFlight : ∀ entry ∈ buffered.inFlight, Midway rely (fun _ => Q entry.1) entry.2 buffered.state
  handled : ∀ item, .handled item true ∈ trace → Q item buffered.state

section Settling

variable {rely : σ → σ → Prop} {P : σ → Prop} {Q : ι → σ → Prop} {s : σ} {trace : List (StreamEvent ι)}

/-- A step that is seen as an event of another kind. -/
theorem Settling.mono {buffered buffered' : Buffered σ ι} {event : StreamEvent ι}
    (h : Settling rely P Q s trace buffered) (hstate : buffered'.state = buffered.state)
    (hflight : ∀ entry ∈ buffered'.inFlight, Midway rely (fun _ => Q entry.1) entry.2 buffered.state)
    (hevent : ∀ item, event = .handled item true → Q item buffered.state) :
    Settling rely P Q s (trace ++ [event]) buffered' := by
  refine ⟨hstate ▸ h.steps, hstate ▸ h.state, hstate ▸ hflight, fun item hmem => ?_⟩
  rw [hstate]
  rcases List.mem_append.mp hmem with hmem | hmem
  · exact h.handled item hmem
  · exact hevent item (List.mem_singleton.mp hmem).symm

theorem Settling.step {buffered buffered' : Buffered σ ι} {event : StreamEvent ι}
    (h : Settling rely P Q s trace buffered) (hP : Stable rely P) (hQ : ∀ item, Stable rely (Q item))
    (hstep : StreamStep handler concurrency buffered event buffered')
    (hbegin : ∀ item, event = .began item → Outline False rely rely P (handler item) fun _ => Q item) :
    Settling rely P Q s (trace ++ [event]) buffered' := by
  cases hstep with
  | begin _ =>
      refine h.mono rfl (fun entry hentry => ?_) fun _ hevent => by cases hevent
      rcases List.mem_append.mp hentry with hentry | hentry
      · exact h.inFlight entry hentry
      · rw [List.mem_singleton.mp hentry]
        exact ⟨P, hbegin _ rfl, hP, h.state⟩
  | run hrun =>
      obtain ⟨hrely, hnext⟩ := (h.inFlight _ (List.mem_append_right _ List.mem_cons_self)).step hrun
      have hothers : ∀ {R : σ → Prop}, Stable rely R → R _ → R _ :=
        fun hR hs => hrely.elim (fun heq => heq ▸ hs) (hR _ _ hs)
      refine ⟨?_, hothers hP h.state, forall_mem_replace h.inFlight (fun _ hother => hother.others hrely) hnext,
        fun item hmem => hothers (hQ item) (h.handled item (by simpa using hmem))⟩
      rcases hrely with heq | hrely
      · exact heq ▸ h.steps
      · exact h.steps.tail hrely
  | ok =>
      refine h.mono rfl (fun entry hentry => h.inFlight entry ?_) fun item hevent => ?_
      · exact List.mem_append.mpr ((List.mem_append.mp hentry).imp_right (List.mem_cons_of_mem _))
      · cases hevent
        obtain ⟨_, hout, _, hs⟩ := h.inFlight _ (List.mem_append_right _ List.mem_cons_self)
        cases hout with
        | ret hpost => exact hpost _ hs
  | err =>
      refine h.mono rfl (fun entry hentry => h.inFlight entry ?_) fun _ hevent => by cases hevent
      exact List.mem_append.mpr ((List.mem_append.mp hentry).imp_right (List.mem_cons_of_mem _))

/-- Handlers whose outlines endure each other, any number of them in flight: an assertion that they respect is kept
all the time, and what a handler that was `Ok` has left is there in the end. -/
theorem StreamRun.settling {stream : List ι} {buffered : Buffered σ ι}
    (h : StreamRun handler concurrency ⟨stream, [], s⟩ trace buffered) (hstart : P s) (hP : Stable rely P)
    (hQ : ∀ item, Stable rely (Q item))
    (hhandler : ∀ item ∈ stream, Outline False rely rely P (handler item) fun _ => Q item) :
    Settling rely P Q s trace buffered := by
  induction h with
  | start => exact ⟨.refl, hstart, nofun, nofun⟩
  | snoc hrun hstep ih =>
      refine ih.step hP hQ hstep fun item hevent => hhandler item ?_
      exact (hrun.snoc hstep).of_stream.1 item (hevent ▸ List.mem_append_right _ List.mem_cons_self)

end Settling

/-! ### A run that passes over an item -/

theorem StreamRun.append_steps {start : Buffered σ ι} {trace : List (StreamEvent ι)} {stream : List ι} {item : ι}
    {p q : Prog σ Unit} {s t : σ} {events : List Event}
    (h : StreamRun handler concurrency start trace ⟨stream, [(item, p)], s⟩) (hsteps : Steps p s events q t) :
    StreamRun handler concurrency start (trace ++ events.map (.stepped item)) ⟨stream, [(item, q)], t⟩ := by
  induction hsteps generalizing trace with
  | refl =>
      rw [List.map_nil, List.append_nil]
      exact h
  | head hstep _ ih =>
      have hnext := h.snoc (.run hstep : StreamStep _ _ ⟨_, [] ++ (item, _) :: [], _⟩ _ _)
      rw [List.map_cons, ← List.singleton_append, ← List.append_assoc]
      exact ih hnext

theorem StreamRun.passes_over {item next : ι} {stream : List ι} {s t : σ} {events : List Event}
    (hsteps : Steps (handler item) s events .fail t) (hroom : 0 < concurrency) :
    StreamRun handler concurrency ⟨item :: next :: stream, [], s⟩
      ((.began item :: events.map (.stepped item)) ++ [.handled item false] ++ [.began next])
      ⟨stream, [(next, handler next)], t⟩ := by
  have hbegun : StreamRun handler concurrency ⟨item :: next :: stream, [], s⟩ [.began item]
      ⟨next :: stream, [(item, handler item)], s⟩ := .snoc .start (.begin hroom)
  have hfailed := hbegun.append_steps hsteps
  have hleft := hfailed.snoc (.err : StreamStep _ _ ⟨_, [] ++ (item, _) :: [], _⟩ _ _)
  exact hleft.snoc (.begin hroom)

/-- The next item is handled without an error. -/
theorem StreamRun.handles {start : Buffered σ ι} {trace : List (StreamEvent ι)} {stream : List ι} {item : ι} {s t : σ}
    (h : StreamRun handler concurrency start trace ⟨item :: stream, [], s⟩) (hroom : 0 < concurrency)
    (hfinishes : Finishes (handler item) s () t) :
    ∃ events : List Event, StreamRun handler concurrency start
      (trace ++ [.began item] ++ events.map (.stepped item) ++ [.handled item true]) ⟨stream, [], t⟩ := by
  obtain ⟨events, hsteps⟩ := hfinishes
  have hbegun : StreamRun handler concurrency start (trace ++ [.began item]) ⟨stream, [(item, handler item)], s⟩ :=
    h.snoc (.begin hroom)
  exact ⟨events, (hbegun.append_steps hsteps).snoc (.ok : StreamStep _ _ ⟨_, [] ++ (item, _) :: [], _⟩ _ _)⟩

end ExplorerIndexer.Async

import ExplorerIndexer.AsyncKeeps

/-! Where the items of a stream are. Each was begun in its turn, and what was begun is in flight or was handled, once.
A handler whose text contains no `Err` fails its item only after it has given up a statement. -/

namespace ExplorerIndexer.Async

variable {σ ι : Type} {handler : ι → Prog σ Unit} {concurrency : Nat}

def StreamEvent.began? : StreamEvent ι → Option ι
  | began item => some item
  | stepped _ _ | handled _ _ => none

def StreamEvent.handled? : StreamEvent ι → Option ι
  | handled item _ => some item
  | began _ | stepped _ _ => none

/-- The items in the order in which they were begun. -/
def begunItems (trace : List (StreamEvent ι)) : List ι := trace.filterMap StreamEvent.began?

/-- The items in the order in which they were handled. -/
def handledItems (trace : List (StreamEvent ι)) : List ι := trace.filterMap StreamEvent.handled?

theorem begunItems_snoc (trace : List (StreamEvent ι)) (event : StreamEvent ι) :
    begunItems (trace ++ [event]) = begunItems trace ++ event.began?.toList := by
  rw [begunItems, List.filterMap_append]
  cases event <;> rfl

theorem handledItems_snoc (trace : List (StreamEvent ι)) (event : StreamEvent ι) :
    handledItems (trace ++ [event]) = handledItems trace ++ event.handled?.toList := by
  rw [handledItems, List.filterMap_append]
  cases event <;> rfl

/-- The items that were begun are the first of the stream, and each is in flight or was handled. -/
structure Accounted (stream : List ι) (trace : List (StreamEvent ι)) (buffered : Buffered σ ι) : Prop where
  stream : begunItems trace ++ buffered.stream = stream
  begun : (handledItems trace ++ buffered.inFlight.map Prod.fst).Perm (begunItems trace)

section Accounted

variable {stream : List ι} {trace : List (StreamEvent ι)} {buffered buffered' : Buffered σ ι} {event : StreamEvent ι}

theorem Accounted.step (h : Accounted stream trace buffered)
    (hstep : StreamStep handler concurrency buffered event buffered') :
    Accounted stream (trace ++ [event]) buffered' := by
  obtain ⟨hstream, hbegun⟩ := h
  constructor <;> rw [begunItems_snoc]
  · cases hstep with
    | begin _ => rwa [List.append_assoc]
    | run _ => rwa [StreamEvent.began?, Option.toList_none, List.append_nil]
    | ok => rwa [StreamEvent.began?, Option.toList_none, List.append_nil]
    | err => rwa [StreamEvent.began?, Option.toList_none, List.append_nil]
  · rw [handledItems_snoc]
    cases hstep with
    | begin _ =>
        rw [List.map_append, ← List.append_assoc]
        refine List.Perm.append_right _ ?_
        rwa [StreamEvent.handled?, Option.toList_none, List.append_nil]
    | run _ =>
        rw [StreamEvent.began?, StreamEvent.handled?, Option.toList_none, List.append_nil, List.append_nil]
        rwa [List.map_append, List.map_cons] at hbegun ⊢
    | ok =>
        rw [List.map_append, List.map_cons] at hbegun
        rw [StreamEvent.began?, Option.toList_none, List.append_nil, List.append_assoc, List.map_append]
        rw [StreamEvent.handled?, Option.toList_some, List.singleton_append]
        exact (List.Perm.append_left _ List.perm_middle.symm).trans hbegun
    | err =>
        rw [List.map_append, List.map_cons] at hbegun
        rw [StreamEvent.began?, Option.toList_none, List.append_nil, List.append_assoc, List.map_append]
        rw [StreamEvent.handled?, Option.toList_some, List.singleton_append]
        exact (List.Perm.append_left _ List.perm_middle.symm).trans hbegun

theorem StreamRun.accounted {s : σ} (h : StreamRun handler concurrency ⟨stream, [], s⟩ trace buffered) :
    Accounted stream trace buffered := by
  induction h with
  | start => exact ⟨rfl, .refl _⟩
  | snoc _ hstep ih => exact ih.step hstep

/-- When nothing is left, every item was handled once. -/
theorem StreamRun.drained {s : σ} (h : StreamRun handler concurrency ⟨stream, [], s⟩ trace buffered)
    (hstream : buffered.stream = []) (hflight : buffered.inFlight = []) : (handledItems trace).Perm stream := by
  obtain ⟨hitems, hbegun⟩ := h.accounted
  rw [hstream, List.append_nil] at hitems
  rwa [hflight, List.map_nil, List.append_nil, hitems] at hbegun

theorem mem_handledItems {item : ι} : item ∈ handledItems trace ↔ ∃ ok, .handled item ok ∈ trace := by
  rw [handledItems, List.mem_filterMap]
  constructor
  · rintro ⟨event, hmem, hevent⟩
    cases event with
    | began _ => cases hevent
    | stepped _ _ => cases hevent
    | handled other ok =>
        cases hevent
        exact ⟨ok, hmem⟩
  · rintro ⟨ok, hmem⟩
    exact ⟨_, hmem, rfl⟩

/-- An item that has failed has given up a statement, and one in flight may yet fail only if it has. -/
structure Blamed (trace : List (StreamEvent ι)) (buffered : Buffered σ ι) : Prop where
  inFlight : ∀ entry ∈ buffered.inFlight, ErrFree entry.2 ∨ .stepped entry.1 .gaveUp ∈ trace
  failed : ∀ item, .handled item false ∈ trace → .stepped item .gaveUp ∈ trace

theorem Blamed.step (h : Blamed trace buffered) (hhandler : ∀ item, ErrFree (handler item))
    (hstep : StreamStep handler concurrency buffered event buffered') : Blamed (trace ++ [event]) buffered' := by
  have hmore : ∀ entry : ι × Prog σ Unit, ErrFree entry.2 ∨ .stepped entry.1 .gaveUp ∈ trace →
      ErrFree entry.2 ∨ .stepped entry.1 .gaveUp ∈ trace ++ [event] :=
    fun _ hentry => hentry.imp_right (List.mem_append_left _)
  have hfailed : (∀ item, event ≠ .handled item false) → ∀ item, .handled item false ∈ trace ++ [event] →
      .stepped item .gaveUp ∈ trace ++ [event] := by
    intro hevent item hmem
    rcases List.mem_append.mp hmem with hmem | hmem
    · exact List.mem_append_left _ (h.failed item hmem)
    · exact (hevent item (List.mem_singleton.mp hmem).symm).elim
  cases hstep with
  | begin _ =>
      refine ⟨fun entry hentry => ?_, hfailed nofun⟩
      rcases List.mem_append.mp hentry with hentry | hentry
      · exact hmore entry (h.inFlight entry hentry)
      · rw [List.mem_singleton.mp hentry]
        exact .inl (hhandler _)
  | @run item _ _ _ p q _ _ attempt hrun =>
      refine ⟨forall_mem_replace h.inFlight hmore ?_, hfailed nofun⟩
      rcases h.inFlight (item, p) (List.mem_append_right _ List.mem_cons_self) with hfree | hgaveUp
      · by_cases hattempt : attempt = .gaveUp
        · exact .inr (List.mem_append_right _ (List.mem_singleton.mpr (by rw [hattempt])))
        · exact .inl (hfree.step hrun hattempt)
      · exact .inr (List.mem_append_left _ hgaveUp)
  | ok =>
      refine ⟨fun entry hentry => hmore entry (h.inFlight entry ?_), hfailed nofun⟩
      exact List.mem_append.mpr ((List.mem_append.mp hentry).imp_right (List.mem_cons_of_mem _))
  | @err item _ _ _ _ =>
      refine ⟨fun entry hentry => hmore entry (h.inFlight entry ?_), fun other hmem => ?_⟩
      · exact List.mem_append.mpr ((List.mem_append.mp hentry).imp_right (List.mem_cons_of_mem _))
      · rcases List.mem_append.mp hmem with hmem | hmem
        · exact List.mem_append_left _ (h.failed other hmem)
        · cases List.mem_singleton.mp hmem
          rcases h.inFlight (item, .fail) (List.mem_append_right _ List.mem_cons_self) with hfree | hgaveUp
          · cases hfree
          · exact List.mem_append_left _ hgaveUp

theorem StreamRun.blamed {s : σ} (h : StreamRun handler concurrency ⟨stream, [], s⟩ trace buffered)
    (hhandler : ∀ item, ErrFree (handler item)) : Blamed trace buffered := by
  induction h with
  | start => exact ⟨nofun, nofun⟩
  | snoc _ hstep ih => exact ih.step hhandler hstep

/-- When nothing is left and no statement was given up, every item was handled with `Ok`. -/
theorem StreamRun.all_ok {s : σ} (h : StreamRun handler concurrency ⟨stream, [], s⟩ trace buffered)
    (hhandler : ∀ item, ErrFree (handler item)) (hstream : buffered.stream = []) (hflight : buffered.inFlight = [])
    (hattempts : ∀ item, .stepped item .gaveUp ∉ trace) {item : ι} (hitem : item ∈ stream) :
    .handled item true ∈ trace := by
  obtain ⟨ok, hhandled⟩ := mem_handledItems.mp ((h.drained hstream hflight).mem_iff.mpr hitem)
  cases ok with
  | true => exact hhandled
  | false => exact (hattempts item ((h.blamed hhandler).failed item hhandled)).elim

end Accounted

/-- With one item at a time, what comes before an item that was begun was handled. -/
theorem StreamRun.handled_before {stream : List ι} {trace : List (StreamEvent ι)} {buffered : Buffered σ ι} {s : σ}
    {r : ι → ι → Prop} (h : StreamRun handler 1 ⟨stream, [], s⟩ trace buffered) (hstream : stream.Pairwise r)
    {item other : ι} (hitem : item ∈ stream) (hother : .began other ∈ trace) (hne : item ≠ other)
    (hbefore : ¬ r other item) : ∃ ok, .handled item ok ∈ trace := by
  obtain ⟨done, hdone⟩ := h.oneAtATime
  rw [hdone.order] at hstream hitem
  rcases List.mem_append.mp hitem with hmem | hmem
  · exact hdone.handled item hmem
  · rcases hdone.began other hother with hmem' | hmem'
    · exact (hbefore ((List.pairwise_append.mp hstream).2.2 other hmem' item hmem)).elim
    · -- nothing but the other item is in flight
      have hflight : buffered.inFlight.map Prod.fst = [other] := by
        have hlength : (buffered.inFlight.map Prod.fst).length ≤ 1 := by simpa using hdone.alone
        obtain ⟨first, hfirst⟩ := List.length_eq_one_iff.mp
          (Nat.le_antisymm hlength (List.length_pos_of_mem hmem'))
        rw [hfirst] at hmem' ⊢
        rw [List.mem_singleton.mp hmem']
      rw [hflight] at hmem hstream
      rcases List.mem_cons.mp hmem with rfl | hmem
      · exact (hne rfl).elim
      · have hrest := (List.pairwise_append.mp hstream).2.1
        exact (hbefore ((List.pairwise_cons.mp hrest).1 item hmem)).elim

end ExplorerIndexer.Async

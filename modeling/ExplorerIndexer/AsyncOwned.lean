import ExplorerIndexer.AsyncResumption
import ExplorerIndexer.AsyncDrained

/-! A stream seen through one thing that its handlers change. Some items stand aside: their handlers leave it alone. The
handler of any other item owns it while it is in flight. With one owner at a time, what is seen goes through the items
in the order in which they are begun, however the steps of the handlers interleave. -/

namespace ExplorerIndexer.Async

variable {σ ι ω α τ : Type} {handler : ι → Prog σ Unit} {concurrency : Nat}

/-- A run of a stream in which the beginning of each item meets a condition on what it finds. -/
inductive StreamRunWith {σ ι : Type} (meets : Buffered σ ι → ι → Prop) (handler : ι → Prog σ Unit) (concurrency : Nat)
    (start : Buffered σ ι) : List (StreamEvent ι) → Buffered σ ι → Prop
  | start : StreamRunWith meets handler concurrency start [] start
  | snoc {trace : List (StreamEvent ι)} {event : StreamEvent ι} {buffered buffered' : Buffered σ ι}
      (hrun : StreamRunWith meets handler concurrency start trace buffered)
      (hstep : StreamStep handler concurrency buffered event buffered')
      (hmeets : ∀ item, event = .began item → meets buffered item) :
      StreamRunWith meets handler concurrency start (trace ++ [event]) buffered'

theorem StreamRunWith.streamRun {meets : Buffered σ ι → ι → Prop} {start buffered : Buffered σ ι}
    {trace : List (StreamEvent ι)} (h : StreamRunWith meets handler concurrency start trace buffered) :
    StreamRun handler concurrency start trace buffered := by
  induction h with
  | start => exact .start
  | snoc _ hstep _ ih => exact ih.snoc hstep

/-- A handler in flight goes to its end while the others wait. -/
theorem StreamRunWith.ready {meets : Buffered σ ι → ι → Prop} {start : Buffered σ ι} {trace : List (StreamEvent ι)}
    {stream : List ι} (before : List (ι × Prog σ Unit)) {after : List (ι × Prog σ Unit)} {item : ι} {p : Prog σ Unit}
    {s t : σ} (h : StreamRunWith meets handler concurrency start trace ⟨stream, before ++ (item, p) :: after, s⟩)
    (hok : ∀ item, .handled item false ∉ trace) (hfin : Finishes p s () t) :
    ∃ trace', StreamRunWith meets handler concurrency start trace' ⟨stream, before ++ after, t⟩ ∧
      ∀ item, .handled item false ∉ trace' := by
  obtain ⟨events, hsteps⟩ := hfin
  generalize hready : Prog.ret () = q at hsteps
  induction hsteps generalizing trace with
  | refl =>
      subst hready
      exact ⟨_, h.snoc .ok nofun, fun item hmem => by simpa using (List.mem_append.mp hmem).imp_left (hok item)⟩
  | head hstep _ ih =>
      exact ih (h.snoc (.run hstep) nofun)
        (fun item hmem => by simpa using (List.mem_append.mp hmem).imp_left (hok item)) hready

/-- What is seen stays. -/
def SameView (observe : σ → τ) (s t : σ) : Prop := observe t = observe s

theorem SameView.refl (observe : σ → τ) (s : σ) : SameView observe s s := rfl

/-- The writes of a task keep to the guarantee, whatever the others do. -/
theorem Writes.outline_guarantee {run : ω → σ → σ} {rely guarantee : σ → σ → Prop} {p : Prog σ α} {writes : List ω}
    (h : Writes run p writes) (hrun : ∀ w ∈ writes, ∀ s, guarantee s (run w s)) :
    Outline False rely guarantee (fun _ => True) p fun _ _ => True := by
  have hstable : ∀ rely : σ → σ → Prop, Stable rely fun _ => True := fun rely => .const rely True
  induction h generalizing rely with
  | ret value => exact .ret fun _ h => h
  | fail writes => exact .fail id
  | @query _ _ _ _ _ w writes hstmt _ ih =>
      refine .query (M := fun _ _ => True) (fun s b t _ hok => ⟨?_, trivial⟩) (fun _ _ _ _ _ => trivial) False.elim
        (fun _ => hstable _) fun b => ih b fun w hmem => hrun w (List.mem_cons_of_mem _ hmem)
      rw [hstmt s b t hok]
      exact hrun w List.mem_cons_self s
  | anyOrder _ ih => exact .anyOrder fun items' hperm => ih items' hperm hrun
  | join _ _ _ ihleft ihright ih =>
      simp only [List.forall_mem_append] at hrun
      exact .join (ihleft hrun.1.1) (ihright hrun.1.2) (fun _ _ h => h) (fun _ _ h => h) (fun _ h => ⟨h, h⟩) (hstable _)
        (hstable _) (fun _ => hstable _) (fun _ => hstable _) fun b c => (ih b c hrun.2).pre fun _ h => h.1
  | perm _ hperm ih => exact ih fun w hmem => hrun w (hperm.mem_iff.mp hmem)

/-- The program is at some point of an outline. -/
def Within (rely guarantee : σ → σ → Prop) (Q : α → σ → Prop) (p : Prog σ α) (s : σ) : Prop :=
  ∃ P, Outline False rely guarantee P p Q ∧ Stable rely P ∧ P s

section Within

variable {rely guarantee : σ → σ → Prop} {Q : α → σ → Prop} {p q : Prog σ α} {s t : σ} {event : Event}

theorem Within.others (h : Within rely guarantee Q p s) (hrely : rely s t) : Within rely guarantee Q p t := by
  obtain ⟨P, hout, hstable, hs⟩ := h
  exact ⟨P, hout, hstable, hstable s t hs hrely⟩

theorem Within.step (h : Within rely guarantee Q p s) (hstep : Step p s event q t) :
    (t = s ∨ guarantee s t) ∧ Within rely guarantee Q q t := by
  obtain ⟨P, hout, hstable, hs⟩ := h
  obtain ⟨P', hout', hstable', ht, hguarantee⟩ := hout.step hs hstable hstep False.elim
  exact ⟨hguarantee, P', hout', hstable', ht⟩

theorem Within.of_ret {value : α} (h : Within rely guarantee Q (.ret value) s) : Q value s := by
  obtain ⟨P, hout, _, hs⟩ := h
  cases hout with
  | ret hpost => exact hpost s hs

end Within

/-- What a stream is seen to do, item by item. -/
structure Owned (observe : σ → τ) (effect : ι → τ → τ) (aside : ι → Prop) (meets : Buffered σ ι → ι → Prop)
    (handler : ι → Prog σ Unit) : Prop where
  aside_effect : ∀ item x, aside item → effect item x = x
  leaves : ∀ item, aside item →
    Outline False (fun _ _ => True) (SameView observe) (fun _ => True) (handler item) fun _ _ => True
  performs : ∀ buffered item, meets buffered item → ¬ aside item →
    Outline False (SameView observe) (fun _ _ => True) (fun s => observe s = observe buffered.state) (handler item)
      fun _ s => observe s = effect item (observe buffered.state)
  alone : ∀ buffered item, meets buffered item → ∀ entry ∈ buffered.inFlight, aside entry.1 ∨ aside item

section Owned

variable (observe : σ → τ) (effect : ι → τ → τ) (aside : ι → Prop)

/-- What is seen after some items. -/
def viewAfter (items : List ι) (x : τ) : τ := items.foldl (fun x item => effect item x) x

/-- A handler in flight leaves the view alone, or owns it and is going to leave `x`. -/
def Keeping (x : τ) (entry : ι × Prog σ Unit) (s : σ) : Prop :=
  (aside entry.1 ∧ Within (fun _ _ => True) (SameView observe) (fun _ _ => True) entry.2 s) ∨
    (¬ aside entry.1 ∧ Within (SameView observe) (fun _ _ => True) (fun _ t => observe t = x) entry.2 s)

/-- The view has one owner at most; when it has none, it is that of the items begun so far. -/
structure OneOwner (x : τ) (buffered : Buffered σ ι) : Prop where
  alone : (buffered.inFlight.map Prod.fst).Pairwise fun item other => aside item ∨ aside other
  keeping : ∀ entry ∈ buffered.inFlight, Keeping observe aside x entry buffered.state
  free : (∀ entry ∈ buffered.inFlight, aside entry.1) → observe buffered.state = x

variable {observe effect aside} {x : τ} {entry : ι × Prog σ Unit} {s t : σ}

@[simp] theorem viewAfter_snoc (items : List ι) (item : ι) (x : τ) :
    viewAfter effect (items ++ [item]) x = effect item (viewAfter effect items x) := by
  rw [viewAfter, List.foldl_append]
  rfl

theorem Keeping.of_aside (h : Keeping observe aside x entry s) (haside : aside entry.1) (t : σ) :
    Keeping observe aside x entry t := by
  rcases h with ⟨_, hwithin⟩ | ⟨hnot, _⟩
  · exact .inl ⟨haside, hwithin.others trivial⟩
  · exact (hnot haside).elim

theorem Keeping.of_sameView (h : Keeping observe aside x entry s) (hview : SameView observe s t) :
    Keeping observe aside x entry t :=
  h.imp (fun ⟨haside, hwithin⟩ => ⟨haside, hwithin.others trivial⟩)
    fun ⟨hnot, hwithin⟩ => ⟨hnot, hwithin.others hview⟩

variable {meets : Buffered σ ι → ι → Prop} {stream : List ι} {inFlight before after : List (ι × Prog σ Unit)} {item : ι}
  {p q : Prog σ Unit} {event : Event}

theorem OneOwner.begin (h : OneOwner observe aside x ⟨item :: stream, inFlight, s⟩)
    (howned : Owned observe effect aside meets handler) (hmeets : meets ⟨item :: stream, inFlight, s⟩ item) :
    OneOwner observe aside (effect item x) ⟨stream, inFlight ++ [(item, handler item)], s⟩ := by
  have halone := howned.alone _ item hmeets
  by_cases haside : aside item
  · rw [howned.aside_effect item x haside]
    refine ⟨?_, List.forall_mem_append.mpr ⟨h.keeping, List.forall_mem_singleton.mpr (.inl ⟨haside, ?_⟩)⟩,
      fun hall => h.free (List.forall_mem_append.mp hall).1⟩
    · rw [List.map_append, List.pairwise_append]
      exact ⟨h.alone, List.pairwise_singleton _ _, fun _ _ other hother => .inr (List.mem_singleton.mp hother ▸ haside)⟩
    · exact ⟨_, howned.leaves item haside, .const _ True, trivial⟩
  · have hfree : ∀ entry ∈ inFlight, aside entry.1 := fun entry hentry => (halone entry hentry).resolve_right haside
    have hview : observe s = x := h.free hfree
    refine ⟨?_, List.forall_mem_append.mpr ⟨fun entry hentry => ?_, List.forall_mem_singleton.mpr (.inr ⟨haside, ?_⟩)⟩,
      fun hall => (haside (hall _ (List.mem_append_right _ List.mem_cons_self))).elim⟩
    · rw [List.map_append, List.pairwise_append]
      refine ⟨h.alone, List.pairwise_singleton _ _, fun other hother _ _ => .inl ?_⟩
      obtain ⟨entry, hentry, rfl⟩ := List.mem_map.mp hother
      exact hfree entry hentry
    · exact ((h.keeping entry hentry).of_aside (hfree entry hentry) s).imp id fun hnot =>
        (hnot.1 (hfree entry hentry)).elim
    · have hperforms := howned.performs _ item hmeets haside
      rw [show observe (Buffered.state ⟨item :: stream, inFlight, s⟩) = x from hview] at hperforms
      exact ⟨_, hperforms, fun _ _ hs hview => Eq.trans hview hs, hview⟩

/-- The other handlers stand aside when the owner takes a step. -/
theorem aside_of_pairwise
    (h : ((before ++ (item, p) :: after).map Prod.fst).Pairwise fun item other => aside item ∨ aside other)
    (hitem : ¬ aside item) : ∀ entry ∈ before ++ after, aside entry.1 := by
  rw [List.map_append, List.map_cons, List.pairwise_append, List.pairwise_cons] at h
  obtain ⟨_, ⟨hafter, _⟩, hbefore⟩ := h
  intro entry hentry
  rcases List.mem_append.mp hentry with hmem | hmem
  · exact (hbefore entry.1 (List.mem_map_of_mem hmem) item List.mem_cons_self).resolve_right hitem
  · exact (hafter entry.1 (List.mem_map_of_mem hmem)).resolve_left hitem

theorem OneOwner.run (h : OneOwner observe aside x ⟨stream, before ++ (item, p) :: after, s⟩)
    (hstep : Step p s event q t) : OneOwner observe aside x ⟨stream, before ++ (item, q) :: after, t⟩ := by
  have hmap : (before ++ (item, q) :: after).map Prod.fst = (before ++ (item, p) :: after).map Prod.fst := by simp
  have hkeeping := h.keeping
  simp only [List.forall_mem_append, List.forall_mem_cons] at hkeeping
  obtain ⟨hbefore, hitem, hafter⟩ := hkeeping
  rcases hitem with ⟨haside, hwithin⟩ | ⟨hnot, hwithin⟩
  · obtain ⟨hstays, hwithin'⟩ := hwithin.step hstep
    have hview : SameView observe s t := hstays.elim (fun hsame => hsame ▸ .refl observe s) id
    refine ⟨hmap ▸ h.alone, ?_, fun hall => hview.trans (h.free ?_)⟩
    · simp only [List.forall_mem_append, List.forall_mem_cons]
      exact ⟨fun entry hentry => (hbefore entry hentry).of_sameView hview, .inl ⟨haside, hwithin'⟩,
        fun entry hentry => (hafter entry hentry).of_sameView hview⟩
    · simp only [List.forall_mem_append, List.forall_mem_cons] at hall ⊢
      exact hall
  · have hothers := List.forall_mem_append.mp (aside_of_pairwise h.alone hnot)
    refine ⟨hmap ▸ h.alone, ?_, fun hall => (hnot (hall (item, q) (by simp))).elim⟩
    simp only [List.forall_mem_append, List.forall_mem_cons]
    exact ⟨fun entry hentry => (hbefore entry hentry).of_aside (hothers.1 entry hentry) t,
      .inr ⟨hnot, (hwithin.step hstep).2⟩,
      fun entry hentry => (hafter entry hentry).of_aside (hothers.2 entry hentry) t⟩

theorem OneOwner.leave (h : OneOwner observe aside x ⟨stream, before ++ (item, .ret ()) :: after, s⟩) :
    OneOwner observe aside x ⟨stream, before ++ after, s⟩ := by
  have hkeeping := h.keeping
  simp only [List.forall_mem_append, List.forall_mem_cons] at hkeeping
  obtain ⟨hbefore, hitem, hafter⟩ := hkeeping
  refine ⟨h.alone.sublist ?_, List.forall_mem_append.mpr ⟨hbefore, hafter⟩, fun hall => ?_⟩
  · simp
  · rcases hitem with ⟨haside, _⟩ | ⟨_, hwithin⟩
    · refine h.free ?_
      simp only [List.forall_mem_append, List.forall_mem_cons] at hall ⊢
      exact ⟨hall.1, haside, hall.2⟩
    · exact hwithin.of_ret

variable {trace : List (StreamEvent ι)} {buffered : Buffered σ ι}

theorem StreamRunWith.oneOwner (h : StreamRunWith meets handler concurrency ⟨stream, [], s⟩ trace buffered)
    (howned : Owned observe effect aside meets handler) (hok : ∀ item, .handled item false ∉ trace) :
    OneOwner observe aside (viewAfter effect (begunItems trace) (observe s)) buffered := by
  induction h with
  | start => exact ⟨.nil, nofun, fun _ => rfl⟩
  | snoc _ hstep hmeets ih =>
      have hall := ih fun item hmem => hok item (List.mem_append_left _ hmem)
      rw [begunItems_snoc]
      cases hstep with
      | @begin item _ _ _ hroom =>
          rw [StreamEvent.began?, Option.toList_some, viewAfter_snoc]
          exact hall.begin howned (hmeets item rfl)
      | run hrun =>
          rw [StreamEvent.began?, Option.toList_none, List.append_nil]
          exact hall.run hrun
      | ok =>
          rw [StreamEvent.began?, Option.toList_none, List.append_nil]
          exact hall.leave
      | @err item => exact (hok item (List.mem_append_right _ List.mem_cons_self)).elim

/-- What an item that does not stand aside finds when it is begun: what the items before it have left. -/
theorem StreamRunWith.found (h : StreamRunWith meets handler concurrency ⟨stream, [], s⟩ trace buffered)
    (howned : Owned observe effect aside meets handler) (hok : ∀ item, .handled item false ∉ trace)
    {done rest : List ι} (htrace : begunItems trace = done ++ item :: rest) (hitem : ¬ aside item) :
    ∃ found : Buffered σ ι, meets found item ∧ done ++ found.stream = stream ∧
      observe found.state = viewAfter effect done (observe s) := by
  induction h generalizing rest with
  | start => simp [begunItems] at htrace
  | @snoc trace event found _ hrun hstep hmeets ih =>
      have hok' : ∀ item, .handled item false ∉ trace := fun item hmem => hok item (List.mem_append_left _ hmem)
      rw [begunItems_snoc] at htrace
      rcases List.eq_nil_or_concat rest with rfl | ⟨rest', last, rfl⟩
      · cases hstep with
        | @begin item' _ _ _ hroom =>
            rw [StreamEvent.began?, Option.toList_some] at htrace
            obtain ⟨hdone, hlast⟩ := List.append_inj' htrace rfl
            obtain rfl : item' = item := by simpa using hlast
            have hfound := hmeets _ rfl
            refine ⟨_, hfound, ?_, ?_⟩
            · exact hdone ▸ hrun.streamRun.accounted.stream
            · exact hdone ▸ (hrun.oneOwner howned hok').free fun entry hentry =>
                (howned.alone _ _ hfound entry hentry).resolve_right hitem
        | run _ => exact ih hok' (by simpa [StreamEvent.began?] using htrace)
        | ok => exact ih hok' (by simpa [StreamEvent.began?] using htrace)
        | err => exact ih hok' (by simpa [StreamEvent.began?] using htrace)
      · cases hstep with
        | begin _ =>
            rw [StreamEvent.began?, Option.toList_some, List.concat_eq_append, ← List.cons_append,
              ← List.append_assoc] at htrace
            exact ih hok' (List.append_inj' htrace rfl).1
        | run _ => exact ih hok' (by simpa [StreamEvent.began?] using htrace)
        | ok => exact ih hok' (by simpa [StreamEvent.began?] using htrace)
        | err => exact ih hok' (by simpa [StreamEvent.began?] using htrace)

/-- When all handlers are ready, what is seen went through the items in the order of the stream. -/
theorem StreamRunWith.view (h : StreamRunWith meets handler concurrency ⟨stream, [], s⟩ trace ⟨[], [], t⟩)
    (howned : Owned observe effect aside meets handler) (hok : ∀ item, .handled item false ∉ trace) :
    observe t = viewAfter effect stream (observe s) ∧ ∀ done item rest, stream = done ++ item :: rest → aside item ∨
      ∃ found : Buffered σ ι, meets found item ∧ found.stream = item :: rest ∧
        observe found.state = viewAfter effect done (observe s) := by
  have hstream : begunItems trace = stream := by
    have hall := h.streamRun.accounted.stream
    rwa [List.append_nil] at hall
  refine ⟨hstream ▸ (h.oneOwner howned hok).free nofun, fun done item rest hsplit => ?_⟩
  refine or_iff_not_imp_left.mpr fun hitem => ?_
  obtain ⟨found, hmeets, hfound, hview⟩ := h.found howned hok (hstream.trans hsplit) hitem
  exact ⟨found, hmeets, List.append_cancel_left (hfound.trans hsplit), hview⟩

end Owned

end ExplorerIndexer.Async

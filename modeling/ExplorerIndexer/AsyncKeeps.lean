import ExplorerIndexer.AsyncStream

/-! What every statement of a program does to the state, in whichever order the statements come. Unlike an
outline, such a fact needs no assertions between the statements. -/

namespace ExplorerIndexer.Async

variable {σ α β γ ι : Type}

/-- Every statement and every critical section of the program takes the state along `R`. -/
inductive Keeps {σ : Type} (R : σ → σ → Prop) : {α : Type} → Prog σ α → Prop
  | ret {α : Type} (value : α) : Keeps R (.ret value)
  | fail {α : Type} : Keeps R (.fail : Prog σ α)
  | panic {α : Type} : Keeps R (.panic : Prog σ α)
  | access {α β : Type} {act : σ → β × σ} {next : β → Prog σ α} (hact : ∀ s, R s (act s).2)
      (hnext : ∀ b, Keeps R (next b)) : Keeps R (.access act next)
  | query {α β : Type} {attempts : Option Nat} {stmt : Statement σ β} {handled : QueryError → Bool}
      {next : Option β → Prog σ α} (hstmt : ∀ s b t, stmt s = .ok (b, t) → R s t)
      (hnext : ∀ b, Keeps R (next b)) : Keeps R (.query attempts stmt handled next)
  | anyOrder {α β : Type} {items : List β} {next : List β → Prog σ α} (hnext : ∀ l, Keeps R (next l)) :
      Keeps R (.anyOrder items next)
  | join {α β γ : Type} {left : Prog σ β} {right : Prog σ γ} {next : β → γ → Prog σ α}
      (hleft : Keeps R left) (hright : Keeps R right) (hnext : ∀ b c, Keeps R (next b c)) :
      Keeps R (.join left right next)
  | loop {α β γ : Type} {body : β → Prog σ (β ⊕ γ)} {start : β} {next : γ → Prog σ α}
      (hbody : ∀ b, Keeps R (body b)) (hnext : ∀ c, Keeps R (next c)) : Keeps R (.loop body start next)

variable {R : σ → σ → Prop}

theorem Keeps.bind {p : Prog σ α} {f : α → Prog σ β} (hp : Keeps R p) (hf : ∀ a, Keeps R (f a)) :
    Keeps R (p.bind f) := by
  induction hp with
  | ret value => exact hf value
  | fail => exact .fail
  | panic => exact .panic
  | access hact _ ih => exact .access hact fun b => ih b hf
  | query hstmt _ ih => exact .query hstmt fun b => ih b hf
  | anyOrder _ ih => exact .anyOrder fun l => ih l hf
  | join hleft hright _ _ _ ih => exact .join hleft hright fun b c => ih b c hf
  | loop hbody _ _ ih => exact .loop hbody fun c => ih c hf

theorem Keeps.mono {R' : σ → σ → Prop} {p : Prog σ α} (hp : Keeps R p) (hsub : ∀ s t, R s t → R' s t) :
    Keeps R' p := by
  induction hp with
  | ret value => exact .ret value
  | fail => exact .fail
  | panic => exact .panic
  | access hact _ ih => exact .access (fun s => hsub _ _ (hact s)) ih
  | query hstmt _ ih => exact .query (fun s b t hok => hsub _ _ (hstmt s b t hok)) ih
  | anyOrder _ ih => exact .anyOrder ih
  | join _ _ _ ihleft ihright ih => exact .join ihleft ihright ih
  | loop _ _ ihbody ih => exact .loop ihbody ih

theorem Keeps.both {left right : Prog σ Unit} (hleft : Keeps R left) (hright : Keeps R right) :
    Keeps R (Prog.both left right) := .join hleft hright fun _ _ => .ret ()

theorem Keeps.joinAll {tasks : List (Prog σ Unit)} (h : ∀ task ∈ tasks, Keeps R task) :
    Keeps R (Prog.joinAll tasks) := by
  induction tasks with
  | nil => exact .ret ()
  | cons task tasks ih =>
      exact (h task List.mem_cons_self).both (ih fun task' hmem => h task' (List.mem_cons_of_mem _ hmem))

theorem Keeps.joinAll_map {items : List β} {task : β → Prog σ Unit} (h : ∀ item, Keeps R (task item)) :
    Keeps R (Prog.joinAll (items.map task)) := by
  apply Keeps.joinAll
  intro p hmem
  obtain ⟨item, _, rfl⟩ := List.mem_map.mp hmem
  exact h item

theorem Keeps.forEach {items : List β} {body : β → Prog σ Unit} (h : ∀ item, Keeps R (body item)) :
    Keeps R (Prog.forEach items body) := by
  induction items with
  | nil => exact .ret ()
  | cons item items ih => exact (h item).bind fun _ => ih

/-- A step of the program is one of its statements, or it leaves the state alone. -/
theorem Keeps.step {p q : Prog σ α} {s t : σ} {event : Event} (hp : Keeps R p) (hstep : Step p s event q t) :
    Keeps R q ∧ (t = s ∨ R s t) := by
  induction hp generalizing s t event with
  | ret value => exact hstep.ret_elim.elim
  | fail => exact hstep.fail_elim.elim
  | panic => cases hstep
  | access hact hnext => cases hstep with | access => exact ⟨hnext _, .inr (hact _)⟩
  | query hstmt hnext =>
      cases hstep with
      | queryDone _ hok => exact ⟨hnext _, .inr (hstmt _ _ _ hok)⟩
      | queryHandled _ _ _ => exact ⟨hnext _, .inl rfl⟩
      | queryRefused _ _ _ => exact ⟨.query hstmt hnext, .inl rfl⟩
      | queryLost _ => exact ⟨.query hstmt hnext, .inl rfl⟩
      | queryGaveUp => exact ⟨.fail, .inl rfl⟩
  | anyOrder hnext => cases hstep with | anyOrder _ => exact ⟨hnext _, .inl rfl⟩
  | join hleft hright hnext ihleft ihright _ =>
      cases hstep with
      | joinLeft hstep => exact ⟨.join (ihleft hstep).1 hright hnext, (ihleft hstep).2⟩
      | joinRight hstep => exact ⟨.join hleft (ihright hstep).1 hnext, (ihright hstep).2⟩
      | joinRet => exact ⟨hnext _ _, .inl rfl⟩
      | joinFailLeft => exact ⟨.fail, .inl rfl⟩
      | joinFailRight => exact ⟨.fail, .inl rfl⟩
  | loop hbody hnext _ _ =>
      cases hstep with
      | loop =>
          refine ⟨(hbody _).bind fun answer => ?_, .inl rfl⟩
          cases answer with
          | inl again => exact .loop hbody hnext
          | inr c => exact hnext c

theorem Keeps.outline {p : Prog σ α} (hp : Keeps R p) (rely : σ → σ → Prop) :
    Outline False rely R (fun _ => True) p fun _ _ => True := by
  have hstable : ∀ rely : σ → σ → Prop, Stable rely fun _ => True := fun rely => .const rely True
  induction hp generalizing rely with
  | ret value => exact .ret fun _ h => h
  | fail => exact .fail id
  | panic => exact .panic id
  | access hact _ ih =>
      exact .access (M := fun _ _ => True) (fun s _ => ⟨hact s, trivial⟩) (fun _ => hstable _) fun b => ih b _
  | query hstmt _ ih =>
      exact .query (M := fun _ _ => True) (fun s b t _ hok => ⟨hstmt s b t hok, trivial⟩) (fun _ _ _ _ _ => trivial)
        False.elim (fun _ => hstable _) fun b => ih b _
  | anyOrder _ ih => exact .anyOrder fun l _ => ih l _
  | join _ _ _ ihleft ihright ih =>
      exact .join (ihleft _) (ihright _) (fun _ _ h => h) (fun _ _ h => h) (fun _ h => ⟨h, h⟩) (hstable _)
        (hstable _) (fun _ => hstable _) (fun _ => hstable _) fun b c => (ih b c _).pre fun _ h => h.1
  | loop _ _ ihbody ih =>
      refine .loop (I := fun _ _ => True) (D := fun _ _ => True) id (fun _ h => h) (fun _ => hstable _)
        (fun _ => hstable _) (fun b => (ihbody b _).post fun answer _ h => ?_) fun c => ih c _
      cases answer with
      | inl again => exact h
      | inr c => exact h

/-- An assertion that no statement breaks. -/
theorem Keeps.outline_kept {p : Prog σ α} (hp : Keeps R p) {rely guarantee : σ → σ → Prop} {P : σ → Prop}
    (hG : ∀ s t, R s t → guarantee s t) (hself : ∀ s t, guarantee s t → rely s t) (hP : Stable rely P) :
    Outline False rely guarantee P p fun _ => P :=
  ((hp.outline rely).keeps hP (hP.mono fun s t h => hself s t (hG s t h))).guarantee_mono hG

/-! ### Programs of statements -/

/-- The program has no critical section, nor an error of its own, and its statements take the state along `R`. -/
inductive OnlyQueries {σ : Type} (R : σ → σ → Prop) : {α : Type} → Prog σ α → Prop
  | ret {α : Type} (value : α) : OnlyQueries R (.ret value)
  | panic {α : Type} : OnlyQueries R (.panic : Prog σ α)
  | query {α β : Type} {attempts : Option Nat} {stmt : Statement σ β} {handled : QueryError → Bool}
      {next : Option β → Prog σ α} (hstmt : ∀ s b t, stmt s = .ok (b, t) → R s t)
      (hnext : ∀ b, OnlyQueries R (next b)) : OnlyQueries R (.query attempts stmt handled next)
  | anyOrder {α β : Type} {items : List β} {next : List β → Prog σ α} (hnext : ∀ l, OnlyQueries R (next l)) :
      OnlyQueries R (.anyOrder items next)
  | join {α β γ : Type} {left : Prog σ β} {right : Prog σ γ} {next : β → γ → Prog σ α}
      (hleft : OnlyQueries R left) (hright : OnlyQueries R right) (hnext : ∀ b c, OnlyQueries R (next b c)) :
      OnlyQueries R (.join left right next)
  | loop {α β γ : Type} {body : β → Prog σ (β ⊕ γ)} {start : β} {next : γ → Prog σ α}
      (hbody : ∀ b, OnlyQueries R (body b)) (hnext : ∀ c, OnlyQueries R (next c)) :
      OnlyQueries R (.loop body start next)

namespace OnlyQueries

theorem bind {p : Prog σ α} {f : α → Prog σ β} (hp : OnlyQueries R p) (hf : ∀ a, OnlyQueries R (f a)) :
    OnlyQueries R (p.bind f) := by
  induction hp with
  | ret value => exact hf value
  | panic => exact .panic
  | query hstmt _ ih => exact .query hstmt fun b => ih b hf
  | anyOrder _ ih => exact .anyOrder fun l => ih l hf
  | join hleft hright _ _ _ ih => exact .join hleft hright fun b c => ih b c hf
  | loop hbody _ _ ih => exact .loop hbody fun c => ih c hf

theorem both {left right : Prog σ Unit} (hleft : OnlyQueries R left) (hright : OnlyQueries R right) :
    OnlyQueries R (Prog.both left right) := .join hleft hright fun _ _ => .ret ()

theorem joinAll_map {items : List β} {task : β → Prog σ Unit} (h : ∀ item, OnlyQueries R (task item)) :
    OnlyQueries R (Prog.joinAll (items.map task)) := by
  induction items with
  | nil => exact .ret ()
  | cons item items ih => exact (h item).both ih

theorem forEach {items : List β} {body : β → Prog σ Unit} (h : ∀ item, OnlyQueries R (body item)) :
    OnlyQueries R (Prog.forEach items body) := by
  induction items with
  | nil => exact .ret ()
  | cons item items ih => exact (h item).bind fun _ => ih

theorem joinAll {tasks : List (Prog σ Unit)} (h : ∀ task ∈ tasks, OnlyQueries R task) :
    OnlyQueries R (Prog.joinAll tasks) := by
  induction tasks with
  | nil => exact .ret ()
  | cons task tasks ih =>
      exact (h task List.mem_cons_self).both (ih fun task' hmem => h task' (List.mem_cons_of_mem _ hmem))

theorem forEach_mem {items : List β} {body : β → Prog σ Unit} (h : ∀ item ∈ items, OnlyQueries R (body item)) :
    OnlyQueries R (Prog.forEach items body) := by
  induction items with
  | nil => exact .ret ()
  | cons item items ih =>
      exact (h item List.mem_cons_self).bind fun _ => ih fun item' hmem => h item' (List.mem_cons_of_mem _ hmem)

theorem errFree {p : Prog σ α} (hp : OnlyQueries R p) : ErrFree p := by
  induction hp with
  | ret value => exact .ret value
  | panic => exact .panic
  | query _ _ ih => exact .query ih
  | anyOrder _ ih => exact .anyOrder ih
  | join _ _ _ ihleft ihright ih => exact .join ihleft ihright ih
  | loop _ _ ihbody ih => exact .loop ihbody ih

theorem keeps {p : Prog σ α} (hp : OnlyQueries R p) : Keeps R p := by
  induction hp with
  | ret value => exact .ret value
  | panic => exact .panic
  | query hstmt _ ih => exact .query hstmt ih
  | anyOrder _ ih => exact .anyOrder ih
  | join _ _ _ ihleft ihright ih => exact .join ihleft ihright ih
  | loop _ _ ihbody ih => exact .loop ihbody ih

/-- An assertion that no statement breaks. -/
theorem outline_kept {p : Prog σ α} (hp : OnlyQueries R p) {rely guarantee : σ → σ → Prop} {P : σ → Prop}
    (hG : ∀ s t, R s t → guarantee s t) (hself : ∀ s t, guarantee s t → rely s t) (hP : Stable rely P) :
    Outline False rely guarantee P p fun _ => P := hp.keeps.outline_kept hG hself hP

end OnlyQueries

/-! ### Streams -/

variable {handler : ι → Prog σ Unit} {concurrency : Nat} {stream : List ι} {s : σ}
  {trace : List (StreamEvent ι)} {buffered : Buffered σ ι}

/-- The handlers in flight were begun, and each keeps what the handler of its item keeps. -/
def Begun (K : ι → σ → σ → Prop) (trace : List (StreamEvent ι)) (inFlight : List (ι × Prog σ Unit)) : Prop :=
  ∀ entry ∈ inFlight, .began entry.1 ∈ trace ∧ Keeps (K entry.1) entry.2

variable {K : ι → σ → σ → Prop} {inFlight inFlight' : List (ι × Prog σ Unit)}

theorem Begun.mono (h : Begun K trace inFlight) (event : StreamEvent ι)
    (hsub : ∀ entry ∈ inFlight', entry ∈ inFlight) : Begun K (trace ++ [event]) inFlight' := by
  intro entry hmem
  obtain ⟨hbegan, hkeeps⟩ := h entry (hsub entry hmem)
  exact ⟨List.mem_append_left _ hbegan, hkeeps⟩

theorem Begun.append {before after : List (ι × Prog σ Unit)} (hbefore : Begun K trace before)
    (hafter : Begun K trace after) : Begun K trace (before ++ after) := by
  intro entry hmem
  rcases List.mem_append.mp hmem with hmem | hmem
  · exact hbefore entry hmem
  · exact hafter entry hmem

theorem Begun.singleton {item : ι} {p : Prog σ Unit} (hbegan : .began item ∈ trace) (hp : Keeps (K item) p) :
    Begun K trace [(item, p)] := by
  intro entry hmem
  rw [List.mem_singleton.mp hmem]
  exact ⟨hbegan, hp⟩

/-- What the statements of the handlers keep, once they are begun, the stream keeps. -/
theorem StreamRun.invariant {I : List (StreamEvent ι) → σ → Prop}
    (h : StreamRun handler concurrency ⟨stream, [], s⟩ trace buffered)
    (hhandler : ∀ item, Keeps (K item) (handler item)) (hstart : I [] s)
    (hmore : ∀ trace event t, I trace t → I (trace ++ [event]) t)
    (hstep : ∀ item trace t u, .began item ∈ trace → I trace t → K item t u → I trace u) :
    I trace buffered.state := by
  have hall : I trace buffered.state ∧ Begun K trace buffered.inFlight := by
    induction h with
    | start => exact ⟨hstart, fun entry hmem => (List.not_mem_nil hmem).elim⟩
    | snoc _ hnext ih =>
        obtain ⟨hI, hflight⟩ := ih
        cases hnext with
        | begin _ =>
            refine ⟨hmore _ _ _ hI, (hflight.mono _ fun _ h => h).append (.singleton ?_ (hhandler _))⟩
            exact List.mem_append_right _ List.mem_cons_self
        | @run item stream before after p q s t event hrun =>
            obtain ⟨hbegan, hp⟩ := hflight (item, p) (List.mem_append_right _ List.mem_cons_self)
            obtain ⟨hq, hst⟩ := hp.step hrun
            refine ⟨hmore _ _ _ ?_, ?_⟩
            · rcases hst with rfl | hK
              · exact hI
              · exact hstep item _ _ _ hbegan hI hK
            · refine Begun.append (hflight.mono _ fun _ h => List.mem_append_left _ h) ?_
              refine Begun.append (.singleton (List.mem_append_left _ hbegan) hq) ?_
              exact hflight.mono _ fun _ h => List.mem_append_right _ (List.mem_cons_of_mem _ h)
        | ok =>
            refine ⟨hmore _ _ _ hI, hflight.mono _ fun entry hmem => ?_⟩
            exact List.mem_append.mpr ((List.mem_append.mp hmem).imp_right (List.mem_cons_of_mem _))
        | err =>
            refine ⟨hmore _ _ _ hI, hflight.mono _ fun entry hmem => ?_⟩
            exact List.mem_append.mpr ((List.mem_append.mp hmem).imp_right (List.mem_cons_of_mem _))
  exact hall.1

/-! ### The item that was not finished -/

/-- The handling of the item began, but it was not handled with `Ok`. -/
def Unfinished (trace : List (StreamEvent ι)) (item : ι) : Prop :=
  .began item ∈ trace ∧ .handled item true ∉ trace

theorem nil_of_alone {τ : Type _} {before after : List τ} {entry : τ} (h : (before ++ entry :: after).length ≤ 1) :
    before = [] ∧ after = [] := by
  rw [List.length_append, List.length_cons] at h
  exact ⟨List.length_eq_zero_iff.mp (by omega), List.length_eq_zero_iff.mp (by omega)⟩

/-- One handler at a time: the items that were begun are handled, apart from the one in flight. -/
structure OneAtATime (stream : List ι) (trace : List (StreamEvent ι)) (buffered : Buffered σ ι)
    (done : List ι) : Prop where
  order : stream = done ++ (buffered.inFlight.map Prod.fst ++ buffered.stream)
  alone : buffered.inFlight.length ≤ 1
  began : ∀ item, .began item ∈ trace → item ∈ done ∨ item ∈ buffered.inFlight.map Prod.fst
  handled : ∀ item ∈ done, ∃ ok, .handled item ok ∈ trace

theorem OneAtATime.leave {stream rest done : List ι} {s : σ} {item : ι} {p : Prog σ Unit}
    {before after : List (ι × Prog σ Unit)}
    (h : OneAtATime stream trace ⟨rest, before ++ (item, p) :: after, s⟩ done) (ok : Bool) :
    OneAtATime stream (trace ++ [.handled item ok]) ⟨rest, before ++ after, s⟩ (done ++ [item]) := by
  obtain ⟨rfl, rfl⟩ := nil_of_alone h.alone
  refine ⟨?_, Nat.zero_le 1, fun other hother => ?_, fun other hother => ?_⟩
  · have horder := h.order
    simp only [List.nil_append, List.map_cons, List.map_nil, List.singleton_append] at horder
    simp [horder]
  · have hbegan : .began other ∈ trace := by simpa using hother
    refine .inl (List.mem_append.mpr ((h.began other hbegan).imp_right fun hmem => ?_))
    simpa using hmem
  · rcases List.mem_append.mp hother with hmem | hmem
    · obtain ⟨ok', hok'⟩ := h.handled other hmem
      exact ⟨ok', List.mem_append_left _ hok'⟩
    · rw [List.mem_singleton.mp hmem]
      exact ⟨ok, List.mem_append_right _ List.mem_cons_self⟩

theorem StreamRun.oneAtATime (h : StreamRun handler 1 ⟨stream, [], s⟩ trace buffered) :
    ∃ done, OneAtATime stream trace buffered done := by
  induction h with
  | start =>
      exact ⟨[], rfl, Nat.zero_le 1, fun _ hmem => (List.not_mem_nil hmem).elim,
        fun _ hmem => (List.not_mem_nil hmem).elim⟩
  | snoc _ hstep ih =>
      obtain ⟨done, hdone⟩ := ih
      cases hstep with
      | @begin item rest inFlight s hroom =>
          obtain rfl := List.length_eq_zero_iff.mp (Nat.lt_one_iff.mp hroom)
          refine ⟨done, hdone.order, Nat.le_refl 1, fun other hother => ?_, fun other hother => ?_⟩
          · rcases List.mem_append.mp hother with hmem | hmem
            · exact (hdone.began other hmem).imp_right fun hnil => (List.not_mem_nil hnil).elim
            · cases List.mem_singleton.mp hmem
              exact .inr List.mem_cons_self
          · obtain ⟨ok, hok⟩ := hdone.handled other hother
            exact ⟨ok, List.mem_append_left _ hok⟩
      | @run item rest before after p q s t event hrun =>
          have hmap : (before ++ (item, q) :: after).map Prod.fst = (before ++ (item, p) :: after).map Prod.fst := by
            simp
          refine ⟨done, ?_, ?_, fun other hother => ?_, fun other hother => ?_⟩
          · show _ = done ++ ((before ++ (item, q) :: after).map Prod.fst ++ rest)
            rw [hmap]
            exact hdone.order
          · have hlength := hdone.alone
            simpa using hlength
          · show _ ∨ other ∈ (before ++ (item, q) :: after).map Prod.fst
            rw [hmap]
            exact hdone.began other (by simpa using hother)
          · obtain ⟨ok, hok⟩ := hdone.handled other hother
            exact ⟨ok, List.mem_append_left _ hok⟩
      | ok => exact ⟨_, hdone.leave true⟩
      | err => exact ⟨_, hdone.leave false⟩

/-- If every handler that left was `Ok`, the item that is not finished is the last one begun. -/
theorem StreamRun.unfinished_last {r : ι → ι → Prop} (h : StreamRun handler 1 ⟨stream, [], s⟩ trace buffered)
    (hstream : stream.Pairwise r) (hok : ∀ item, .handled item false ∉ trace) {item other : ι}
    (hunfinished : Unfinished trace item) (hother : .began other ∈ trace) : other = item ∨ r other item := by
  obtain ⟨done, hdone⟩ := h.oneAtATime
  have hflight : item ∈ buffered.inFlight.map Prod.fst := by
    refine (hdone.began item hunfinished.1).resolve_left fun hmem => ?_
    obtain ⟨ok, hhandled⟩ := hdone.handled item hmem
    cases ok with
    | true => exact hunfinished.2 hhandled
    | false => exact hok item hhandled
  have hlast : buffered.inFlight.map Prod.fst = [item] := by
    obtain ⟨before, after, hsplit⟩ := List.append_of_mem hflight
    have hlength : (buffered.inFlight.map Prod.fst).length ≤ 1 := by simpa using hdone.alone
    rw [hsplit, List.length_append, List.length_cons] at hlength
    obtain rfl : before = [] := List.length_eq_zero_iff.mp (by omega)
    obtain rfl : after = [] := List.length_eq_zero_iff.mp (by omega)
    exact hsplit
  rcases hdone.began other hother with hmem | hmem
  · rw [hdone.order, hlast] at hstream
    exact .inr ((List.pairwise_append.mp hstream).2.2 other hmem item List.mem_cons_self)
  · rw [hlast] at hmem
    exact .inl (List.mem_singleton.mp hmem)

end ExplorerIndexer.Async

import ExplorerIndexer.AsyncKeeps

/-! Programs that keep a record of their critical sections. The record is a second part of the state that no program
reads: the recorded program takes the same steps as the program itself. Assertions may speak of the record, and so
of what happened before. -/

namespace ExplorerIndexer.Async

/-- A state and the record of the critical sections entered so far. -/
structure Recorded (σ ε : Type) where
  state : σ
  record : List ε

variable {σ ε α β γ : Type}

/-- A statement leaves no record. -/
def Recorded.statement (stmt : Statement σ β) : Statement (Recorded σ ε) β :=
  fun x => (stmt x.state).map fun result => (result.1, ⟨result.2, x.record⟩)

/-- The program that notes every critical section with the state it finds. -/
def Prog.recorded (note : (β : Type) → (σ → β × σ) → σ → ε) {α : Type} : Prog σ α → Prog (Recorded σ ε) α
  | .ret value => .ret value
  | .fail => .fail
  | .panic => .panic
  | .access act next =>
      .access (fun x => ((act x.state).1, ⟨(act x.state).2, x.record ++ [note _ act x.state]⟩))
        fun b => (next b).recorded note
  | .query attempts stmt handled next =>
      .query attempts (Recorded.statement stmt) handled fun b => (next b).recorded note
  | .anyOrder items next => .anyOrder items fun l => (next l).recorded note
  | .join left right next => .join (left.recorded note) (right.recorded note) fun b c => (next b c).recorded note
  | .loop body start next => .loop (fun b => (body b).recorded note) start fun c => (next c).recorded note

variable {note : (β : Type) → (σ → β × σ) → σ → ε}

theorem Recorded.statement_ok {stmt : Statement σ β} {x y : Recorded σ ε} {b : β}
    (h : Recorded.statement stmt x = .ok (b, y)) : stmt x.state = .ok (b, y.state) ∧ y.record = x.record := by
  unfold Recorded.statement at h
  cases hstmt : stmt x.state with
  | error error =>
      rw [hstmt] at h
      cases h
  | ok result =>
      rw [hstmt] at h
      cases h
      exact ⟨rfl, rfl⟩

theorem Recorded.statement_error {stmt : Statement σ β} {x : Recorded σ ε} {error : QueryError} :
    Recorded.statement stmt x = .error error ↔ stmt x.state = .error error := by
  unfold Recorded.statement
  cases stmt x.state <;> simp [Except.map]

theorem recorded_bind (p : Prog σ α) (f : α → Prog σ β) :
    (p.bind f).recorded note = (p.recorded note).bind fun a => (f a).recorded note := by
  induction p with
  | ret value => rfl
  | fail => rfl
  | panic => rfl
  | access act next ih => simp only [Prog.bind, Prog.recorded, ih]
  | query attempts stmt handled next ih => simp only [Prog.bind, Prog.recorded, ih]
  | anyOrder items next ih => simp only [Prog.bind, Prog.recorded, ih]
  | join left right next _ _ ih => simp only [Prog.bind, Prog.recorded, ih]
  | loop body start next _ ih => simp only [Prog.bind, Prog.recorded, ih]

theorem recorded_joinAll_map (items : List β) (task : β → Prog σ Unit) :
    (Prog.joinAll (items.map task)).recorded note =
      Prog.joinAll (items.map fun item => (task item).recorded note) := by
  induction items with
  | nil => rfl
  | cons item items ih => exact congrArg (Prog.both ((task item).recorded note)) ih

/-! ### The recorded program takes the same steps -/

variable (note) in
theorem Step.recorded {p q : Prog σ α} {s t : σ} {event : Event} (h : Step p s event q t) (record : List ε) :
    ∃ record', Step (p.recorded note) ⟨s, record⟩ event (q.recorded note) ⟨t, record'⟩ := by
  induction h with
  | access => exact ⟨_, .access⟩
  | queryDone hattempts hrun =>
      refine ⟨record, .queryDone hattempts ?_⟩
      unfold Recorded.statement
      rw [hrun]
      rfl
  | queryHandled hattempts hrun hhandled =>
      exact ⟨record, .queryHandled hattempts (Recorded.statement_error.mpr hrun) hhandled⟩
  | queryRefused hattempts hrun hhandled =>
      exact ⟨record, .queryRefused hattempts (Recorded.statement_error.mpr hrun) hhandled⟩
  | queryLost hattempts => exact ⟨record, .queryLost hattempts⟩
  | queryGaveUp => exact ⟨record, .queryGaveUp⟩
  | anyOrder hperm => exact ⟨record, .anyOrder hperm⟩
  | joinLeft _ ih => exact ih.imp fun _ => .joinLeft
  | joinRight _ ih => exact ih.imp fun _ => .joinRight
  | joinRet => exact ⟨record, .joinRet⟩
  | joinFailLeft => exact ⟨record, .joinFailLeft⟩
  | joinFailRight => exact ⟨record, .joinFailRight⟩
  | @loop _ _ _ body start next _ =>
      refine ⟨record, ?_⟩
      rw [recorded_bind]
      have hnext : (fun a => (Sum.elim (fun again => Prog.loop body again next) next a).recorded note) =
          Sum.elim (fun again => Prog.loop (fun b => (body b).recorded note) again fun c => (next c).recorded note)
            (fun c => (next c).recorded note) := by
        funext a
        cases a <;> rfl
      rw [hnext]
      exact .loop

/-- The recorded handlers of a stream do what the handlers themselves do. -/
theorem StreamRun.recorded {ι : Type} {handler : ι → Prog σ Unit} {concurrency : Nat} {stream : List ι} {s : σ}
    {trace : List (StreamEvent ι)} {buffered : Buffered σ ι} (note : ι → (β : Type) → (σ → β × σ) → σ → ε)
    (h : StreamRun handler concurrency ⟨stream, [], s⟩ trace buffered) :
    ∃ record, StreamRun (fun item => (handler item).recorded (note item)) concurrency ⟨stream, [], ⟨s, []⟩⟩ trace
      ⟨buffered.stream, buffered.inFlight.map fun entry => (entry.1, entry.2.recorded (note entry.1)),
        ⟨buffered.state, record⟩⟩ := by
  induction h with
  | start => exact ⟨[], .start⟩
  | snoc _ hstep ih =>
      obtain ⟨record, hrun⟩ := ih
      cases hstep with
      | begin hroom =>
          refine ⟨record, hrun.snoc ?_⟩
          rw [List.map_append]
          exact .begin (by rwa [List.length_map])
      | run hstep =>
          obtain ⟨record', hnext⟩ := Step.recorded (note _) hstep record
          refine ⟨record', hrun.snoc ?_⟩
          rw [List.map_append, List.map_append]
          exact .run hnext
      | ok =>
          refine ⟨record, hrun.snoc ?_⟩
          rw [List.map_append, List.map_append]
          exact .ok
      | err =>
          refine ⟨record, hrun.snoc ?_⟩
          rw [List.map_append, List.map_append]
          exact .err

/-! ### Outlines of recorded programs -/

/-- A step of the program itself, which leaves the record as it is. -/
structure Unrecorded (guarantee : σ → σ → Prop) (x y : Recorded σ ε) : Prop where
  step : guarantee x.state y.state
  record : y.record = x.record

variable {total : Prop} {rely guarantee : σ → σ → Prop} {P : σ → Prop} {p : Prog σ α} {Q : α → σ → Prop}
  {R : σ → σ → Prop}

/-- An outline of a program without critical sections is one of the recorded program. -/
theorem Outline.recorded (h : Outline total rely guarantee P p Q) (hp : OnlyQueries R p) :
    Outline total (fun x y : Recorded σ ε => rely x.state y.state) (Unrecorded guarantee) (fun x => P x.state)
      (p.recorded note) fun a x => Q a x.state := by
  induction h with
  | ret hpost => exact .ret fun x hx => hpost x.state hx
  | fail hfailing => exact .fail hfailing
  | panic hfailing => exact .panic hfailing
  | access _ _ _ _ => cases hp
  | @query _ _ _ _ _ M _ _ _ _ _ hrun hhandled htotal hstable _ ih =>
      cases hp with
      | query _ hnext =>
          refine .query (M := fun b x => M b x.state) (fun x b y hx hok => ?_) (fun x error hx herror hh => ?_)
            (fun ht => ⟨(htotal ht).1, fun x hx => ?_⟩) (fun b x y hx hrely => hstable b _ _ hx hrely)
            fun b => ih b (hnext b)
          · obtain ⟨hok, hrecord⟩ := Recorded.statement_ok hok
            exact ⟨⟨(hrun _ b _ hx hok).1, hrecord⟩, (hrun _ b _ hx hok).2⟩
          · exact hhandled _ error hx (Recorded.statement_error.mp herror) hh
          · obtain ⟨result, hok⟩ := (htotal ht).2 _ hx
            refine ⟨(result.1, ⟨result.2, x.record⟩), ?_⟩
            unfold Recorded.statement
            rw [hok]
            rfl
  | anyOrder _ ih =>
      cases hp with
      | anyOrder hnext => exact .anyOrder fun l hperm => ih l hperm (hnext l)
  | @join rely guarantee leftG rightG _ _ _ P leftPre rightPre left right next leftPost rightPost _ hleft hright hl hr
      hpre h1 h2 h3 h4 _ ihleft ihright ih =>
      cases hp with
      | join hpl hpr hnext =>
          have hsub : ∀ {G : σ → σ → Prop} (x y : Recorded σ ε),
              besides (fun x y => rely x.state y.state) (Unrecorded G) x y → besides rely G x.state y.state :=
            fun x y h => h.imp_right Unrecorded.step
          exact .join ((ihleft hpl).rely_mono hsub) ((ihright hpr).rely_mono hsub)
            (fun x y h => ⟨hl _ _ h.step, h.record⟩) (fun x y h => ⟨hr _ _ h.step, h.record⟩)
            (fun x hx => hpre x.state hx) (fun x y hx h => h1 _ _ hx (hsub x y h))
            (fun x y hx h => h2 _ _ hx (hsub x y h)) (fun b x y hx h => h3 b _ _ hx (hsub x y h))
            (fun c x y hx h => h4 c _ _ hx (hsub x y h)) fun b c => ih b c (hnext b c)
  | @loop _ _ _ _ _ _ I D _ _ _ _ hfailing hpre h1 h2 _ _ ihbody ih =>
      cases hp with
      | loop hbody hnext =>
          refine .loop hfailing (I := fun b x => I b x.state) (D := fun c x => D c x.state) (fun x hx => hpre _ hx)
            (fun b x y hx h => h1 b _ _ hx h) (fun c x y hx h => h2 c _ _ hx h) (fun b => ?_) fun c => ih c (hnext c)
          refine (ihbody b (hbody b)).post fun answer x hx => ?_
          cases answer with
          | inl again => exact hx
          | inr c => exact hx

/-- Statements alone keep an assertion that none of them breaks. -/
theorem OnlyQueries.outline_recorded (hp : OnlyQueries R p) {rely : Recorded σ ε → Recorded σ ε → Prop}
    {P : Recorded σ ε → Prop} (hrely : Stable rely P) (hself : Stable (Unrecorded R) P) :
    Outline False rely (Unrecorded R) P (p.recorded note) fun _ => P := by
  have hrun : Outline False rely (Unrecorded R) (fun _ => True) (p.recorded note) fun _ _ => True :=
    ((hp.keeps.outline fun _ _ => True).recorded hp).rely_mono fun _ _ _ => trivial
  exact hrun.keeps hrely hself

/-! ### Rules for recorded programs -/

theorem Outline.bind_recorded {f : α → Prog σ β} {rely guarantee : Recorded σ ε → Recorded σ ε → Prop}
    {P : Recorded σ ε → Prop} {M : α → Recorded σ ε → Prop} {Q : β → Recorded σ ε → Prop}
    (h : Outline total rely guarantee P (p.recorded note) M)
    (hf : ∀ a, Outline total rely guarantee (M a) ((f a).recorded note) Q) :
    Outline total rely guarantee P ((p.bind f).recorded note) Q := by
  rw [recorded_bind]
  exact h.bind hf

end ExplorerIndexer.Async

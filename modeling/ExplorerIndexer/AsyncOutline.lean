import ExplorerIndexer.AsyncProgram

/-! Proof outlines for tasks that share a state. An outline assigns an assertion to every point of a program;
the assertions of a task survive the steps of the others (its rely) and its own steps keep to what the others
may rely on (its guarantee). An outline that is total moreover has only statements that succeed. -/

namespace ExplorerIndexer.Async

variable {σ α β γ : Type}

/-- An assertion that the steps of the other tasks do not break. -/
def Stable (rely : σ → σ → Prop) (P : σ → Prop) : Prop := ∀ s t, P s → rely s t → P t

theorem Stable.and {rely : σ → σ → Prop} {P Q : σ → Prop} (hP : Stable rely P) (hQ : Stable rely Q) :
    Stable rely fun s => P s ∧ Q s := fun s t h hrely => ⟨hP s t h.1 hrely, hQ s t h.2 hrely⟩

theorem Stable.const (rely : σ → σ → Prop) (p : Prop) : Stable rely fun _ => p := fun _ _ h _ => h

theorem Stable.mono {rely rely' : σ → σ → Prop} {P : σ → Prop} (hP : Stable rely P)
    (hsub : ∀ s t, rely' s t → rely s t) : Stable rely' P := fun s t h hrely => hP s t h (hsub s t hrely)

/-- The rely of a task that has a sibling. -/
def besides (rely guarantee : σ → σ → Prop) (s t : σ) : Prop := rely s t ∨ guarantee s t

/-- `Outline total rely guarantee P p Q`: from a state with `P`, the program `p` keeps to its guarantee and ends
with `Q`, if it does not fail. -/
inductive Outline {σ : Type} (total : Prop) : (σ → σ → Prop) → (σ → σ → Prop) → {α : Type} → (σ → Prop) →
    Prog σ α → (α → σ → Prop) → Prop
  | ret {rely guarantee : σ → σ → Prop} {α : Type} {P : σ → Prop} {value : α} {Q : α → σ → Prop}
      (hpost : ∀ s, P s → Q value s) : Outline total rely guarantee P (.ret value) Q
  | fail {rely guarantee : σ → σ → Prop} {α : Type} {P : σ → Prop} {Q : α → σ → Prop}
      (hfailing : ¬ total) : Outline total rely guarantee P .fail Q
  | panic {rely guarantee : σ → σ → Prop} {α : Type} {P : σ → Prop} {Q : α → σ → Prop}
      (hfailing : ¬ total) : Outline total rely guarantee P .panic Q
  | access {rely guarantee : σ → σ → Prop} {α β : Type} {P : σ → Prop} {M : β → σ → Prop}
      {act : σ → β × σ} {next : β → Prog σ α} {Q : α → σ → Prop}
      (hact : ∀ s, P s → guarantee s (act s).2 ∧ M (act s).1 (act s).2)
      (hstable : ∀ b, Stable rely (M b)) (hnext : ∀ b, Outline total rely guarantee (M b) (next b) Q) :
      Outline total rely guarantee P (.access act next) Q
  | query {rely guarantee : σ → σ → Prop} {α β : Type} {P : σ → Prop} {M : Option β → σ → Prop}
      {attempts : Option Nat} {stmt : Statement σ β} {handled : QueryError → Bool}
      {next : Option β → Prog σ α} {Q : α → σ → Prop}
      (hrun : ∀ s b t, P s → stmt s = .ok (b, t) → guarantee s t ∧ M (some b) t)
      (hhandled : ∀ s error, P s → stmt s = .error error → handled error = true → M none s)
      (htotal : total → attempts ≠ some 0 ∧ ∀ s, P s → ∃ result, stmt s = .ok result)
      (hstable : ∀ b, Stable rely (M b)) (hnext : ∀ b, Outline total rely guarantee (M b) (next b) Q) :
      Outline total rely guarantee P (.query attempts stmt handled next) Q
  | anyOrder {rely guarantee : σ → σ → Prop} {α β : Type} {P : σ → Prop} {items : List β}
      {next : List β → Prog σ α} {Q : α → σ → Prop}
      (hnext : ∀ items', items'.Perm items → Outline total rely guarantee P (next items') Q) :
      Outline total rely guarantee P (.anyOrder items next) Q
  | join {rely guarantee leftGuarantee rightGuarantee : σ → σ → Prop} {α β γ : Type}
      {P leftPre rightPre : σ → Prop} {left : Prog σ β} {right : Prog σ γ} {next : β → γ → Prog σ α}
      {leftPost : β → σ → Prop} {rightPost : γ → σ → Prop} {Q : α → σ → Prop}
      (hleft : Outline total (besides rely rightGuarantee) leftGuarantee leftPre left leftPost)
      (hright : Outline total (besides rely leftGuarantee) rightGuarantee rightPre right rightPost)
      (hleftGuarantee : ∀ s t, leftGuarantee s t → guarantee s t)
      (hrightGuarantee : ∀ s t, rightGuarantee s t → guarantee s t)
      (hpre : ∀ s, P s → leftPre s ∧ rightPre s)
      (hleftPre : Stable (besides rely rightGuarantee) leftPre)
      (hrightPre : Stable (besides rely leftGuarantee) rightPre)
      (hleftPost : ∀ b, Stable (besides rely rightGuarantee) (leftPost b))
      (hrightPost : ∀ c, Stable (besides rely leftGuarantee) (rightPost c))
      (hnext : ∀ b c, Outline total rely guarantee (fun s => leftPost b s ∧ rightPost c s) (next b c) Q) :
      Outline total rely guarantee P (.join left right next) Q
  | loop {rely guarantee : σ → σ → Prop} {α β γ : Type} {P : σ → Prop} {I : β → σ → Prop}
      {D : γ → σ → Prop} {body : β → Prog σ (β ⊕ γ)} {start : β} {next : γ → Prog σ α}
      {Q : α → σ → Prop} (hfailing : ¬ total) (hpre : ∀ s, P s → I start s)
      (hinvariant : ∀ b, Stable rely (I b)) (hdone : ∀ c, Stable rely (D c))
      (hbody : ∀ b, Outline total rely guarantee (I b) (body b) fun answer s => Sum.elim (I · s) (D · s) answer)
      (hnext : ∀ c, Outline total rely guarantee (D c) (next c) Q) :
      Outline total rely guarantee P (.loop body start next) Q

/-- `Amid others p s value t`: a run of `p` to its end, with steps of others before, between and after its own. -/
inductive Amid {σ α : Type} (others : σ → σ → Prop) : Prog σ α → σ → α → σ → Prop
  | ret {value : α} {s : σ} : Amid others (.ret value) s value s
  | own {p q : Prog σ α} {s t u : σ} {event : Event} {value : α} (hstep : Step p s event q t)
      (hrest : Amid others q t value u) : Amid others p s value u
  | other {p : Prog σ α} {s t u : σ} {value : α} (hother : others s t) (hrest : Amid others p t value u) :
      Amid others p s value u

theorem Finishes.amid {others : σ → σ → Prop} {p : Prog σ α} {s t : σ} {value : α} (h : Finishes p s value t) :
    Amid others p s value t := by
  obtain ⟨events, hsteps⟩ := h
  generalize hq : Prog.ret value = q at hsteps
  induction hsteps with
  | refl => exact hq ▸ .ret
  | head hstep _ ih => exact .own hstep (ih hq)

section Rules

variable {total : Prop} {rely guarantee : σ → σ → Prop} {P P' : σ → Prop} {p : Prog σ α}
  {Q Q' : α → σ → Prop}

theorem Outline.pre (h : Outline total rely guarantee P p Q) (hpre : ∀ s, P' s → P s) :
    Outline total rely guarantee P' p Q := by
  induction h generalizing P' with
  | ret hpost => exact .ret fun s hs => hpost s (hpre s hs)
  | fail hfailing => exact .fail hfailing
  | panic hfailing => exact .panic hfailing
  | access hact hstable hnext => exact .access (fun s hs => hact s (hpre s hs)) hstable hnext
  | query hrun hhandled htotal hstable hnext =>
      exact .query (fun s b t hs => hrun s b t (hpre s hs)) (fun s error hs => hhandled s error (hpre s hs))
        (fun ht => ⟨(htotal ht).1, fun s hs => (htotal ht).2 s (hpre s hs)⟩) hstable hnext
  | anyOrder _ ih => exact .anyOrder fun items' hperm => ih items' hperm hpre
  | join hleft hright hl hr hp h1 h2 h3 h4 hnext =>
      exact .join hleft hright hl hr (fun s hs => hp s (hpre s hs)) h1 h2 h3 h4 hnext
  | loop hfailing hp h1 h2 hbody hnext =>
      exact .loop hfailing (fun s hs => hp s (hpre s hs)) h1 h2 hbody hnext

theorem Outline.bind {f : α → Prog σ β} {M : α → σ → Prop} {R : β → σ → Prop}
    (h : Outline total rely guarantee P p M) (hf : ∀ a, Outline total rely guarantee (M a) (f a) R) :
    Outline total rely guarantee P (p.bind f) R := by
  induction h with
  | ret hpost => exact (hf _).pre hpost
  | fail hfailing => exact .fail hfailing
  | panic hfailing => exact .panic hfailing
  | access hact hstable _ ih => exact .access hact hstable fun b => ih b hf
  | query hrun hhandled htotal hstable _ ih => exact .query hrun hhandled htotal hstable fun b => ih b hf
  | anyOrder _ ih => exact .anyOrder fun items' hperm => ih items' hperm hf
  | join hleft hright hl hr hp h1 h2 h3 h4 _ _ _ ih =>
      exact .join hleft hright hl hr hp h1 h2 h3 h4 fun b c => ih b c hf
  | loop hfailing hp h1 h2 hbody _ _ ih => exact .loop hfailing hp h1 h2 hbody fun c => ih c hf

theorem Outline.post (h : Outline total rely guarantee P p Q) (hpost : ∀ a s, Q a s → Q' a s) :
    Outline total rely guarantee P p Q' := by
  rw [← p.bind_ret_right]
  exact h.bind fun a => .ret fun s hs => hpost a s hs

/-- A step of a task leads to an outline of what is left of it. -/
theorem Outline.step {q : Prog σ α} {s t : σ} {event : Event} (h : Outline total rely guarantee P p Q)
    (hs : P s) (hstable : Stable rely P) (hstep : Step p s event q t) (hcalm : total → event ≠ .lost) :
    ∃ P', Outline total rely guarantee P' q Q ∧ Stable rely P' ∧ P' t ∧ (t = s ∨ guarantee s t) := by
  induction h generalizing s t event with
  | ret => exact hstep.ret_elim.elim
  | fail => exact hstep.fail_elim.elim
  | panic => cases hstep
  | access hact hmid hnext =>
      cases hstep with
      | access => exact ⟨_, hnext _, hmid _, (hact s hs).2, .inr (hact s hs).1⟩
  | query hrun hhandled htotal hmid hnext =>
      cases hstep with
      | queryDone hattempts hok =>
          exact ⟨_, hnext _, hmid _, (hrun _ _ _ hs hok).2, .inr (hrun _ _ _ hs hok).1⟩
      | queryHandled hattempts herror hh => exact ⟨_, hnext _, hmid _, hhandled _ _ hs herror hh, .inl rfl⟩
      | queryRefused hattempts herror hh =>
          refine ⟨_, .query hrun hhandled (fun ht => ?_) hmid hnext, hstable, hs, .inl rfl⟩
          obtain ⟨result, hok⟩ := (htotal ht).2 _ hs
          rw [herror] at hok
          cases hok
      | queryLost hattempts =>
          exact ⟨_, .query hrun hhandled (fun ht => (hcalm ht rfl).elim) hmid hnext, hstable, hs, .inl rfl⟩
      | queryGaveUp => exact ⟨_, .fail fun ht => (htotal ht).1 rfl, hstable, hs, .inl rfl⟩
  | anyOrder hnext ih =>
      cases hstep with
      | anyOrder hperm => exact ⟨_, hnext _ hperm, hstable, hs, .inl rfl⟩
  | join hleft hright hl hr hp h1 h2 h3 h4 hnext ihleft ihright ih =>
      obtain ⟨hsl, hsr⟩ := hp s hs
      cases hstep with
      | joinLeft hstep =>
          obtain ⟨P', hout, hst, ht, hg⟩ := ihleft hsl h1 hstep hcalm
          refine ⟨_, .join hout hright hl hr (fun _ h => h) hst h2 h3 h4 hnext, ?_, ⟨ht, ?_⟩, ?_⟩
          · exact (hst.mono fun _ _ => .inl).and (h2.mono fun _ _ => .inl)
          · rcases hg with rfl | hg
            · exact hsr
            · exact h2 _ _ hsr (.inr hg)
          · exact hg.imp_right (hl _ _)
      | joinRight hstep =>
          obtain ⟨P', hout, hst, ht, hg⟩ := ihright hsr h2 hstep hcalm
          refine ⟨_, .join hleft hout hl hr (fun _ h => h) h1 hst h3 h4 hnext, ?_, ⟨?_, ht⟩, ?_⟩
          · exact (h1.mono fun _ _ => .inl).and (hst.mono fun _ _ => .inl)
          · rcases hg with rfl | hg
            · exact hsl
            · exact h1 _ _ hsl (.inr hg)
          · exact hg.imp_right (hr _ _)
      | joinRet =>
          cases hleft with
          | ret hql =>
              cases hright with
              | ret hqr =>
                  exact ⟨_, hnext _ _, (h3 _ |>.mono fun _ _ => .inl).and (h4 _ |>.mono fun _ _ => .inl),
                    ⟨hql s hsl, hqr s hsr⟩, .inl rfl⟩
      | joinFailLeft =>
          cases hleft with
          | fail hfailing => exact ⟨_, .fail hfailing, hstable, hs, .inl rfl⟩
      | joinFailRight =>
          cases hright with
          | fail hfailing => exact ⟨_, .fail hfailing, hstable, hs, .inl rfl⟩
  | loop hfailing hp h1 h2 hbody hnext ihbody ih =>
      cases hstep with
      | loop =>
          refine ⟨_, (hbody _).bind fun answer => ?_, h1 _, hp s hs, .inl rfl⟩
          cases answer with
          | inl again => exact .loop hfailing (fun _ h => h) h1 h2 hbody hnext
          | inr c => exact hnext c

/-! ### Weakening -/

theorem besides_mono {rely rely' guarantee guarantee' : σ → σ → Prop} (hrely : ∀ s t, rely s t → rely' s t)
    (hguarantee : ∀ s t, guarantee s t → guarantee' s t) (s t : σ) (h : besides rely guarantee s t) :
    besides rely' guarantee' s t := h.imp (hrely s t) (hguarantee s t)

/-- A task that endures more endures less. -/
theorem Outline.rely_mono {rely' : σ → σ → Prop} (h : Outline total rely guarantee P p Q)
    (hrely : ∀ s t, rely' s t → rely s t) : Outline total rely' guarantee P p Q := by
  induction h generalizing rely' with
  | ret hpost => exact .ret hpost
  | fail hfailing => exact .fail hfailing
  | panic hfailing => exact .panic hfailing
  | access hact hstable _ ih => exact .access hact (fun b => (hstable b).mono hrely) fun b => ih b hrely
  | query hrun hhandled htotal hstable _ ih =>
      exact .query hrun hhandled htotal (fun b => (hstable b).mono hrely) fun b => ih b hrely
  | anyOrder _ ih => exact .anyOrder fun items' hperm => ih items' hperm hrely
  | join hleft hright hl hr hp h1 h2 h3 h4 _ ihleft ihright ih =>
      have hsub : ∀ extra s t, besides rely' extra s t → besides _ extra s t :=
        fun extra => besides_mono hrely fun _ _ h => h
      exact .join (ihleft (hsub _)) (ihright (hsub _)) hl hr hp (h1.mono (hsub _)) (h2.mono (hsub _))
        (fun b => (h3 b).mono (hsub _)) (fun c => (h4 c).mono (hsub _)) fun b c => ih b c hrely
  | loop hfailing hp h1 h2 _ _ ihbody ih =>
      exact .loop hfailing hp (fun b => (h1 b).mono hrely) (fun c => (h2 c).mono hrely)
        (fun b => ihbody b hrely) fun c => ih c hrely

/-- A task that promises more promises less. -/
theorem Outline.guarantee_mono {guarantee' : σ → σ → Prop} (h : Outline total rely guarantee P p Q)
    (hguarantee : ∀ s t, guarantee s t → guarantee' s t) : Outline total rely guarantee' P p Q := by
  induction h with
  | ret hpost => exact .ret hpost
  | fail hfailing => exact .fail hfailing
  | panic hfailing => exact .panic hfailing
  | access hact hstable _ ih =>
      exact .access (fun s hs => ⟨hguarantee _ _ (hact s hs).1, (hact s hs).2⟩) hstable fun b => ih b hguarantee
  | query hrun hhandled htotal hstable _ ih =>
      exact .query (fun s b t hs hok => ⟨hguarantee _ _ (hrun s b t hs hok).1, (hrun s b t hs hok).2⟩) hhandled
        htotal hstable fun b => ih b hguarantee
  | anyOrder _ ih => exact .anyOrder fun items' hperm => ih items' hperm hguarantee
  | join hleft hright hl hr hp h1 h2 h3 h4 _ _ _ ih =>
      exact .join hleft hright (fun s t h => hguarantee s t (hl s t h)) (fun s t h => hguarantee s t (hr s t h)) hp
        h1 h2 h3 h4 fun b c => ih b c hguarantee
  | loop hfailing hp h1 h2 _ _ ihbody ih =>
      exact .loop hfailing hp h1 h2 (fun b => ihbody b hguarantee) fun c => ih c hguarantee

theorem Outline.total_mono {total' : Prop} (h : Outline total rely guarantee P p Q) (htotal : total' → total) :
    Outline total' rely guarantee P p Q := by
  induction h with
  | ret hpost => exact .ret hpost
  | fail hfailing => exact .fail fun ht => hfailing (htotal ht)
  | panic hfailing => exact .panic fun ht => hfailing (htotal ht)
  | access hact hstable _ ih => exact .access hact hstable ih
  | query hrun hhandled ht hstable _ ih => exact .query hrun hhandled (fun h => ht (htotal h)) hstable ih
  | anyOrder _ ih => exact .anyOrder ih
  | join _ _ hl hr hp h1 h2 h3 h4 _ ihleft ihright ih => exact .join ihleft ihright hl hr hp h1 h2 h3 h4 ih
  | loop hfailing hp h1 h2 _ _ ihbody ih =>
      exact .loop (fun h => hfailing (htotal h)) hp h1 h2 ihbody ih

/-- What nobody breaks may be used to narrow down what the others do, and what the task does. -/
theorem Outline.within {rely' guarantee' : σ → σ → Prop} {R : σ → Prop} (h : Outline total rely' guarantee' P p Q)
    (hR : Stable rely R) (hguarantee : Stable guarantee' R) (hrely : ∀ s t, R s → rely s t → rely' s t)
    (hpromise : ∀ s t, R s → guarantee' s t → guarantee s t) :
    Outline total rely guarantee (fun s => P s ∧ R s) p fun a s => Q a s ∧ R s := by
  have hmid : ∀ {rely rely' : σ → σ → Prop} {M : σ → Prop}, Stable rely' M → Stable rely R →
      (∀ s t, R s → rely s t → rely' s t) → Stable rely fun s => M s ∧ R s :=
    fun hM hR hrely s t hs hst => ⟨hM s t hs.1 (hrely s t hs.2 hst), hR s t hs.2 hst⟩
  induction h generalizing rely guarantee with
  | ret hpost => exact .ret fun s hs => ⟨hpost s hs.1, hs.2⟩
  | fail hfailing => exact .fail hfailing
  | panic hfailing => exact .panic hfailing
  | access hact hstable _ ih =>
      refine .access (fun s hs => ?_) (fun b => hmid (hstable b) hR hrely) fun b => ih b hR hguarantee hrely hpromise
      obtain ⟨hg, hM⟩ := hact s hs.1
      exact ⟨hpromise _ _ hs.2 hg, hM, hguarantee _ _ hs.2 hg⟩
  | query hrun hhandled ht hstable _ ih =>
      refine .query (fun s b t hs hok => ?_) (fun s error hs herror hh => ⟨hhandled s error hs.1 herror hh, hs.2⟩)
        (fun h => ⟨(ht h).1, fun s hs => (ht h).2 s hs.1⟩) (fun b => hmid (hstable b) hR hrely)
        fun b => ih b hR hguarantee hrely hpromise
      obtain ⟨hg, hM⟩ := hrun s b t hs.1 hok
      exact ⟨hpromise _ _ hs.2 hg, hM, hguarantee _ _ hs.2 hg⟩
  | anyOrder _ ih => exact .anyOrder fun items' hperm => ih items' hperm hR hguarantee hrely hpromise
  | @join _ _ leftGuarantee rightGuarantee _ _ _ _ _ _ _ _ _ _ _ _ hleft hright hl hr hp h1 h2 h3 h4 _ ihleft ihright
      ih =>
      have hguaranteeLeft : Stable leftGuarantee R := hguarantee.mono hl
      have hguaranteeRight : Stable rightGuarantee R := hguarantee.mono hr
      have hbesideRight : Stable (besides rely fun s t => R s ∧ rightGuarantee s t) R :=
        fun s t h hst => hst.elim (hR s t h) fun hst => hguaranteeRight s t h hst.2
      have hbesideLeft : Stable (besides rely fun s t => R s ∧ leftGuarantee s t) R :=
        fun s t h hst => hst.elim (hR s t h) fun hst => hguaranteeLeft s t h hst.2
      have hsub : ∀ extra s t, R s → besides rely (fun s t => R s ∧ extra s t) s t → besides _ extra s t :=
        fun _ s t h hst => hst.imp (hrely s t h) And.right
      refine .join (ihleft hbesideRight hguaranteeLeft (hsub _) fun _ _ => And.intro)
        (ihright hbesideLeft hguaranteeRight (hsub _) fun _ _ => And.intro)
        (fun s t hst => hpromise s t hst.1 (hl s t hst.2)) (fun s t hst => hpromise s t hst.1 (hr s t hst.2))
        (fun s hs => ⟨⟨(hp s hs.1).1, hs.2⟩, (hp s hs.1).2, hs.2⟩) (hmid h1 hbesideRight (hsub _))
        (hmid h2 hbesideLeft (hsub _)) (fun b => hmid (h3 b) hbesideRight (hsub _))
        (fun c => hmid (h4 c) hbesideLeft (hsub _)) fun b c => ?_
      exact (ih b c hR hguarantee hrely hpromise).pre fun s hs => ⟨⟨hs.1.1, hs.2.1⟩, hs.1.2⟩
  | loop hfailing hp h1 h2 _ _ ihbody ih =>
      refine .loop hfailing (I := fun b s => _ ∧ R s) (D := fun c s => _ ∧ R s) (fun s hs => ⟨hp s hs.1, hs.2⟩)
        (fun b => hmid (h1 b) hR hrely) (fun c => hmid (h2 c) hR hrely) (fun b => ?_)
        fun c => ih c hR hguarantee hrely hpromise
      refine (ihbody b hR hguarantee hrely hpromise).post fun answer s hs => ?_
      cases answer with
      | inl again => exact hs
      | inr c => exact hs

/-- Two outlines of a task are one. -/
theorem Outline.and {rely' guarantee' : σ → σ → Prop} (h : Outline total rely guarantee P p Q)
    (h' : Outline total rely' guarantee' P' p Q') :
    Outline total (fun s t => rely s t ∧ rely' s t) (fun s t => guarantee s t ∧ guarantee' s t) (fun s => P s ∧ P' s) p
      fun a s => Q a s ∧ Q' a s := by
  have hmid : ∀ {rely rely' : σ → σ → Prop} {M M' : σ → Prop}, Stable rely M → Stable rely' M' →
      Stable (fun s t => rely s t ∧ rely' s t) fun s => M s ∧ M' s :=
    fun hM hM' s t hs hst => ⟨hM s t hs.1 hst.1, hM' s t hs.2 hst.2⟩
  induction h generalizing rely' guarantee' P' with
  | ret hpost =>
      cases h' with
      | ret hpost' => exact .ret fun s hs => ⟨hpost s hs.1, hpost' s hs.2⟩
  | fail hfailing => exact .fail hfailing
  | panic hfailing => exact .panic hfailing
  | access hact hstable _ ih =>
      cases h' with
      | access hact' hstable' hnext' =>
          refine .access (fun s hs => ?_) (fun b => hmid (hstable b) (hstable' b)) fun b => ih b (hnext' b)
          exact ⟨⟨(hact s hs.1).1, (hact' s hs.2).1⟩, (hact s hs.1).2, (hact' s hs.2).2⟩
  | query hrun hhandled ht hstable _ ih =>
      cases h' with
      | query hrun' hhandled' _ hstable' hnext' =>
          refine .query (fun s b t hs hok => ?_) (fun s error hs herror hh => ?_)
            (fun h => ⟨(ht h).1, fun s hs => (ht h).2 s hs.1⟩) (fun b => hmid (hstable b) (hstable' b))
            fun b => ih b (hnext' b)
          · obtain ⟨hg, hM⟩ := hrun s b t hs.1 hok
            obtain ⟨hg', hM'⟩ := hrun' s b t hs.2 hok
            exact ⟨⟨hg, hg'⟩, hM, hM'⟩
          · exact ⟨hhandled s error hs.1 herror hh, hhandled' s error hs.2 herror hh⟩
  | anyOrder _ ih =>
      cases h' with
      | anyOrder hnext' => exact .anyOrder fun items' hperm => ih items' hperm (hnext' items' hperm)
  | join _ _ hl hr hp h1 h2 h3 h4 _ ihleft ihright ih =>
      cases h' with
      | join hleft' hright' hl' hr' hp' h1' h2' h3' h4' hnext' =>
          -- what a side promises in both outlines, the other side endures in both
          have hsub : ∀ {rely rely' extra extra' : σ → σ → Prop} s t,
              besides (fun s t => rely s t ∧ rely' s t) (fun s t => extra s t ∧ extra' s t) s t →
                besides rely extra s t ∧ besides rely' extra' s t := by
            rintro rely rely' extra extra' s t (hst | hst)
            · exact ⟨.inl hst.1, .inl hst.2⟩
            · exact ⟨.inr hst.1, .inr hst.2⟩
          refine .join ((ihleft hleft').rely_mono hsub) ((ihright hright').rely_mono hsub)
            (fun s t hst => ⟨hl s t hst.1, hl' s t hst.2⟩) (fun s t hst => ⟨hr s t hst.1, hr' s t hst.2⟩)
            (fun s hs => ⟨⟨(hp s hs.1).1, (hp' s hs.2).1⟩, (hp s hs.1).2, (hp' s hs.2).2⟩) ((hmid h1 h1').mono hsub)
            ((hmid h2 h2').mono hsub) (fun b => (hmid (h3 b) (h3' b)).mono hsub)
            (fun c => (hmid (h4 c) (h4' c)).mono hsub) fun b c => ?_
          exact (ih b c (hnext' b c)).pre fun s hs => ⟨⟨hs.1.1, hs.2.1⟩, hs.1.2, hs.2.2⟩
  | loop hfailing hp h1 h2 _ _ ihbody ih =>
      cases h' with
      | loop _ hp' h1' h2' hbody' hnext' =>
          refine .loop hfailing (fun s hs => ⟨hp s hs.1, hp' s hs.2⟩) (fun b => hmid (h1 b) (h1' b))
            (fun c => hmid (h2 c) (h2' c)) (fun b => ?_) fun c => ih c (hnext' c)
          refine (ihbody b (hbody' b)).post fun answer s hs => ?_
          cases answer with
          | inl again => exact hs
          | inr c => exact hs

/-- What neither the others nor the task itself break is kept. -/
theorem Outline.frame {R : σ → Prop} (h : Outline total rely guarantee P p Q) (hrely : Stable rely R)
    (hguarantee : Stable guarantee R) :
    Outline total rely guarantee (fun s => P s ∧ R s) p fun a s => Q a s ∧ R s :=
  h.within hrely hguarantee (fun _ _ _ hst => hst) fun _ _ _ hst => hst

/-- A task that may start anywhere keeps what nobody breaks. -/
theorem Outline.keeps {R : σ → Prop} (h : Outline total rely guarantee (fun _ => True) p Q) (hrely : Stable rely R)
    (hguarantee : Stable guarantee R) : Outline total rely guarantee R p fun _ => R :=
  ((h.frame hrely hguarantee).pre fun _ hs => ⟨trivial, hs⟩).post fun _ _ hs => hs.2

theorem Outline.of_false (p : Prog σ α) (Q : α → σ → Prop) :
    Outline False rely guarantee (fun _ => False) p Q := by
  have hstable : ∀ rely : σ → σ → Prop, Stable rely fun _ => False := fun rely => .const rely False
  induction p generalizing rely guarantee with
  | ret value => exact .ret fun _ h => h.elim
  | fail => exact .fail id
  | panic => exact .panic id
  | access act next ih => exact .access (fun _ h => h.elim) (fun _ => hstable _) fun b => ih b Q
  | query attempts stmt handled next ih =>
      exact .query (fun _ _ _ h => h.elim) (fun _ _ h => h.elim) False.elim (fun _ => hstable _) fun b => ih b Q
  | anyOrder items next ih => exact .anyOrder fun items' _ => ih items' Q
  | join left right next ihleft ihright ih =>
      exact .join (ihleft fun _ _ => False) (ihright fun _ _ => False) (fun _ _ h => h) (fun _ _ h => h)
        (fun _ h => h.elim) (hstable _) (hstable _) (fun _ => hstable _) (fun _ => hstable _)
        fun b c => (ih b c Q).pre fun _ h => h.1
  | loop body start next ihbody ih =>
      exact .loop (I := fun _ _ => False) (D := fun _ _ => False) id (fun _ h => h) (fun _ => hstable _)
        (fun _ => hstable _) (fun b => (ihbody b _)) fun c => ih c Q

/-- What a task knows of a value, it may assume from there on. -/
theorem Outline.assume {known : Prop} (h : known → Outline False rely guarantee P p Q) :
    Outline False rely guarantee (fun s => known ∧ P s) p Q := by
  by_cases hknown : known
  · exact (h hknown).pre fun _ hs => hs.2
  · exact (Outline.of_false p Q).pre fun _ hs => hknown hs.1

/-! ### Tasks that endure each other -/

/-- A precondition that the task itself respects still holds in the end. -/
theorem Outline.keep (hself : ∀ s t, guarantee s t → rely s t) (hP : Stable rely P)
    (h : Outline total rely guarantee P p Q) : Outline total rely guarantee P p fun a s => Q a s ∧ P s :=
  (h.frame hP (hP.mono hself)).pre fun _ hs => ⟨hs, hs⟩

/-- Two tasks with guarantees of their own, which the other one endures. -/
theorem Outline.both_enduring {left right : Prog σ Unit} {relyLeft relyRight guaranteeLeft guaranteeRight : σ → σ → Prop}
    {preLeft preRight postLeft postRight : σ → Prop}
    (hleft : Outline total relyLeft guaranteeLeft preLeft left fun _ => postLeft)
    (hright : Outline total relyRight guaranteeRight preRight right fun _ => postRight)
    (hrelyLeft : ∀ s t, besides rely guaranteeRight s t → relyLeft s t)
    (hrelyRight : ∀ s t, besides rely guaranteeLeft s t → relyRight s t)
    (hguaranteeLeft : ∀ s t, guaranteeLeft s t → guarantee s t)
    (hguaranteeRight : ∀ s t, guaranteeRight s t → guarantee s t)
    (hpreLeft : Stable relyLeft preLeft) (hpreRight : Stable relyRight preRight) (hpostLeft : Stable relyLeft postLeft)
    (hpostRight : Stable relyRight postRight) :
    Outline total rely guarantee (fun s => preLeft s ∧ preRight s) (Prog.both left right)
      fun _ s => postLeft s ∧ postRight s :=
  .join (hleft.rely_mono hrelyLeft) (hright.rely_mono hrelyRight) hguaranteeLeft hguaranteeRight (fun _ hs => hs)
    (hpreLeft.mono hrelyLeft) (hpreRight.mono hrelyRight) (fun _ => hpostLeft.mono hrelyLeft)
    (fun _ => hpostRight.mono hrelyRight) fun _ _ => .ret fun _ hs => hs

theorem Outline.both {left right : Prog σ Unit} {leftPost rightPost : σ → Prop}
    (hself : ∀ s t, guarantee s t → rely s t) (hP : Stable rely P) (hl : Stable rely leftPost)
    (hr : Stable rely rightPost) (hleft : Outline total rely guarantee P left fun _ => leftPost)
    (hright : Outline total rely guarantee P right fun _ => rightPost) :
    Outline total rely guarantee P (Prog.both left right) fun _ s => leftPost s ∧ rightPost s := by
  have hsub : ∀ s t, besides rely guarantee s t → rely s t := fun s t h => h.elim id (hself s t)
  exact (Outline.both_enduring hleft hright hsub hsub (fun _ _ h => h) (fun _ _ h => h) hP hP hl hr).pre
    fun s hs => ⟨hs, hs⟩

theorem Outline.joinAll_map {items : List β} {task : β → Prog σ Unit} {post : β → σ → Prop}
    (hself : ∀ s t, guarantee s t → rely s t) (hP : Stable rely P) (hpost : ∀ item, Stable rely (post item))
    (htask : ∀ item ∈ items, Outline total rely guarantee P (task item) fun _ => post item) :
    Outline total rely guarantee P (Prog.joinAll (items.map task)) fun _ s => ∀ item ∈ items, post item s := by
  induction items with
  | nil => exact .ret fun s _ item hmem => (List.not_mem_nil hmem).elim
  | cons item items ih =>
      have hrest := ih fun item' hmem => htask item' (List.mem_cons_of_mem _ hmem)
      have hstable : Stable rely fun s => ∀ item ∈ items, post item s :=
        fun s t hs hrely item' hmem => hpost item' s t (hs item' hmem) hrely
      refine (Outline.both hself hP (hpost item) hstable (htask item List.mem_cons_self) hrest).post ?_
      intro _ s hs item' hmem
      rcases List.mem_cons.mp hmem with rfl | hmem
      · exact hs.1
      · exact hs.2 item' hmem

/-- Tasks that own parts of the state: what one of them may do, the others endure. -/
theorem Outline.joinAll_owned {items : List β} {task : β → Prog σ Unit} {relies guarantees : β → σ → σ → Prop}
    {pre post : β → σ → Prop} (hrelies : ∀ item ∈ items, ∀ s t, rely s t → relies item s t)
    (hguarantees : ∀ item ∈ items, ∀ s t, guarantees item s t → guarantee s t)
    (hothers : items.Pairwise fun a b =>
      (∀ s t, guarantees a s t → relies b s t) ∧ ∀ s t, guarantees b s t → relies a s t)
    (hpre : ∀ item, Stable (relies item) (pre item)) (hpost : ∀ item, Stable (relies item) (post item))
    (htask : ∀ item ∈ items,
      Outline total (relies item) (guarantees item) (pre item) (task item) fun _ => post item) :
    Outline total rely guarantee (fun s => ∀ item ∈ items, pre item s) (Prog.joinAll (items.map task))
      fun _ s => ∀ item ∈ items, post item s := by
  induction items generalizing rely guarantee with
  | nil => exact .ret fun _ _ item hmem => (List.not_mem_nil hmem).elim
  | cons item items ih =>
      obtain ⟨hfirst, hrest⟩ := List.pairwise_cons.mp hothers
      have hleft : ∀ s t, besides rely (fun s t => ∃ other ∈ items, guarantees other s t) s t → relies item s t := by
        rintro s t (hrely | ⟨other, hother, hstep⟩)
        · exact hrelies item List.mem_cons_self s t hrely
        · exact (hfirst other hother).2 s t hstep
      have hright : ∀ other ∈ items, ∀ s t, besides rely (guarantees item) s t → relies other s t := by
        rintro other hother s t (hrely | hstep)
        · exact hrelies other (List.mem_cons_of_mem _ hother) s t hrely
        · exact (hfirst other hother).1 s t hstep
      have hstable : ∀ {assertion : β → σ → Prop}, (∀ item, Stable (relies item) (assertion item)) →
          Stable (besides rely (guarantees item)) fun s => ∀ other ∈ items, assertion other s :=
        fun h s t hs hstep other hother => h other s t (hs other hother) (hright other hother s t hstep)
      refine .join ((htask item List.mem_cons_self).rely_mono hleft)
        (ih hright (fun other hother s t hstep => ⟨other, hother, hstep⟩) hrest
          fun other hother => htask other (List.mem_cons_of_mem _ hother))
        (hguarantees item List.mem_cons_self) ?_ (fun s hs => List.forall_mem_cons.mp hs) ((hpre item).mono hleft)
        (hstable hpre) (fun _ => (hpost item).mono hleft) (fun _ => hstable hpost)
        fun _ _ => .ret fun s hs => List.forall_mem_cons.mpr hs
      rintro s t ⟨other, hother, hstep⟩
      exact hguarantees other (List.mem_cons_of_mem _ hother) s t hstep

/-- Tasks that only have to keep to their guarantee. -/
theorem Outline.joinAll {tasks : List (Prog σ Unit)} (hself : ∀ s t, guarantee s t → rely s t) (hP : Stable rely P)
    (htask : ∀ task ∈ tasks, Outline total rely guarantee P task fun _ => P) :
    Outline total rely guarantee P (Prog.joinAll tasks) fun _ => P := by
  induction tasks with
  | nil => exact .ret fun s hs => hs
  | cons task tasks ih =>
      have hrest := ih fun task' hmem => htask task' (List.mem_cons_of_mem _ hmem)
      exact (Outline.both hself hP hP hP (htask task List.mem_cons_self) hrest).post fun _ _ hs => hs.1

theorem Outline.forEach {items : List β} {body : β → Prog σ Unit}
    (hbody : ∀ item ∈ items, Outline total rely guarantee P (body item) fun _ => P) :
    Outline total rely guarantee P (Prog.forEach items body) fun _ => P := by
  induction items with
  | nil => exact .ret fun s hs => hs
  | cons item items ih =>
      have hrest := ih fun item' hmem => hbody item' (List.mem_cons_of_mem _ hmem)
      exact (hbody item List.mem_cons_self).bind fun _ => hrest

/-- One item after the other, each with its own result. -/
theorem Outline.forEach_each {items : List β} {body : β → Prog σ Unit} {post : β → σ → Prop}
    (hself : ∀ s t, guarantee s t → rely s t) (hP : Stable rely P) (hpost : ∀ item, Stable rely (post item))
    (hbody : ∀ item ∈ items, Outline total rely guarantee P (body item) fun _ => post item) :
    Outline total rely guarantee P (Prog.forEach items body) fun _ s => ∀ item ∈ items, post item s := by
  induction items with
  | nil => exact .ret fun _ _ item hmem => (List.not_mem_nil hmem).elim
  | cons item items ih =>
      have hrest := ih fun item' hmem => hbody item' (List.mem_cons_of_mem _ hmem)
      refine ((hbody item List.mem_cons_self).keep hself hP).bind fun _ => ?_
      refine ((hrest.frame (hpost item) ((hpost item).mono hself)).pre fun _ hs => ⟨hs.2, hs.1⟩).post ?_
      intro _ s hs item' hmem
      rcases List.mem_cons.mp hmem with rfl | hmem
      · exact hs.2
      · exact hs.1 item' hmem

/-! ### Runs -/

theorem Outline.steps {q : Prog σ α} {s t : σ} {events : List Event} (h : Outline total rely guarantee P p Q)
    (hs : P s) (hstable : Stable rely P) (hsteps : Steps p s events q t) (hcalm : total → Event.lost ∉ events) :
    ∃ P', Outline total rely guarantee P' q Q ∧ Stable rely P' ∧ P' t := by
  induction hsteps generalizing P with
  | refl => exact ⟨P, h, hstable, hs⟩
  | head hstep _ ih =>
      have hevent : total → _ ≠ Event.lost := fun ht heq => hcalm ht (heq ▸ List.mem_cons_self)
      obtain ⟨P', hout, hst, ht, _⟩ := h.step hs hstable hstep hevent
      exact ih hout ht hst fun ht hmem => hcalm ht (List.mem_cons_of_mem _ hmem)

/-- What holds when a task is ready. -/
theorem Outline.finishes {s t : σ} {value : α} (h : Outline total rely guarantee P p Q) (hs : P s)
    (hstable : Stable rely P) (hfin : Finishes p s value t) : Q value t := by
  obtain ⟨events, hsteps⟩ := hfin
  obtain ⟨P', hout, _, ht⟩ := (h.total_mono False.elim).steps hs hstable hsteps False.elim
  cases hout with
  | ret hpost => exact hpost t ht

/-- What holds when a task is ready, if the others kept to its rely. -/
theorem Outline.amid {s t : σ} {value : α} (h : Outline total rely guarantee P p Q) (hs : P s)
    (hstable : Stable rely P) (hrun : Amid rely p s value t) : Q value t := by
  replace h := h.total_mono False.elim
  induction hrun generalizing P with
  | ret =>
      cases h with
      | ret hpost => exact hpost _ hs
  | own hstep _ ih =>
      obtain ⟨P', hout, hst, ht, _⟩ := h.step hs hstable hstep False.elim
      exact ih ht hst hout
  | other hother _ ih => exact ih (hstable _ _ hs hother) hstable h

/-- The program is at some point of an outline that ends with `Q`. -/
def Midway (rely : σ → σ → Prop) (Q : α → σ → Prop) (p : Prog σ α) (s : σ) : Prop :=
  ∃ P, Outline False rely rely P p Q ∧ Stable rely P ∧ P s

theorem Midway.others {s t : σ} (h : Midway rely Q p s) (hrely : t = s ∨ rely s t) : Midway rely Q p t := by
  obtain ⟨P, hout, hst, hs⟩ := h
  refine ⟨P, hout, hst, ?_⟩
  rcases hrely with rfl | hrely
  · exact hs
  · exact hst s t hs hrely

theorem Midway.step {q : Prog σ α} {s t : σ} {event : Event} (h : Midway rely Q p s) (hstep : Step p s event q t) :
    (t = s ∨ rely s t) ∧ Midway rely Q q t := by
  obtain ⟨P, hout, hst, hs⟩ := h
  obtain ⟨P', hout', hst', ht, hrely⟩ := hout.step hs hst hstep False.elim
  exact ⟨hrely, P', hout', hst', ht⟩

/-- One task takes a step, the others stay where they are. -/
theorem forall_mem_replace {τ : Type _} {before after : List τ} {task task' : τ} {F G : τ → Prop}
    (h : ∀ other ∈ before ++ task :: after, F other) (hothers : ∀ other, F other → G other) (htask : G task') :
    ∀ other ∈ before ++ task' :: after, G other := by
  rw [List.forall_mem_append, List.forall_mem_cons] at h ⊢
  exact ⟨fun other hmem => hothers other (h.1 other hmem), htask, fun other hmem => hothers other (h.2.2 other hmem)⟩

/-- A total outline leads to the end, past every assertion that its guarantee respects. -/
theorem Outline.completes {s : σ} (h : Outline total rely guarantee P p Q) (htotal : total) (hs : P s) :
    ∃ value t, Finishes p s value t ∧ Q value t ∧ ∀ R : σ → Prop, Stable guarantee R → R s → R t := by
  induction h generalizing s with
  | ret hpost => exact ⟨_, s, .ret _ s, hpost s hs, fun _ _ h => h⟩
  | fail hfailing => exact (hfailing htotal).elim
  | panic hfailing => exact (hfailing htotal).elim
  | access hact _ _ ih =>
      obtain ⟨hg, hmid⟩ := hact s hs
      obtain ⟨value, t, hfin, hq, hframe⟩ := ih _ hmid
      exact ⟨value, t, .of_step .access hfin, hq, fun R hR h => hframe R hR (hR _ _ h hg)⟩
  | query hrun _ ht _ _ ih =>
      obtain ⟨⟨b, t⟩, hok⟩ := (ht htotal).2 s hs
      obtain ⟨hg, hmid⟩ := hrun s b t hs hok
      obtain ⟨value, u, hfin, hq, hframe⟩ := ih _ hmid
      exact ⟨value, u, .of_step (.queryDone (ht htotal).1 hok) hfin, hq, fun R hR h => hframe R hR (hR _ _ h hg)⟩
  | anyOrder _ ih =>
      obtain ⟨value, t, hfin, hq, hframe⟩ := ih _ (.refl _) hs
      exact ⟨value, t, .of_step (.anyOrder (.refl _)) hfin, hq, hframe⟩
  | join hleft hright hl hr hp h1 h2 h3 h4 _ ihleft ihright ih =>
      obtain ⟨hsl, hsr⟩ := hp s hs
      obtain ⟨b, t, hfinl, hql, hframel⟩ := ihleft hsl
      -- the left task runs first: the right one is not disturbed by it, nor the left one's result by the right one
      have hsr' := hframel _ (h2.mono fun _ _ => .inr) hsr
      obtain ⟨c, u, hfinr, hqr, hframer⟩ := ihright hsr'
      have hql' := hframer _ ((h3 b).mono fun _ _ => .inr) hql
      obtain ⟨value, v, hfin, hq, hframe⟩ := ih b c ⟨hql', hqr⟩
      refine ⟨value, v, .join_left_first hfinl hfinr hfin, hq, fun R hR h => hframe R hR ?_⟩
      have hRl : Stable _ R := hR.mono hl
      have hRr : Stable _ R := hR.mono hr
      exact hframer R hRr (hframel R hRl h)
  | loop hfailing _ _ _ _ _ _ _ => exact (hfailing htotal).elim

end Rules

end ExplorerIndexer.Async

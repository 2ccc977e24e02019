import ExplorerIndexer.AsyncOutline

/-! Programs that come to an end within a number of rounds, whatever the others do meanwhile and in whatever order
collections are gone through, as long as no statement is lost. Only programs without tasks that run side by side are
considered. -/

namespace ExplorerIndexer.Async

variable {σ α β γ : Type}

/-- The next step of the program begins no round of a loop, and is its own. -/
def Prog.isPlain {σ α : Type} : Prog σ α → Bool
  | .access .. | .query .. | .anyOrder .. => true
  | _ => false

/-- `ReturnsWithin others Q rounds p s`: every run of `p` from `s`, with steps of others before each of its own, goes on
until `p` is ready with `Q`, and begins at most `rounds` rounds of loops. -/
inductive ReturnsWithin {σ α : Type} (others : σ → σ → Prop) (Q : α → σ → Prop) : Nat → Prog σ α → σ → Prop
  | ret {rounds : Nat} {value : α} {s : σ} (hpost : Q value s) : ReturnsWithin others Q rounds (.ret value) s
  | step {rounds : Nat} {p : Prog σ α} {s : σ} (hplain : p.isPlain = true)
      (hcan : ∀ t, Relation.ReflTransGen others s t → ∃ event q u, event ≠ .lost ∧ Step p t event q u)
      (hnext : ∀ t, Relation.ReflTransGen others s t → ∀ event q u, event ≠ .lost → Step p t event q u →
        ReturnsWithin others Q rounds q u) : ReturnsWithin others Q rounds p s
  | round {rounds : Nat} {β γ : Type} {body : β → Prog σ (β ⊕ γ)} {start : β} {next : γ → Prog σ α} {s : σ}
      (hround : ∀ t, Relation.ReflTransGen others s t → ReturnsWithin others Q rounds
        ((body start).bind (Sum.elim (fun again => .loop body again next) next)) t) :
      ReturnsWithin others Q (rounds + 1) (.loop body start next) s

variable {others : σ → σ → Prop} {P : σ → Prop} {p : Prog σ α} {Q M : α → σ → Prop} {s : σ} {rounds : Nat}

theorem Stable.star {t : σ} (hP : Stable others P) (hs : P s) (h : Relation.ReflTransGen others s t) : P t := by
  induction h with
  | refl => exact hs
  | tail _ hother ih => exact hP _ _ ih hother

theorem ReturnsWithin.mono {more : Nat} (h : ReturnsWithin others Q rounds p s) (hle : rounds ≤ more) :
    ReturnsWithin others Q more p s := by
  induction h generalizing more with
  | ret hpost => exact .ret hpost
  | step hplain hcan _ ih =>
      exact .step hplain hcan fun t ht event q u hevent hstep => ih t ht event q u hevent hstep hle
  | round _ ih =>
      obtain ⟨more, rfl⟩ := Nat.exists_eq_add_of_le' (Nat.one_le_of_lt hle)
      exact .round fun t ht => ih t ht (Nat.le_of_succ_le_succ hle)

theorem Prog.isPlain_bind (hplain : p.isPlain = true) (f : α → Prog σ β) : (p.bind f).isPlain = true := by
  cases p with
  | access | query | anyOrder => rfl
  | _ => cases hplain

/-- A step of a program that is followed by another one is a step of its own. -/
theorem Step.of_bind {f : α → Prog σ β} {q : Prog σ β} {t : σ} {event : Event} (hplain : p.isPlain = true)
    (h : Step (p.bind f) s event q t) : ∃ q', Step p s event q' t ∧ q = q'.bind f := by
  cases p with
  | access =>
      cases h with
      | access => exact ⟨_, .access, rfl⟩
  | query =>
      cases h with
      | queryDone hattempts hrun => exact ⟨_, .queryDone hattempts hrun, rfl⟩
      | queryHandled hattempts hrun hhandled => exact ⟨_, .queryHandled hattempts hrun hhandled, rfl⟩
      | queryRefused hattempts hrun hhandled => exact ⟨_, .queryRefused hattempts hrun hhandled, rfl⟩
      | queryLost hattempts => exact ⟨_, .queryLost hattempts, rfl⟩
      | queryGaveUp => exact ⟨_, .queryGaveUp, rfl⟩
  | anyOrder =>
      cases h with
      | anyOrder hperm => exact ⟨_, .anyOrder hperm, rfl⟩
  | _ => cases hplain

theorem ReturnsWithin.bind {f : α → Prog σ β} {R : β → σ → Prop} {more : Nat}
    (h : ReturnsWithin others M rounds p s) (hf : ∀ a t, M a t → ReturnsWithin others R more (f a) t) :
    ReturnsWithin others R (rounds + more) (p.bind f) s := by
  induction h with
  | ret hpost => exact (hf _ _ hpost).mono (Nat.le_add_left _ _)
  | step hplain hcan _ ih =>
      refine .step (Prog.isPlain_bind hplain f) (fun t ht => ?_) fun t ht event q u hevent hstep => ?_
      · obtain ⟨event, q, u, hevent, hstep⟩ := hcan t ht
        exact ⟨event, q.bind f, u, hevent, hstep.bind f⟩
      · obtain ⟨q', hstep', rfl⟩ := hstep.of_bind hplain
        exact ih t ht event q' u hevent hstep'
  | @round rounds _ _ body start next _ _ ih =>
      have hnext : (fun a => (Sum.elim (fun again => Prog.loop body again next) next a).bind f) =
          Sum.elim (fun again => Prog.loop body again fun c => (next c).bind f) (fun c => (next c).bind f) := by
        funext answer
        cases answer <;> rfl
      rw [Nat.add_right_comm]
      refine .round fun t ht => ?_
      have hbody := ih t ht
      rwa [Prog.bind_assoc, hnext] at hbody

/-! ### Rules -/

/-- A program without rounds, and what follows it. -/
theorem ReturnsWithin.straight {f : α → Prog σ β} {R : β → σ → Prop} (h : ReturnsWithin others M 0 p s)
    (hf : ∀ a t, M a t → ReturnsWithin others R rounds (f a) t) : ReturnsWithin others R rounds (p.bind f) s :=
  (h.bind hf).mono (Nat.le_of_eq (Nat.zero_add rounds))

theorem ReturnsWithin.access {act : σ → β × σ} {next : β → Prog σ α}
    (h : ∀ t, Relation.ReflTransGen others s t → ReturnsWithin others Q rounds (next (act t).1) (act t).2) :
    ReturnsWithin others Q rounds (.access act next) s := by
  refine .step rfl (fun t _ => ⟨.internal, _, _, by decide, .access⟩) fun t ht event q u _ hstep => ?_
  cases hstep with
  | access => exact h t ht

/-- A statement that is never refused. -/
theorem ReturnsWithin.query {attempts : Option Nat} {stmt : Statement σ β} {handled : QueryError → Bool}
    {next : Option β → Prog σ α} (hattempts : attempts ≠ some 0)
    (h : ∀ t, Relation.ReflTransGen others s t → ∃ b u, stmt t = .ok (b, u) ∧
      ReturnsWithin others Q rounds (next (some b)) u) :
    ReturnsWithin others Q rounds (.query attempts stmt handled next) s := by
  refine .step rfl (fun t ht => ?_) fun t ht event q u hevent hstep => ?_
  · obtain ⟨b, u, hok, _⟩ := h t ht
    exact ⟨.done, _, _, by decide, .queryDone hattempts hok⟩
  · obtain ⟨b, u', hok, hnext⟩ := h t ht
    cases hstep with
    | queryDone _ hrun =>
        rw [hok] at hrun
        cases hrun
        exact hnext
    | queryHandled _ hrun =>
        rw [hok] at hrun
        cases hrun
    | queryRefused _ hrun =>
        rw [hok] at hrun
        cases hrun
    | queryLost => exact absurd rfl hevent
    | queryGaveUp => exact absurd rfl hattempts

theorem ReturnsWithin.anyOrder {items : List β} {next : List β → Prog σ α}
    (h : ∀ t, Relation.ReflTransGen others s t → ∀ items', items'.Perm items →
      ReturnsWithin others Q rounds (next items') t) : ReturnsWithin others Q rounds (.anyOrder items next) s := by
  refine .step rfl (fun t _ => ⟨.internal, _, _, by decide, .anyOrder (.refl items)⟩) fun t ht event q u _ hstep => ?_
  cases hstep with
  | anyOrder hperm => exact h t ht _ hperm

/-- A loop of which a round, with `n + 1` rounds left, is the last one or leaves `n` rounds. -/
theorem ReturnsWithin.loop {body : β → Prog σ (β ⊕ γ)} {start : β} {next : γ → Prog σ α}
    {I : Nat → β → σ → Prop} {D : γ → σ → Prop} (hnone : ∀ b s, ¬ I 0 b s) (hstable : ∀ n b, Stable others (I n b))
    (hbody : ∀ n b s, I (n + 1) b s →
      ReturnsWithin others (fun answer t => Sum.elim (I n · t) (D · t) answer) 0 (body b) s)
    (hnext : ∀ c s, D c s → ReturnsWithin others Q 0 (next c) s) (hstart : I rounds start s) :
    ReturnsWithin others Q rounds (.loop body start next) s := by
  induction rounds generalizing start s with
  | zero => exact (hnone _ _ hstart).elim
  | succ n ih =>
      refine .round fun t ht => ?_
      have hround := hbody n start t ((hstable _ _).star hstart ht)
      have hrest : ∀ answer u, Sum.elim (I n · u) (D · u) answer → ReturnsWithin others Q n
          (Sum.elim (fun again => Prog.loop body again next) next answer) u := by
        intro answer u hanswer
        cases answer with
        | inl again => exact ih hanswer
        | inr c => exact (hnext c u hanswer).mono (Nat.zero_le n)
      exact hround.straight hrest

end ExplorerIndexer.Async

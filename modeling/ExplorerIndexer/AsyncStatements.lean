import ExplorerIndexer.AsyncProgram

/-! The statements that a program sends and the answer it comes to, whatever happens to the state between its steps. -/

namespace ExplorerIndexer.Async

variable {σ α β γ : Type}

/-- What may be left of a program. The state may change in any way between two steps. -/
inductive Leaves (p : Prog σ α) : Prog σ α → Prop
  | start : Leaves p p
  | step {q r : Prog σ α} {s t : σ} {event : Event} (h : Leaves p q) (hstep : Step q s event r t) : Leaves p r

/-- The program can send the statement now. -/
inductive Sends (stmt : Statement σ β) : {α : Type} → Prog σ α → Prop
  | query {α : Type} {attempts : Option Nat} {handled : QueryError → Bool} {next : Option β → Prog σ α} :
      Sends stmt (.query attempts stmt handled next)
  | joinLeft {α γ δ : Type} {left : Prog σ γ} {right : Prog σ δ} {next : γ → δ → Prog σ α} (h : Sends stmt left) :
      Sends stmt (.join left right next)
  | joinRight {α γ δ : Type} {left : Prog σ γ} {right : Prog σ δ} {next : γ → δ → Prog σ α} (h : Sends stmt right) :
      Sends stmt (.join left right next)

/-- The program sends only statements that are allowed, and its answers have the property. -/
inductive SendsOnly (allowed : (β : Type) → Statement σ β → Prop) : {α : Type} → (α → Prop) → Prog σ α → Prop
  | ret {α : Type} {Q : α → Prop} {value : α} (hvalue : Q value) : SendsOnly allowed Q (.ret value)
  | fail {α : Type} {Q : α → Prop} : SendsOnly allowed Q .fail
  | panic {α : Type} {Q : α → Prop} : SendsOnly allowed Q .panic
  | access {α β : Type} {Q : α → Prop} {act : σ → β × σ} {next : β → Prog σ α}
      (hnext : ∀ s, SendsOnly allowed Q (next (act s).1)) : SendsOnly allowed Q (.access act next)
  | query {α β : Type} {Q : α → Prop} {attempts : Option Nat} {stmt : Statement σ β} {handled : QueryError → Bool}
      {next : Option β → Prog σ α} (hstmt : allowed β stmt)
      (hnext : ∀ s b t, stmt s = .ok (b, t) → SendsOnly allowed Q (next (some b)))
      (hnone : ∀ error, handled error = true → SendsOnly allowed Q (next none)) :
      SendsOnly allowed Q (.query attempts stmt handled next)
  | anyOrder {α β : Type} {Q : α → Prop} {items : List β} {next : List β → Prog σ α}
      (hnext : ∀ l, l.Perm items → SendsOnly allowed Q (next l)) : SendsOnly allowed Q (.anyOrder items next)
  | join {α β γ : Type} {Q : α → Prop} {B : β → Prop} {C : γ → Prop} {left : Prog σ β} {right : Prog σ γ}
      {next : β → γ → Prog σ α} (hleft : SendsOnly allowed B left) (hright : SendsOnly allowed C right)
      (hnext : ∀ b c, B b → C c → SendsOnly allowed Q (next b c)) : SendsOnly allowed Q (.join left right next)
  | loop {α β γ : Type} {Q : α → Prop} {I : β → Prop} {D : γ → Prop} {body : β → Prog σ (β ⊕ γ)} {start : β}
      {next : γ → Prog σ α} (hstart : I start) (hbody : ∀ b, I b → SendsOnly allowed (Sum.elim I D) (body b))
      (hnext : ∀ c, D c → SendsOnly allowed Q (next c)) : SendsOnly allowed Q (.loop body start next)

namespace SendsOnly

variable {allowed : (β : Type) → Statement σ β → Prop} {Q : α → Prop} {R : β → Prop} {p q : Prog σ α}

theorem bind (hp : SendsOnly allowed Q p) {f : α → Prog σ β} (hf : ∀ a, Q a → SendsOnly allowed R (f a)) :
    SendsOnly allowed R (p.bind f) := by
  induction hp with
  | ret hvalue => exact hf _ hvalue
  | fail => exact .fail
  | panic => exact .panic
  | access _ ih => exact .access fun s => ih s hf
  | query hstmt _ _ ih ihnone =>
      exact .query hstmt (fun s b t hrun => ih s b t hrun hf) fun error hhandled => ihnone error hhandled hf
  | anyOrder _ ih => exact .anyOrder fun l hperm => ih l hperm hf
  | join hleft hright _ _ _ ih => exact .join hleft hright fun b c hb hc => ih b c hb hc hf
  | loop hstart hbody _ _ ih => exact .loop hstart hbody fun c hc => ih c hc hf

theorem step (hp : SendsOnly allowed Q p) {s t : σ} {event : Event} (hstep : Step p s event q t) :
    SendsOnly allowed Q q := by
  induction hp generalizing s t event with
  | ret => exact hstep.ret_elim.elim
  | fail => exact hstep.fail_elim.elim
  | panic => cases hstep
  | access hnext => cases hstep with | access => exact hnext s
  | query hstmt hnext hnone =>
      cases hstep with
      | queryDone _ hrun => exact hnext _ _ _ hrun
      | queryHandled _ _ hhandled => exact hnone _ hhandled
      | queryRefused => exact .query hstmt hnext hnone
      | queryLost => exact .query hstmt hnext hnone
      | queryGaveUp => exact .fail
  | anyOrder hnext => cases hstep with | anyOrder hperm => exact hnext _ hperm
  | join hleft hright hnext ihleft ihright =>
      cases hstep with
      | joinLeft hstep => exact .join (ihleft hstep) hright hnext
      | joinRight hstep => exact .join hleft (ihright hstep) hnext
      | joinRet =>
          cases hleft with
          | ret hb =>
            cases hright with
            | ret hc => exact hnext _ _ hb hc
      | joinFailLeft => exact .fail
      | joinFailRight => exact .fail
  | loop hstart hbody hnext =>
      cases hstep with
      | loop =>
        refine (hbody _ hstart).bind fun answer hanswer => ?_
        cases answer with
        | inl again => exact .loop hanswer hbody hnext
        | inr c => exact hnext c hanswer

theorem leaves (hp : SendsOnly allowed Q p) (h : Leaves p q) : SendsOnly allowed Q q := by
  induction h with
  | start => exact hp
  | step _ hstep ih => exact ih.step hstep

theorem allowed_of_sends {stmt : Statement σ β} (h : Sends stmt p) (hp : SendsOnly allowed Q p) : allowed β stmt := by
  induction h with
  | query => cases hp with | query hstmt => exact hstmt
  | joinLeft _ ih => cases hp with | join hleft => exact ih hleft
  | joinRight _ ih => cases hp with | join _ hright => exact ih hright

theorem answer {value : α} (hp : SendsOnly allowed Q (.ret value)) : Q value := by
  cases hp with | ret hvalue => exact hvalue

end SendsOnly

end ExplorerIndexer.Async

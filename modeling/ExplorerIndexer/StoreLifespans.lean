import ExplorerIndexer.AsyncOwned

/-! Rows that say by what they were created and deleted, with the version of their last change. The writes to
such a row are of few kinds; which of them may be applied before others of lower versions is a fact about the
kinds and about the row they find. -/

namespace ExplorerIndexer.Store

variable {ι β τ : Type}

/-- Going through versioned items in another order gives the same if every item may pass the items of lower
versions that come after it. -/
theorem foldl_eq_of_passing {version : β → Nat} {f : β → τ → τ} {order sorted : List β} {x : τ}
    (hperm : order.Perm sorted) (hsorted : sorted.Pairwise fun a b => version a < version b)
    (hpass : ∀ pre a rest, order = pre ++ a :: rest → ∀ passed : List β,
      (∀ b ∈ passed, b ∈ rest ∧ version b < version a) → ∀ y, y = pre.foldl (fun x b => f b x) x →
        passed.foldl (fun x b => f b x) (f a y) = f a (passed.foldl (fun x b => f b x) y)) :
    order.foldl (fun x a => f a x) x = sorted.foldl (fun x a => f a x) x := by
  induction order generalizing sorted x with
  | nil => rw [hperm.nil_eq]
  | cons a order ih =>
      obtain ⟨before, after, rfl⟩ := List.append_of_mem (hperm.mem_iff.mp List.mem_cons_self)
      have hperm' : order.Perm (before ++ after) := (List.perm_cons a).mp (hperm.trans List.perm_middle)
      have hsorted' : (before ++ after).Pairwise fun a b => version a < version b :=
        hsorted.sublist ((List.sublist_cons_self a after).append_left before)
      have hbefore : ∀ b ∈ before, b ∈ order ∧ version b < version a := fun b hb =>
        ⟨hperm'.mem_iff.mpr (List.mem_append_left _ hb),
          (List.pairwise_append.mp hsorted).2.2 b hb a List.mem_cons_self⟩
      have hrest := ih (x := f a x) hperm' hsorted' fun pre b rest horder passed hpassed y hy =>
        hpass (a :: pre) b rest (by rw [horder]; rfl) passed hpassed y hy
      rw [List.foldl_cons, hrest, List.foldl_append, List.foldl_append, List.foldl_cons,
        hpass [] a order rfl before hbefore x rfl]

structure Lifespan (ι : Type) where
  created : Option ι
  deleted : Option ι
  version : Nat
  deriving DecidableEq

/-- Whatever the row was created and deleted by is known. -/
structure Lifespan.Refers (known : ι → Prop) (row : Lifespan ι) : Prop where
  created : ∀ i ∈ row.created, known i
  deleted : ∀ i ∈ row.deleted, known i

/-- A row that exists and has no deletion. -/
def Live (x : Option (Lifespan ι)) : Prop := ∃ row, x = some row ∧ row.deleted = none

/-- What a versioned write does to a row that may be absent. -/
inductive LifeAction (ι : Type) where
  | idle
  /-- Sets the deletion of an older row. -/
  | mark (deleted : ι)
  /-- Sets the deletion of an older row that has none. -/
  | markLive (deleted : ι)
  /-- Adds the row, or overwrites an older one. -/
  | overwrite (created : ι) (deleted : Option ι)
  /-- Adds the row, or overwrites an older one that has a deletion. -/
  | revive (created : ι)
  deriving DecidableEq

namespace LifeAction

def effect (h : Nat) : LifeAction ι → Option (Lifespan ι) → Option (Lifespan ι)
  | idle, x => x
  | mark deleted, x => x.map fun row =>
      if row.version < h then { row with deleted := some deleted, version := h } else row
  | markLive deleted, x => x.map fun row =>
      if row.deleted.isNone = true ∧ row.version < h then { row with deleted := some deleted, version := h }
      else row
  | overwrite created deleted, none => some ⟨some created, deleted, h⟩
  | overwrite created deleted, some row => some (if row.version < h then ⟨some created, deleted, h⟩ else row)
  | revive created, none => some ⟨some created, none, h⟩
  | revive created, some row =>
      some (if row.deleted.isSome = true ∧ row.version < h then ⟨some created, none, h⟩ else row)

/-- The actions after which an older row is not live. -/
inductive Kills : LifeAction ι → Prop
  | mark (deleted : ι) : Kills (mark deleted)
  | overwrite (created deleted : ι) : Kills (overwrite created (some deleted))

/-- On the row `x`, the second action, of a higher version, may be applied before the first one. -/
inductive MayOvertake (x : Option (Lifespan ι)) : LifeAction ι → LifeAction ι → Prop
  | ofIdle (action : LifeAction ι) : MayOvertake x idle action
  | idle (action : LifeAction ι) : MayOvertake x action idle
  | overwrite (action : LifeAction ι) (created : ι) (deleted : Option ι) :
      MayOvertake x action (overwrite created deleted)
  | mark (deleted deleted' : ι) : MayOvertake x (mark deleted) (mark deleted')
  | markLive (deleted deleted' : ι) : MayOvertake x (markLive deleted) (mark deleted')
  | reviveLive (created created' : ι) (hlive : Live x) : MayOvertake x (revive created) (revive created')
  | reviveDead {action : LifeAction ι} (created' : ι) (hdead : ¬ Live x) (hkills : Kills action) :
      MayOvertake x action (revive created')

variable {h h' : Nat}

theorem effect_settled (action : LifeAction ι) {row : Lifespan ι} (hrow : h ≤ row.version) :
    action.effect h (some row) = some row := by
  have hnot : ¬ row.version < h := Nat.not_lt.mpr hrow
  cases action <;> simp [effect, hnot]

/-- An action leaves a row alone or gives it its own version. -/
theorem effect_stamped (action : LifeAction ι) (x : Option (Lifespan ι)) :
    action.effect h x = x ∨ ∃ row, action.effect h x = some row ∧ row.version = h := by
  cases x with
  | none => cases action <;> simp [effect]
  | some row =>
      cases action with
      | idle => exact .inl rfl
      | mark deleted => by_cases hv : row.version < h <;> simp [effect, hv]
      | markLive deleted =>
          simp only [effect, Option.map_some]
          split
          · exact .inr ⟨_, rfl, rfl⟩
          · exact .inl rfl
      | overwrite created deleted => by_cases hv : row.version < h <;> simp [effect, hv]
      | revive created => by_cases hc : row.deleted.isSome = true ∧ row.version < h <;> simp [effect, hc]

theorem effect_below {action : LifeAction ι} {x : Option (Lifespan ι)} {n : Nat} (hlt : h < n)
    (hx : ∀ row, x = some row → row.version < n) : ∀ row, action.effect h x = some row → row.version < n := by
  intro row hrow
  rcases effect_stamped (h := h) action x with hsame | ⟨row', hrow', hversion⟩
  · exact hx row (hsame ▸ hrow)
  · obtain rfl := Option.some.inj (hrow.symm.trans hrow')
    omega

theorem overwrite_old (created : ι) (deleted : Option ι) {x : Option (Lifespan ι)}
    (hold : ∀ row, x = some row → row.version < h) :
    (overwrite created deleted).effect h x = some ⟨some created, deleted, h⟩ := by
  cases x with
  | none => rfl
  | some row => simp [effect, hold row rfl]

theorem revive_old (created : ι) {x : Option (Lifespan ι)} (hdead : ¬ Live x)
    (hold : ∀ row, x = some row → row.version < h) :
    (revive created).effect h x = some ⟨some created, none, h⟩ := by
  cases x with
  | none => rfl
  | some row =>
      cases hdeleted : row.deleted with
      | none => exact absurd ⟨row, rfl, hdeleted⟩ hdead
      | some deleted => simp [effect, hold row rfl, hdeleted]

theorem revive_live (created : ι) {x : Option (Lifespan ι)} (hlive : Live x) :
    (revive created).effect h x = x := by
  obtain ⟨row, rfl, hdeleted⟩ := hlive
  simp [effect, hdeleted]

theorem not_live_of_kills {action : LifeAction ι} (hkills : Kills action) {x : Option (Lifespan ι)}
    (hdead : ¬ Live x) : ¬ Live (action.effect h x) := by
  cases hkills with
  | mark deleted =>
      cases x with
      | none => exact hdead
      | some row =>
          simp only [effect, Option.map_some]
          split
          · rintro ⟨row', hrow', hnone⟩
            cases Option.some.inj hrow'
            cases hnone
          · exact hdead
  | overwrite created deleted =>
      have hnew : ¬ Live (some (⟨some created, some deleted, h⟩ : Lifespan ι)) := by
        rintro ⟨row', hrow', hnone⟩
        cases Option.some.inj hrow'
        cases hnone
      cases x with
      | none => exact hnew
      | some row =>
          simp only [effect]
          split
          · exact hnew
          · exact hdead

/-! ### Overtaking one action -/

theorem comm_overwrite (hlt : h < h') (action : LifeAction ι) (created : ι) (deleted : Option ι)
    (x : Option (Lifespan ι)) :
    action.effect h ((overwrite created deleted).effect h' x) =
      (overwrite created deleted).effect h' (action.effect h x) := by
  by_cases hold : ∀ row, x = some row → row.version < h'
  · rw [overwrite_old created deleted (effect_below hlt hold), overwrite_old created deleted hold]
    exact effect_settled action (Nat.le_of_lt hlt)
  · simp only [not_forall, exists_prop, Nat.not_lt] at hold
    obtain ⟨row, rfl, hrow⟩ := hold
    have hsettled : action.effect h (some row) = some row := effect_settled action (by omega)
    rw [effect_settled (.overwrite created deleted) hrow, hsettled, effect_settled _ hrow]

theorem comm_mark (hlt : h < h') (deleted deleted' : ι) (x : Option (Lifespan ι)) :
    (mark deleted).effect h ((mark deleted').effect h' x) =
      (mark deleted').effect h' ((mark deleted).effect h x) := by
  cases x with
  | none => rfl
  | some row =>
      simp only [effect, Option.map_some]
      grind

theorem comm_markLive (hlt : h < h') (deleted deleted' : ι) (x : Option (Lifespan ι)) :
    (markLive deleted).effect h ((mark deleted').effect h' x) =
      (mark deleted').effect h' ((markLive deleted).effect h x) := by
  cases x with
  | none => rfl
  | some row =>
      simp only [effect, Option.map_some]
      grind

/-- What the action writes is known. -/
inductive Refers (known : ι → Prop) : LifeAction ι → Prop
  | idle : Refers known idle
  | mark {deleted : ι} (hdeleted : known deleted) : Refers known (mark deleted)
  | markLive {deleted : ι} (hdeleted : known deleted) : Refers known (markLive deleted)
  | overwrite {created : ι} {deleted : Option ι} (hcreated : known created) (hdeleted : ∀ i ∈ deleted, known i) :
      Refers known (overwrite created deleted)
  | revive {created : ι} (hcreated : known created) : Refers known (revive created)

theorem Refers.effect {known : ι → Prop} {action : LifeAction ι} (haction : Refers known action)
    {x : Option (Lifespan ι)} (hx : ∀ row ∈ x, row.Refers known) : ∀ row ∈ action.effect h x, row.Refers known := by
  have hsome : ∀ {i : ι}, known i → ∀ j ∈ some i, known j := by
    rintro i hi j ⟨⟩
    exact hi
  cases haction with
  | idle => exact hx
  | mark hdeleted | markLive hdeleted =>
      intro row' hrow'
      obtain ⟨row, rfl, rfl⟩ := Option.map_eq_some_iff.mp hrow'
      split
      · exact ⟨(hx row rfl).created, hsome hdeleted⟩
      · exact hx row rfl
  | overwrite hcreated hdeleted =>
      cases x with
      | none =>
          rintro row' ⟨⟩
          exact ⟨hsome hcreated, hdeleted⟩
      | some row =>
          rintro row' ⟨⟩
          split
          · exact ⟨hsome hcreated, hdeleted⟩
          · exact hx row rfl
  | revive hcreated =>
      cases x with
      | none =>
          rintro row' ⟨⟩
          exact ⟨hsome hcreated, nofun⟩
      | some row =>
          rintro row' ⟨⟩
          split
          · exact ⟨hsome hcreated, nofun⟩
          · exact hx row rfl

end LifeAction

/-! ### Overtaking a list of actions -/

section Lists

variable {version : β → Nat} {action : β → LifeAction ι}

/-- The row after a list of versioned items. -/
def lifeAfter (version : β → Nat) (action : β → LifeAction ι) (items : List β) (x : Option (Lifespan ι)) :
    Option (Lifespan ι) :=
  items.foldl (fun x a => (action a).effect (version a) x) x

@[simp] theorem lifeAfter_nil (x : Option (Lifespan ι)) : lifeAfter version action [] x = x := rfl

@[simp] theorem lifeAfter_cons (a : β) (items : List β) (x : Option (Lifespan ι)) :
    lifeAfter version action (a :: items) x =
      lifeAfter version action items ((action a).effect (version a) x) := rfl

/-- What commutes with every item commutes with the list. -/
theorem lifeAfter_comm {items : List β} {f : Option (Lifespan ι) → Option (Lifespan ι)}
    (hcomm : ∀ b ∈ items, ∀ x, (action b).effect (version b) (f x) = f ((action b).effect (version b) x))
    (x : Option (Lifespan ι)) : lifeAfter version action items (f x) = f (lifeAfter version action items x) := by
  induction items generalizing x with
  | nil => rfl
  | cons b items ih =>
      rw [lifeAfter_cons, lifeAfter_cons, hcomm b List.mem_cons_self]
      exact ih (fun c hc => hcomm c (List.mem_cons_of_mem b hc)) _

theorem lifeAfter_idle {items : List β} {x : Option (Lifespan ι)}
    (hidle : ∀ b ∈ items, (action b).effect (version b) x = x) : lifeAfter version action items x = x := by
  induction items with
  | nil => rfl
  | cons b items ih =>
      rw [lifeAfter_cons, hidle b List.mem_cons_self]
      exact ih fun c hc => hidle c (List.mem_cons_of_mem b hc)

theorem lifeAfter_settled {items : List β} {row : Lifespan ι} (hrow : ∀ b ∈ items, version b ≤ row.version) :
    lifeAfter version action items (some row) = some row :=
  lifeAfter_idle fun b hb => LifeAction.effect_settled (action b) (hrow b hb)

/-- A revived row stays as it is when killers of lower versions come after it. -/
theorem lifeAfter_kills {items : List β} {h' : Nat} {x : Option (Lifespan ι)} {created : ι}
    (hlt : ∀ b ∈ items, version b < h') (hdead : ¬ Live x)
    (hkills : ∀ b ∈ items, action b = .idle ∨ (action b).Kills) :
    lifeAfter version action items ((LifeAction.revive created).effect h' x) =
      (LifeAction.revive created).effect h' (lifeAfter version action items x) := by
  by_cases hold : ∀ row, x = some row → row.version < h'
  · rw [LifeAction.revive_old created hdead hold]
    have hafter : ¬ Live (lifeAfter version action items x) ∧
        ∀ row, lifeAfter version action items x = some row → row.version < h' := by
      clear created
      induction items generalizing x with
      | nil => exact ⟨hdead, hold⟩
      | cons b items ih =>
          have hb := hlt b List.mem_cons_self
          have hnext : ¬ Live ((action b).effect (version b) x) := by
            rcases hkills b List.mem_cons_self with hidle | hkill
            · rw [hidle]
              exact hdead
            · exact LifeAction.not_live_of_kills hkill hdead
          exact ih (fun c hc => hlt c (List.mem_cons_of_mem b hc)) hnext
            (fun c hc => hkills c (List.mem_cons_of_mem b hc)) (LifeAction.effect_below hb hold)
    rw [LifeAction.revive_old created hafter.1 hafter.2]
    exact lifeAfter_settled fun b hb => Nat.le_of_lt (hlt b hb)
  · simp only [not_forall, exists_prop, Nat.not_lt] at hold
    obtain ⟨row, rfl, hrow⟩ := hold
    have hstays : lifeAfter version action items (some row) = some row :=
      lifeAfter_settled fun b hb => Nat.le_trans (Nat.le_of_lt (hlt b hb)) hrow
    rw [hstays, LifeAction.effect_settled _ hrow, hstays]

/-- An item may come before the items of lower versions that it may overtake. -/
theorem lifeAfter_overtake {a : β} {items : List β} {x : Option (Lifespan ι)}
    (hlt : ∀ b ∈ items, version b < version a)
    (hmay : ∀ b ∈ items, (action b).MayOvertake x (action a)) :
    lifeAfter version action items ((action a).effect (version a) x) =
      (action a).effect (version a) (lifeAfter version action items x) := by
  cases ha : action a with
  | idle => rfl
  | overwrite created deleted =>
      exact lifeAfter_comm (fun b hb y => LifeAction.comm_overwrite (hlt b hb) _ _ _ y) x
  | mark deleted =>
      refine lifeAfter_comm (fun b hb y => ?_) x
      have hb' := hmay b hb
      rw [ha] at hb'
      generalize hact : action b = lower at hb' ⊢
      cases hb' with
      | ofIdle => rfl
      | mark => exact LifeAction.comm_mark (hlt b hb) _ _ y
      | markLive => exact LifeAction.comm_markLive (hlt b hb) _ _ y
  | markLive deleted =>
      refine lifeAfter_comm (fun b hb y => ?_) x
      have hb' := hmay b hb
      rw [ha] at hb'
      generalize hact : action b = lower at hb' ⊢
      cases hb' with
      | ofIdle => rfl
  | revive created =>
      by_cases hlive : Live x
      · rw [LifeAction.revive_live created hlive]
        have hsame : lifeAfter version action items x = x := by
          refine lifeAfter_idle fun b hb => ?_
          have hb' := hmay b hb
          rw [ha] at hb'
          generalize hact : action b = lower at hb' ⊢
          cases hb' with
          | ofIdle => rfl
          | reviveLive => exact LifeAction.revive_live _ hlive
          | reviveDead _ hdead => exact absurd hlive hdead
        rw [hsame, LifeAction.revive_live created hlive]
      · refine lifeAfter_kills hlt hlive fun b hb => ?_
        have hb' := hmay b hb
        rw [ha] at hb'
        generalize hact : action b = lower at hb' ⊢
        cases hb' with
        | ofIdle => exact .inl rfl
        | reviveLive _ _ hlive' => exact absurd hlive' hlive
        | reviveDead _ _ hkills => exact .inr hkills

/-- Versioned items may be applied in another order if each may overtake, on the row it finds, the items of
lower versions that come after it. -/
theorem lifeAfter_eq_sorted {order sorted : List β} {x : Option (Lifespan ι)} (hperm : order.Perm sorted)
    (hsorted : sorted.Pairwise fun a b => version a < version b)
    (hmay : ∀ pre a rest, order = pre ++ a :: rest → ∀ b ∈ rest, version b < version a →
      (action b).MayOvertake (lifeAfter version action pre x) (action a)) :
    lifeAfter version action order x = lifeAfter version action sorted x := by
  refine foldl_eq_of_passing hperm hsorted fun pre a rest horder passed hpassed y hy => ?_
  refine lifeAfter_overtake (fun b hb => (hpassed b hb).2) fun b hb => ?_
  rw [hy]
  exact hmay pre a rest horder b (hpassed b hb).1 (hpassed b hb).2

end Lists

/-! ### Runs out of order -/

section Runs

variable {σ : Type} {handler : β → Async.Prog σ Unit} {version : β → Nat} {action : β → LifeAction ι}

theorem observe_run {meets : σ → β → List β → Prop} (observe : σ → Option (Lifespan ι)) {order : List β} {s t : σ}
    (hcall : ∀ s item rest t, meets s item rest → Async.Finishes (handler item) s () t →
      observe t = (action item).effect (version item) (observe s))
    (hrun : Async.InOrderWith meets handler s order t) :
    observe t = lifeAfter version action order (observe s) := by
  induction hrun with
  | nil => rfl
  | cons hmeets hitem _ ih => rw [ih, hcall _ _ _ _ hmeets hitem, lifeAfter_cons]

/-- A stream whose order is not that of the versions, with any number of handlers in flight, leaves the row that the
order of the versions leaves: if the row has one owner at a time and every item only overtakes what it may. -/
theorem life_eq_sorted {τ : Type} {meets : Async.Buffered σ β → β → Prop} {concurrency : Nat} {order sorted : List β}
    {observe : σ → τ} {effect : β → τ → τ} {s t : σ} {trace : List (Async.StreamEvent β)}
    (life : τ → Option (Lifespan ι))
    (hlife : ∀ item x, life (effect item x) = (action item).effect (version item) (life x))
    (howned : Async.Owned observe effect (fun item => action item = .idle) meets handler)
    (hmay : ∀ buffered item, meets buffered item → ∀ later ∈ buffered.stream, version later < version item →
      (action later).MayOvertake (life (observe buffered.state)) (action item))
    (hperm : order.Perm sorted) (hsorted : sorted.Pairwise fun a b => version a < version b)
    (hrun : Async.StreamRunWith meets handler concurrency ⟨order, [], s⟩ trace ⟨[], [], t⟩)
    (hok : ∀ item, .handled item false ∉ trace) :
    life (observe t) = lifeAfter version action sorted (life (observe s)) := by
  have hview : ∀ items x, life (Async.viewAfter effect items x) = lifeAfter version action items (life x) := by
    intro items x
    induction items generalizing x with
    | nil => rfl
    | cons item items ih => exact (ih (effect item x)).trans (by rw [hlife, lifeAfter_cons])
  obtain ⟨hrow, hfound⟩ := hrun.view howned hok
  rw [hrow, hview]
  refine lifeAfter_eq_sorted hperm hsorted fun pre a rest horder b hb hlt => ?_
  rcases hfound pre a rest horder with hidle | ⟨found, hmeets, hstream, hfoundRow⟩
  · rw [hidle]
    exact .idle _
  · have hovertake := hmay found a hmeets b (hstream ▸ List.mem_cons_of_mem a hb) hlt
    rwa [hfoundRow, hview] at hovertake

end Runs

end ExplorerIndexer.Store

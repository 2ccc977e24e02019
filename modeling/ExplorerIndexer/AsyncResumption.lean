import ExplorerIndexer.AsyncKeeps
import ExplorerIndexer.AsyncWrites

/-! Items that are handled in order, are cut off and are handled again. If an item that was handled to its end leaves
nothing to do for a second time, then what is seen of the state is where an undisturbed run has it after the items that
are done, or a part of the next one further. -/

namespace ExplorerIndexer.Async

variable {σ τ ι ω α : Type}

/-! ### Writes that leave nothing to do -/

/-- If a write that was made has nothing left to do from then on, a program is ready when none of its writes has. -/
theorem Writes.outline {run : ω → σ → σ} {R : σ → σ → Prop} {idle : ω → σ → Prop} {p : Prog σ α} {writes : List ω}
    (h : Writes run p writes) (hrun : ∀ w ∈ writes, ∀ s, R s (run w s) ∧ idle w (run w s))
    (hidle : ∀ w ∈ writes, Stable R (idle w)) :
    Outline False R R (fun _ => True) p fun _ s => ∀ w ∈ writes, idle w s := by
  induction h with
  | ret value => exact .ret fun _ _ _ hmem => (List.not_mem_nil hmem).elim
  | fail writes => exact .fail id
  | @query _ _ attempts stmt next w writes hstmt _ ih =>
      have hw : Stable R (idle w) := hidle w List.mem_cons_self
      refine .query (M := fun _ => idle w) (fun s b t _ hok => ?_) (fun _ _ _ _ h => (Bool.false_ne_true h).elim)
        False.elim (fun _ => hw) fun b => ?_
      · rw [hstmt s b t hok]
        exact hrun w List.mem_cons_self s
      · have hrest := ih b (fun w hmem => hrun w (List.mem_cons_of_mem _ hmem))
          fun w hmem => hidle w (List.mem_cons_of_mem _ hmem)
        refine ((hrest.frame hw hw).pre fun s hs => ⟨trivial, hs⟩).post fun _ s hs => ?_
        exact List.forall_mem_cons.mpr ⟨hs.2, hs.1⟩
  | anyOrder _ ih => exact .anyOrder fun items' hperm => ih items' hperm hrun hidle
  | @join _ _ _ left right next writesLeft writesRight writes _ _ _ ihleft ihright ih =>
      have hsub : ∀ s t, besides R R s t → R s t := fun s t h => h.elim id id
      have hmany : ∀ {some : List ω}, (∀ w ∈ some, Stable R (idle w)) → Stable R fun s => ∀ w ∈ some, idle w s :=
        fun h s t hs hst w hmem => h w hmem s t (hs w hmem) hst
      simp only [List.forall_mem_append] at hrun hidle
      obtain ⟨⟨hrunLeft, hrunRight⟩, hrunNext⟩ := hrun
      obtain ⟨⟨hidleLeft, hidleRight⟩, hidleNext⟩ := hidle
      refine .join ((ihleft hrunLeft hidleLeft).rely_mono hsub) ((ihright hrunRight hidleRight).rely_mono hsub)
        (fun _ _ h => h) (fun _ _ h => h) (fun _ _ => ⟨trivial, trivial⟩) (.const _ True) (.const _ True)
        (fun _ => (hmany hidleLeft).mono hsub) (fun _ => (hmany hidleRight).mono hsub) fun b c => ?_
      have hsides := (hmany hidleLeft).and (hmany hidleRight)
      refine (((ih b c hrunNext hidleNext).frame hsides hsides).pre fun s hs => ⟨trivial, hs⟩).post fun _ s hs => ?_
      simp only [List.forall_mem_append]
      exact ⟨hs.2, hs.1⟩
  | perm _ hperm ih =>
      refine (ih (fun w hmem => hrun w (hperm.mem_iff.mp hmem)) fun w hmem => hidle w (hperm.mem_iff.mp hmem)).post ?_
      exact fun _ s hs w hmem => hs w (hperm.mem_iff.mpr hmem)

/-! ### Undisturbed runs -/

/-- What is seen of the handling of items: where a part of it leads, and when there is nothing left to do. -/
structure Effects (τ ι : Type) where
  part : ι → τ → τ → Prop
  settled : ι → τ → Prop

namespace Effects

/-- Parts of a handling add up; an item with nothing left to do does nothing, and the items after it leave it so. -/
structure Lawful (E : Effects τ ι) (precedes : ι → ι → Prop) : Prop where
  refl : ∀ item x, E.part item x x
  trans : ∀ item x y z, E.part item x y → E.part item y z → E.part item x z
  idle : ∀ item x y, E.settled item x → E.part item x y → y = x
  later : ∀ item next x y, precedes item next → E.settled item x → E.part next x y → E.settled item y

/-- The items are handled one after the other, each to its end. -/
inductive Undisturbed (E : Effects τ ι) (x : τ) : List ι → τ → Prop
  | nil : Undisturbed E x [] x
  | snoc {items : List ι} {item : ι} {y z : τ} (hitems : Undisturbed E x items y) (hpart : E.part item y z)
      (hsettled : E.settled item z) : Undisturbed E x (items ++ [item]) z

/-- The items that are done were handled to their end, and of the next one perhaps a part. -/
def Arrived (E : Effects τ ι) (x : τ) (done rest : List ι) (y : τ) : Prop :=
  ∃ z, E.Undisturbed x done z ∧ (y = z ∨ ∃ next ∈ rest.head?, E.part next z y)

variable {E : Effects τ ι} {precedes : ι → ι → Prop} {x y y' : τ} {items done rest past later : List ι} {item next : ι}

theorem Undisturbed.settled (h : E.Undisturbed x items y) (hE : E.Lawful precedes) (hsorted : items.Pairwise precedes) :
    ∀ item ∈ items, E.settled item y := by
  induction h with
  | nil => exact fun _ hmem => (List.not_mem_nil hmem).elim
  | snoc _ hpart hsettled ih =>
      obtain ⟨hbefore, _, hlast⟩ := List.pairwise_append.mp hsorted
      intro item hmem
      rcases List.mem_append.mp hmem with hmem | hmem
      · exact hE.later item _ _ _ (hlast item hmem _ List.mem_cons_self) (ih hbefore item hmem) hpart
      · exact List.mem_singleton.mp hmem ▸ hsettled

theorem Arrived.settled (h : E.Arrived x done rest y) (hE : E.Lawful precedes)
    (hsorted : (done ++ rest).Pairwise precedes) : ∀ item ∈ done, E.settled item y := by
  obtain ⟨z, hdone, hy⟩ := h
  obtain ⟨hbefore, _, hlater⟩ := List.pairwise_append.mp hsorted
  intro item hmem
  have hsettled := hdone.settled hE hbefore item hmem
  rcases hy with rfl | ⟨next, hnext, hpart⟩
  · exact hsettled
  · exact hE.later item next _ _ (hlater item hmem next (List.mem_of_mem_head? hnext)) hsettled hpart

theorem Arrived.start (x : τ) (rest : List ι) : E.Arrived x [] rest x := ⟨x, .nil, .inl rfl⟩

theorem Arrived.redo (h : E.Arrived x done rest y) (hE : E.Lawful precedes) (hsorted : (done ++ rest).Pairwise precedes)
    (hitem : item ∈ done) (hpart : E.part item y y') : E.Arrived x done rest y' :=
  hE.idle item y y' (h.settled hE hsorted item hitem) hpart ▸ h

theorem Arrived.part_next (h : E.Arrived x done (next :: later) y) (hE : E.Lawful precedes) :
    ∃ z, E.Undisturbed x done z ∧ E.part next z y := by
  obtain ⟨z, hdone, rfl | ⟨_, hnext, hpart⟩⟩ := h
  · exact ⟨y, hdone, hE.refl next y⟩
  · cases hnext
    exact ⟨z, hdone, hpart⟩

theorem Arrived.go_on (h : E.Arrived x done (next :: later) y) (hE : E.Lawful precedes) (hpart : E.part next y y') :
    E.Arrived x done (next :: later) y' := by
  obtain ⟨z, hdone, hfirst⟩ := h.part_next hE
  exact ⟨z, hdone, .inr ⟨next, rfl, hE.trans next z y y' hfirst hpart⟩⟩

theorem Arrived.finish (h : E.Arrived x done (next :: later) y) (hE : E.Lawful precedes) (hsettled : E.settled next y) :
    E.Arrived x (done ++ [next]) later y := by
  obtain ⟨z, hdone, hpart⟩ := h.part_next hE
  exact ⟨y, hdone.snoc hpart hsettled, .inl rfl⟩

end Effects

/-! ### Streams that take up a run -/

/-- An item that comes after some of those that are done is one of them, or it is the next one. -/
theorem done_or_next {done rest past later : List ι} {item : ι} (hpast : past <+: done)
    (h : done ++ rest = past ++ item :: later) : past ++ [item] <+: done ∨ past = done ∧ rest = item :: later := by
  obtain ⟨more, rfl⟩ := hpast
  rw [List.append_assoc, List.append_cancel_left_eq] at h
  cases more with
  | nil => exact .inr ⟨(List.append_nil past).symm, h⟩
  | cons first more =>
      cases h
      exact .inl ⟨more, by rw [List.append_assoc, List.singleton_append]⟩

section Streams

variable {E : Effects τ ι} {precedes : ι → ι → Prop} {handler : ι → Prog σ Unit} {view : σ → τ} {x : τ}
  {items before done rest past later stream : List ι} {item : ι} {trace : List (StreamEvent ι)} {s : σ}
  {buffered buffered' : Buffered σ ι} {event : StreamEvent ι}

/-- A part of the handling of an item, as a relation of the states. -/
def Effects.step (E : Effects τ ι) (view : σ → τ) (item : ι) (s t : σ) : Prop := E.part item (view s) (view t)

/-- Where a stream is that takes up a run: what comes before the items that are left is done, and more items than were
done before have been handled. -/
structure Resumed (E : Effects τ ι) (view : σ → τ) (x : τ) (items before : List ι) (trace : List (StreamEvent ι))
    (buffered : Buffered σ ι) (done rest : List ι) : Prop where
  order : done ++ rest = items
  arrived : E.Arrived x done rest (view buffered.state)
  kept : before <+: done
  past : ∃ past, done ++ rest = past ++ (buffered.inFlight.map Prod.fst ++ buffered.stream) ∧ past <+: done
  inFlight : ∀ entry ∈ buffered.inFlight,
    Midway (E.step view entry.1) (fun _ s => E.settled entry.1 (view s)) entry.2 buffered.state
  handled : ∀ item, .handled item true ∈ trace → item ∈ done
  origin : ∀ item ∈ done, item ∈ before ∨ .handled item true ∈ trace

theorem Resumed.step (h : Resumed E view x items before trace buffered done rest) (hE : E.Lawful precedes)
    (hsorted : items.Pairwise precedes) (hstep : StreamStep handler 1 buffered event buffered')
    (hbegin : ∀ item, event = .began item → Outline False (E.step view item) (E.step view item) (fun _ => True)
      (handler item) fun _ s => E.settled item (view s)) (halone : buffered.inFlight.length ≤ 1)
    (hok : ∀ item, event ≠ .handled item false) :
    ∃ done rest, Resumed E view x items before (trace ++ [event]) buffered' done rest := by
  obtain ⟨past, hsplit, hpast⟩ := h.past
  have hmore : ∀ item ∈ done, item ∈ before ∨ .handled item true ∈ trace ++ [event] :=
    fun item hmem => (h.origin item hmem).imp_right (List.mem_append_left _)
  have hsame : (∀ item, event ≠ .handled item true) → ∀ item, .handled item true ∈ trace ++ [event] → item ∈ done := by
    intro hevent item hmem
    rcases List.mem_append.mp hmem with hmem | hmem
    · exact h.handled item hmem
    · exact (hevent item (List.mem_singleton.mp hmem).symm).elim
  cases hstep with
  | @begin item stream inFlight s hroom =>
      obtain rfl := List.length_eq_zero_iff.mp (Nat.lt_one_iff.mp hroom)
      refine ⟨done, rest, h.order, h.arrived, h.kept, ⟨past, hsplit, hpast⟩, fun entry hentry => ?_, hsame nofun, hmore⟩
      rw [List.mem_singleton.mp hentry]
      exact ⟨_, hbegin item rfl, .const _ True, trivial⟩
  | @run item stream front after p q s t attempt hrun =>
      obtain ⟨rfl, rfl⟩ := nil_of_alone halone
      obtain ⟨hpart, hmid⟩ := (h.inFlight (item, p) List.mem_cons_self).step hrun
      refine ⟨done, rest, h.order, ?_, h.kept, ⟨past, hsplit, hpast⟩, fun entry hentry => ?_, hsame nofun, hmore⟩
      · rcases hpart with heq | hpart
        · exact heq ▸ h.arrived
        · rcases done_or_next hpast hsplit with hdone | ⟨_, hnext⟩
          · exact h.arrived.redo hE (h.order ▸ hsorted) (hdone.subset (by simp)) hpart
          · have harrived := h.arrived
            rw [hnext] at harrived ⊢
            exact harrived.go_on hE hpart
      · rw [List.mem_singleton.mp hentry]
        exact hmid
  | @ok item stream front after s =>
      obtain ⟨rfl, rfl⟩ := nil_of_alone halone
      have hsettled : E.settled item (view s) := by
        obtain ⟨_, hout, _, hs⟩ := h.inFlight (item, .ret ()) List.mem_cons_self
        cases hout with
        | ret hpost => exact hpost s hs
      have hhandled : ∀ {done'}, done <+: done' → item ∈ done' →
          ∀ other, .handled other true ∈ trace ++ [.handled item true] → other ∈ done' := by
        intro done' hlonger hitem other hmem
        rcases List.mem_append.mp hmem with hmem | hmem
        · exact hlonger.subset (h.handled other hmem)
        · cases List.mem_singleton.mp hmem
          exact hitem
      rcases done_or_next hpast hsplit with hdone | ⟨rfl, rfl⟩
      · have hitem : item ∈ done := hdone.subset (by simp)
        refine ⟨done, rest, h.order, h.arrived, h.kept, ⟨past ++ [item], ?_, hdone⟩, nofun,
          hhandled (List.prefix_refl _) hitem, hmore⟩
        rw [hsplit]
        simp
      · refine ⟨past ++ [item], stream, ?_, h.arrived.finish hE hsettled, h.kept.trans (List.prefix_append _ _),
          ⟨past ++ [item], rfl, List.prefix_refl _⟩, nofun,
          hhandled (List.prefix_append _ _) (List.mem_append_right _ List.mem_cons_self), fun other hmem => ?_⟩
        · rw [← h.order]
          simp
        · rcases List.mem_append.mp hmem with hmem | hmem
          · exact hmore other hmem
          · exact .inr (List.mem_append_right _ (List.mem_singleton.mp hmem ▸ List.mem_cons_self))
  | err => exact (hok _ rfl).elim

/-- A stream of one item at a time, none of which fails, that takes up a run no later than where the run was cut off: it
goes on where the run was, and what it handles again changes nothing that is seen. -/
theorem StreamRun.resumed (h : StreamRun handler 1 ⟨stream, [], s⟩ trace buffered)
    (hok : ∀ item, .handled item false ∉ trace) (hE : E.Lawful precedes)
    (hsorted : (before ++ rest).Pairwise precedes) (harrived : E.Arrived x before rest (view s))
    (hsplit : before ++ rest = past ++ stream) (hpast : past <+: before)
    (hhandler : ∀ item ∈ stream, Outline False (E.step view item) (E.step view item) (fun _ => True) (handler item)
      fun _ s => E.settled item (view s)) :
    ∃ done later, Resumed E view x (before ++ rest) before trace buffered done later := by
  induction h with
  | start =>
      exact ⟨before, rest, rfl, harrived, List.prefix_refl _, ⟨past, hsplit, hpast⟩, nofun, nofun, fun _ => .inl⟩
  | snoc hrun hstep ih =>
      obtain ⟨_, _, hresumed⟩ := ih fun item hmem => hok item (List.mem_append_left _ hmem)
      obtain ⟨_, hdone⟩ := hrun.oneAtATime
      refine hresumed.step hE hsorted hstep (fun item hevent => hhandler item ?_) hdone.alone fun item hevent =>
        hok item (List.mem_append_right _ (hevent ▸ List.mem_cons_self))
      exact (hrun.snoc hstep).of_stream.1 item (hevent ▸ List.mem_append_right _ List.mem_cons_self)

end Streams

end ExplorerIndexer.Async

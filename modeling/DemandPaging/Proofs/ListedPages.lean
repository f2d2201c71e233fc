import DemandPaging.Proofs.Contents
/-!
# Pages of live mappings

A page says of itself that it belongs to a mapping. `Pager.Reachable.listed`: after each
event of a run it does, to one that its space lists. Hence no page shows a file that no
mapping shows.

While a mapping is taken down this is not so: it is struck off the list first and its pages
go one by one. `Chain.gone` follows them.
-/

namespace DemandPaging

open Pager

variable {n : Nat}

/-- Every page that says so belongs to a live mapping, and shows the file of the mapping. -/
def Pager.Listed (p : Pager n) : Prop :=
  ∀ o v d, p.descriptor? o v = some d → d.backing.isMapped = true →
    ∃ m fm, p.mapping? o m = some fm ∧ v ∈ fm.pages
      ∧ d.backing.window?.map FileWindow.source = some fm.source

namespace Chain

variable {S : Array OpenFile → Prop} {p q : Pager n} {f g : Option (Fin n)} {cs : List Change}

/-- Where a page of a mapping comes from: it was there and has not been dropped, or a file was
mapped. -/
theorem mapped_of (h : Chain S p f cs q g) (hp : p.Agrees f) {o : SpaceId} {v : Nat}
    (hv : PageAligned v) {e : Descriptor} (he : q.descriptor? o v = some e)
    (hmapped : e.backing.isMapped = true) :
    (.dropped o v ∉ cs ∧ ∃ d, p.descriptor? o v = some d ∧ d.backing.isMapped = true
        ∧ e.backing.window? = d.backing.window?)
      ∨ ∃ fm, .mapped o fm ∈ cs ∧ v ∈ fm.pages
          ∧ e.backing.window?.map FileWindow.source = some fm.source := by
  induction h generalizing e with
  | refl => exact Or.inl ⟨List.not_mem_nil, e, he, hmapped, rfl⟩
  | quiet h move ih =>
    rcases (move.shift (h.agrees hp)).descriptor_of hv he with ⟨d, hd, hw, hm⟩ | ⟨_, _, _, hm⟩
    · rw [hw]
      exact ih hd (hm ▸ hmapped)
    · rw [hm] at hmapped
      cases hmapped
  | @visible cs c r t _ _ h move ih =>
    have halters := move.alters (h.agrees hp)
    rcases halters.descriptor_of hv he
      with hd | ⟨rfl, rfl⟩ | ⟨source, base, length, i, rfl, hi, rfl, rfl⟩
    -- a page that is still described after the last move was not dropped by it
    · have hkept : c ≠ .dropped o v := by
        intro heq
        subst heq
        cases halters with
        | dropped _ _ _ _ _ hafter => exact absurd (hafter.symm.trans he) (by simp)
      rcases ih hd hmapped with ⟨hnot, hfrom⟩ | ⟨fm, hmem, hfm⟩
      · refine Or.inl ⟨?_, hfrom⟩
        intro hmem
        rcases List.mem_append.mp hmem with hmem | hmem
        · exact hnot hmem
        · exact hkept (List.mem_singleton.mp hmem).symm
      · exact Or.inr ⟨fm, List.mem_append_left _ hmem, hfm⟩
    · cases halters with
      | described _ _ hb =>
        rw [hb] at hmapped
        cases hmapped
    · refine Or.inr ⟨⟨source, base, pagesFor length⟩,
        List.mem_append_right _ (List.mem_singleton_self _), mem_pageRange.mpr ⟨i, hi, rfl⟩, rfl⟩

theorem mapping?_of_not_mem (h : Chain S p f cs q g) (hp : p.Agrees f) {o : SpaceId} {m : Nat}
    {fm : FileMapping} (hm : p.mapping? o m = some fm) (hcs : .unlisted o m ∉ cs) :
    q.mapping? o m = some fm := by
  induction h with
  | refl => exact hm
  | quiet _ move ih => exact (move.mapping? o m).trans (ih hcs)
  | visible h move ih =>
    refine move.mapping?_of_ne (h.agrees hp) (ih fun hc => hcs (List.mem_append_left _ hc)) ?_
    intro hc
    exact hcs (List.mem_append_right _ (hc ▸ List.mem_singleton_self _))

/-- A file that was mapped is listed from then on, under a number that was not in use. -/
theorem mapping?_of_mapped (h : Chain S p f cs q g) (hp : p.Agrees f) {o : SpaceId}
    {fm : FileMapping} (hm : .mapped o fm ∈ cs) (hcs : ∀ m, .unlisted o m ∉ cs) :
    ∃ m, q.mapping? o m = some fm ∧ p.mapping? o m = none := by
  induction h with
  | refl => cases hm
  | quiet _ move ih =>
    obtain ⟨m, hm, hnew⟩ := ih hm hcs
    exact ⟨m, (move.mapping? o m).trans hm, hnew⟩
  | visible h move ih =>
    have hcs' := fun m hc => hcs m (List.mem_append_left _ hc)
    rcases List.mem_append.mp hm with hm | hm
    · obtain ⟨m, hm, hnew⟩ := ih hm hcs'
      refine ⟨m, move.mapping?_of_ne (h.agrees hp) hm fun hc => ?_, hnew⟩
      exact hcs m (List.mem_append_right _ (hc ▸ List.mem_singleton_self _))
    · have hc := List.mem_singleton.mp hm
      have hagrees := h.agrees hp
      have halters := move.alters hagrees
      subst hc
      cases halters with
      | mapped _ _ _ _ hmapping =>
        refine ⟨_, (hmapping _ _).trans (if_pos ⟨rfl, rfl⟩), ?_⟩
        -- its number is above every number in use, at the start as well
        cases hp' : p.mapping? o _ with
        | none => rfl
        | some fk =>
          have hr := h.mapping?_of_not_mem hp hp' (hcs' _)
          exact absurd (hagrees.mappings.numbered _ _ _ hr) (Nat.lt_irrefl _)

/-- A mapping that is listed was listed before, or its file was mapped. -/
theorem mapping?_before (h : Chain S p f cs q g) {o : SpaceId} {m : Nat} {fm : FileMapping}
    (hm : q.mapping? o m = some fm) : p.mapping? o m = some fm ∨ .mapped o fm ∈ cs := by
  induction h with
  | refl => exact Or.inl hm
  | quiet _ move ih => exact ih ((move.mapping? o m).symm.trans hm)
  | visible _ move ih =>
    rcases move.mapping?_before hm with hm | rfl
    · exact (ih hm).imp_right fun hmem => List.mem_append_left _ hmem
    · exact Or.inr (List.mem_append_right _ (List.mem_singleton_self _))

/-- A page that was dropped stays away unless it is made anew. -/
theorem gone (h : Chain S p f cs q g) (hp : p.Agrees f) {o : SpaceId} {v : Nat}
    (hv : PageAligned v) (hcs : ∀ c ∈ cs, ¬ c.Creates o v) (hdropped : .dropped o v ∈ cs) :
    q.Vacant o v := by
  induction h with
  | refl => cases hdropped
  | quiet h move ih => exact (move.shift (h.agrees hp)).vacant hv (ih hcs hdropped)
  | visible h move ih =>
    have halters := move.alters (h.agrees hp)
    rcases List.mem_append.mp hdropped with hmem | hmem
    · exact halters.vacant hv (hcs _ (List.mem_append_right _ (List.mem_singleton_self _)))
        (ih (fun c hc => hcs c (List.mem_append_left _ hc)) hmem)
    · have hc := List.mem_singleton.mp hmem
      subst hc
      cases halters with
      | dropped _ _ _ _ _ hafter hgone => exact ⟨hafter, hgone⟩

end Chain

/-- Taking a mapping down drops all its pages. -/
theorem dropped_mem_unmapChanges {p : Pager n} {o : SpaceId} {m v : Nat} {fm : FileMapping}
    (hm : p.mapping? o m = some fm) (hv : v ∈ fm.pages) : .dropped o v ∈ unmapChanges p o m := by
  unfold unmapChanges
  rw [hm]
  exact List.mem_append_left _ (List.mem_cons_of_mem _ (List.mem_map_of_mem hv))

/-- Whatever strikes a mapping off the list drops all its pages. -/
theorem Event.Makes.dropped_of_unlisted {p : Pager n} {e : Event} {cs : List Change}
    (h : e.Makes p cs) {o : SpaceId} {m : Nat} {fm : FileMapping} (hm : p.mapping? o m = some fm)
    (hmem : .unlisted o m ∈ cs) {v : Nat} (hv : v ∈ fm.pages) : .dropped o v ∈ cs := by
  have hdrops := dropped_mem_unmapChanges hm hv
  -- unmapping one mapping takes no other from the list
  have hunlists : ∀ {id k}, .unlisted o m ∈ unmapChanges p id k → id = o ∧ k = m := by
    intro id k hmem
    unfold unmapChanges at hmem
    split at hmem
    next => cases hmem
    next fk _ =>
      simp only [List.cons_append, List.mem_cons, List.mem_append, List.mem_map, reduceCtorEq,
        and_false, exists_false, List.not_mem_nil, or_false, Change.unlisted.injEq] at hmem
      exact ⟨hmem.1.symm, hmem.2.symm⟩
  cases Event.HasMade.causes (Or.inl h) hmem with
  | unlisted he _ =>
    rcases he with rfl | rfl
    · cases h with
      | nothing => cases hmem
      | unmapped => exact hdrops
    · cases h with
      | nothing => cases hmem
      | exited =>
        rcases List.mem_append.mp hmem with hmem | hmem
        · obtain ⟨k, hk, hmem⟩ := List.mem_flatMap.mp hmem
          obtain ⟨_, rfl⟩ := hunlists hmem
          exact List.mem_append_left _ (List.mem_flatMap.mpr ⟨k, hk, hdrops⟩)
        · cases List.mem_singleton.mp hmem

theorem Event.listed {p q : Pager n} {e : Event} (hp : p.Agrees none) (he : e.Permitted p)
    (hq : e.apply p = some q) (hlisted : p.Listed) : q.Listed := by
  obtain ⟨cs, hmakes, hchain⟩ := e.chain (S := fun _ => True) hp he hq fun _ _ => trivial
  intro o v d hd hmapped
  have hv := ((hchain.agrees hp).descriptors.upage o v d hd).1
  rcases hchain.mapped_of hp hv hd hmapped
    with ⟨hkept, d', hd', hmapped', hw⟩ | ⟨fm, hmem, hvm, hsource⟩
  · obtain ⟨m, fm, hm, hvm, hsource⟩ := hlisted o v d' hd' hmapped'
    refine ⟨m, fm, hchain.mapping?_of_not_mem hp hm fun hmem => ?_, hvm, hw ▸ hsource⟩
    exact hkept (hmakes.dropped_of_unlisted hm hmem hvm)
  · -- an event that maps a file takes no mapping down
    have hunlisted : ∀ m, .unlisted o m ∉ cs := by
      intro m hmem'
      cases Event.HasMade.causes (Or.inl hmakes) hmem with
      | mapped =>
        cases Event.HasMade.causes (Or.inl hmakes) hmem' with
        | unlisted he => rcases he with he | he <;> cases he
    obtain ⟨m, hm, _⟩ := hchain.mapping?_of_mapped hp hmem hunlisted
    exact ⟨m, fm, hm, hvm, hsource⟩

theorem Run.listed {p q : Pager n} {es : List Event} (h : Run p es q) (hp : p.Agrees none)
    (hlisted : p.Listed) : q.Listed := by
  induction h with
  | refl => exact hlisted
  | step he happly _ ih => exact ih (Event.agrees hp he happly) (Event.listed hp he happly hlisted)

theorem Pager.IsStart.mapping?_eq_none {p : Pager n} (h : p.IsStart) (id : SpaceId) (m : Nat) :
    p.mapping? id m = none := by
  obtain ⟨_, _, _, _, hspace⟩ := h.fields
  unfold mapping?
  rw [(hspace id).2.2]
  rfl

theorem Pager.IsStart.listed {p : Pager n} (h : p.IsStart) : p.Listed := by
  intro o v d hd
  obtain ⟨_, _, _, _, hspace⟩ := h.fields
  unfold descriptor? at hd
  rw [(hspace o).2.1] at hd
  cases hd

/-- After each event of a run, every page of a mapping belongs to a live one. -/
theorem Pager.Reachable.listed {p : Pager n} (h : p.Reachable) : p.Listed := by
  obtain ⟨s, es, hs, hrun⟩ := h
  exact hrun.listed hs.agrees hs.listed

end DemandPaging

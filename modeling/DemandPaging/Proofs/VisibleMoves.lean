import DemandPaging.Proofs.FileMappings
import DemandPaging.Proofs.QuietMoves
/-!
# Visible moves keep the tables in agreement

The moves that carry out requests are gone through as the quiet ones were
(`Visible.agrees`). With both, tables that agree still do after any sequence of moves
(`Chain.agrees`).
-/

namespace DemandPaging

open Pager

variable {n : Nat}

namespace Visible

variable {p q : Pager n} {id : SpaceId} {upage : Nat} {i : Fin n}

theorem agrees_grown {directory : PageDirectory} (hp : p.Agrees (some i))
    (hi : p.assignment? i = some (.fresh id upage)) (hd : p.descriptor? id upage = none)
    (hmap : PageDirectory.Installed (p.space id).directory directory upage (p.frameAddress i) true)
    (hframes : q.frames = p.frames) (hswap : q.swap = p.swap)
    (hspaces : q.spaces = p.spaces.put id { p.space id with directory := directory }) :
    q.Agrees none := by
  obtain ⟨honly, haddr, hafter, _⟩ := Quiet.views_landed false (hp.frames.owner i _ hi)
    (hp.frames.upage i _ hi).1 hmap (fun _ _ => rfl) hspaces
  have hnone : q.descriptor? id upage = none := hafter.trans hd
  have hslot : p.slot? id upage = none := by
    unfold slot?
    rw [hd]
    rfl
  refine Quiet.agrees_landed p.swap.device.reads hp hi honly haddr (by rw [hframes])
    (by rw [hframes]) (by rw [hframes]) (by rw [hswap]; rfl) hslot ?_ ?_
  · intro e he
    exact absurd (hnone.symm.trans he) (by simp)
  · intro d w hpd _ _
    exact absurd (hd.symm.trans hpd) (by simp)

theorem agrees_described {d : Descriptor} {w : FileWindow} (hp : p.Agrees none)
    (hid : id < p.spaces.size) (haligned : PageAligned d.upage) (huser : IsUserAddress d.upage)
    (hb : d.backing = .privateFile w) (hloaded : d.loaded = false)
    (hd : p.descriptor? id d.upage = none) (hnone : p.address? id d.upage = none)
    (hframes : q.frames = p.frames) (hswap : q.swap = p.swap)
    (hspaces : q.spaces = p.spaces.put id
      { p.space id with descriptors := (p.space id).descriptors.insert d.upage d }) :
    q.Agrees none := by
  have honly : OnlyPage p q id d.upage := .of_put hspaces hid rfl rfl (fun _ _ => rfl)
    (fun _ _ _ => rfl) fun u hu => by rw [KeyedTable.find?_insert, if_neg hu]
  have haddr : ∀ o u, q.address? o u = p.address? o u := by
    intro o u
    rw [address?_of_put hspaces hid]
    split
    next ho => rw [ho]; rfl
    next => rfl
  have hafter : q.descriptor? id d.upage = some d := by
    rw [descriptor?_of_put hspaces hid, if_pos rfl, KeyedTable.find?_insert_self]
  refine ⟨?_, ?_, ?_, ?_⟩
  · exact hp.frames.congr (by rw [hframes]) (fun _ => by rw [hframes])
      (fun _ => by rw [assignment?, hframes, assignment?]) honly.size honly.reserved haddr
  · refine hp.descriptors.of_page honly ?_
    intro e he
    rw [hafter] at he
    cases he
    refine ⟨rfl, ⟨haligned, huser⟩, ?_, by simp [hloaded], by simp [hb]⟩
    rw [haddr, hnone, hloaded]
    simp
  · refine hp.slots.congr (by rw [hswap]) (by rw [hswap]) ?_
    intro o u
    by_cases hpage : o = id ∧ u = d.upage
    · rw [hpage.1, hpage.2, slot?, hafter, slot?, hd]
      simp [hb, Backing.slot?]
    · exact honly.slot? o u hpage
  · refine hp.mappings.of_page honly ?_
    intro m fm e w _ _ he _ _
    exact absurd (hd.symm.trans he) (by simp)

/-- What a new mapping changes: the descriptors of its pages, which were vacant, and the
list of mappings. -/
theorem views_mapped {source : FileRef} {base length : Nat} (hid : id < p.spaces.size)
    (hspaces : q.spaces = p.spaces.put id
      { p.space id with
        descriptors := (p.space id).descriptors.insertAll (mappingPages source base length)
        mappings := ((p.space id).mappings.add ⟨source, base, pagesFor length⟩).2 }) :
    (∀ o u, q.address? o u = p.address? o u)
      ∧ (∀ flag o u, q.has flag o u = p.has flag o u)
      ∧ (∀ k, k < pagesFor length →
        q.descriptor? id (base + k * pageSize) = some (mappingPage source base length k))
      ∧ (∀ o u, ¬(o = id ∧ u ∈ pageRange base (pagesFor length)) →
        q.descriptor? o u = p.descriptor? o u)
      ∧ ∀ o m, q.mapping? o m = if o = id ∧ m = (p.space id).mappings.nextId
          then some ⟨source, base, pagesFor length⟩ else p.mapping? o m := by
  refine ⟨?_, ?_, ?_, ?_, ?_⟩
  · intro o u
    rw [address?_of_put hspaces hid]
    split
    next ho => rw [ho]; rfl
    next => rfl
  · intro flag o u
    rw [has_of_put hspaces hid]
    split
    next ho => rw [ho]; rfl
    next => rfl
  · intro k hk
    rw [descriptor?_of_put hspaces hid, if_pos rfl]
    exact find?_mapped _ _ _ _ hk
  · intro o u hne
    rw [descriptor?_of_put hspaces hid]
    split
    next ho =>
      rw [find?_mapped_other _ _ _ _ fun hu => hne ⟨ho, hu⟩, ho]
      rfl
    next => rfl
  · intro o m
    unfold mapping?
    rw [mappings_of_put hspaces hid]
    by_cases ho : o = id
    · subst ho
      rw [if_pos rfl]
      simp only [true_and]
      exact KeyedTable.find?_insert ..
    · rw [if_neg ho, if_neg fun hc => ho hc.1]

/-- A page that is described once a file is mapped is one of the new pages, or was described
before. -/
theorem descriptor?_mapped {source : FileRef} {base length : Nat}
    (hnew : ∀ k, k < pagesFor length →
      q.descriptor? id (base + k * pageSize) = some (mappingPage source base length k))
    (hold : ∀ o u, ¬(o = id ∧ u ∈ pageRange base (pagesFor length)) →
      q.descriptor? o u = p.descriptor? o u) {o : SpaceId} {u : Nat} {d : Descriptor}
    (hd : q.descriptor? o u = some d) :
    p.descriptor? o u = some d ∨ ∃ k, k < pagesFor length ∧ o = id ∧ u = base + k * pageSize
      ∧ d = mappingPage source base length k := by
  by_cases hpage : o = id ∧ u ∈ pageRange base (pagesFor length)
  · obtain ⟨rfl, hu⟩ := hpage
    obtain ⟨k, hk, rfl⟩ := mem_pageRange.mp hu
    rw [hnew k hk] at hd
    exact Or.inr ⟨k, hk, rfl, rfl, (Option.some.inj hd).symm⟩
  · exact Or.inl (hold o u hpage ▸ hd)

theorem agrees_mapped {source : FileRef} {base length : Nat} (hp : p.Agrees none)
    (hid : id < p.spaces.size) (haligned : PageAligned base)
    (htop : base + pagesFor length * pageSize ≤ userTop)
    (hvacant : (p.space id).isVacantRange (pagesFor length) base = true)
    (hframes : q.frames = p.frames) (hswap : q.swap = p.swap)
    (hspaces : q.spaces = p.spaces.put id
      { p.space id with
        descriptors := (p.space id).descriptors.insertAll (mappingPages source base length)
        mappings := ((p.space id).mappings.add ⟨source, base, pagesFor length⟩).2 }) :
    q.Agrees none := by
  have hpos := pageSize_pos
  obtain ⟨haddr, _, hnew, hold, hmapping⟩ := views_mapped hid hspaces
  have hfree : ∀ k, k < pagesFor length → p.descriptor? id (base + k * pageSize) = none
      ∧ p.address? id (base + k * pageSize) = none := fun k hk =>
    isVacant_iff.mp (isVacantRange_iff.mp hvacant k hk)
  -- no descriptor is overwritten, since the new pages had none
  have hstays : ∀ o u d, p.descriptor? o u = some d → q.descriptor? o u = some d := by
    intro o u d hd
    rw [hold o u, hd]
    intro h
    obtain ⟨rfl, hu⟩ := h
    obtain ⟨k, hk, rfl⟩ := mem_pageRange.mp hu
    exact absurd ((hfree k hk).1.symm.trans hd) (by simp)
  refine ⟨?_, ?_, ?_, ?_⟩
  · refine hp.frames.congr (by rw [hframes]) (fun _ => by rw [hframes])
      (fun _ => by rw [assignment?, hframes, assignment?]) (by rw [hspaces, Spaces.size_put])
      ?_ haddr
    intro o
    rw [reserved_of_put hspaces hid]
    split
    next ho => rw [ho]
    next => rfl
  · refine hp.descriptors.of_added haddr ?_
    intro o u d hd
    rcases descriptor?_mapped hnew hold hd with hd | ⟨k, hk, rfl, rfl, rfl⟩
    · exact Or.inl hd
    -- the last page ends where the mapping does, below the top of user space
    · refine Or.inr ⟨rfl, ⟨haligned.add_mul k, ?_⟩, rfl, (hfree k hk).2, by simp [mappingPage]⟩
      have hle := mul_add_pageSize_le hk
      unfold IsUserAddress
      omega
  · refine hp.slots.congr (by rw [hswap]) (by rw [hswap]) ?_
    intro o u
    unfold slot?
    cases hd : q.descriptor? o u with
    | none =>
      cases hpd : p.descriptor? o u with
      | none => rfl
      | some d => exact absurd (hd.symm.trans (hstays o u d hpd)) (by simp)
    | some d =>
      rcases descriptor?_mapped hnew hold hd with hpd | ⟨k, hk, rfl, rfl, rfl⟩
      · rw [hpd]
      · rw [(hfree k hk).1]
        rfl
  · refine hp.mappings.of_added ⟨haligned, htop⟩ hmapping ?_ ?_ hstays fun k hk => (hfree k hk).1
    · intro o
      rw [mappings_of_put hspaces hid]
      split
      next ho => rw [ho]; rfl
      next => rfl
    · intro k hk
      exact ⟨_, _, hnew k hk, rfl, rfl, rfl, rfl⟩

theorem mapping?_unlisted {m : Nat} (o : SpaceId) (k : Nat) :
    (p.updateSpace id fun s => { s with mappings := s.mappings.remove m }).mapping? o k
      = if o = id ∧ k = m ∧ id < p.spaces.size then none else p.mapping? o k := by
  unfold mapping? space updateSpace
  simp only [Spaces.lookup_update]
  by_cases ho : o = id ∧ id < p.spaces.size
  · rw [if_pos ho, ho.1]
    refine (KeyedTable.find?_erase ..).trans ?_
    simp only [ho.2, and_true, true_and]
    rfl
  · rw [if_neg ho, if_neg fun hc => ho ⟨hc.1, hc.2.2⟩]

/-- Striking a mapping off the list changes nothing else. -/
theorem views_unlisted (id : SpaceId) (m : Nat)
    (hq : q = p.updateSpace id fun s => { s with mappings := s.mappings.remove m }) (o : SpaceId) :
    (q.space o).directory = (p.space o).directory
      ∧ (q.space o).descriptors = (p.space o).descriptors
      ∧ (q.space o).mappings.nextId = (p.space o).mappings.nextId := by
  subst hq
  unfold space updateSpace
  simp only [Spaces.lookup_update]
  split
  next h => rw [h.1]; exact ⟨rfl, rfl, rfl⟩
  next => exact ⟨rfl, rfl, rfl⟩

theorem agrees_unlisted {m : Nat} (hp : p.Agrees none) :
    (p.updateSpace id fun s => { s with mappings := s.mappings.remove m }).Agrees none := by
  have hviews := fun o => views_unlisted (p := p) id m rfl o
  have haddr : ∀ o u, (p.updateSpace id fun s =>
      { s with mappings := s.mappings.remove m }).address? o u = p.address? o u :=
    fun o u => congrArg (·.frameAddress? u) (hviews o).1
  have hdesc : ∀ o u, (p.updateSpace id fun s =>
      { s with mappings := s.mappings.remove m }).descriptor? o u = p.descriptor? o u :=
    fun o u => congrArg (·.find? u) (hviews o).2.1
  refine ⟨?_, hp.descriptors.congr haddr hdesc,
    hp.slots.congr rfl rfl (slot?_congr hdesc), ?_⟩
  · exact hp.frames.congr rfl (fun _ => rfl) (fun _ => rfl) (Spaces.size_update ..)
      (fun o => by rw [(hviews o).1]) haddr
  · refine hp.mappings.of_le ?_ (fun o => (hviews o).2.2)
      fun o k fm u d w _ _ hd hmapped hw => ⟨d, (hdesc o u).trans hd, hmapped, hw⟩
    intro o k fm hm
    rw [mapping?_unlisted] at hm
    split at hm
    next => cases hm
    next => exact hm

theorem views_droppedAbsent (hid : id < p.spaces.size)
    (hspaces : q.spaces = p.spaces.put id
      { p.space id with descriptors := (p.space id).descriptors.erase upage }) :
    OnlyPage p q id upage ∧ (∀ o u, q.address? o u = p.address? o u)
      ∧ q.descriptor? id upage = none := by
  refine ⟨.of_put hspaces hid rfl rfl (fun _ _ => rfl) (fun _ _ _ => rfl) ?_, ?_, ?_⟩
  · intro u hu
    rw [KeyedTable.find?_erase, if_neg hu]
  · intro o u
    rw [address?_of_put hspaces hid]
    split
    next ho => rw [ho]; rfl
    next => rfl
  · rw [descriptor?_of_put hspaces hid, if_pos rfl, KeyedTable.find?_erase, if_pos rfl]

theorem agrees_droppedAbsent {d : Descriptor} (hp : p.Agrees none)
    (hd : p.descriptor? id upage = some d)
    (hunlisted : ∀ m fm, p.mapping? id m = some fm → upage ∉ fm.pages)
    (hframes : q.frames = p.frames) (hswap : q.swap = p.swap.freed? d.backing.slot?)
    (hspaces : q.spaces = p.spaces.put id
      { p.space id with descriptors := (p.space id).descriptors.erase upage }) :
    q.Agrees none := by
  obtain ⟨honly, haddr, hafter⟩ := views_droppedAbsent (lt_size_of_descriptor hd) hspaces
  refine ⟨?_, ?_, ?_, ?_⟩
  · exact hp.frames.congr (by rw [hframes]) (fun _ => by rw [hframes])
      (fun _ => by rw [assignment?, hframes, assignment?]) honly.size honly.reserved haddr
  · refine hp.descriptors.of_page honly ?_
    intro e he
    exact absurd (hafter.symm.trans he) (by simp)
  · refine hp.slots.of_freed? d.backing.slot? p.swap.device.reads hswap honly ?_ ?_
    · unfold slot?
      rw [hd]
      rfl
    · unfold slot?
      rw [hafter]
      rfl
  · exact hp.mappings.of_page honly fun m fm e w hm hu _ _ _ => absurd hu (hunlisted m fm hm)

theorem views_droppedPresent (hid : id < p.spaces.size) (haligned : PageAligned upage)
    (hspaces : q.spaces = p.spaces.put id
      { p.space id with
        directory := (p.space id).directory.unmap upage
        descriptors := (p.space id).descriptors.erase upage }) :
    OnlyPage p q id upage ∧ q.address? id upage = none ∧ q.descriptor? id upage = none := by
  refine ⟨.of_put hspaces hid rfl rfl ?_ ?_ ?_, ?_, ?_⟩
  · intro u hu
    rw [PageDirectory.frameAddress?_unmap, haligned.pageBase_eq, if_neg hu]
  · intro flag u hu
    rw [PageDirectory.has_unmap, haligned.pageBase_eq, if_neg hu]
  · intro u hu
    rw [KeyedTable.find?_erase, if_neg hu]
  · rw [address?_of_put hspaces hid, if_pos rfl, PageDirectory.frameAddress?_unmap, if_pos rfl]
  · rw [descriptor?_of_put hspaces hid, if_pos rfl, KeyedTable.find?_erase, if_pos rfl]

theorem agrees_droppedPresent {a : Assignment} {d : Descriptor} {w : FileWindow}
    (hp : p.Agrees none) (hd : p.descriptor? id upage = some d) (hb : d.backing = .mappedFile w)
    (hunlisted : ∀ m fm, p.mapping? id m = some fm → upage ∉ fm.pages)
    (hi : p.assignment? i = some a) (howner : a.owner = id) (hupage : a.upage = upage)
    (hframes : q.frames = p.frames.without i) (hswap : q.swap = p.swap)
    (hspaces : q.spaces = p.spaces.put id
      { p.space id with
        directory := (p.space id).directory.unmap upage
        descriptors := (p.space id).descriptors.erase upage }) : q.Agrees none := by
  subst howner hupage
  have haligned := (hp.frames.upage i a hi).1
  obtain ⟨honly, hxnone, hafter⟩ :=
    views_droppedPresent (hp.frames.owner i a hi) haligned hspaces
  refine ⟨?_, ?_, ?_, ?_⟩
  · refine hp.frames.of_freed (· = i) (fun j hj => by cases hj) (by rw [hframes]; rfl)
      honly.size honly.reserved ?_ ?_ ?_
    · intro j
      rw [hframes, FrameTable.inUse_without]
      split
      next hj => simp [hj]
      next hj => simp [hj]
    · intro j b
      rw [assignment?, hframes, FrameTable.assignments_without]
      split
      next hj => simp [hj]
      next hj => simp [hj, assignment?]
    · intro o u x
      -- the one page that the frame backed is the page that is dropped
      have hgone : (∀ j b, j = i → p.assignment? j = some b → ¬(b.owner = o ∧ b.upage = pageBase u))
          ↔ ¬(o = a.owner ∧ pageBase u = a.upage) := by
        constructor
        · intro h hpage
          exact h i a rfl hi ⟨hpage.1.symm, hpage.2.symm⟩
        · intro h j b hji hb hpage
          subst hji
          rw [hi] at hb
          cases hb
          exact h ⟨hpage.1.symm, hpage.2.symm⟩
      rw [hgone]
      by_cases hpage : o = a.owner ∧ pageBase u = a.upage
      · rw [hpage.1, ← address?_pageBase, hpage.2, hxnone]
        simp
      · rw [honly.address? o u hpage]
        simp [hpage]
  · refine hp.descriptors.of_page honly ?_
    intro e he
    exact absurd (hafter.symm.trans he) (by simp)
  · refine hp.slots.congr (by rw [hswap]) (by rw [hswap]) ?_
    intro o u
    by_cases hpage : o = a.owner ∧ u = a.upage
    · rw [hpage.1, hpage.2, slot?, hafter, slot?, hd]
      simp [hb, Backing.slot?]
    · exact honly.slot? o u hpage
  · exact hp.mappings.of_page honly fun m fm e w' hm hu _ _ _ => absurd hu (hunlisted m fm hm)

end Visible

/-! ## The end of a space -/

namespace Pager

variable {p : Pager n}

/-- The slots of a space are all freed on request. -/
theorem SlotsAgree.freeSlots (hp : p.SlotsAgree) (id : SpaceId) :
    ∃ swap, (p.space id).descriptors.freeSlots p.swap = .ok swap
      ∧ swap.device = p.swap.device ∧ swap.slots.length = p.swap.slots.length ∧ swap.slots.Tidy
      ∧ ∀ slot, swap.Claimed slot ↔ p.swap.Claimed slot ∧ ∀ u, p.slot? id u ≠ some slot := by
  have hnamed : ∀ slot, slot ∈ slotsOf (p.space id).descriptors.values
      ↔ ∃ u, p.slot? id u = some slot := by
    intro slot
    simp only [mem_slotsOf_values, slot?_eq_some_iff]
    rfl
  have hnodup : (slotsOf (p.space id).descriptors.values).Nodup :=
    nodup_slotsOf_values fun u u' d d' slot hd hd' hs hs' =>
      (hp.unique id u id u' slot (slot?_eq_some_iff.mpr ⟨d, hd, hs⟩)
        (slot?_eq_some_iff.mpr ⟨d', hd', hs'⟩)).2
  obtain ⟨swap, hrun, hdevice, hlength, htidy, hiff⟩ := freeAll_eq_ok hnodup
    (fun slot hslot => (hp.claimed_iff slot).mpr ⟨id, (hnamed slot).mp hslot⟩) hp.tidy
  refine ⟨swap, hrun, hdevice, hlength, htidy, ?_⟩
  intro slot
  rw [hiff, hnamed, not_exists]

/-- Unmapping the pages of frames leaves the other pages mapped as they were. -/
theorem frameAddress?_unmapAll (frames : List (Fin n × Nat)) (d : PageDirectory) (u : Nat) :
    (frames.foldl (fun d frame => d.unmap frame.2) d).frameAddress? u
      = if ∃ frame ∈ frames, pageBase frame.2 = pageBase u then none else d.frameAddress? u := by
  induction frames generalizing d with
  | nil => simp
  | cons frame rest ih =>
    rw [List.foldl_cons, ih, PageDirectory.frameAddress?_unmap]
    simp only [List.mem_cons, or_and_right, exists_or, exists_eq_left, eq_comm (a := pageBase u)]
    by_cases hrest : ∃ frame ∈ rest, pageBase frame.2 = pageBase u
    · rw [if_pos hrest, if_pos (Or.inr hrest)]
    · rw [if_neg hrest]
      by_cases hfirst : pageBase frame.2 = pageBase u
      · rw [if_pos hfirst, if_pos (Or.inl hfirst)]
      · rw [if_neg hfirst, if_neg fun hc => hc.elim hfirst hrest]

theorem reserved_unmapAll (frames : List (Fin n × Nat)) (d : PageDirectory) :
    (frames.foldl (fun d frame => d.unmap frame.2) d).reserved = d.reserved := by
  induction frames generalizing d with
  | nil => rfl
  | cons frame rest ih =>
    rw [List.foldl_cons, ih]
    rfl

end Pager

namespace Visible

variable {p q : Pager n} {id : SpaceId}

/-- A space that ended has no page left, and the others have all of theirs. -/
theorem views_vacated (hp : p.FramesAgree none) (hid : id < p.spaces.size)
    (hspaces : q.spaces = p.spaces.put id
      { p.space id with
        directory := (p.frames.ownedBy id).foldl (fun d frame => d.unmap frame.2)
          (p.space id).directory
        descriptors := .empty }) :
    (∀ u, q.address? id u = none) ∧ (∀ u, q.descriptor? id u = none)
      ∧ (∀ o, o ≠ id → q.space o = p.space o)
      ∧ (q.space id).mappings = (p.space id).mappings ∧ (q.space id).directory.reserved = [] := by
  refine ⟨?_, ?_, ?_, ?_, ?_⟩
  · intro u
    rw [address?_of_put hspaces hid, if_pos rfl, frameAddress?_unmapAll]
    split
    next => rfl
    next hnot =>
      cases hx : (p.space id).directory.frameAddress? u with
      | none => rfl
      | some x =>
        -- what was mapped was mapped to a frame of the space, so it was unmapped with it
        obtain ⟨i, a, ha, _, howner, hupage⟩ := hp.assigned id u x hx
        refine absurd ⟨(i, a.upage), FrameTable.mem_ownedBy.mpr ⟨a, ha, howner, rfl⟩, ?_⟩ hnot
        rw [hupage, pageBase_pageBase]
  · intro u
    rw [descriptor?_of_put hspaces hid, if_pos rfl]
    rfl
  · intro o ho
    rw [space_of_put hspaces hid, if_neg ho]
  · rw [space_of_put hspaces hid, if_pos rfl]
  · rw [space_of_put hspaces hid, if_pos rfl]
    exact (reserved_unmapAll _ _).trans (hp.reserved id)

/-- The frames of a space that ended are free, and those of the others are still theirs. -/
theorem framesAgree_vacated (hp : p.FramesAgree none) (hid : id < p.spaces.size)
    (hframes : q.frames = ((p.frames.ownedBy id).map Prod.fst).foldl FrameTable.without p.frames)
    (hspaces : q.spaces = p.spaces.put id
      { p.space id with
        directory := (p.frames.ownedBy id).foldl (fun d frame => d.unmap frame.2)
          (p.space id).directory
        descriptors := .empty }) : q.FramesAgree none := by
  obtain ⟨hxnone, _, hother, _, hreserved⟩ := views_vacated hp hid hspaces
  have howned : ∀ i, i ∈ (p.frames.ownedBy id).map Prod.fst
      ↔ ∃ a, p.assignment? i = some a ∧ a.owner = id := fun _ => FrameTable.mem_frames_ownedBy
  refine hp.of_freed (· ∈ (p.frames.ownedBy id).map Prod.fst) (fun j hj => by cases hj)
    (by rw [hframes]; exact (FrameTable.pool_foldl_without _ _).1)
    (by rw [hspaces, Spaces.size_put]) ?_ ?_ ?_ ?_
  · intro o
    by_cases ho : o = id
    · rw [ho, hreserved, hp.reserved]
    · rw [hother o ho]
  · intro j
    rw [hframes, FrameTable.inUse_foldl_without]
  · intro j b
    rw [assignment?, hframes, FrameTable.assignments_foldl_without, assignment?]
  · intro o u x
    by_cases ho : o = id
    · subst ho
      rw [hxnone]
      refine iff_of_false (by simp) ?_
      intro h
      obtain ⟨hx, hstays⟩ := h
      obtain ⟨i, a, ha, _, howner, hupage⟩ := hp.assigned o u x hx
      exact hstays i a ((howned i).mpr ⟨a, ha, howner⟩) ha ⟨howner, hupage⟩
    · rw [address?, hother o ho]
      refine ⟨fun hx => ⟨hx, ?_⟩, fun h => h.1⟩
      intro j b hj hb h
      obtain ⟨hbo, _⟩ := h
      obtain ⟨a, ha, howner⟩ := (howned j).mp hj
      rw [ha] at hb
      cases hb
      exact ho (hbo.symm.trans howner)

theorem agrees_vacated (hp : p.Agrees none) (hid : id < p.spaces.size)
    (hunlisted : ∀ m, p.mapping? id m = none)
    (hswap : (p.space id).descriptors.freeSlots p.swap = .ok q.swap)
    (hframes : q.frames = ((p.frames.ownedBy id).map Prod.fst).foldl FrameTable.without p.frames)
    (hspaces : q.spaces = p.spaces.put id
      { p.space id with
        directory := (p.frames.ownedBy id).foldl (fun d frame => d.unmap frame.2)
          (p.space id).directory
        descriptors := .empty }) : q.Agrees none := by
  obtain ⟨_, hdnone, hother, hmappings, _⟩ := views_vacated hp.frames hid hspaces
  have hmapping : ∀ o m fm, q.mapping? o m = some fm → p.mapping? o m = some fm := by
    intro o m fm hm
    by_cases ho : o = id
    · subst ho
      rwa [mapping?, hmappings] at hm
    · rwa [mapping?, hother o ho] at hm
  refine ⟨framesAgree_vacated hp.frames hid hframes hspaces, ?_, ?_, ?_⟩
  · refine hp.descriptors.of_le ?_
    intro o u d hd
    by_cases ho : o = id
    · exact absurd ((ho ▸ hdnone u).symm.trans hd) (by simp)
    · rw [descriptor?, hother o ho] at hd
      exact ⟨hd, by rw [address?, hother o ho, address?]⟩
  · obtain ⟨swap, hrun, hdevice, hlength, htidy, hclaimed⟩ := hp.slots.freeSlots id
    -- the slots of the space are freed, and those of the others stay, as no slot is shared
    have hqswap : swap = q.swap := Except.ok.inj (hrun.symm.trans hswap)
    subst hqswap
    refine hp.slots.of_freed (fun o _ => o = id) hlength htidy (by rw [hdevice]) ?_ ?_
    · intro slot
      rw [hclaimed]
      exact and_congr_right fun _ => ⟨fun h o u ho => ho ▸ h u, fun h u => h id u rfl⟩
    · intro o u slot
      by_cases ho : o = id
      · subst ho
        simp [slot?, hdnone]
      · simp [slot?, descriptor?, hother o ho, ho]
  · refine hp.mappings.of_le hmapping ?_ ?_
    · intro o
      by_cases ho : o = id
      · rw [ho, hmappings]
      · rw [hother o ho]
    · intro o m fm u d w hm _ hd hmapped hw
      by_cases ho : o = id
      · exact absurd ((hunlisted m).symm.trans (ho ▸ hmapping o m fm hm)) (by simp)
      · exact ⟨d, by rwa [descriptor?, hother o ho], hmapped, hw⟩

/-- Every visible move keeps the tables in agreement. -/
theorem agrees {q : Pager n} {f g : Option (Fin n)} {c : Change} (move : Visible p f c q g)
    (hp : p.Agrees f) : q.Agrees g := by
  cases move with
  | grown hi hd _ hmap => exact agrees_grown hp hi hd hmap rfl rfl rfl
  | @stored id upage =>
    refine SameTables.agrees (p := p) ?_ hp
    have hflags : Spaces.Reflagged [.accessed, .dirty] p.spaces (p.spaces.update id fun s =>
        { s with directory :=
            (s.directory.setFlag .accessed upage true).setFlag .dirty upage true }) := by
      refine .update id
        (g := fun d => (d.setFlag .accessed upage true).setFlag .dirty upage true)
        ?_ ?_ fun d => rfl
      · intro d u
        rw [PageDirectory.frameAddress?_setFlag, PageDirectory.frameAddress?_setFlag]
      · intro d flag u hflag
        rw [PageDirectory.has_setFlag, if_neg fun hc => hflag (by simp [hc.2]),
          PageDirectory.has_setFlag, if_neg fun hc => hflag (by simp [hc.2])]
    exact SameTables.of_reflagged hflags rfl rfl rfl rfl
  | dirtied =>
    refine SameTables.agrees (p := p) ?_ hp
    exact SameTables.of_reflagged (.update_setFlag ..) rfl rfl rfl rfl
  | described hid haligned huser hb hloaded hd hnone =>
    exact agrees_described hp hid haligned huser hb hloaded hd hnone rfl rfl rfl
  | mapped hid hfault hvacant _ =>
    obtain ⟨haligned, htop, _⟩ := of_mappingFault?_eq_none hfault
    exact agrees_mapped hp hid haligned htop hvacant rfl rfl rfl
  | unlisted => exact agrees_unlisted hp
  | droppedAbsent hd _ hunlisted _ => exact agrees_droppedAbsent hp hd hunlisted rfl rfl rfl
  | droppedPresent hd hb hunlisted hi howner hupage =>
    exact agrees_droppedPresent hp hd hb hunlisted hi howner hupage rfl rfl rfl
  | closed =>
    refine SameTables.agrees (p := p) ?_ hp
    exact SameTables.of_spaces rfl rfl rfl rfl rfl rfl
  | vacated hid hunlisted hswap => exact agrees_vacated hp hid hunlisted hswap rfl rfl
  | rewritten =>
    refine SameTables.agrees (p := p) ?_ hp
    exact SameTables.of_spaces rfl rfl rfl rfl rfl rfl

end Visible

/-- Tables that agree still do after any sequence of moves. -/
theorem Chain.agrees {S : Array OpenFile → Prop} {p q : Pager n} {f g : Option (Fin n)}
    {cs : List Change} (h : Chain S p f cs q g) (hp : p.Agrees f) : q.Agrees g := by
  induction h with
  | refl => exact hp
  | quiet _ move ih => exact move.agrees ih
  | visible _ move ih => exact move.agrees ih

end DemandPaging

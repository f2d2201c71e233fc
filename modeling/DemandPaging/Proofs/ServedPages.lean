import DemandPaging.Proofs.Loading
/-!
# How a request for a page ends

A request for one page ends well with the page in a frame (`Served`): it was there, or it was
loaded, or the stack was extended to it. It ends with an error when there is no such page, or
when the page cannot be read (`Unread`). There is one lemma for each function that loads:
`bringIn_lands`, `ensureLoaded_serves`, `extendStack_grows`, `handleFault_serves` and
`pinResident_lands`. `ensureLoaded_spec` and `handleFault_spec` say less of the page.
-/

namespace DemandPaging

open Pager PagerAction Outcome

variable {n : Nat} {p q : Pager n} {id : SpaceId} {upage : Nat} {e : PagingError}

/-! ## Pages that are loaded -/

/-- Why a page was not brought in: it has no descriptor, or filling a frame failed. -/
inductive BringFails (p q : Pager n) (id : SpaceId) (upage : Nat) : PagingError → Prop where
  | notFound (hd : p.descriptor? id upage = none) : BringFails p q id upage .notFound
  | unread {d : Descriptor} {e : PagingError} (hd : p.descriptor? id upage = some d)
      (hnone : p.address? id upage = none) (h : LoadFails q.files q.swap d.backing e) :
      BringFails p q id upage e

/-- A page got a frame and could not be read into it. -/
inductive Unread (p : Pager n) (id : SpaceId) (upage : Nat) (e : PagingError) (q : Pager n) :
    Prop where
  | intro {d : Descriptor} {i : Fin n} (hd : p.descriptor? id upage = some d)
      (hloaded : d.loaded = false) (hfails : LoadFails q.files q.swap d.backing e)
      (h : p.GaveUp id upage i q)

theorem Unread.ne_badAddress (h : Unread p id upage e q) : e ≠ .badAddress := by
  cases h with
  | intro _ _ hfails =>
    cases hfails with
    | short | refused => exact nofun

theorem Unread.bringFails (h : Unread p id upage e q) (hp : p.Agrees none) :
    BringFails p q id upage e := by
  cases h with
  | intro hd hloaded hfails =>
    exact .unread hd (hp.descriptors.address?_of_not_loaded hd hloaded) hfails

/-- A page was not brought in. Either there is none, and nothing was done, or it was not read. -/
def Unserved (p : Pager n) (id : SpaceId) (upage : Nat) (e : PagingError) (q : Pager n) : Prop :=
  e = .notFound ∧ p.descriptor? id upage = none ∧ q = p ∨ Unread p id upage e q

theorem Unserved.bringFails (h : Unserved p id upage e q) (hp : p.Agrees none) :
    BringFails p q id upage e := by
  rcases h with ⟨rfl, hd, _⟩ | hunread
  · exact .notFound hd
  · exact hunread.bringFails hp

/-- A page is brought in if its descriptor says that it is not loaded. -/
theorem bringIn_lands (hp : p.Agrees none) (id : SpaceId) (upage : Nat) :
    ((bringIn id upage).run p).Meets
      (fun i? q => Leads id upage p [] q ∧ ∃ d, p.descriptor? id upage = some d ∧ match i? with
        | some i => d.loaded = false ∧ p.Landed id upage d i 1 q
        | none => d.loaded = true ∧ q = p)
      (fun e q => Leads id upage p [] q ∧ Unserved p id upage e q)
      (OutOfFrames p id upage) := by
  unfold bringIn
  simp only [run_bind, run_read]
  split
  next hnone => exact ⟨.refl, Or.inl ⟨rfl, hnone, rfl⟩⟩
  next d hd =>
    have hd : p.descriptor? id upage = some d := hd
    cases hloaded : d.loaded with
    | true => exact ⟨.refl, d, hd, hloaded, rfl⟩
    | false =>
      rw [if_neg (by simp), if_neg (hp.descriptors.backed id upage d hd)]
      refine (bringInAbsent_lands hp hd hloaded).bind
        (fun i q h => ⟨h.1, d, hd, hloaded, h.2⟩) ?_ fun _ h => h
      intro e q h
      obtain ⟨hleads, hfails, i, hgave⟩ := h
      exact ⟨hleads, Or.inr ⟨hd, hloaded, hfails, hgave⟩⟩

/-! ## Pages of the stack -/

/-- The stack was extended by the page `upage`, which is in the frame `i`. -/
structure Pager.Grown (id : SpaceId) (upage : Nat) (i : Fin n) (q : Pager n) : Prop where
  assigned : q.assignment? i = some ⟨id, upage, 0, false⟩
  descriptor? : q.descriptor? id upage = none
  writable : q.has .writable id upage = true
  framed? : q.framed? id upage = some .zero

theorem extendStack_grows (hp : p.Agrees none)
    (hid : id < p.spaces.size) (haligned : PageAligned upage) (huser : IsUserAddress upage)
    (hd : p.descriptor? id upage = none) (hnone : p.address? id upage = none) :
    ((extendStack id upage).run p).Meets
      (fun _ q => Leads id upage p [.grown id upage] q ∧ ∃ i, q.Grown id upage i)
      (fun _ _ => False)
      (OutOfFrames p id upage) := by
  unfold extendStack
  refine (obtainFrame_spec hp hid haligned huser hnone fun _ => False).bind ?_
    (fun _ _ h => h.elim) fun _ h => h
  intro i r h
  obtain ⟨hchain, hi, hzero, hrd⟩ := h
  have hr : r.Agrees (some i) := hchain.agrees hp
  have hrnone : r.address? id upage = none := by
    obtain ⟨a, ha, _, hnone⟩ := hr.frames.flying i rfl
    rw [hi] at ha
    cases ha
    exact hnone
  obtain ⟨directory, hmap, hrun⟩ := run_mapFrame (i := i) hr.frames huser hrnone true
  have hgrown : Visible r (some i) (.grown id upage)
      (r.putSpace id { r.space id with directory := directory }) none :=
    .grown hi (hrd.trans hd) (hzero rfl) hmap
  have hq := hgrown.agrees hr
  have hi : (r.putSpace id { r.space id with directory := directory }).assignment? i
      = some (.fresh id upage) := hi
  have hunpin := run_unpin hq.frames hi (show _ = id from rfl) (show _ = upage from rfl)
    (by simp [Assignment.fresh])
  simp only [run_bind, hrun, if_true, hunpin]
  have hleads : Leads id upage p [.grown id upage]
      (r.putSpace id { r.space id with directory := directory }) := by
    refine ⟨fun S _ => (hchain.mono fun _ h => h.elim).visible hgrown, ?_⟩
    refine (hchain.steady hp (fun _ _ => List.not_mem_nil) id upage).alters (hgrown.alters hr) ?_
    intro o u hc
    cases hc
    exact ⟨rfl, rfl, framed?_of_unmapped hnone⟩
  refine ⟨hleads.quiet hp (fun _ => .pinned hi) rfl, i, ?_⟩
  cases hgrown.alters hr with
  | grown _ _ _ hafter hframed _ hwritable =>
    exact ⟨(FrameTable.assignments_assign _ _ _ _).trans (if_pos rfl), hafter, hwritable, hframed⟩

/-! ## Pages that are asked for -/

/-- A page that was asked for is in a frame. -/
inductive Served (p : Pager n) (id : SpaceId) (upage : Nat) (q : Pager n) : Prop where
  /-- It was there, and nothing was done. -/
  | there (hmapped : (p.address? id upage).isSome = true) (hq : q = p)
  /-- It was loaded. -/
  | loaded {d : Descriptor} {i : Fin n} (hd : p.descriptor? id upage = some d)
      (hloaded : d.loaded = false) (h : p.Landed id upage d i 0 q)
  /-- The stack was extended to it. -/
  | grown {i : Fin n} (hd : p.descriptor? id upage = none) (hnone : p.address? id upage = none)
      (h : q.Grown id upage i)

namespace Served

/-- A page that was served is in a frame. It was there already, or it is not pinned. -/
theorem assigned (h : Served p id upage q) (hp : p.Agrees none) (haligned : PageAligned upage) :
    ∃ i a, q.assignment? i = some a ∧ a.owner = id ∧ a.upage = upage
      ∧ (q = p ∨ p.address? id upage = none ∧ a.pins = 0) := by
  cases h with
  | there hmapped hq =>
    subst hq
    obtain ⟨x, hx⟩ := Option.isSome_iff_exists.mp hmapped
    obtain ⟨i, a, ha, _, howner, hupage, _⟩ := hp.frames.frame_of_address hx
    exact ⟨i, a, ha, howner, hupage.trans haligned.pageBase_eq, Or.inl rfl⟩
  | loaded hd hloaded h =>
    exact ⟨_, _, h.assigned, rfl, rfl,
      Or.inr ⟨hp.descriptors.address?_of_not_loaded hd hloaded, rfl⟩⟩
  | grown _ hnone h => exact ⟨_, _, h.assigned, rfl, rfl, Or.inr ⟨hnone, rfl⟩⟩

theorem isMapped (h : Served p id upage q) (hp : p.Agrees none) (hq : q.Agrees none)
    (haligned : PageAligned upage) : (q.address? id upage).isSome = true := by
  obtain ⟨i, a, ha, rfl, rfl, _⟩ := h.assigned hp haligned
  rw [hq.frames.mapped i a ha (by simp)]
  rfl

end Served

theorem ensureLoaded_serves (hp : p.Agrees none) (id : SpaceId) (upage : Nat) :
    ((ensureLoaded id upage).run p).Meets
      (fun _ q => Leads id upage p [] q ∧ (p.descriptor? id upage).isSome = true
        ∧ Served p id upage q)
      (fun e q => Leads id upage p [] q ∧ Unserved p id upage e q)
      (OutOfFrames p id upage) := by
  unfold ensureLoaded
  refine (bringIn_lands hp id upage).bind ?_ (fun _ _ h => h) fun _ h => h
  intro found q h
  obtain ⟨hleads, d, hd, hfound⟩ := h
  have hdescribed : (p.descriptor? id upage).isSome = true := by
    rw [hd]
    rfl
  cases found with
  | none =>
    obtain ⟨hloaded, rfl⟩ := hfound
    exact ⟨hleads, hdescribed, .there ((hp.descriptors.loaded_iff id upage d hd).mp hloaded) rfl⟩
  | some i =>
    obtain ⟨hloaded, hlanded⟩ := hfound
    have hunpin := run_unpin (hleads.agrees hp).frames hlanded.assigned rfl rfl (by simp)
    simp only [hunpin]
    exact ⟨hleads.quiet hp (fun _ => .pinned hlanded.assigned) rfl, hdescribed,
      .loaded hd hloaded hlanded.unpinned⟩

theorem ensureLoaded_spec (hp : p.Agrees none) (id : SpaceId) (upage : Nat) :
    ((ensureLoaded id upage).run p).Meets
      (fun _ q => Leads id upage p [] q ∧ (q.address? id upage).isSome = true)
      (fun e q => Leads id upage p [] q ∧ BringFails p q id upage e)
      (OutOfFrames p id upage) := by
  refine (ensureLoaded_serves hp id upage).mono ?_ (fun _ _ h => ⟨h.1, h.2.bringFails hp⟩)
    fun _ h => h
  intro _ q h
  obtain ⟨hleads, hdescribed, hserved⟩ := h
  obtain ⟨d, hd⟩ := Option.isSome_iff_exists.mp hdescribed
  exact ⟨hleads, hserved.isMapped hp (hleads.agrees hp) (hp.descriptors.upage id upage d hd).1⟩

/-! ## Faults -/

/-- Why an access was wrong: the address is none of user space, or there is no page and the
stack does not grow there. -/
def BadAccess (p : Pager n) (id : SpaceId) (address stackPointer : Nat) : Prop :=
  address = 0 ∨ ¬ IsUserAddress address
    ∨ p.descriptor? id (pageBase address) = none ∧ p.address? id (pageBase address) = none
      ∧ p.config.isNearStack address stackPointer = false

/-- What a fault comes to. -/
inductive FaultCase (p : Pager n) (id : SpaceId) (address stackPointer : Nat) :
    Outcome n Unit → Prop where
  | wrong (h : BadAccess p id address stackPointer) :
      FaultCase p id address stackPointer (.failed .badAddress p)
  | described (h : ¬ BadAccess p id address stackPointer) (hzero : address ≠ 0)
      (huser : IsUserAddress address) (hd : (p.descriptor? id (pageBase address)).isSome = true) :
      FaultCase p id address stackPointer ((ensureLoaded id (pageBase address)).run p)
  | there (h : ¬ BadAccess p id address stackPointer)
      (hd : p.descriptor? id (pageBase address) = none)
      (hmapped : (p.address? id (pageBase address)).isSome = true) :
      FaultCase p id address stackPointer (.done () p)
  | grows (h : ¬ BadAccess p id address stackPointer) (huser : IsUserAddress address)
      (hd : p.descriptor? id (pageBase address) = none)
      (hnone : p.address? id (pageBase address) = none) :
      FaultCase p id address stackPointer ((extendStack id (pageBase address)).run p)

theorem handleFault_case (p : Pager n) (id : SpaceId) (address stackPointer : Nat) :
    FaultCase p id address stackPointer ((handleFault id address stackPointer).run p) := by
  unfold handleFault
  split
  next hbad => exact .wrong (hbad.imp_right Or.inl)
  next hbad =>
    have huser : IsUserAddress address := Decidable.not_not.mp fun h => hbad (Or.inr h)
    have hzero : address ≠ 0 := fun h => hbad (Or.inl h)
    -- what makes an access wrong is then the page, and not the address
    have hgood : (p.descriptor? id (pageBase address) = none →
          p.address? id (pageBase address) = none →
          p.config.isNearStack address stackPointer = false → False) →
        ¬ BadAccess p id address stackPointer := by
      intro hpage hwrong
      rcases hwrong with h | h | ⟨hd, hnone, hfar⟩
      · exact hzero h
      · exact h huser
      · exact hpage hd hnone hfar
    simp only [run_bind, run_read]
    split
    next hd =>
      have hd : (p.descriptor? id (pageBase address)).isSome = true := hd
      refine .described (hgood fun hnone _ _ => ?_) hzero huser hd
      rw [hnone] at hd
      cases hd
    next hd =>
      have hd : p.descriptor? id (pageBase address) = none := by
        simpa [KeyedTable.contains, descriptor?] using hd
      rw [PageDirectory.isMapped_eq]
      split
      next hmapped =>
        have hmapped : (p.address? id (pageBase address)).isSome = true := hmapped
        refine .there (hgood fun _ hnone _ => ?_) hd hmapped
        rw [hnone] at hmapped
        cases hmapped
      next hmapped =>
        have hnone : p.address? id (pageBase address) = none := by
          simpa [address?] using hmapped
        split
        next hnear =>
          exact .grows (hgood fun _ _ hfar => absurd (hnear.symm.trans hfar) (by simp)) huser hd
            hnone
        next hfar => exact .wrong (Or.inr (Or.inr ⟨hd, hnone, Bool.eq_false_iff.mpr hfar⟩))

/-- What a fault does: it loads the page if there is one, or else extends the stack. -/
theorem handleFault_spec (hp : p.Agrees none)
    (hid : id < p.spaces.size) (address stackPointer : Nat) :
    ((handleFault id address stackPointer).run p).Meets
      (fun _ q => ¬ BadAccess p id address stackPointer
        ∧ (Leads id (pageBase address) p [] q ∧ (q.address? id (pageBase address)).isSome = true
          ∨ p.descriptor? id (pageBase address) = none ∧ p.address? id (pageBase address) = none
            ∧ Leads id (pageBase address) p [.grown id (pageBase address)] q))
      (fun e q => Leads id (pageBase address) p [] q
        ∧ (e = .badAddress ∧ BadAccess p id address stackPointer
        ∨ (p.descriptor? id (pageBase address)).isSome = true ∧ address ≠ 0 ∧ IsUserAddress address
          ∧ BringFails p q id (pageBase address) e))
      (fun reason => OutOfFrames p id (pageBase address) reason) := by
  have hcase := handleFault_case p id address stackPointer
  generalize (handleFault id address stackPointer).run p = outcome at hcase
  cases hcase with
  | wrong hwrong => exact ⟨.refl, Or.inl ⟨rfl, hwrong⟩⟩
  | described hgood hzero huser hd =>
    exact (ensureLoaded_spec hp id (pageBase address)).mono (fun _ _ h => ⟨hgood, Or.inl h⟩)
      (fun _ _ h => ⟨h.1, Or.inr ⟨hd, hzero, huser, h.2⟩⟩) fun _ h => h
  | there hgood _ hmapped => exact ⟨hgood, Or.inl ⟨.refl, hmapped⟩⟩
  | grows hgood huser hd hnone =>
    exact (extendStack_grows hp hid (pageAligned_pageBase address) huser.pageBase hd hnone).mono
      (fun _ _ h => ⟨hgood, Or.inr ⟨hd, hnone, h.1⟩⟩) (fun _ _ h => h.elim) fun _ h => h

/-- A fault is served unless the access was wrong or the page cannot be read. -/
theorem handleFault_serves (hp : p.Agrees none)
    (hid : id < p.spaces.size) (address stackPointer : Nat) :
    ((handleFault id address stackPointer).run p).Meets
      (fun _ q => ¬ BadAccess p id address stackPointer ∧ Served p id (pageBase address) q)
      (fun e q => e = .badAddress ∧ BadAccess p id address stackPointer ∧ q = p
        ∨ Unread p id (pageBase address) e q)
      (OutOfFrames p id (pageBase address)) := by
  have hcase := handleFault_case p id address stackPointer
  generalize (handleFault id address stackPointer).run p = outcome at hcase
  cases hcase with
  | wrong hwrong => exact Or.inl ⟨rfl, hwrong, rfl⟩
  | described hgood _ _ hd =>
    refine (ensureLoaded_serves hp id (pageBase address)).mono (fun _ _ h => ⟨hgood, h.2.2⟩) ?_
      fun _ h => h
    intro e q h
    refine Or.inr (h.2.resolve_left fun hc => ?_)
    rw [hc.2.1] at hd
    cases hd
  | there hgood _ hmapped => exact ⟨hgood, .there hmapped rfl⟩
  | grows hgood huser hd hnone =>
    refine (extendStack_grows hp hid (pageAligned_pageBase address) huser.pageBase hd hnone).mono ?_
      (fun _ _ h => h.elim) fun _ h => h
    intro _ q h
    obtain ⟨_, i, hgrown⟩ := h
    exact ⟨hgood, .grown hd hnone hgrown⟩

/-! ## Pages that are pinned -/

/-- A page is pinned in its frame after it was loaded if need be. It cannot be that it is
neither resident nor absent. -/
theorem pinResident_lands (hp : p.Agrees none) (id : SpaceId) (upage : Nat) :
    ((pinResident id upage).run p).Meets
      (fun i q => Leads id upage p [] q
        ∧ (∃ a, q.assignment? i = some a ∧ a.owner = id ∧ a.upage = upage ∧ a.pins ≠ 0)
        ∧ ∀ d, p.descriptor? id upage = some d → d.loaded = false → p.Landed id upage d i 1 q)
      (fun e q => Leads id upage p [] q ∧ p.resident? id upage = none ∧ Unserved p id upage e q)
      (OutOfFrames p id upage) := by
  unfold pinResident
  refine (pin_spec p id upage).attempt.bind ?_ (fun _ _ h => h.elim) fun _ h => h.elim
  intro pinned q h
  rcases pinned with e | i
  · obtain ⟨rfl, rfl, hresident⟩ := h
    refine (bringIn_lands hp id upage).bind ?_ (fun _ _ h => ⟨h.1, hresident, h.2⟩) fun _ h => h
    intro found q h
    obtain ⟨hleads, d, hd, hfound⟩ := h
    cases found with
    | none =>
      -- a page that is loaded is resident, so it would have been pinned at once
      have hmapped := (hp.descriptors.loaded_iff id upage d hd).mp hfound.1
      rw [address?_of_not_resident hp.frames (hp.descriptors.upage id upage d hd).1 hresident]
        at hmapped
      cases hmapped
    | some i =>
      refine ⟨hleads, ⟨_, hfound.2.assigned, rfl, rfl, by simp⟩, ?_⟩
      intro d' hd' _
      cases hd.symm.trans hd'
      exact hfound.2
  · obtain ⟨a, hi, rfl, rfl, rfl⟩ := h
    refine ⟨Leads.refl.quiet hp (fun _ => .pinned hi) rfl, ⟨_,
      (FrameTable.assignments_assign _ _ _ _).trans (if_pos rfl), rfl, rfl, Nat.succ_ne_zero _⟩, ?_⟩
    intro d hd hloaded
    have hnone := hp.descriptors.address?_of_not_loaded hd hloaded
    rw [hp.frames.mapped i a hi (by simp)] at hnone
    cases hnone

end DemandPaging

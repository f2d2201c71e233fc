import DemandPaging.Pager.Lifetime
import DemandPaging.Proofs.Loading
/-!
# Taking mappings and spaces down

`dropPage_spec`: a page of a mapping that is off the list goes with its frame, descriptor
and slot, whether or not it can be written back. From this follow `unmapFile_spec` and, for
the end of a process, `exitSpace_spec`. Nothing here loads a page, takes a frame or clears a
flag, so all of it is visible moves with no quiet one between them.
-/

namespace DemandPaging

open Pager PagerAction Outcome

variable {n : Nat}

/-- The state after a page surrendered its frame. -/
def Pager.surrendered (p : Pager n) (id : SpaceId) (upage : Nat) (i : Fin n) (w : FileWindow) :
    Pager n :=
  { p with
    frames := p.frames.without i
    files := p.filesAfter (p.has .dirty id upage) w (p.page i)
    spaces := p.spaces.put id
      { p.space id with directory := (p.space id).directory.unmap upage } }

/-- Why a page cannot be written to its window, if it cannot. -/
def FileWindow.saveFault? (w : FileWindow) (file : OpenFile) (page : Page) : Option PagingError :=
  match (w.save file page).1 with
  | .ok () => none
  | .error e => some e

/-- Why a page that goes is not all in its file, if it is dirty and the file falls short. -/
def Pager.saveFault? (p : Pager n) (id : SpaceId) (upage : Nat) : Option PagingError :=
  match (p.descriptor? id upage).bind (·.backing.window?), p.resident? id upage with
  | some w, some (i, _) =>
    if p.has .dirty id upage then w.saveFault? (p.file w.source.file) (p.page i) else none
  | _, _ => none

/-- A file without limits takes every page. -/
theorem Pager.of_saveFault? {p : Pager n} {id : SpaceId} {upage : Nat} {e : PagingError}
    (h : p.saveFault? id upage = some e) :
    ∃ w, (p.descriptor? id upage).bind (·.backing.window?) = some w
      ∧ ¬ (p.file w.source.file).IsPlain := by
  unfold saveFault? at h
  split at h
  next w i _ hw _ =>
    refine ⟨w, hw, fun hplain => ?_⟩
    unfold FileWindow.saveFault? at h
    rw [FileWindow.save_of_isPlain hplain] at h
    simp at h
  next => cases h

theorem surrenderFrame_spec {p : Pager n} {id : SpaceId} {upage : Nat} {d : Descriptor}
    {w : FileWindow} {i : Fin n} {a : Assignment} (hp : p.Agrees none)
    (hd : p.descriptor? id upage = some d) (hw : d.backing.window? = some w)
    (hi : p.assignment? i = some a) (howner : a.owner = id) (hupage : a.upage = upage) :
    ((surrenderFrame id upage).run p).Meets
      (fun _ q => q = p.surrendered id upage i w ∧ p.saveFault? id upage = none)
      (fun e q => q = p.surrendered id upage i w ∧ p.saveFault? id upage = some e)
      (fun _ => False) := by
  have hid := lt_size_of_descriptor hd
  have hresident : p.resident? id upage = some (i, a) :=
    howner ▸ hupage ▸ resident?_of_assigned hp.frames hi
  have hfault : p.saveFault? id upage = if p.has .dirty id upage
      then w.saveFault? (p.file w.source.file) (p.page i) else none := by
    unfold Pager.saveFault?
    rw [hd, hresident, Option.bind_some, hw]
  obtain ⟨r, hr⟩ : ∃ r, r = p.putSpace id { p.space id with
    directory := (p.space id).directory.unmap upage } := ⟨_, rfl⟩
  -- the frame can be given back, whatever was written to the file before
  have hreturn : ∀ files, (returnFrame id i).run { r with files := files }
      = .done () { r with files := files, frames := p.frames.without i } := fun files =>
    run_returnFrame hp.frames hi howner (by rw [hr]; rfl)
  have hwindow : ((r.space id).descriptors.find? upage).bind (·.backing.window?) = some w := by
    rw [hr, space_putSpace hid]
    show (p.descriptor? id upage).bind (·.backing.window?) = some w
    rw [hd]
    exact hw
  have hfile : r.file w.source.file = p.file w.source.file ∧ r.page i = p.page i := by
    rw [hr]
    exact ⟨rfl, rfl⟩
  have hgoal : ∀ files, files = p.filesAfter (p.has .dirty id upage) w (p.page i) →
      ({ r with files := files, frames := p.frames.without i } : Pager n)
        = p.surrendered id upage i w := by
    intro files hfiles
    rw [hr, hfiles]
    rfl
  unfold surrenderFrame unmapFrame
  simp only [run_bind, run_read, run_update, hresident, updateDirectory, updateSpace_eq, ← hr]
  cases hdirty : (p.space id).directory.dirty upage with
  | false =>
    have hclean : p.has .dirty id upage = false := hdirty
    rw [if_neg (by simp), run_attempt, run_pure]
    simp only [hreturn r.files]
    refine ⟨hgoal _ ?_, hfault.trans (if_neg (by simp [hclean]))⟩
    rw [filesAfter, hclean, if_neg (by simp), hr]
    rfl
  | true =>
    have hset : p.has .dirty id upage = true := hdirty
    rw [if_pos rfl, run_attempt]
    unfold writeBackPage
    simp only [run_bind, run_read, hwindow, run_saveToFile, hfile.1, hfile.2]
    cases hsave : w.save (p.file w.source.file) (p.page i) with
    | mk result file =>
      have hfiles : r.files.modify w.source.file (fun _ => file)
          = p.filesAfter (p.has .dirty id upage) w (p.page i) := by
        rw [filesAfter, hset, if_pos rfl, hsave, hr]
        rfl
      rw [hfault, if_pos hset, FileWindow.saveFault?, hsave]
      cases result with
      | ok u =>
        simp only [updateFile, hreturn]
        exact ⟨hgoal _ hfiles, trivial⟩
      | error e =>
        simp only [updateFile, hreturn]
        exact ⟨hgoal _ hfiles, rfl⟩

/-- The state after a page lost its descriptor and slot. -/
def Pager.forgotten (p : Pager n) (id : SpaceId) (upage : Nat) (slot? : Option Nat) : Pager n :=
  { p with
    swap := p.swap.freed? slot?
    spaces := p.spaces.put id
      { p.space id with descriptors := (p.space id).descriptors.erase upage } }

/-- However the page surrendered its frame, its descriptor and slot go. -/
theorem run_dropPage {p r : Pager n} {id : SpaceId} {upage : Nat} {d : Descriptor}
    {saved : Except PagingError Unit}
    (hrun : (attempt (surrenderFrame id upage)).run p = .done saved r)
    (hd : (r.space id).descriptors.find? upage = some d)
    (hclaimed : ∀ slot, d.backing.slot? = some slot → r.swap.Claimed slot) :
    (dropPage id upage).run p
      = (ofResult saved).run (r.forgotten id upage d.backing.slot?) := by
  have hfree := run_freeSlot? (p := r.putSpace id { r.space id with
    descriptors := (r.space id).descriptors.erase upage }) hclaimed
  unfold dropPage
  rw [run_bind, hrun]
  simp only [run_bind, run_read, run_update, updateDescriptors, updateSpace_eq, hd,
    Option.bind_some, hfree]
  rfl

/-- What is left of a page that had a frame is nothing, in one step instead of two. -/
theorem forgotten_surrendered {p : Pager n} {id : SpaceId} (hid : id < p.spaces.size) (upage : Nat)
    (i : Fin n) (w : FileWindow) :
    (p.surrendered id upage i w).forgotten id upage none
      = { p with
          frames := p.frames.without i
          files := p.filesAfter (p.has .dirty id upage) w (p.page i)
          spaces := p.spaces.put id
            { p.space id with
              directory := (p.space id).directory.unmap upage
              descriptors := (p.space id).descriptors.erase upage } } := by
  have hspace : (p.surrendered id upage i w).space id
      = { p.space id with directory := (p.space id).directory.unmap upage } :=
    space_putSpace hid _
  unfold Pager.forgotten
  rw [hspace]
  unfold Pager.surrendered
  simp only [Spaces.put_put]
  rfl

/-- A page that has a frame is dropped with it, whether or not its file could take it. -/
theorem dropPage_of_resident {p : Pager n} {id : SpaceId} {upage : Nat} {d : Descriptor}
    {i : Fin n} {a : Assignment} (hp : p.Agrees none) (hd : p.descriptor? id upage = some d)
    (hmapped : d.backing.isMapped = true)
    (hunlisted : ∀ m fm, p.mapping? id m = some fm → upage ∉ fm.pages)
    (hi : p.assignment? i = some a) (howner : a.owner = id) (hupage : a.upage = upage) :
    ((dropPage id upage).run p).Meets
      (fun _ q => (Visible p none (.dropped id upage) q none ∧ OnlyPage p q id upage)
        ∧ p.saveFault? id upage = none)
      (fun e q => (Visible p none (.dropped id upage) q none ∧ OnlyPage p q id upage)
        ∧ p.saveFault? id upage = some e)
      (fun _ => False) := by
  have hid := lt_size_of_descriptor hd
  have haligned := (hp.descriptors.upage id upage d hd).1
  have hloaded : d.loaded = true := by
    refine (hp.descriptors.loaded_iff id upage d hd).mpr ?_
    rw [← howner, ← hupage, hp.frames.mapped i a hi (by simp)]
    rfl
  have hnoslot := hp.descriptors.slot_of_loaded id upage d hd hloaded
  obtain ⟨w, hb⟩ := Backing.eq_mappedFile hmapped hnoslot
  have hsurrender := surrenderFrame_spec hp hd (by rw [hb]; rfl : d.backing.window? = some w) hi
    howner hupage
  have hrd : ((p.surrendered id upage i w).space id).descriptors.find? upage = some d := by
    show ((p.putSpace id _).space id).descriptors.find? upage = some d
    rw [space_putSpace hid]
    exact hd
  have hdropped : Visible p none (.dropped id upage)
      ((p.surrendered id upage i w).forgotten id upage d.backing.slot?) none
      ∧ OnlyPage p ((p.surrendered id upage i w).forgotten id upage d.backing.slot?) id
        upage := by
    rw [hnoslot, forgotten_surrendered hid]
    exact ⟨.droppedPresent hd hb hunlisted hi howner hupage,
      (Visible.views_droppedPresent hid haligned rfl).1⟩
  -- both ends leave the same state: the descriptor goes whether or not the file took the page
  cases hrun : (surrenderFrame id upage).run p with
  | done u q =>
    rw [hrun] at hsurrender
    obtain ⟨rfl, hfault⟩ := hsurrender
    rw [run_dropPage (by rw [run_attempt, hrun]) hrd (by simp [hnoslot])]
    exact ⟨hdropped, hfault⟩
  | failed e q =>
    rw [hrun] at hsurrender
    obtain ⟨rfl, hfault⟩ := hsurrender
    rw [run_dropPage (by rw [run_attempt, hrun]) hrd (by simp [hnoslot])]
    exact ⟨hdropped, hfault⟩
  | fatal reason =>
    rw [hrun] at hsurrender
    exact hsurrender.elim

/-- A page of a mapping that is off the list goes with all that it has. -/
theorem dropPage_spec {p : Pager n} {id : SpaceId} {upage : Nat} {d : Descriptor}
    (hp : p.Agrees none) (hd : p.descriptor? id upage = some d)
    (hmapped : d.backing.isMapped = true)
    (hunlisted : ∀ m fm, p.mapping? id m = some fm → upage ∉ fm.pages) :
    ((dropPage id upage).run p).Meets
      (fun _ q => (Visible p none (.dropped id upage) q none ∧ OnlyPage p q id upage)
        ∧ p.saveFault? id upage = none)
      (fun e q => (Visible p none (.dropped id upage) q none ∧ OnlyPage p q id upage)
        ∧ p.saveFault? id upage = some e)
      (fun _ => False) := by
  cases hresident : p.resident? id upage with
  | none =>
    have haligned := (hp.descriptors.upage id upage d hd).1
    have hnone := address?_of_not_resident hp.frames haligned hresident
    have hclaimed : ∀ slot, d.backing.slot? = some slot → p.swap.Claimed slot := fun slot hs =>
      (hp.slots.claimed_iff slot).mpr ⟨id, upage, slot?_eq_some_iff.mpr ⟨d, hd, hs⟩⟩
    have hsurrender : (attempt (surrenderFrame id upage)).run p = .done (.ok ()) p := by
      unfold surrenderFrame
      simp only [run_attempt, run_bind, run_read, hresident, run_pure]
    have hfault : p.saveFault? id upage = none := by
      unfold Pager.saveFault?
      rw [hresident]
      cases (p.descriptor? id upage).bind (·.backing.window?) <;> rfl
    rw [run_dropPage hsurrender hd hclaimed]
    exact ⟨⟨.droppedAbsent hd hmapped hunlisted hnone,
      (Visible.views_droppedAbsent (lt_size_of_descriptor hd) rfl).1⟩, hfault⟩
  | some found =>
    obtain ⟨i, a⟩ := found
    obtain ⟨hi, howner, hupage⟩ := of_resident? hresident
    exact dropPage_of_resident hp hd hmapped hunlisted hi howner hupage

/-- The pages differ, each of them is described as one of a mapping, and none belongs to a mapping
that is still on the list. -/
structure Pager.Droppable (p : Pager n) (id : SpaceId) (pages : List Nat) : Prop where
  nodup : pages.Nodup
  described : ∀ u ∈ pages, ∃ d, p.descriptor? id u = some d ∧ d.backing.isMapped = true
  unlisted : ∀ u ∈ pages, ∀ m fm, p.mapping? id m = some fm → u ∉ fm.pages

/-- When the first page was dropped the others are what they were. -/
theorem Pager.Droppable.rest {p q : Pager n} {id : SpaceId} {u : Nat} {rest : List Nat}
    (h : p.Droppable id (u :: rest)) (honly : OnlyPage p q id u) :
    (∀ v ∈ rest, v ≠ u ∧ q.descriptor? id v = p.descriptor? id v) ∧ q.Droppable id rest := by
  obtain ⟨hnotin, hnodup⟩ := List.nodup_cons.mp h.nodup
  have hothers : ∀ v ∈ rest, v ≠ u ∧ q.descriptor? id v = p.descriptor? id v := by
    intro v hv
    have hne : v ≠ u := fun hvu => hnotin (hvu ▸ hv)
    exact ⟨hne, honly.descriptor? id v fun hc => hne hc.2⟩
  refine ⟨hothers, hnodup, fun v hv => ?_, fun v hv m fm hm => ?_⟩
  · rw [(hothers v hv).2]
    exact h.described v (List.mem_cons_of_mem _ hv)
  · rw [mapping?_congr honly.mappings] at hm
    exact h.unlisted v (List.mem_cons_of_mem _ hv) m fm hm

/-- Pages of mappings that are off the list are all dropped, each of them once. If their files
take whatever is written to them nothing is reported. -/
theorem dropPages_spec {p : Pager n} {id : SpaceId} {pages : List Nat} (hp : p.Agrees none)
    (hpages : p.Droppable id pages) :
    ((dropPages id pages).run p).Meets
      (fun result q => (Visibly p (pages.map (.dropped id)) q
        ∧ q.spaces.size = p.spaces.size ∧ ∀ o, (q.space o).mappings = (p.space o).mappings)
        ∧ ((∀ u ∈ pages, ∀ d w, p.descriptor? id u = some d → d.backing.window? = some w →
          (p.file w.source.file).IsPlain) → result = .ok ()))
      (fun _ _ => False)
      (fun _ => False) := by
  induction pages generalizing p with
  | nil => exact ⟨⟨.refl, rfl, fun _ => rfl⟩, fun _ => rfl⟩
  | cons u rest ih =>
    obtain ⟨d, hd, hmapped⟩ := hpages.described u (List.mem_cons_self ..)
    rw [dropPages]
    refine (dropPage_spec hp hd hmapped (hpages.unlisted u (List.mem_cons_self ..))).attempt.bind
      ?_ (fun _ _ h => h.elim) fun _ h => h
    intro first q h
    -- a page that could not be written is dropped all the same
    have h : (Visible p none (.dropped id u) q none ∧ OnlyPage p q id u)
        ∧ ∀ e, first = .error e → p.saveFault? id u = some e := by
      cases first with
      | ok u => exact ⟨h.1, fun _ he => by simp at he⟩
      | error e => exact ⟨h.1, fun _ he => by cases he; exact h.2⟩
    obtain ⟨⟨hmove, honly⟩, hfailed⟩ := h
    obtain ⟨hothers, hrest⟩ := hpages.rest honly
    refine (ih (hmove.agrees hp) hrest).bind ?_ (fun _ _ h => h) fun _ h => h
    intro later r h
    obtain ⟨⟨hvisibly, hsize, hmappings⟩, hlater⟩ := h
    have hall : Visibly p ((u :: rest).map (.dropped id)) r
        ∧ r.spaces.size = p.spaces.size ∧ ∀ o, (r.space o).mappings = (p.space o).mappings :=
      ⟨(Visibly.of_visible hmove).trans hvisibly, hsize.trans honly.size,
        fun o => (hmappings o).trans (honly.mappings o)⟩
    cases first with
    | ok _ =>
      refine ⟨hall, fun hplain => hlater ?_⟩
      intro v hv e w he hw
      exact (hmove.alters hp).isPlain (by simp)
        (hplain v (List.mem_cons_of_mem _ hv) e w ((hothers v hv).2.symm.trans he) hw)
    | error e =>
      refine ⟨hall, fun hplain => ?_⟩
      obtain ⟨w, hw, hlimited⟩ := of_saveFault? (hfailed e rfl)
      rw [hd, Option.bind_some] at hw
      exact absurd (hplain u (List.mem_cons_self ..) d w hd hw) hlimited

theorem nodup_pageRange (base count : Nat) : (pageRange base count).Nodup := by
  have hpos := pageSize_pos
  unfold pageRange
  refine List.pairwise_map.mpr (List.pairwise_lt_range.imp fun {i j} hij heq => ?_)
  exact Nat.ne_of_lt hij (Nat.eq_of_mul_eq_mul_right hpos (Nat.add_left_cancel heq))

/-- What taking a mapping down does: nothing if the number is not that of a live mapping. -/
def unmapChanges (p : Pager n) (id : SpaceId) (m : Nat) : List Change :=
  match p.mapping? id m with
  | none => []
  | some fm => .unlisted id m :: fm.pages.map (.dropped id)
      ++ [.closed fm.source.file fm.source.handle]

/-- A mapping is struck off the list. Its pages are still there, and belong to no other one. -/
structure Pager.Unlisted (p : Pager n) (id : SpaceId) (m : Nat) (fm : FileMapping) (r : Pager n) :
    Prop where
  visible : Visible p none (.unlisted id m) r none
  size : r.spaces.size = p.spaces.size
  files : r.files = p.files
  mapping? : ∀ o k, r.mapping? o k = if o = id ∧ k = m then none else p.mapping? o k
  descriptor? : ∀ u, r.descriptor? id u = p.descriptor? id u
  droppable : r.Droppable id fm.pages

/-- Taking a mapping down begins by striking it off the list, and then drops its pages. -/
theorem run_unmapFile_of_some {p : Pager n} {id : SpaceId} {m : Nat} {fm : FileMapping}
    (hp : p.Agrees none) (hid : id < p.spaces.size) (hm : p.mapping? id m = some fm) :
    ∃ r, p.Unlisted id m fm r
      ∧ (unmapFile id m).run p = match (dropPages id fm.pages).run r with
        | .done result q =>
          (ofResult result).run (q.updateFile fm.source.file (·.close fm.source.handle))
        | .failed e q => .failed e q
        | .fatal reason => .fatal reason := by
  obtain ⟨r, hr⟩ : ∃ r, r = p.updateSpace id fun s =>
    { s with mappings := s.mappings.remove m } := ⟨_, rfl⟩
  have hmapping : ∀ o k, r.mapping? o k = if o = id ∧ k = m then none else p.mapping? o k := by
    intro o k
    rw [hr, Visible.mapping?_unlisted]
    simp only [hid, and_true]
  have hdesc : ∀ u, r.descriptor? id u = p.descriptor? id u :=
    fun u => congrArg (·.find? u) (Visible.views_unlisted _ _ hr id).2.1
  refine ⟨r, ⟨hr ▸ .unlisted, hr ▸ Spaces.size_update .., hr ▸ rfl, hmapping, hdesc,
    nodup_pageRange .., fun u hu => ?_, fun u hu k fk hk hu' => ?_⟩, ?_⟩
  · obtain ⟨i, hi, rfl⟩ := mem_pageRange.mp hu
    obtain ⟨d, w, hd, hmapped, _⟩ := hp.mappings.described id m fm i hm hi
    exact ⟨d, (hdesc _).trans hd, hmapped⟩
  · rw [hmapping] at hk
    split at hk
    next => cases hk
    next hne => exact hne ⟨rfl, hp.mappings.disjoint id k m fk fm u hk hm hu' hu⟩
  · unfold unmapFile
    simp only [run_bind, run_read, run_update, show (p.space id).mappings.find? m = some fm from hm,
      ← hr]
    cases (dropPages id fm.pages).run r with
    | done result q => rfl
    | failed e q => rfl
    | fatal reason => rfl

theorem run_unmapFile_of_none {p : Pager n} {id : SpaceId} {m : Nat} (h : p.mapping? id m = none) :
    (unmapFile id m).run p = .done () p := by
  unfold unmapFile
  rw [run_bind, run_read, show (p.space id).mappings.find? m = none from h]
  rfl

/-- What taking a mapping down comes to: its pages are gone, and it is the only mapping that
goes. -/
structure Pager.Unmapped (p : Pager n) (id : SpaceId) (m : Nat) (q : Pager n) : Prop where
  visibly : Visibly p (unmapChanges p id m) q
  size : q.spaces.size = p.spaces.size
  mapping? : ∀ o k, q.mapping? o k = if o = id ∧ k = m then none else p.mapping? o k

theorem Pager.Unmapped.chain {p q : Pager n} {id : SpaceId} {m : Nat} (h : p.Unmapped id m q)
    (S : Array OpenFile → Prop) : Chain S p none (unmapChanges p id m) q none := h.visibly.chain

/-- A mapping is taken down, whether or not all its pages could be written back. They could
unless the file has limits. -/
theorem unmapFile_spec {p : Pager n} {id : SpaceId} (hp : p.Agrees none)
    (hid : id < p.spaces.size) (m : Nat) :
    ((unmapFile id m).run p).Meets (fun _ q => p.Unmapped id m q)
      (fun _ q => p.Unmapped id m q
        ∧ ∃ fm, p.mapping? id m = some fm ∧ ¬ (p.file fm.source.file).IsPlain)
      (fun _ => False) := by
  cases hm : p.mapping? id m with
  | none =>
    rw [run_unmapFile_of_none hm]
    have hnothing : unmapChanges p id m = [] := by
      unfold unmapChanges
      rw [hm]
    refine ⟨hnothing ▸ .refl, rfl, ?_⟩
    intro o k
    split
    next h => rw [h.1, h.2, hm]
    next => rfl
  | some fm =>
    obtain ⟨r, hunlisted, hunmap⟩ := run_unmapFile_of_some hp hid hm
    have hchanges : unmapChanges p id m = .unlisted id m :: fm.pages.map (.dropped id)
        ++ [.closed fm.source.file fm.source.handle] := by
      unfold unmapChanges
      rw [hm]
    have hdrop := dropPages_spec (hunlisted.visible.agrees hp) hunlisted.droppable
    rw [hunmap]
    cases hrun : (dropPages id fm.pages).run r with
    | failed e q =>
      rw [hrun] at hdrop
      exact hdrop.elim
    | fatal reason =>
      rw [hrun] at hdrop
      exact hdrop.elim
    | done result q =>
      rw [hrun] at hdrop
      obtain ⟨⟨hvisibly, hsize, hmappings⟩, hresult⟩ := hdrop
      have hend : p.Unmapped id m (q.updateFile fm.source.file (·.close fm.source.handle)) := by
        refine ⟨?_, hsize.trans hunlisted.size, ?_⟩
        · rw [hchanges]
          exact ((Visibly.of_visible hunlisted.visible).trans hvisibly).step .closed
        · intro o k
          rw [← hunlisted.mapping?]
          exact mapping?_congr hmappings o k
      cases result with
      | ok u => exact hend
      | error e =>
        refine ⟨hend, fm, rfl, fun hplain => absurd (hresult ?_) (by simp)⟩
        -- all pages of the mapping have windows onto its one file
        intro u hu d w hd hw
        obtain ⟨i, hi, rfl⟩ := mem_pageRange.mp hu
        obtain ⟨d', w', hd', _, hw', hsource, _⟩ := hp.mappings.described id m fm i hm hi
        cases (hunlisted.descriptor? _).symm.trans hd |>.symm.trans hd'
        cases hw.symm.trans hw'
        unfold Pager.file
        rw [hsource, hunlisted.files]
        exact hplain

/-! ## The end of a process -/

/-- The changes of taking several mappings of a space down, one after the other. The pages
of one mapping are not touched by taking another one down. -/
theorem unmapFiles_spec {p : Pager n} {id : SpaceId} (hp : p.Agrees none) (hid : id < p.spaces.size)
    (ms : List Nat) (hnodup : ms.Nodup) :
    ((unmapFiles id ms).run p).Meets
      (fun _ q => Visibly p (ms.flatMap (unmapChanges p id)) q
        ∧ q.spaces.size = p.spaces.size
        ∧ ∀ o k, q.mapping? o k = if o = id ∧ k ∈ ms then none else p.mapping? o k)
      (fun _ _ => False)
      (fun _ => False) := by
  induction ms generalizing p with
  | nil => exact ⟨.refl, rfl, fun _ _ => by simp⟩
  | cons m rest ih =>
    obtain ⟨hnotin, hnodup⟩ := List.nodup_cons.mp hnodup
    show ((attempt (unmapFile id m) >>= fun _ => unmapFiles id rest).run p).Meets _ _ _
    refine (unmapFile_spec hp hid m).attempt.bind ?_ (fun _ _ h => h.elim)
      fun _ h => h
    intro result q h
    have h : p.Unmapped id m q := by
      cases result with
      | ok u => exact h
      | error e => exact h.1
    have hq := (h.chain fun _ => True).agrees hp
    obtain ⟨hvisibly, hsize, hmapping⟩ := h
    refine (ih hq (hsize ▸ hid) hnodup).mono ?_ (fun _ _ h => h) fun _ h => h
    intro _ r h
    obtain ⟨hvisibly', hsize', hmapping'⟩ := h
    -- the other mappings are untouched, so their changes are those the first state names
    have hsame : rest.flatMap (unmapChanges q id) = rest.flatMap (unmapChanges p id) := by
      unfold List.flatMap
      refine congrArg List.flatten (List.map_congr_left ?_)
      intro k hk
      unfold unmapChanges
      rw [hmapping, if_neg fun hc : id = id ∧ k = m => hnotin (hc.2 ▸ hk)]
    refine ⟨?_, hsize'.trans hsize, ?_⟩
    · rw [List.flatMap_cons, ← hsame]
      exact hvisibly.trans hvisibly'
    · intro o k
      rw [hmapping', hmapping]
      by_cases ho : o = id
      · by_cases hk : k = m
        · simp [ho, hk]
        · simp [ho, hk]
      · simp [ho]

/-- The state after a space gave back its frames. -/
def Pager.released (p : Pager n) (id : SpaceId) : Pager n :=
  { p with
    frames := ((p.frames.ownedBy id).map Prod.fst).foldl FrameTable.without p.frames
    spaces := p.spaces.put id
      { p.space id with
        directory := (p.frames.ownedBy id).foldl (fun d frame => d.unmap frame.2)
          (p.space id).directory } }

theorem run_releaseFrames {p : Pager n} (hp : p.FramesAgree none) (id : SpaceId) :
    (releaseFrames id).run p = .done () (p.released id) := by
  have huse : ∀ i ∈ (p.frames.ownedBy id).map Prod.fst, p.frames.pool.inUse.get i = true := by
    intro i hi
    obtain ⟨a, ha, _⟩ := FrameTable.mem_frames_ownedBy.mp hi
    rw [hp.inUse, show p.assignment? i = some a from ha]
    rfl
  unfold releaseFrames
  simp only [run_bind, run_read, run_update, updateDirectory, updateSpace_eq]
  rw [show (p.putSpace id _).frames = p.frames from rfl,
    FrameTable.reclaim_eq_ok (FrameTable.nodup_ownedBy _ _) huse]
  rfl

theorem run_dropDescriptors {p : Pager n} {id : SpaceId} {swap : SwapArea}
    (hswap : (p.space id).descriptors.freeSlots p.swap = .ok swap) :
    (dropDescriptors id).run p = .done ()
      { p.putSpace id { p.space id with descriptors := .empty } with swap := swap } := by
  unfold dropDescriptors
  simp only [run_bind, run_read, run_update, updateDescriptors, updateSpace_eq]
  rw [show (p.putSpace id _).swap = p.swap from rfl, hswap]
  rfl

/-- With its mappings gone, a space gives back its frames and slots. -/
theorem run_vacate {p : Pager n} {id : SpaceId} (hp : p.Agrees none) (hid : id < p.spaces.size)
    (hunlisted : ∀ m, p.mapping? id m = none) :
    ∃ q, (releaseFrames id >>= fun _ => dropDescriptors id).run p = .done () q
      ∧ Visible p none (.vacated id) q none ∧ ∀ m, q.mapping? id m = none := by
  obtain ⟨swap, hswap, _⟩ := hp.slots.freeSlots id
  have hspace : (p.released id).space id = { p.space id with
      directory := (p.frames.ownedBy id).foldl (fun d frame => d.unmap frame.2)
        (p.space id).directory } := space_putSpace hid _
  have hfree : ((p.released id).space id).descriptors.freeSlots (p.released id).swap
      = .ok swap := by
    rw [hspace]
    exact hswap
  refine ⟨_, ?_, .vacated hid hunlisted hswap, ?_⟩
  · rw [run_bind, run_releaseFrames hp.frames]
    simp only [run_dropDescriptors hfree, hspace]
    unfold putSpace released
    simp only [Spaces.put_put]
  · intro m
    refine (mapping?_congr ?_ id m).trans (hunlisted m)
    exact mappings_of_put_same rfl rfl

theorem mem_ids_of_mapping? {p : Pager n} {id : SpaceId} {m : Nat} {fm : FileMapping}
    (hm : p.mapping? id m = some fm) : m ∈ (p.space id).mappings.ids :=
  List.mem_map.mpr ⟨(m, fm), KeyedTable.mem_bindings_iff.mpr hm, rfl⟩

/-- A process ends: its mappings are taken down, and then nothing of it is left. -/
theorem exitSpace_spec {p : Pager n} {id : SpaceId} (hp : p.Agrees none)
    (hid : id < p.spaces.size) :
    ((exitSpace id).run p).Meets
      (fun _ q => Visibly p
        ((p.space id).mappings.ids.flatMap (unmapChanges p id) ++ [.vacated id]) q
        ∧ ∀ m, q.mapping? id m = none)
      (fun _ _ => False)
      (fun _ => False) := by
  unfold exitSpace
  rw [run_bind, run_read]
  have hnodup : (p.space id).mappings.ids.Nodup := by
    unfold MappingTable.ids KeyedTable.keys
    exact List.pairwise_map.mpr ((p.space id).mappings.live.ascending.imp fun h => Nat.ne_of_lt h)
  refine (unmapFiles_spec hp hid _ hnodup).bind ?_ (fun _ _ h => h) fun _ h => h
  intro _ q h
  obtain ⟨hvisibly, hsize, hmapping⟩ := h
  -- every listed mapping was unmapped, so the space is vacated with none left
  have hunlisted : ∀ m, q.mapping? id m = none := by
    intro m
    rw [hmapping]
    split
    next => rfl
    next hnot =>
      cases hm : p.mapping? id m with
      | none => rfl
      | some fm => exact absurd ⟨rfl, mem_ids_of_mapping? hm⟩ hnot
  have hq : q.Agrees none := (hvisibly.chain (S := fun _ => True)).agrees hp
  obtain ⟨r, hrun, hmove, hnone⟩ := run_vacate hq (hsize ▸ hid) hunlisted
  rw [hrun]
  exact ⟨hvisibly.step hmove, hnone⟩

end DemandPaging

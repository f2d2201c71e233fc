import Mathlib.Data.List.Basic
import DemandPaging.Proofs.PageAlterations
import DemandPaging.Proofs.Unmapping
/-!
# What is left when pages are taken down

Unmapping a file and ending a process are sequences of changes that take pages of one space
away (`Change.TakesDown`). `Visibly.tookDown` says what stays: the other spaces whole, the
other pages of the space with their frames and pins, the contents of all frames and of the
swap device. `Visibly.files` says what the files are asked for meanwhile, in order: a page
that is dirty in its frame is written whole, once, and handles are closed.
-/

namespace DemandPaging

open Pager

variable {n : Nat}

/-- The change takes pages of the space away, or strikes a mapping off its list, or closes a
handle. -/
def Change.TakesDown (id : SpaceId) : Change → Prop
  | .unlisted o _ => o = id
  | .dropped o _ => o = id
  | .vacated o => o = id
  | .closed _ _ => True
  | _ => False

/-- The pages that a change of this kind takes away. -/
def Change.Takes (v : Nat) : Change → Prop
  | .dropped _ upage => v = upage
  | .vacated _ => True
  | _ => False

namespace Pager

/-- Some pages of a space are gone, with their frames. Nothing else is different but the
list of mappings, the files, and which slots are claimed. -/
structure TookDown (p : Pager n) (id : SpaceId) (gone : Nat → Prop) (q : Pager n) : Prop where
  size : q.spaces.size = p.spaces.size
  space : ∀ o, o ≠ id → q.space o = p.space o
  address? : ∀ u, ¬ gone (pageBase u) → q.address? id u = p.address? id u
  has : ∀ flag u, ¬ gone (pageBase u) → q.has flag id u = p.has flag id u
  descriptor? : ∀ u, ¬ gone u → q.descriptor? id u = p.descriptor? id u
  vacant : ∀ u, PageAligned u → gone u → q.descriptor? id u = none ∧ q.address? id u = none
  assignment? : ∀ i a, q.assignment? i = some a
    ↔ p.assignment? i = some a ∧ ¬(a.owner = id ∧ gone a.upage)
  page : ∀ i, q.page i = p.page i
  base : q.frames.pool.base = p.frames.pool.base
  device : q.swap.device = p.swap.device

namespace TookDown

variable {p q r : Pager n} {id : SpaceId} {gone gone' : Nat → Prop}

/-- Nothing is gone when only the files are different. -/
theorem of_files (p : Pager n) (id : SpaceId) (files : Array OpenFile) :
    p.TookDown id (fun _ => False) { p with files := files } where
  size := rfl
  space _ _ := rfl
  address? _ _ := rfl
  has _ _ _ := rfl
  descriptor? _ _ := rfl
  vacant _ _ h := h.elim
  assignment? _ _ := ⟨fun h => ⟨h, fun hc => hc.2⟩, fun h => h.1⟩
  page _ := rfl
  base := rfl
  device := rfl

theorem trans (h : p.TookDown id gone q) (h' : q.TookDown id gone' r) :
    p.TookDown id (fun v => gone v ∨ gone' v) r where
  size := h'.size.trans h.size
  space o ho := (h'.space o ho).trans (h.space o ho)
  address? u hu := (h'.address? u fun hc => hu (Or.inr hc)).trans
    (h.address? u fun hc => hu (Or.inl hc))
  has flag u hu := (h'.has flag u fun hc => hu (Or.inr hc)).trans
    (h.has flag u fun hc => hu (Or.inl hc))
  descriptor? u hu := (h'.descriptor? u fun hc => hu (Or.inr hc)).trans
    (h.descriptor? u fun hc => hu (Or.inl hc))
  vacant u haligned hu := by
    by_cases hu' : gone' u
    · exact h'.vacant u haligned hu'
    -- a page that was gone before stays away
    · obtain ⟨hd, hx⟩ := h.vacant u haligned (hu.resolve_right hu')
      exact ⟨(h'.descriptor? u hu').trans hd,
        (h'.address? u (haligned.pageBase_eq.symm ▸ hu')).trans hx⟩
  assignment? i a := by
    rw [h'.assignment?, h.assignment?, and_assoc]
    refine and_congr_right fun _ => ?_
    rw [← not_or, ← and_or_left]
  page i := (h'.page i).trans (h.page i)
  base := h'.base.trans h.base
  device := h'.device.trans h.device

theorem congr (h : p.TookDown id gone q) (hiff : ∀ v, gone v ↔ gone' v) :
    p.TookDown id gone' q := funext (fun v => propext (hiff v)) ▸ h

/-- A page that stays is left alone. -/
theorem samePage (h : p.TookDown id gone q) {u : Nat} (haligned : PageAligned u) (hu : ¬ gone u) :
    SamePage p q id u := by
  have hbase : ¬ gone (pageBase u) := haligned.pageBase_eq.symm ▸ hu
  refine .of_views (h.address? u hbase) h.base (fun i _ => h.page i)
    (fun flag _ => h.has flag u hbase) (h.descriptor? u hu) fun slot _ => ?_
  exact SwapArea.pageIn_congr fun k _ => by rw [h.device]

end TookDown

end Pager

namespace Visible

variable {p q : Pager n} {id : SpaceId} {c : Change}

theorem tookDown_unlisted (m : Nat) : p.TookDown id (fun _ => False)
    (p.updateSpace id fun s => { s with mappings := s.mappings.remove m }) := by
  have hviews := views_unlisted (p := p) id m rfl id
  refine ⟨Spaces.size_update .., ?_, ?_, ?_, ?_, fun _ _ h => h.elim, ?_, fun _ => rfl, rfl, rfl⟩
  · intro o ho
    unfold Pager.space updateSpace
    rw [Spaces.lookup_update, if_neg fun hc => ho hc.1]
  · exact fun u _ => congrArg (·.frameAddress? u) hviews.1
  · exact fun flag u _ => congrArg (·.has flag u) hviews.1
  · exact fun u _ => congrArg (·.find? u) hviews.2.1
  · exact fun _ _ => ⟨fun h => ⟨h, fun hc => hc.2⟩, fun h => h.1⟩

/-- A page that is not mapped takes no frame with it. -/
theorem tookDown_droppedAbsent {upage : Nat} {d : Descriptor} (hp : p.FramesAgree none)
    (hd : p.descriptor? id upage = some d) (hnone : p.address? id upage = none)
    (hframes : q.frames = p.frames) (hdevice : q.swap.device = p.swap.device)
    (hspaces : q.spaces = p.spaces.put id
      { p.space id with descriptors := (p.space id).descriptors.erase upage }) :
    p.TookDown id (· = upage) q := by
  have hid := lt_size_of_descriptor hd
  obtain ⟨honly, haddr, hafter⟩ := views_droppedAbsent hid hspaces
  refine ⟨honly.size, ?_, fun u _ => haddr id u, ?_, ?_, ?_, ?_, ?_, by rw [hframes], hdevice⟩
  · exact fun o ho => (space_of_put hspaces hid o).trans (if_neg ho)
  · exact fun flag u hu => honly.has flag id u fun hc => hu hc.2
  · exact fun u hu => honly.descriptor? id u fun hc => hu hc.2
  · rintro u _ rfl
    exact ⟨hafter, (haddr id u).trans hnone⟩
  · intro i a
    rw [Pager.assignment?, hframes]
    refine ⟨fun h => ⟨h, ?_⟩, fun h => h.1⟩
    rintro ⟨rfl, rfl⟩
    exact absurd ((hp.mapped i a h (by simp)).symm.trans hnone) (by simp)
  · intro i
    rw [page, hframes, page]

theorem tookDown_droppedPresent {upage : Nat} {i : Fin n} {a : Assignment} (hp : p.FramesAgree none)
    (hi : p.assignment? i = some a) (howner : a.owner = id) (hupage : a.upage = upage)
    (hframes : q.frames = p.frames.without i) (hdevice : q.swap.device = p.swap.device)
    (hspaces : q.spaces = p.spaces.put id
      { p.space id with
        directory := (p.space id).directory.unmap upage
        descriptors := (p.space id).descriptors.erase upage }) :
    p.TookDown id (· = upage) q := by
  subst howner hupage
  have hid := hp.owner i a hi
  obtain ⟨honly, hxnone, hafter⟩ := views_droppedPresent hid (hp.upage i a hi).1 hspaces
  refine ⟨honly.size, ?_, ?_, ?_, ?_, ?_, ?_, ?_, by rw [hframes]; rfl, hdevice⟩
  · exact fun o ho => (space_of_put hspaces hid o).trans (if_neg ho)
  · exact fun u hu => honly.address? a.owner u fun hc => hu hc.2
  · exact fun flag u hu => honly.has flag a.owner u fun hc => hu hc.2
  · exact fun u hu => honly.descriptor? a.owner u fun hc => hu hc.2
  · rintro u _ rfl
    exact ⟨hafter, hxnone⟩
  · intro j b
    rw [Pager.assignment?, hframes, FrameTable.assignments_without]
    split
    next hj =>
      subst hj
      refine iff_of_false (by simp) ?_
      rintro ⟨hb, hnot⟩
      cases hi.symm.trans hb
      exact hnot ⟨rfl, rfl⟩
    -- another frame is not that of the page, which has one only
    next hj =>
      refine ⟨fun h => ⟨h, ?_⟩, fun h => h.1⟩
      rintro ⟨howner, hupage⟩
      exact hj (hp.eq_of_same_page h hi howner hupage)
  · intro j
    rw [page, hframes]
    rfl

theorem tookDown_vacated (hp : p.Agrees none) (hid : id < p.spaces.size)
    (hframes : q.frames = ((p.frames.ownedBy id).map Prod.fst).foldl FrameTable.without p.frames)
    (hswap : (p.space id).descriptors.freeSlots p.swap = .ok q.swap)
    (hspaces : q.spaces = p.spaces.put id
      { p.space id with
        directory := (p.frames.ownedBy id).foldl (fun d frame => d.unmap frame.2)
          (p.space id).directory
        descriptors := .empty }) : p.TookDown id (fun _ => True) q := by
  obtain ⟨hxnone, hdnone, hother, _⟩ := views_vacated hp.frames hid hspaces
  obtain ⟨hbase, hcontents⟩ :=
    FrameTable.pool_foldl_without ((p.frames.ownedBy id).map Prod.fst) p.frames
  obtain ⟨swap, hfree, hdevice, _⟩ := hp.slots.freeSlots id
  cases hfree.symm.trans hswap
  refine ⟨by rw [hspaces, Spaces.size_put], hother, fun _ h => absurd trivial h,
    fun _ _ h => absurd trivial h, fun _ h => absurd trivial h,
    fun u _ _ => ⟨hdnone u, hxnone u⟩, ?_, ?_, by rw [hframes, hbase], hdevice⟩
  · intro i a
    rw [Pager.assignment?, hframes, FrameTable.assignments_foldl_without,
      FrameTable.mem_frames_ownedBy, and_true]
    refine and_congr_right fun h => not_congr ?_
    constructor
    · rintro ⟨b, hb, howner⟩
      cases Option.some.inj (h.symm.trans hb)
      exact howner
    · exact fun howner => ⟨a, h, howner⟩
  · intro i
    rw [page, hframes, hcontents]
    rfl

/-- Each change of this kind takes its own pages away and nothing else. -/
theorem tookDown (move : Visible p none c q none) (hp : p.Agrees none) (hc : c.TakesDown id) :
    p.TookDown id c.Takes q := by
  cases move with
  | stored | dirtied | described | mapped | rewritten => exact hc.elim
  | unlisted =>
    cases hc
    exact tookDown_unlisted _
  | @droppedAbsent _ _ d hd _ _ hnone =>
    cases hc
    refine tookDown_droppedAbsent hp.frames hd hnone rfl ?_ rfl
    cases d.backing.slot? <;> rfl
  | droppedPresent _ _ _ hi howner hupage =>
    cases hc
    exact tookDown_droppedPresent hp.frames hi howner hupage rfl rfl rfl
  | closed => exact .of_files p id _
  | vacated hid _ hswap =>
    cases hc
    exact tookDown_vacated hp hid rfl hswap rfl

end Visible

/-- A sequence of such changes takes away the pages that its changes take. -/
theorem Visibly.tookDown {p q : Pager n} {cs : List Change} {id : SpaceId} (h : Visibly p cs q)
    (hp : p.Agrees none) (hcs : ∀ c ∈ cs, c.TakesDown id) :
    p.TookDown id (fun v => ∃ c ∈ cs, c.Takes v) q := by
  induction h with
  | refl => exact (TookDown.of_files p id p.files).congr fun v => by simp
  | step h move ih =>
    have hfirst := ih fun c hc => hcs c (List.mem_append_left _ hc)
    have hlast := move.tookDown ((h.chain (S := fun _ => True)).agrees hp)
      (hcs _ (List.mem_append_right _ (List.mem_singleton_self _)))
    refine (hfirst.trans hlast).congr fun v => ?_
    simp only [List.mem_append, List.mem_singleton, or_and_right, exists_or, exists_eq_left]

theorem takesDown_of_mem_unmapChanges {p : Pager n} {id : SpaceId} {m : Nat} {c : Change}
    (hc : c ∈ unmapChanges p id m) : c.TakesDown id := by
  unfold unmapChanges at hc
  split at hc
  next => cases hc
  next =>
    simp only [List.cons_append, List.mem_cons, List.mem_append, List.mem_map,
      List.not_mem_nil, or_false] at hc
    rcases hc with rfl | ⟨_, _, rfl⟩ | rfl
    · exact rfl
    · exact rfl
    · exact trivial

/-! ## What the files are asked for -/

/-- Something that is done to a file. -/
inductive FileAction where
  | write (file offset : Nat) (bytes : Bytes)
  | close (file handle : Nat)

/-- The files after the action. A file may write less than it is asked to. -/
def FileAction.on (files : Array OpenFile) : FileAction → Array OpenFile
  | .write file offset bytes => files.modify file fun f => (f.write offset bytes).2
  | .close file handle => files.modify file (·.close handle)

namespace Pager

/-- What a page asks of its file when it goes: to take the whole page, if it is dirty. -/
def saveAction? (p : Pager n) (id : SpaceId) (upage : Nat) : Option FileAction :=
  match (p.descriptor? id upage).bind (·.backing.window?), p.framed? id upage with
  | some w, some page =>
    if p.has .dirty id upage then some (.write w.source.file w.offset page.bytes) else none
  | _, _ => none

/-- What a change asks of the files. -/
def fileActions (p : Pager n) : Change → List FileAction
  | .dropped id upage => (p.saveAction? id upage).toList
  | .closed file handle => [.close file handle]
  | _ => []

/-- What a page of a mapping asks of the file when the mapping is taken down: if it is in a
frame and dirty, to take the whole page at the place of the page in the file. -/
def writeBack? (p : Pager n) (id : SpaceId) (fm : FileMapping) (k : Nat) : Option FileAction :=
  if p.has .dirty id (fm.base + k * pageSize) then
    (p.framed? id (fm.base + k * pageSize)).map fun page =>
      .write fm.source.file (k * pageSize) page.bytes
  else none

/-- What is asked of the file of a mapping that is taken down, page by page from the first
one on, and then to close the handle. -/
def unmapActions (p : Pager n) (id : SpaceId) (m : Nat) : List FileAction :=
  match p.mapping? id m with
  | none => []
  | some fm => (List.range fm.pageCount).filterMap (p.writeBack? id fm)
      ++ [.close fm.source.file fm.source.handle]

end Pager

/-- A file that is replaced by what becomes of it is changed. -/
theorem modify_const {files : Array OpenFile} {k : Nat} (g : OpenFile → OpenFile) :
    files.modify k (fun _ => g (files.getD k default)) = files.modify k g := by
  refine Array.ext_getElem? fun j => ?_
  rw [Array.getElem?_modify, Array.getElem?_modify]
  split
  next h =>
    subst h
    rw [Array.getD_eq_getD_getElem?]
    cases files[k]? <;> rfl
  next => rfl

namespace Visible

variable {p q : Pager n} {id : SpaceId} {c : Change}

/-- The files after one change of this kind are those that it asks for. -/
theorem files (move : Visible p none c q none) (hp : p.Agrees none) (hc : c.TakesDown id) :
    q.files = (p.fileActions c).foldl FileAction.on p.files := by
  cases move with
  | stored | dirtied | described | mapped | rewritten => exact hc.elim
  | unlisted | vacated | closed => rfl
  | @droppedAbsent o upage d hd _ _ hnone =>
    have hnothing : p.saveAction? o upage = none := by
      unfold saveAction?
      rw [framed?_of_unmapped hnone]
      cases (p.descriptor? o upage).bind (·.backing.window?) <;> rfl
    rw [fileActions, hnothing]
    rfl
  | @droppedPresent o upage d w i a hd hb _ hi howner hupage =>
    have hframed : p.framed? o upage = some (p.page i) := by
      rw [← howner, ← hupage]
      exact hp.frames.framed?_of_assigned hi (by simp)
    have hwindow : (p.descriptor? o upage).bind (·.backing.window?) = some w := by
      rw [hd, Option.bind_some, hb]
      rfl
    show p.filesAfter (p.has .dirty o upage) w (p.page i) = _
    unfold fileActions saveAction? Pager.filesAfter
    simp only [hframed, hwindow]
    cases p.has .dirty o upage with
    | false => rfl
    | true =>
      simp only [if_true, FileWindow.save_file]
      exact modify_const fun f => f.write w.offset (p.page i).bytes |>.2

/-- A page that is dropped had a descriptor. -/
theorem descriptor?_ne_none {f g : Option (Fin n)} {upage : Nat}
    (move : Visible p f (.dropped id upage) q g) : p.descriptor? id upage ≠ none := by
  cases move with
  | droppedAbsent hd => simp [hd]
  | droppedPresent hd => simp [hd]

end Visible

/-- What stays asks the same of its file as before. -/
theorem Pager.TookDown.saveAction? {p q : Pager n} {id : SpaceId} {gone : Nat → Prop}
    (h : p.TookDown id gone q) {u : Nat} (haligned : PageAligned u) (hu : ¬ gone u) :
    q.saveAction? id u = p.saveAction? id u := by
  have hsame := h.samePage haligned hu
  unfold Pager.saveAction?
  rw [hsame.descriptor?, hsame.framed?, hsame.dirty]

/-- The files after a sequence of such changes are those that its changes ask for, each of
them as the pages were at the start: no page is dropped twice. -/
theorem Visibly.files {p q : Pager n} {cs : List Change} {id : SpaceId} (h : Visibly p cs q)
    (hp : p.Agrees none) (hcs : ∀ c ∈ cs, c.TakesDown id) :
    q.files = (cs.flatMap p.fileActions).foldl FileAction.on p.files := by
  induction h with
  | refl => rfl
  | @step cs c q r h move ih =>
    have hcs' := fun c hc => hcs c (List.mem_append_left _ hc)
    have hc := hcs c (List.mem_append_right _ (List.mem_singleton_self _))
    have hq := (h.chain (S := fun _ => True)).agrees hp
    have hsame : q.fileActions c = p.fileActions c := by
      cases c with
      | dropped o u =>
        cases hc
        have hdown := h.tookDown hp hcs'
        obtain ⟨d, hd⟩ := Option.ne_none_iff_exists'.mp move.descriptor?_ne_none
        have haligned := (hq.descriptors.upage _ u d hd).1
        rw [Pager.fileActions, Pager.fileActions, hdown.saveAction? haligned fun hgone => ?_]
        exact absurd ((hdown.vacant u haligned hgone).1.symm.trans hd) (by simp)
      | _ => rfl
    rw [move.files hq hc, ih hcs', hsame, List.flatMap_append, List.foldl_append,
      List.flatMap_singleton]

/-- What taking a mapping down asks of the files. -/
theorem Pager.Agrees.flatMap_unmapChanges {p : Pager n} (hp : p.Agrees none) (id : SpaceId)
    (m : Nat) : (unmapChanges p id m).flatMap p.fileActions = p.unmapActions id m := by
  unfold unmapChanges unmapActions
  cases hm : p.mapping? id m with
  | none => rfl
  | some fm =>
    simp only [List.cons_append, List.flatMap_cons, List.flatMap_append]
    rw [show p.fileActions (.unlisted id m) = [] from rfl, List.nil_append]
    refine congrArg (· ++ _) ?_
    unfold FileMapping.pages pageRange
    rw [List.map_map, List.flatMap_map, List.filterMap_eq_flatMap_toList]
    refine List.flatMap_congr fun k hk => congrArg Option.toList ?_
    -- the descriptor of the page names the handle of the mapping and the place in the file
    obtain ⟨d, w, hd, _, hw, hsource, hoffset⟩ :=
      hp.mappings.described id m fm k hm (List.mem_range.mp hk)
    unfold saveAction? writeBack?
    rw [hd, Option.bind_some, hw]
    cases p.framed? id (fm.base + k * pageSize) with
    | none => simp
    | some page =>
      simp only [hsource, hoffset]
      rfl

end DemandPaging

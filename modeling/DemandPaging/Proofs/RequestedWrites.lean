import DemandPaging.Proofs.Exiting
import DemandPaging.Proofs.WriteBacks
/-!
# What each request writes back

Most requests take no frame from anybody, and write nothing (`Pager.SameFrames`). To load a page,
to extend a stack or to copy a part of a page takes a frame from one page at most. To take
mappings down writes all their pages that are due, in order (`Pager.dueOf`).
-/

namespace DemandPaging

open Pager PagerAction Outcome

variable {n : Nat} {α β : Type}

/-! ## Actions that move no page -/

theorem Pager.sameFrames_updateSpace (p : Pager n) (id : SpaceId) (g : AddressSpace → AddressSpace)
    (hg : ∀ s u, (g s).directory.frameAddress? u = s.directory.frameAddress? u) :
    p.SameFrames (p.updateSpace id g) where
  address? o u := by
    unfold Pager.address? updateSpace space
    rw [Spaces.lookup_update]
    split
    next h => rw [hg, h.1]
    next => rfl
  contents := .of_files rfl

theorem sameFrames_pin (id : SpaceId) (upage : Nat) :
    (pin id upage : PagerAction n (Fin n)).EndsIn SameFrames := by
  intro p
  refine (pin_spec p id upage).mono ?_ ?_ fun _ _ => trivial
  · rintro _ q ⟨_, _, _, _, rfl⟩
    exact ⟨fun _ _ => rfl, .of_files rfl⟩
  · rintro _ q ⟨_, rfl, _⟩
    exact .refl

theorem sameFrames_unpin (id : SpaceId) (upage : Nat) :
    (unpin id upage : PagerAction n Unit).EndsIn SameFrames := by
  intro p
  refine (unpin_spec p id upage).mono ?_ ?_ fun _ _ => trivial
  · rintro _ q ⟨_, _, _, _, _, rfl⟩
    exact ⟨fun _ _ => rfl, .of_files rfl⟩
  · rintro _ q ⟨rfl, _⟩
    exact .refl

theorem sameFrames_updateDirectory (id : SpaceId) {g : PageDirectory → PageDirectory}
    (hg : ∀ d u, (g d).frameAddress? u = d.frameAddress? u) :
    (PagerAction.update fun p : Pager n => p.updateDirectory id g).EndsIn SameFrames :=
  .update fun p => p.sameFrames_updateSpace id (fun s => { s with directory := g s.directory })
    fun s => hg s.directory

theorem sameFrames_setFlag (id : SpaceId) (flag : PageFlag) (upage : Nat) (value : Bool) :
    (PagerAction.update fun p : Pager n =>
      p.updateDirectory id (·.setFlag flag upage value)).EndsIn SameFrames :=
  sameFrames_updateDirectory id fun _ _ => PageDirectory.frameAddress?_setFlag ..

theorem sameFrames_addSegment (id : SpaceId) (source : FileRef)
    (offset upage readBytes zeroBytes : Nat) (writable : Bool) :
    (addSegment id source offset upage readBytes zeroBytes writable :
      PagerAction n Unit).EndsIn SameFrames :=
  .bind (.read _) fun _ => .bind (.read _) fun _ => .bind (.ofFatal _) fun _ => .bind
    (.update fun p => p.sameFrames_updateSpace id _ fun _ _ => rfl) fun _ => .ofResult _

/-- To map a file opens it once more and brings no page into a frame. -/
theorem mapFile_sameFrames {p : Pager n} {id : SpaceId} (hp : p.Agrees none)
    (hid : id < p.spaces.size) (index base : Nat) :
    ((mapFile id index base).run p).Ends p.SameFrames := by
  refine (mapFile_spec hid index base).mono ?_ ?_ fun _ _ => trivial
  · rintro _ q ⟨handle, hmove, _⟩
    have halters := hmove.alters hp
    have haddress : ∀ o u, q.address? o u = p.address? o u := by
      cases hmove with
      | mapped hid => exact (Visible.views_mapped hid rfl).1
    cases halters with
    | mapped _ _ _ _ _ hcontents => exact ⟨haddress, hcontents⟩
  · rintro _ q ⟨rfl, _⟩
    exact .refl

/-! ## Actions that take a frame from one page -/

section Loading

variable {p : Pager n}

theorem ensureLoaded_flushes (hp : p.Ready) (id : SpaceId) (upage : Nat) :
    ((ensureLoaded id upage).run p).Ends fun q => ∃ ws, p.Flushes ws q :=
  ((ensureLoaded_spec hp.agrees id upage).and (oneMoved_ensureLoaded id upage p)).mono
    (fun _ _ h => h.1.1.flushes hp (List.forall_mem_nil _) h.2)
    (fun _ _ h => h.1.1.flushes hp (List.forall_mem_nil _) h.2) fun _ _ => trivial

theorem handleFault_flushes (hp : p.Ready) {id : SpaceId} (hid : id < p.spaces.size)
    (address stackPointer : Nat) :
    ((handleFault id address stackPointer).run p).Ends fun q => ∃ ws, p.Flushes ws q := by
  refine ((handleFault_spec hp.agrees hid address stackPointer).and
    (oneMoved_handleFault id address stackPointer p)).mono ?_ ?_ fun _ _ => trivial
  · rintro _ q ⟨⟨_, ⟨hleads, _⟩ | ⟨_, _, hleads⟩⟩, hone⟩
    · exact hleads.flushes hp (List.forall_mem_nil _) hone
    · exact hleads.flushes hp (List.forall_mem_singleton.mpr trivial) hone
  · rintro _ q ⟨⟨hleads, _⟩, hone⟩
    exact hleads.flushes hp (List.forall_mem_nil _) hone

theorem pinForCopy_flushes (hp : p.Ready) (id : SpaceId) (upage : Nat) :
    ((pinForCopy id upage).run p).Meets (fun _ q => q.Agrees none ∧ ∃ ws, p.Flushes ws q)
      (fun _ q => ∃ ws, p.Flushes ws q) (fun _ => True) := by
  refine ((pinForCopy_spec hp.agrees id upage).and (oneMoved_pinForCopy id upage p)).mono ?_ ?_
    fun _ _ => trivial
  · rintro _ q ⟨⟨hleads, _⟩, hone⟩
    exact ⟨hleads.agrees hp.agrees, hleads.flushes hp (List.forall_mem_nil _) hone⟩
  · rintro _ q ⟨⟨hleads, _⟩, hone⟩
    exact hleads.flushes hp (List.forall_mem_nil _) hone

/-- Once a page is pinned for a copy nothing is written any more, whatever is stored in it. -/
theorem pinForCopy_bind_flushes (hp : p.Ready) {id : SpaceId} {upage : Nat}
    {f : Fin n → PagerAction n α} (hf : ∀ i, (f i).EndsIn SameFrames)
    (hspec : ((pinForCopy id upage >>= f).run p).Ends fun q =>
      ∃ cs, Leads id upage p cs q ∧ ∀ c ∈ cs, c.KeepsMappings) :
    ((pinForCopy id upage >>= f).run p).Ends fun q => q.Ready ∧ ∃ ws, p.Flushes ws q := by
  have hflushes : ((pinForCopy id upage >>= f).run p).Ends fun q =>
      q.FramesAgree none → ∃ ws, p.Flushes ws q := by
    refine (pinForCopy_flushes hp id upage).bind ?_ (fun _ _ h _ => h) fun _ h => h
    rintro i r ⟨hr, ws, hws⟩
    exact (hf i r).mono (fun _ _ h hq => ⟨ws, hws.before h hr.frames hq⟩)
      (fun _ _ h hq => ⟨ws, hws.before h hr.frames hq⟩) fun _ h => h
  have hready : ∀ q, ((∃ cs, Leads id upage p cs q ∧ ∀ c ∈ cs, c.KeepsMappings)
      ∧ (q.FramesAgree none → ∃ ws, p.Flushes ws q)) → q.Ready ∧ ∃ ws, p.Flushes ws q := by
    rintro q ⟨⟨cs, hleads, hcs⟩, hflushes⟩
    obtain ⟨ws, hws⟩ := hflushes (hleads.agrees hp.agrees).frames
    exact ⟨hp.leads hleads hcs hws.toWrote, ws, hws⟩
  exact (hspec.and hflushes).mono (fun _ q => hready q) (fun _ q => hready q) fun _ _ => trivial

theorem readChunk_flushes (hp : p.Ready) (id : SpaceId) (c : Chunk) :
    ((readChunk id c).run p).Ends fun q => q.Ready ∧ ∃ ws, p.Flushes ws q :=
  pinForCopy_bind_flushes hp
    (fun _ => .bind (.read _) fun _ => .bind (.ofFatal _) fun _ =>
      .bind (sameFrames_setFlag id .accessed _ _) fun _ =>
      .bind (sameFrames_unpin id c.upage) fun _ => .pure _)
    ((readChunk_spec hp.agrees id c).mono (fun _ _ h => ⟨[], h.1, List.forall_mem_nil _⟩)
      (fun _ _ h => ⟨[], h.1, List.forall_mem_nil _⟩) fun _ _ => trivial)

theorem writeChunk_flushes (hp : p.Ready) (id : SpaceId) (c : Chunk) {bytes : Bytes}
    (hfits : c.start + bytes.length ≤ pageSize) :
    ((writeChunk id c bytes).run p).Ends fun q => q.Ready ∧ ∃ ws, p.Flushes ws q := by
  refine pinForCopy_bind_flushes hp (fun i => .bind (.read _) fun writable => ?_)
    ((writeChunk_spec hp.agrees id c hfits).mono
      (fun _ _ h => ⟨[_], h.1, List.forall_mem_singleton.mpr trivial⟩)
      (fun _ _ h => ⟨[], h.1, List.forall_mem_nil _⟩) fun _ _ => trivial)
  split
  next =>
    refine .bind (.read _) fun _ => .bind (.ofFatal _) fun _ =>
      .bind (.update fun p => ⟨fun _ _ => rfl, .of_files rfl⟩) fun _ =>
      .bind (sameFrames_updateDirectory id fun d u => ?_) fun _ => sameFrames_unpin id c.upage
    rw [PageDirectory.frameAddress?_setFlag, PageDirectory.frameAddress?_setFlag]
  next => exact .bind (sameFrames_unpin id c.upage) fun _ => .fail _

end Loading

/-! ## Mappings that are taken down -/

namespace Pager

/-- The page `k` of a mapping, if it is due. -/
def dueAt? (p : Pager n) (id : SpaceId) (m : Nat) (fm : FileMapping) (k : Nat) :
    Option WriteBack :=
  if p.has .dirty id (fm.base + k * pageSize) then
    (p.framed? id (fm.base + k * pageSize)).map fun page => ⟨id, m, fm, k, page⟩
  else none

/-- The pages of the mapping `m` that are due, in order. -/
def dueOf (p : Pager n) (id : SpaceId) (m : Nat) : List WriteBack :=
  match p.mapping? id m with
  | none => []
  | some fm => (List.range fm.pageCount).filterMap (p.dueAt? id m fm)

variable {p q : Pager n} {id : SpaceId} {m k : Nat} {fm : FileMapping} {w : WriteBack}

theorem dueAt?_eq_some (h : p.dueAt? id m fm k = some w) :
    w.space = id ∧ w.mapping = m ∧ w.shown = fm ∧ w.number = k
      ∧ p.framed? id (fm.base + k * pageSize) = some w.page
      ∧ p.has .dirty id (fm.base + k * pageSize) = true := by
  unfold dueAt? at h
  split at h
  next hdirty =>
    obtain ⟨page, hpage, rfl⟩ := Option.map_eq_some_iff.mp h
    exact ⟨rfl, rfl, rfl, rfl, hpage, hdirty⟩
  next => cases h

theorem mem_dueOf : w ∈ p.dueOf id m ↔ p.Due w ∧ w.space = id ∧ w.mapping = m := by
  unfold dueOf
  constructor
  · intro h
    split at h
    next => cases h
    next fm hm =>
      obtain ⟨k, hk, hw⟩ := List.mem_filterMap.mp h
      obtain ⟨rfl, rfl, rfl, rfl, hpage, hdirty⟩ := dueAt?_eq_some hw
      exact ⟨⟨hm, List.mem_range.mp hk, hpage, hdirty⟩, rfl, rfl⟩
  · rintro ⟨hdue, rfl, rfl⟩
    rw [hdue.live]
    refine List.mem_filterMap.mpr ⟨w.number, List.mem_range.mpr hdue.lt, ?_⟩
    obtain ⟨_, _, hframed, hdirty⟩ := hdue
    unfold WriteBack.upage at hframed hdirty
    unfold dueAt?
    rw [if_pos hdirty, hframed]
    rfl

theorem sorted_dueOf (p : Pager n) (id : SpaceId) (m : Nat) :
    (p.dueOf id m).Pairwise WriteBack.Before := by
  unfold dueOf
  split
  next => exact .nil
  next fm _ =>
    refine List.Pairwise.filterMap _ (fun j k hjk v hv w hw => ?_) List.pairwise_lt_range
    obtain ⟨rfl, rfl, _, rfl, _⟩ := dueAt?_eq_some hv
    obtain ⟨hspace, hmapping, _, rfl, _⟩ := dueAt?_eq_some hw
    exact ⟨hspace.symm, Or.inr ⟨hmapping.symm, hjk⟩⟩

theorem writeBack?_eq (p : Pager n) (id : SpaceId) (m : Nat) (fm : FileMapping) (k : Nat) :
    p.writeBack? id fm k = (p.dueAt? id m fm k).map WriteBack.action := by
  unfold writeBack? dueAt?
  split
  · rw [Option.map_map]
    rfl
  · rfl

/-- What is written when a mapping is taken down are its pages that are due. -/
theorem filter_unmapActions (p : Pager n) (id : SpaceId) (m : Nat) :
    (p.unmapActions id m).filter FileAction.isWrite = (p.dueOf id m).map WriteBack.action := by
  unfold unmapActions dueOf
  cases p.mapping? id m with
  | none => rfl
  | some fm =>
    have hwrites : (List.range fm.pageCount).filterMap (p.writeBack? id fm)
        = ((List.range fm.pageCount).filterMap (p.dueAt? id m fm)).map WriteBack.action := by
      rw [List.map_filterMap]
      exact congrArg (List.filterMap · _) (funext (p.writeBack?_eq id m fm))
    rw [List.filter_append, hwrites]
    refine (List.append_nil _).trans ?_
    refine List.filter_eq_self.mpr fun a ha => ?_
    obtain ⟨w, _, rfl⟩ := List.mem_map.mp ha
    rfl

/-- Pages of a space that are gone were in frames, those that are not still are. -/
theorem TookDown.flushes {gone : Nat → Prop} {ws : List WriteBack} (h : p.TookDown id gone q)
    (hp : p.Agrees none) (hq : q.Agrees none) (hwrote : p.Wrote ws q)
    (hmem : ∀ w, w ∈ ws ↔ p.Due w ∧ w.space = id ∧ gone w.upage)
    (hsorted : ws.Pairwise WriteBack.Before) : p.Flushes ws q where
  toWrote := hwrote
  mem_iff w := by
    rw [hmem]
    refine and_congr_right fun hdue => ?_
    have haligned := hdue.pageAligned hp.mappings
    have hframed := hdue.framed
    rw [hq.frames.framed?_eq_none_iff]
    constructor
    · rintro ⟨rfl, hgone⟩
      exact (h.vacant _ haligned hgone).2
    · intro hnone
      have hthere : q.address? w.space w.upage ≠ p.address? w.space w.upage := by
        intro heq
        rw [hp.frames.framed?_eq_none_iff.mpr (heq.symm.trans hnone)] at hframed
        cases hframed
      have hspace : w.space = id := Decidable.byContradiction fun hne => hthere (by
        unfold Pager.address?
        rw [h.space _ hne])
      refine ⟨hspace, Classical.byContradiction fun hstays => hthere ?_⟩
      rw [hspace]
      exact h.address? _ (haligned.pageBase_eq.symm ▸ hstays)
  sorted := hsorted

/-- To take a mapping down writes its pages that are due. -/
theorem Unmapped.flushes (h : p.Unmapped id m q) (hready : p.Ready) :
    p.Flushes (p.dueOf id m) q := by
  have hp := hready.agrees
  have htakes : ∀ c ∈ unmapChanges p id m, c.TakesDown id := fun c hc =>
    takesDown_of_mem_unmapChanges hc
  refine (h.visibly.tookDown hp htakes).flushes hp ((h.chain fun _ => True).agrees hp)
    (.of_actions hready.medium? (p.filter_unmapActions id m) ?_) (fun w => ?_) (p.sorted_dueOf id m)
  · rw [h.visibly.files hp htakes, hp.flatMap_unmapChanges]
  · rw [mem_dueOf]
    refine and_congr_right fun hdue => and_congr_right fun hspace => ?_
    subst hspace
    have hin : w.upage ∈ w.shown.pages := mem_pageRange.mpr ⟨w.number, hdue.lt, rfl⟩
    constructor
    · rintro rfl
      exact ⟨_, dropped_mem_unmapChanges hdue.live hin, rfl⟩
    · -- the page is in one mapping only, so it is that one that is taken down
      rintro ⟨c, hc, htaken⟩
      unfold unmapChanges at hc
      split at hc
      next => cases hc
      next fm hm =>
        simp only [List.cons_append, List.mem_cons, List.mem_append, List.mem_map,
          List.not_mem_nil, or_false] at hc
        rcases hc with rfl | ⟨u, hu, rfl⟩ | rfl
        · exact htaken.elim
        · exact hp.mappings.disjoint _ _ _ _ _ _ hdue.live hm hin (htaken ▸ hu)
        · exact htaken.elim

theorem Ready.unmapFile_flushes (hp : p.Ready) (hid : id < p.spaces.size) (m : Nat) :
    ((unmapFile id m).run p).Ends fun q => ∃ ws, p.Flushes ws q :=
  (unmapFile_spec hp.agrees hid m).mono (fun _ _ h => ⟨_, h.flushes hp⟩)
    (fun _ _ h => ⟨_, h.1.flushes hp⟩) fun _ _ => trivial

/-- When a process ends, what is due of all its mappings is written. -/
theorem Ready.exitSpace_flushes (hready : p.Ready) (hid : id < p.spaces.size) :
    ((exitSpace id).run p).Ends fun q => ∃ ws, p.Flushes ws q := by
  have hp := hready.agrees
  obtain ⟨q, hrun, hq, _, hdown, _, hfiles⟩ := hp.exits hid
  rw [hrun]
  have hascending : (p.space id).mappings.ids.Pairwise (· < ·) :=
    List.pairwise_map.mpr (p.space id).mappings.live.ascending
  refine ⟨(p.space id).mappings.ids.flatMap (p.dueOf id), hdown.flushes hp hq
    (.of_actions hready.medium? ?_ hfiles) (fun w => ?_) (List.pairwise_flatMap.mpr ⟨?_, ?_⟩)⟩
  · unfold exitActions
    rw [List.filter_flatMap, List.map_flatMap]
    exact List.flatMap_congr fun m _ => p.filter_unmapActions id m
  · rw [List.mem_flatMap]
    constructor
    · rintro ⟨m, _, hw⟩
      obtain ⟨hdue, hspace, _⟩ := mem_dueOf.mp hw
      exact ⟨hdue, hspace, trivial⟩
    · rintro ⟨hdue, rfl, _⟩
      exact ⟨w.mapping, mem_ids_of_mapping? hdue.live, mem_dueOf.mpr ⟨hdue, rfl, rfl⟩⟩
  · exact fun m _ => p.sorted_dueOf id m
  · refine hascending.imp fun {j k} hjk v hv w hw => ?_
    obtain ⟨_, hvspace, rfl⟩ := mem_dueOf.mp hv
    obtain ⟨_, hwspace, rfl⟩ := mem_dueOf.mp hw
    exact ⟨hvspace.trans hwspace.symm, Or.inl hjk⟩

end Pager

end DemandPaging

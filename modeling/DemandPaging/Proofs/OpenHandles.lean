import DemandPaging.Proofs.FileCalls
import DemandPaging.Proofs.MappingNumbers
/-!
# Open handles

A mapping holds a handle of its own: it is open for as long as the mapping is live, and no other
mapping holds it (`Run.holdsHandles`). The handles of a file are numbered like the mappings of a
space, so a handle that is opened is a new one, and a handle that is closed stays closed.

What a sequence of moves does to the handles that a file has had is read off its changes: an open
handle stays open unless one of them closes it (`Chain.keepsHandles`).
-/

namespace DemandPaging

open Pager PagerAction

variable {n : Nat}

/-! ## One file -/

/-- The open handles of the file are different from each other and were all given out before. -/
structure OpenFile.Numbered (file : OpenFile) : Prop where
  nodup : file.handles.Nodup
  lt_next : ∀ handle ∈ file.handles, handle < file.nextHandle

/-- Both have the same open handles, and open the same one next. -/
def OpenFile.SameHandles (f g : OpenFile) : Prop :=
  g.handles = f.handles ∧ g.nextHandle = f.nextHandle

namespace OpenFile

theorem sameHandles_write (file : OpenFile) (offset : Nat) (patch : Bytes) :
    file.SameHandles (file.write offset patch).2 := ⟨rfl, rfl⟩

theorem SameHandles.numbered {f g : OpenFile} (h : f.SameHandles g) (hf : f.Numbered) :
    g.Numbered := by
  obtain ⟨hhandles, hnext⟩ := h
  refine ⟨hhandles ▸ hf.nodup, ?_⟩
  rw [hhandles, hnext]
  exact hf.lt_next

/-- A handle that is opened is the next one. -/
theorem of_open?_eq_some {f g : OpenFile} {handle : Nat} (h : f.open? = some (handle, g)) :
    handle = f.nextHandle
      ∧ g = { f with handles := f.handles ++ [handle], nextHandle := f.nextHandle + 1 } := by
  unfold open? at h
  split at h
  next =>
    cases h
    exact ⟨rfl, rfl⟩
  next => cases h

theorem Numbered.open? {f g : OpenFile} {handle : Nat} (hf : f.Numbered)
    (h : f.open? = some (handle, g)) : g.Numbered ∧ handle ∉ f.handles := by
  obtain ⟨rfl, rfl⟩ := of_open?_eq_some h
  have hnew : f.nextHandle ∉ f.handles := fun hmem => Nat.lt_irrefl _ (hf.lt_next _ hmem)
  refine ⟨⟨?_, ?_⟩, hnew⟩
  · refine List.nodup_append.mpr ⟨hf.nodup, List.pairwise_singleton .., ?_⟩
    rintro handle hmem _ hsingle rfl
    exact hnew (List.mem_singleton.mp hsingle ▸ hmem)
  · intro handle hmem
    rcases List.mem_append.mp hmem with hmem | hmem
    · exact Nat.lt_succ_of_lt (hf.lt_next handle hmem)
    · exact List.mem_singleton.mp hmem ▸ Nat.lt_succ_self _

theorem Numbered.close {f : OpenFile} (hf : f.Numbered) (handle : Nat) :
    (f.close handle).Numbered :=
  ⟨hf.nodup.erase handle, fun other hmem => hf.lt_next other (List.mem_of_mem_erase hmem)⟩

end OpenFile

/-! ## What moves do to the handles -/

/-- The handles of all files are numbered. -/
def Pager.HandlesNumbered (p : Pager n) : Prop := ∀ k, (p.file k).Numbered

/-- What becomes of the open handles: one that had been given out before is open afterwards if it
was open and none of the changes closes it. -/
structure Pager.KeepsHandles (p : Pager n) (cs : List Change) (q : Pager n) : Prop where
  size : q.files.size = p.files.size
  numbered : q.HandlesNumbered
  next_le : ∀ k, (p.file k).nextHandle ≤ (q.file k).nextHandle
  open_iff : ∀ k handle, k < p.files.size → handle < (p.file k).nextHandle →
    (handle ∈ (q.file k).handles ↔ handle ∈ (p.file k).handles ∧ .closed k handle ∉ cs)

/-- A file is as it was unless it is the one that is changed. -/
theorem Pager.file_modify {p q : Pager n} {index : Nat} {g : OpenFile → OpenFile}
    (hfiles : q.files = p.files.modify index g) (k : Nat) :
    q.file k = if k = index ∧ index < p.files.size then g (p.file index) else p.file k := by
  unfold file
  rw [hfiles, getD_modify]

namespace Pager.KeepsHandles

variable {p q r : Pager n} {cs ds : List Change}

/-- Nothing happens to the handles where the files are only written to. -/
theorem of_same (hp : p.HandlesNumbered) (hsize : q.files.size = p.files.size)
    (hsame : ∀ k, (p.file k).SameHandles (q.file k)) (hcs : ∀ k handle, .closed k handle ∉ cs) :
    p.KeepsHandles cs q where
  size := hsize
  numbered k := (hsame k).numbered (hp k)
  next_le k := Nat.le_of_eq (hsame k).2.symm
  open_iff k handle _ _ := by
    rw [(hsame k).1]
    exact (and_iff_left (hcs k handle)).symm

theorem of_files (hp : p.HandlesNumbered) (hfiles : q.files = p.files)
    (hcs : ∀ k handle, .closed k handle ∉ cs) : p.KeepsHandles cs q := by
  refine .of_same hp (by rw [hfiles]) (fun k => ?_) hcs
  rw [file, file, hfiles]
  exact ⟨rfl, rfl⟩

theorem of_modify {index : Nat} {g : OpenFile → OpenFile} (hp : p.HandlesNumbered)
    (hfiles : q.files = p.files.modify index g) (hg : (p.file index).SameHandles (g (p.file index)))
    (hcs : ∀ k handle, .closed k handle ∉ cs) : p.KeepsHandles cs q := by
  refine .of_same hp (by rw [hfiles, Array.size_modify]) (fun k => ?_) hcs
  rw [file_modify hfiles]
  split
  next hk => exact hk.1 ▸ hg
  next => exact ⟨rfl, rfl⟩

/-- A handle that is opened is not one that had been given out. -/
theorem of_opened {index handle : Nat} {opened : OpenFile} (hp : p.HandlesNumbered)
    (hopen : (p.file index).open? = some (handle, opened))
    (hfiles : q.files = p.files.modify index fun _ => opened)
    (hcs : ∀ k handle, .closed k handle ∉ cs) : p.KeepsHandles cs q := by
  obtain ⟨hnumbered, _⟩ := (hp index).open? hopen
  obtain ⟨rfl, rfl⟩ := OpenFile.of_open?_eq_some hopen
  refine ⟨by rw [hfiles, Array.size_modify], fun k => ?_, fun k => ?_, fun k handle _ hold => ?_⟩
  · rw [file_modify hfiles]
    split
    next => exact hnumbered
    next => exact hp k
  · rw [file_modify hfiles]
    split
    next hk => exact hk.1 ▸ Nat.le_succ _
    next => exact Nat.le_refl _
  · rw [file_modify hfiles, and_iff_left (hcs k handle)]
    split
    next hk =>
      obtain ⟨rfl, _⟩ := hk
      rw [List.mem_append, List.mem_singleton]
      exact or_iff_left (Nat.ne_of_lt hold)
    next => exact Iff.rfl

theorem of_closed {index closed : Nat} (hp : p.HandlesNumbered)
    (hfiles : q.files = p.files.modify index (·.close closed)) :
    p.KeepsHandles [.closed index closed] q := by
  refine ⟨by rw [hfiles, Array.size_modify], fun k => ?_, fun k => ?_, fun k handle hlt _ => ?_⟩
  · rw [file_modify hfiles]
    split
    next => exact (hp index).close closed
    next => exact hp k
  · rw [file_modify hfiles]
    split
    next hk => exact hk.1 ▸ Nat.le_refl _
    next => exact Nat.le_refl _
  · rw [file_modify hfiles, List.mem_singleton, Change.closed.injEq]
    split
    next hk =>
      obtain ⟨rfl, _⟩ := hk
      rw [OpenFile.close, (hp k).nodup.mem_erase_iff, and_comm]
      simp
    next hk =>
      have hne : k ≠ index := fun heq => hk ⟨heq, heq ▸ hlt⟩
      exact (and_iff_left fun hc => hne hc.1).symm

theorem trans (h : p.KeepsHandles cs q) (h' : q.KeepsHandles ds r) :
    p.KeepsHandles (cs ++ ds) r where
  size := h'.size.trans h.size
  numbered := h'.numbered
  next_le k := Nat.le_trans (h.next_le k) (h'.next_le k)
  open_iff k handle hk hold := by
    rw [h'.open_iff k handle (h.size ▸ hk) (Nat.lt_of_lt_of_le hold (h.next_le k)),
      h.open_iff k handle hk hold, List.mem_append, not_or, and_assoc]

end Pager.KeepsHandles

/-- The medium takes a page at most by writing. -/
theorem FileWindow.sameHandles_save (w : FileWindow) (file : OpenFile) (page : Page) :
    file.SameHandles (w.save file page).2 := by
  rw [FileWindow.save_file]
  exact file.sameHandles_write ..

/-- A page that is kept may be written to its file. -/
theorem Keeps.sameHandles {swap swap' : SwapArea} {files files' : Array OpenFile} {page : Page}
    {b b' : Backing} {dirty : Bool} (h : Keeps swap files page b dirty b' swap' files') (k : Nat) :
    (files.getD k default).SameHandles (files'.getD k default) := by
  cases h with
  | dropped | stored => exact ⟨rfl, rfl⟩
  | @written w file h =>
    have hsame := w.sameHandles_save (files.getD w.source.file default) page
    rw [h] at hsame
    rw [getD_modify]
    split
    next hk => exact hk.1 ▸ hsame
    next => exact ⟨rfl, rfl⟩

theorem Quiet.keepsHandles {S : Array OpenFile → Prop} {p q : Pager n} {f g : Option (Fin n)}
    (move : Quiet S p f q g) (hp : p.HandlesNumbered) : p.KeepsHandles [] q := by
  have hnone : ∀ k handle, Change.closed k handle ∉ ([] : List Change) :=
    fun _ _ => List.not_mem_nil
  cases move with
  | evicted _ _ _ _ _ _ _ hkeeps =>
    exact .of_same hp hkeeps.size_files hkeeps.sameHandles hnone
  | swept | took | scribbled | returned | settled | pinned | accessed =>
    exact .of_files hp rfl hnone

theorem Visible.keepsHandles {p q : Pager n} {f g : Option (Fin n)} {c : Change}
    (move : Visible p f c q g) (hp : p.HandlesNumbered) : p.KeepsHandles [c] q := by
  cases move with
  | grown | stored | dirtied | described | unlisted | droppedAbsent | vacated =>
    exact .of_files hp rfl (by simp)
  | @droppedPresent id upage _ w i =>
    by_cases hdirty : p.has .dirty id upage = true
    · exact .of_modify hp (if_pos hdirty) (w.sameHandles_save ..) (by simp)
    · exact .of_files hp (if_neg hdirty) (by simp)
  | @rewritten index data medium? =>
    exact .of_modify (g := (·.rewrite data medium?)) hp rfl ⟨rfl, rfl⟩ (by simp)
  | mapped _ _ _ hopen => exact .of_opened hp hopen rfl (by simp)
  | closed => exact .of_closed hp rfl

/-- What is open after a sequence of moves was open before, unless it is new, and was not closed. -/
theorem Chain.keepsHandles {S : Array OpenFile → Prop} {p q : Pager n} {f g : Option (Fin n)}
    {cs : List Change} (h : Chain S p f cs q g) (hp : p.HandlesNumbered) : p.KeepsHandles cs q := by
  induction h with
  | refl => exact .of_files hp rfl fun _ _ => List.not_mem_nil
  | @quiet cs _ _ _ _ _ move ih =>
    have hboth := ih.trans (move.keepsHandles ih.numbered)
    rwa [List.append_nil] at hboth
  | visible _ move ih => exact ih.trans (move.keepsHandles ih.numbered)

/-! ## The handles of the mappings -/

/-- Every live mapping holds an open handle, and no two hold the same one. -/
structure Pager.HoldsHandles (p : Pager n) : Prop where
  numbered : p.HandlesNumbered
  held : ∀ id m fm, p.mapping? id m = some fm → fm.source.file < p.files.size
    ∧ fm.source.handle ∈ (p.file fm.source.file).handles
  own : ∀ id m fm id' m' fm', p.mapping? id m = some fm → p.mapping? id' m' = some fm' →
    fm.source = fm'.source → id = id' ∧ m = m'

/-- A mapping that is made holds a handle that no mapping held before. -/
theorem Visible.holdsHandles_mapped {p q : Pager n} {id : SpaceId} {fm : FileMapping}
    (move : Visible p none (.mapped id fm) q none) (hp : p.HoldsHandles) : q.HoldsHandles := by
  have hkeeps := move.keepsHandles hp.numbered
  cases move with
  | @mapped _ index base handle file hid hfault hvacant hopen =>
    obtain ⟨_, _, _, _, hmapping⟩ := views_mapped (q := { p with
      files := p.files.modify index fun _ => file
      spaces := p.spaces.put id { p.space id with
        descriptors := (p.space id).descriptors.insertAll
          (mappingPages ⟨index, handle⟩ base (p.file index).length)
        mappings := ((p.space id).mappings.add
          ⟨⟨index, handle⟩, base, pagesFor (p.file index).length⟩).2 } }) hid rfl
    obtain ⟨_, hnew⟩ := (hp.numbered index).open? hopen
    have hindex := lt_size_of_mappingFault? hfault
    have hother : ∀ o m fm, p.mapping? o m = some fm → fm.source ≠ ⟨index, handle⟩ := by
      intro o m fm hm heq
      have hheld := (hp.held o m fm hm).2
      rw [heq] at hheld
      exact hnew hheld
    refine ⟨hkeeps.numbered, ?_, ?_⟩
    · intro o m fm hm
      rw [hmapping] at hm
      split at hm
      next =>
        cases hm
        refine ⟨hkeeps.size.symm ▸ hindex, ?_⟩
        show handle ∈ ((p.files.modify index fun _ => file).getD index default).handles
        rw [getD_modify, if_pos ⟨rfl, hindex⟩, (OpenFile.of_open?_eq_some hopen).2]
        exact List.mem_append_right _ (List.mem_singleton_self _)
      next =>
        obtain ⟨hlt, hheld⟩ := hp.held o m fm hm
        refine ⟨hkeeps.size.symm ▸ hlt, ?_⟩
        exact (hkeeps.open_iff _ _ hlt ((hp.numbered _).lt_next _ hheld)).mpr ⟨hheld, by simp⟩
    · intro o m fm o' m' fm' hm hm' hsource
      rw [hmapping] at hm hm'
      split at hm
      next hid =>
        cases hm
        split at hm'
        next hid' => exact ⟨hid.1.trans hid'.1.symm, hid.2.trans hid'.2.symm⟩
        next => exact absurd hsource.symm (hother o' m' fm' hm')
      next =>
        split at hm'
        next =>
          cases hm'
          exact absurd hsource (hother o m fm hm)
        next => exact hp.own o m fm o' m' fm' hm hm' hsource

/-- A handle is closed because a mapping that holds it is taken down. -/
theorem Event.Causes.of_closed {p : Pager n} {e : Event} {file handle : Nat}
    (h : e.Causes p (.closed file handle)) :
    ∃ id m fm, e.TakesDown id m ∧ p.mapping? id m = some fm ∧ fm.source = ⟨file, handle⟩ := by
  cases h with
  | closed hdown hm => exact ⟨_, _, _, hdown, hm, rfl⟩

/-- Mappings keep their handles through every event that maps no file: what is closed was held by
mappings that are taken down. -/
theorem Event.holdsHandles {p q : Pager n} {e : Event} (hp : p.Agrees none) (he : e.Permitted p)
    (hq : e.apply p = some q) (hholds : p.HoldsHandles) : q.HoldsHandles := by
  by_cases hmaps : ∃ id index base, e = .request (.mapFile id index base)
  · obtain ⟨id, index, base, rfl⟩ := hmaps
    have hspec : ((mapFile id index base).run p).Meets (fun _ q => q.HoldsHandles)
        (fun _ q => q.HoldsHandles) (fun _ => False) :=
      (mapFile_spec he.1 index base).mono (fun _ q h => h.elim fun _ h =>
        h.1.holdsHandles_mapped hholds) (fun _ q h => h.1 ▸ hholds) fun _ h => h
    exact hspec.of_state? ((state?_map Answer.mapping _ p).symm.trans hq)
  · obtain ⟨cs, hmakes, hchain⟩ := e.chain (S := fun _ => True) hp he hq fun _ _ => trivial
    have hkeeps := hchain.keepsHandles hholds.numbered
    have hcauses : ∀ c ∈ cs, e.Causes p c := fun c hc => Event.HasMade.causes (Or.inl hmakes) hc
    have hbefore : ∀ o m fm, q.mapping? o m = some fm → p.mapping? o m = some fm := by
      intro o m fm hm
      refine (hchain.mapping?_before hm).resolve_right fun hmem => ?_
      cases hcauses _ hmem with
      | mapped => exact hmaps ⟨_, _, _, rfl⟩
    refine ⟨hkeeps.numbered, ?_, ?_⟩
    · intro o m fm hm
      obtain ⟨hlt, hheld⟩ := hholds.held o m fm (hbefore o m fm hm)
      refine ⟨hkeeps.size.symm ▸ hlt, ?_⟩
      refine (hkeeps.open_iff _ _ hlt ((hholds.numbered _).lt_next _ hheld)).mpr ⟨hheld, ?_⟩
      intro hmem
      obtain ⟨o', m', fm', hdown, hm', hsource⟩ := (hcauses _ hmem).of_closed
      -- the handle is that of the mapping itself, which is gone
      obtain ⟨rfl, rfl⟩ := hholds.own o' m' fm' o m fm hm' (hbefore o m fm hm) hsource
      exact absurd ((Event.mapping?_of_takesDown hp he hq hdown).symm.trans hm) (by simp)
    · exact fun o m fm o' m' fm' hm hm' =>
        hholds.own o m fm o' m' fm' (hbefore o m fm hm) (hbefore o' m' fm' hm')

/-- After every run from a start with numbered handles each live mapping holds an open handle of
its own. -/
theorem Run.holdsHandles {s p : Pager n} {es : List Event} (h : Run s es p) (hs : s.Agrees none)
    (hholds : s.HoldsHandles) : p.HoldsHandles := by
  induction h with
  | refl => exact hholds
  | step he happly _ ih =>
    exact ih (Event.agrees hs he happly) (Event.holdsHandles hs he happly hholds)

theorem Pager.IsStart.holdsHandles {s : Pager n} (hs : s.IsStart) (hnumbered : s.HandlesNumbered) :
    s.HoldsHandles := by
  refine ⟨hnumbered, fun id m fm hm => ?_, fun id m fm _ _ _ hm => ?_⟩
  · exact absurd ((hs.mapping?_eq_none id m).symm.trans hm) (by simp)
  · exact absurd ((hs.mapping?_eq_none id m).symm.trans hm) (by simp)

end DemandPaging

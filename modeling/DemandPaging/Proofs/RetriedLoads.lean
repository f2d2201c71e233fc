import DemandPaging.Proofs.PageOrigins
/-!
# Loading a page once more

A page that could not be loaded, because its file was too short, can be when the file is long
enough. Then it holds the bytes of the file and after them zeros (`Pager.HoldsWindow`), whatever
was in its frame. That the file is long enough may be asked before the page gets its frame: if
another page has to go for that it is at most written to the file, which makes no file shorter
(`Shift.readable`).
-/

namespace DemandPaging

open Pager PagerAction Outcome

variable {n : Nat} {S : Array OpenFile → Prop} {p q t : Pager n} {f g : Option (Fin n)}
  {id : SpaceId} {upage : Nat} {d : Descriptor} {w : FileWindow}

/-! ## Files that are long enough -/

theorem Keeps.readable {swap swap' : SwapArea} {files files' : Array OpenFile} {page : Page}
    {b b' c : Backing} {dirty : Bool} (h : Keeps swap files page b dirty b' swap' files')
    (hc : c.Readable files) : c.Readable files' := by
  rcases h.files with ⟨rfl, _⟩ | ⟨_, _, w, _, rfl⟩
  · exact hc
  · intro v hv
    rw [getD_modify]
    split
    next hindex =>
      rw [FileWindow.save_file, ← hindex.1]
      exact OpenFile.length_read_write (hc v hv) _ _
    next => exact hc v hv

theorem Shift.readable {b : Backing} (h : Shift S p q) (hb : b.Readable p.files) :
    b.Readable q.files := by
  cases h with
  | still _ hfiles => rwa [hfiles]
  | evicted _ _ _ _ hkeeps => exact hkeeps.readable hb
  | loaded _ _ _ _ _ _ hfiles => rwa [hfiles]

theorem Chain.readable {b : Backing} (h : Chain S p f [] q g) (hp : p.Agrees f)
    (hb : b.Readable p.files) : b.Readable q.files := by
  generalize hcs : ([] : List Change) = cs at h
  induction h with
  | refl => exact hb
  | quiet h move ih => exact (move.shift (h.agrees hp)).readable (ih hcs)
  | visible => exact absurd hcs (by simp)

/-! ## Pages that are filled from files -/

/-- The page is in a frame and holds what its window shows: bytes of the file, and then zeros. -/
def Pager.HoldsWindow (p : Pager n) (id : SpaceId) (upage : Nat) (w : FileWindow) : Prop :=
  ∃ page, p.framed? id upage = some page
    ∧ page.bytes = (p.file w.source.file).read w.offset w.readBytes ++ Bytes.zeros w.zeroBytes

theorem Pager.Landed.holdsWindow {i : Fin n} {pins : Nat} (h : p.Landed id upage d i pins q)
    (hw : d.backing.loadSource = .file w) (hread : d.backing.Readable q.files)
    (hfit : w.readBytes + w.zeroBytes = pageSize) : q.HoldsWindow id upage w := by
  obtain ⟨page, hpage, hfile, _⟩ := h.framed?
  exact ⟨page, hpage, by rw [hfile w hw]; exact FileWindow.bytes_view (hread w hw) hfit⟩

/-- A page is not unread if its file is long enough. -/
theorem Unread.not_readable {e : PagingError} (h : Unread p id upage e q)
    (hd : p.descriptor? id upage = some d) (hw : d.backing.loadSource = .file w) :
    ¬ d.backing.Readable q.files := by
  intro hread
  cases h with
  | intro hd' _ hfails =>
    cases hd.symm.trans hd'
    cases hfails with
    | short hb hactual hne => exact hne (hactual.trans (hread _ hb))
    | refused hb => cases hw.symm.trans hb

/-- A page waits to be loaded from its window, and its file is long enough for it. -/
structure Pager.Waits (p : Pager n) (id : SpaceId) (upage : Nat) (d : Descriptor) (w : FileWindow) :
    Prop where
  descriptor? : p.descriptor? id upage = some d
  loaded : d.loaded = false
  source : d.backing.loadSource = .file w
  long : ((p.file w.source.file).read w.offset w.readBytes).length = w.readBytes

namespace Pager.Waits

theorem readable (h : p.Waits id upage d w) : d.backing.Readable p.files := by
  intro v hv
  cases h.source.symm.trans hv
  exact h.long

theorem fits (h : p.Waits id upage d w) (hfit : p.WindowsFit) :
    w.readBytes + w.zeroBytes = pageSize := by
  refine hfit id upage d w h.descriptor? ?_
  rcases d.backing.loadSource_eq with hb | ⟨v, hsource, _, hwindow⟩ | ⟨slot, hsource, _⟩
  · have hsource := h.source
    rw [hb] at hsource
    cases hsource
  · cases h.source.symm.trans hsource
    exact hwindow
  · cases h.source.symm.trans hsource

/-- A page that waits is loaded, and does not fail to be. -/
theorem ensureLoaded (h : p.Waits id upage d w) (hp : p.Agrees none) (hfit : p.WindowsFit) :
    ((ensureLoaded id upage).run p).Meets (fun _ q => q.HoldsWindow id upage w) (fun _ _ => False)
      (OutOfFrames p id upage) := by
  refine (ensureLoaded_serves hp id upage).mono ?_ ?_ fun _ h => h
  · intro _ q hq
    obtain ⟨hleads, _, hserved⟩ := hq
    cases hserved with
    | there hmapped =>
      rw [hp.descriptors.address?_of_not_loaded h.descriptor? h.loaded] at hmapped
      cases hmapped
    | loaded hd _ hlanded =>
      cases h.descriptor?.symm.trans hd
      exact hlanded.holdsWindow h.source (hleads.chain.readable hp h.readable) (h.fits hfit)
    | grown hd => exact absurd (hd.symm.trans h.descriptor?) (by simp)
  · intro e q hq
    obtain ⟨hleads, ⟨_, hd, _⟩ | hunread⟩ := hq
    · exact absurd (hd.symm.trans h.descriptor?) (by simp)
    · exact hunread.not_readable h.descriptor? h.source (hleads.chain.readable hp h.readable)

theorem loadAt {address : Nat} (h : p.Waits id (pageBase address) d w) (hp : p.Agrees none)
    (hfit : p.WindowsFit) :
    ((loadAt id address).run p).Meets (fun _ q => q.HoldsWindow id (pageBase address) w)
      (fun _ _ => False) (OutOfFrames p id (pageBase address)) :=
  h.ensureLoaded hp hfit

theorem handleFault {address : Nat} (h : p.Waits id (pageBase address) d w) (hp : p.Agrees none)
    (hfit : p.WindowsFit) (hzero : address ≠ 0) (stackPointer : Nat) :
    ((handleFault id address stackPointer).run p).Meets
      (fun _ q => q.HoldsWindow id (pageBase address) w) (fun _ _ => False)
      (OutOfFrames p id (pageBase address)) := by
  have huser := IsUserAddress.of_pageBase (hp.descriptors.upage id _ d h.descriptor?).2
  have hcase := handleFault_case p id address stackPointer
  generalize (DemandPaging.handleFault id address stackPointer).run p = outcome at hcase
  cases hcase with
  | wrong hwrong =>
    rcases hwrong with hc | hc | ⟨hd, _⟩
    · exact absurd hc hzero
    · exact absurd huser hc
    · exact absurd (hd.symm.trans h.descriptor?) (by simp)
  | described => exact h.ensureLoaded hp hfit
  | there _ hd => exact absurd (hd.symm.trans h.descriptor?) (by simp)
  | grows _ _ hd => exact absurd (hd.symm.trans h.descriptor?) (by simp)

theorem pinForCopy (h : p.Waits id upage d w) (hp : p.Agrees none) (hfit : p.WindowsFit) :
    ((pinForCopy id upage).run p).Meets (fun _ q => q.HoldsWindow id upage w) (fun _ _ => False)
      (OutOfFrames p id upage) := by
  refine (pinForCopy_lands hp id upage).mono ?_ ?_ fun _ h => h
  · intro i q hq
    obtain ⟨hleads, _, hlands⟩ := hq
    exact (hlands d h.descriptor? h.loaded).holdsWindow h.source
      (hleads.chain.readable hp h.readable) (h.fits hfit)
  · intro e q hq
    obtain ⟨hleads, ⟨_, hd, _⟩ | hunread⟩ := hq
    · exact absurd (hd.symm.trans h.descriptor?) (by simp)
    · exact hunread.not_readable h.descriptor? h.source (hleads.chain.readable hp h.readable)

end Pager.Waits

end DemandPaging

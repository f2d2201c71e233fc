import DemandPaging.Proofs.MappedPages
import DemandPaging.Proofs.SoundMemory
/-!
# The memory that the pager presents to a process

Seen by its process a page holds what its frame holds, or what would come of loading it
(`Pager.seen?`). The pager presents a memory to a process when each page is seen as it is there
(`Presents`). Of the files the memory and the pager need to agree only beside the pages that are
shown, since what was stored in those may not have been written back yet.

This module says what is left of that when pages are left alone and at most one of them is
written back (`Pager.WritesBack`).
-/

namespace DemandPaging

open Pager

variable {n : Nat}

/-- What comes of loading a page, by its backing. -/
def Backing.loads (files : Array OpenFile) (swap : SwapArea) (b : Backing) :
    Except PagingError Page :=
  match b.loadSource with
  | .nowhere => .error .invalidState
  | .file w => w.contents (files.getD w.source.file default).data
  | .swap slot => .ok (swap.pageIn slot)

namespace Pager

/-- What a process finds in a page, and whether it may write there, if there is such a page. -/
def seen? (p : Pager n) (id : SpaceId) (upage : Nat) : Option (Except PagingError Page × Bool) :=
  match p.framed? id upage with
  | some page => some (.ok page, p.has .writable id upage)
  | none => (p.descriptor? id upage).map fun d =>
      (d.backing.loads p.files p.swap, d.writable || d.backing.isMapped)

/-- A page is seen as it is in a memory, and will be when it is moved: its frame may be dropped
only if the page is in its file, and a page of a mapping is one that shows its file. -/
structure PresentsPage (p : Pager n) (U : FileUse) (b : SpaceId) (M : Memory) (v : Nat) :
    Prop where
  seen : p.seen? b v = M.look v
  writable : ∀ {d}, p.descriptor? b v = some d → (p.framed? b v).isSome = true →
    p.has .writable b v = (d.writable || d.backing.isMapped)
  clean : ∀ {d w page}, p.descriptor? b v = some d → d.backing.window? = some w →
    p.framed? b v = some page → p.has .dirty b v = false →
      w.contents (p.file w.source.file).data = .ok page
  mapped : ∀ {d w}, p.descriptor? b v = some d → d.backing.window? = some w →
    d.backing.isMapped = true →
      w.readBytes = pageSize ∧ M.pages v = some (.shows w.source.file w.offset)
  segment : ∀ {d w}, p.descriptor? b v = some d → d.backing.window? = some w →
    d.backing.isMapped = false → U.segment w.source.file

/-- A file has the bytes that it has in a memory, but for those that pages show. -/
structure PresentsFile (p : Pager n) (M : Memory) (k : Nat) : Prop where
  isPlain : (p.file k).IsPlain
  length : (p.file k).data.length = (M.files k).length
  data : ∀ i, (∀ v offset, M.pages v = some (.shows k offset) →
    ¬(offset ≤ i ∧ i < offset + pageSize)) → (p.file k).data[i]? = (M.files k)[i]?

/-- No process but that of the space `b` maps a file that this one uses. -/
def OthersApart (p : Pager n) (U : FileUse) (b : SpaceId) : Prop :=
  ∀ o v d w, o ≠ b → PageAligned v → p.descriptor? o v = some d → d.backing.isMapped = true →
    d.backing.window? = some w → ¬ U.own w.source.file

/-- The pager presents the memory `M` to the space `b`, which uses the files `U`. -/
structure Presents (p : Pager n) (U : FileUse) (b : SpaceId) (M : Memory) : Prop where
  sound : M.Sound U
  page : ∀ v, PageAligned v → p.PresentsPage U b M v
  file : ∀ k, U.own k → p.PresentsFile M k
  others : p.OthersApart U b

variable {p q : Pager n} {U : FileUse} {b o : SpaceId} {M M' : Memory} {u v k : Nat} {page : Page}

theorem seen?_of_framed? (h : p.framed? o v = some page) :
    p.seen? o v = some (.ok page, p.has .writable o v) := by
  unfold seen?
  rw [h]

theorem seen?_of_not_framed? (h : p.framed? o v = none) :
    p.seen? o v = (p.descriptor? o v).map fun d =>
      (d.backing.loads p.files p.swap, d.writable || d.backing.isMapped) := by
  unfold seen?
  rw [h]

/-- There is no page to be seen where there is neither a frame nor a descriptor. -/
theorem seen?_eq_none_iff :
    p.seen? o v = none ↔ p.framed? o v = none ∧ p.descriptor? o v = none := by
  unfold seen?
  cases p.framed? o v with
  | some page => simp
  | none => simp

/-- A page that is left alone is seen as before if its window is what it was. -/
theorem SamePage.seen? (h : SamePage p q o v)
    (hwindow : ∀ {d w}, p.descriptor? o v = some d → d.backing.window? = some w →
      w.contents (q.file w.source.file).data = w.contents (p.file w.source.file).data) :
    q.seen? o v = p.seen? o v := by
  cases hf : p.framed? o v with
  | some page =>
    rw [seen?_of_framed? hf, seen?_of_framed? (h.framed?.trans hf), h.has .writable (by simp)]
  | none =>
    rw [seen?_of_not_framed? hf, seen?_of_not_framed? (h.framed?.trans hf), h.descriptor?]
    cases hd : p.descriptor? o v with
    | none => rfl
    | some d =>
      have hloads : d.backing.loads q.files q.swap = d.backing.loads p.files p.swap := by
        unfold Backing.loads
        rcases d.backing.loadSource_eq with hb | ⟨w, hsource, _, hw⟩ | ⟨slot, hsource, _, hslot, _⟩
        · rw [hb]
          rfl
        · rw [hsource]
          exact hwindow hd hw
        · rw [hsource]
          exact congrArg Except.ok (h.pageIn slot (slot?_eq_some_iff.mpr ⟨d, hd, hslot⟩))
      rw [Option.map_some, Option.map_some, hloads]

theorem PresentsFile.length_file (h : p.PresentsFile M k) :
    (p.file k).length = (M.files k).length := by
  rw [← h.length]
  unfold OpenFile.length
  rw [h.isPlain.medium?]
  rfl

/-- More pages may show a file that is as it was. -/
theorem PresentsFile.of_shows (h : p.PresentsFile M k) (hfiles : M'.files = M.files)
    (hshows : ∀ v offset, M.pages v = some (.shows k offset) →
      M'.pages v = some (.shows k offset)) : p.PresentsFile M' k where
  isPlain := h.isPlain
  length := by rw [hfiles, h.length]
  data i hi := by
    rw [hfiles]
    exact h.data i fun v offset hv => hi v offset (hshows v offset hv)

/-- Of a page that is in no frame there is to know how it is seen, and its window. -/
theorem PresentsPage.of_unframed (hf : p.framed? b v = none) (hseen : p.seen? b v = M.look v)
    (hmapped : ∀ d w, p.descriptor? b v = some d → d.backing.window? = some w →
      d.backing.isMapped = true →
        w.readBytes = pageSize ∧ M.pages v = some (.shows w.source.file w.offset))
    (hsegment : ∀ d w, p.descriptor? b v = some d → d.backing.window? = some w →
      d.backing.isMapped = false → U.segment w.source.file) : p.PresentsPage U b M v where
  seen := hseen
  writable _ hframed := by
    rw [hf] at hframed
    cases hframed
  clean _ _ hframed := by
    rw [hf] at hframed
    cases hframed
  mapped := hmapped _ _
  segment := hsegment _ _

/-- Of a page without a descriptor there is to know how it is seen. -/
theorem PresentsPage.of_undescribed (hd : p.descriptor? b v = none)
    (hseen : p.seen? b v = M.look v) : p.PresentsPage U b M v := by
  have hnot : ∀ {d}, p.descriptor? b v ≠ some d := fun h => by
    rw [hd] at h
    cases h
  exact ⟨hseen, fun h => absurd h hnot, fun h => absurd h hnot, fun h => absurd h hnot,
    fun h => absurd h hnot⟩

theorem PresentsPage.of_samePage (h : p.PresentsPage U b M v) (hsame : SamePage p q b v)
    (hwindow : ∀ {d w}, p.descriptor? b v = some d → d.backing.window? = some w →
      w.contents (q.file w.source.file).data = w.contents (p.file w.source.file).data)
    (hlook : M'.look v = M.look v)
    (hshows : ∀ {k offset}, M.pages v = some (.shows k offset) →
      M'.pages v = some (.shows k offset)) : q.PresentsPage U b M' v where
  seen := by rw [hsame.seen? hwindow, h.seen, hlook]
  writable hd hf := by
    rw [hsame.descriptor?] at hd
    rw [hsame.framed?] at hf
    rw [hsame.has .writable (by simp), h.writable hd hf]
  clean hd hw hf hc := by
    rw [hsame.descriptor?] at hd
    rw [hsame.framed?] at hf
    rw [hsame.dirty] at hc
    rw [hwindow hd hw, h.clean hd hw hf hc]
  mapped hd hw hm := by
    rw [hsame.descriptor?] at hd
    obtain ⟨hread, hpage⟩ := h.mapped hd hw hm
    exact ⟨hread, hshows hpage⟩
  segment hd hw hm := by
    rw [hsame.descriptor?] at hd
    exact h.segment hd hw hm

namespace Presents

/-- The window of a page is onto a file that the process uses. -/
theorem own (hp : p.Presents U b M) (hv : PageAligned v) {d : Descriptor} {w : FileWindow}
    (hd : p.descriptor? b v = some d) (hw : d.backing.window? = some w) :
    U.own w.source.file := by
  cases hm : d.backing.isMapped with
  | true => exact U.own_of_mapped (hp.sound.mapped ((hp.page v hv).mapped hd hw hm).2)
  | false => exact U.own_of_segment ((hp.page v hv).segment hd hw hm)

/-- A file that no page shows is as it is in the memory. -/
theorem data_eq (hp : p.Presents U b M) (hk : U.own k)
    (hfresh : ∀ v offset, M.pages v ≠ some (.shows k offset)) : (p.file k).data = M.files k :=
  List.ext_getElem? fun i => (hp.file k hk).data i fun v offset hv => absurd hv (hfresh v offset)

/-- A file of a segment is as it is in the memory. -/
theorem data_segment (hp : p.Presents U b M) (hk : U.segment k) : (p.file k).data = M.files k :=
  hp.data_eq (U.own_of_segment hk) fun _ _ hv => U.apart k (hp.sound.mapped hv) hk

/-- A page of a mapping is seen as the part of the file that it shows. -/
theorem seen_mapped (hp : p.Presents U b M) (hv : PageAligned v) {d : Descriptor} {w : FileWindow}
    (hd : p.descriptor? b v = some d) (hw : d.backing.window? = some w)
    (hm : d.backing.isMapped = true) :
    p.seen? b v = some (.ok (Bytes.pageAt (M.files w.source.file) w.offset), true) := by
  rw [(hp.page v hv).seen]
  exact Memory.look_of_shows ((hp.page v hv).mapped hd hw hm).2

end Presents

/-! ## Writing back -/

/-- The files that a process uses are as they were, but for the part of a file that the page `v`
shows, which may have been overwritten with the page. -/
def WritesBack (p q : Pager n) (U : FileUse) (M : Memory) (v : Nat) (page : Page) : Prop :=
  ∀ k, U.own k → (q.file k).IsPlain ∧ ((q.file k).data = (p.file k).data
    ∨ ∃ offset, M.pages v = some (.shows k offset)
      ∧ (q.file k).data = Bytes.overwrite (p.file k).data offset page.bytes)

/-- The files that a process uses are as they were. -/
def KeepsFiles (p q : Pager n) (U : FileUse) : Prop :=
  ∀ k, U.own k → (q.file k).IsPlain ∧ (q.file k).data = (p.file k).data

theorem Presents.keepsFiles (hp : p.Presents U b M) (hfiles : ∀ k, U.own k → q.file k = p.file k) :
    KeepsFiles p q U := by
  intro k hk
  rw [hfiles k hk]
  exact ⟨(hp.file k hk).isPlain, rfl⟩

theorem Presents.keepsFiles_of_eq (hp : p.Presents U b M) (hfiles : q.files = p.files) :
    KeepsFiles p q U :=
  hp.keepsFiles fun k _ => by rw [Pager.file, hfiles, Pager.file]

theorem Presents.keepsFiles_of_sameContents (hp : p.Presents U b M) (h : SameContents p q) :
    KeepsFiles p q U := by
  intro k hk
  refine ⟨h.isPlain (hp.file k hk).isPlain, ?_⟩
  unfold OpenFile.data
  rw [(h k).1]

theorem KeepsFiles.writesBack (h : KeepsFiles p q U) (M : Memory) (v : Nat) (page : Page) :
    WritesBack p q U M v page :=
  fun k hk => ⟨(h k hk).1, Or.inl (h k hk).2⟩

/-- What was written to a file without limits is one page of it. -/
theorem WritesBack.of_save {w : FileWindow} (hp : p.Presents U b M)
    (hv : M.pages v = some (.shows w.source.file w.offset))
    (hfiles : q.files = p.files.modify w.source.file fun _ =>
      (w.save (p.file w.source.file) page).2) : WritesBack p q U M v page := by
  intro k hk
  have hplain := (hp.file k hk).isPlain
  by_cases hkw : k = w.source.file
  · subst hkw
    have hsaved := savedTo_of_modify hfiles
    exact ⟨hsaved.isPlain hplain, Or.inr ⟨w.offset, hv, hsaved.data hplain⟩⟩
  · rw [file_of_saved_elsewhere hfiles fun hc => hkw hc.symm]
    exact ⟨hplain, Or.inl rfl⟩

namespace Presents

/-- Another page's window shows what it did. -/
theorem contents_of_writesBack (hp : p.Presents U b M) (hq : WritesBack p q U M v page)
    (hu : PageAligned u) (hne : u ≠ v) {d : Descriptor} {w : FileWindow}
    (hd : p.descriptor? b u = some d) (hw : d.backing.window? = some w) :
    w.contents (q.file w.source.file).data = w.contents (p.file w.source.file).data := by
  rcases (hq _ (hp.own hu hd hw)).2 with hsame | ⟨offset, hv, hdata⟩
  · rw [hsame]
  · cases hm : d.backing.isMapped with
    | true =>
      obtain ⟨hread, hshows⟩ := (hp.page u hu).mapped hd hw hm
      have hwithin := hp.sound.within hv
      have hapart := hp.sound.apart hv hshows hne.symm
      have hlength := (hp.file _ (hp.own hu hd hw)).length
      have hpage := page.length_bytes
      rw [hdata]
      exact FileWindow.contents_congr (Bytes.slice_overwrite_apart (by omega) (by omega))
    -- a file of a segment is shown by no page
    | false =>
      exact absurd ((hp.page u hu).segment hd hw hm) (U.apart _ (hp.sound.mapped hv))

theorem file_of_writesBack (hp : p.Presents U b M) (hq : WritesBack p q U M v page)
    (hk : U.own k) : q.PresentsFile M k := by
  have hfile := hp.file k hk
  obtain ⟨hplain, hsame | ⟨offset, hv, hdata⟩⟩ := hq k hk
  · refine ⟨hplain, ?_, ?_⟩
    · rw [hsame, hfile.length]
    · intro i hi
      rw [hsame, hfile.data i hi]
  · have hwithin := hp.sound.within hv
    have hlength := hfile.length
    have hpage := page.length_bytes
    refine ⟨hplain, ?_, ?_⟩
    · rw [hdata, Bytes.length_overwrite_of_le (by omega), hlength]
    · intro i hi
      have hout := hi v offset hv
      rw [hdata, Bytes.getElem?_overwrite_of_le (by omega), if_neg (by omega), hfile.data i hi]

/-- The window of the page that was written back shows the page. -/
theorem contents_written {w : FileWindow} (hp : p.Presents U b M)
    (hv : M.pages v = some (.shows w.source.file w.offset)) (hread : w.readBytes = pageSize)
    (hfiles : q.files = p.files.modify w.source.file fun _ =>
      (w.save (p.file w.source.file) page).2) :
    w.contents (q.file w.source.file).data = .ok page := by
  have hfile := hp.file _ (U.own_of_mapped (hp.sound.mapped hv))
  have hwithin := hp.sound.within hv
  have hlength := hfile.length
  rw [(savedTo_of_modify hfiles).data hfile.isPlain,
    FileWindow.contents_of_whole hread (by rw [Bytes.length_overwrite]; omega),
    Bytes.pageAt_overwrite_self page (by omega)]

/-- All pages of the process are left alone, and its files too. -/
theorem of_apart (hp : p.Presents U b M) (hpages : ∀ v, PageAligned v → SamePage p q b v)
    (hfiles : KeepsFiles p q U)
    (hothers : q.OthersApart U b) :
    q.Presents U b M where
  sound := hp.sound
  page v hv := by
    refine (hp.page v hv).of_samePage (hpages v hv) ?_ rfl id
    intro d w hd hw
    rw [(hfiles _ (hp.own hv hd hw)).2]
  file k hk := hp.file_of_writesBack (hfiles.writesBack M 0 .zero) hk
  others := hothers

/-- All pages of the process but one are left alone, and of its files at most the part that this
one shows is written. The memory may be another one, in which the other pages are the same. -/
theorem of_page (hp : p.Presents U b M) (hsound : M'.Sound U)
    (hpages : ∀ u, PageAligned u → u ≠ v → SamePage p q b u) (hback : WritesBack p q U M v page)
    (hlook : ∀ u, u ≠ v → M'.look u = M.look u)
    (hshows : ∀ u k offset, u ≠ v → M.pages u = some (.shows k offset) →
      M'.pages u = some (.shows k offset))
    (hpage : q.PresentsPage U b M' v) (hfile : ∀ k, U.own k → q.PresentsFile M' k)
    (hothers : q.OthersApart U b) :
    q.Presents U b M' where
  sound := hsound
  page u hu := by
    by_cases huv : u = v
    · exact huv ▸ hpage
    · exact (hp.page u hu).of_samePage (hpages u hu huv)
        (fun hd hw => hp.contents_of_writesBack hback hu huv hd hw) (hlook u huv)
        (hshows u _ _ huv)
  file := hfile
  others := hothers

end Presents

end Pager

end DemandPaging

import DemandPaging.Proofs.Agreement
/-!
# What a page holds

The contents of a page are in one of three places: in its frame while it is mapped, in the
slot that its descriptor names, or in its window onto a file. `content?` looks them up in
this order, so it does not tell where a page is, only what a process would read there. A
mapped page that is also in a slot is looked up in its file, as it is reloaded from there.
-/

namespace DemandPaging

variable {n : Nat}

namespace Backing

/-- The slot that the page is read from, if it is read from a slot. -/
def readSlot? : Backing → Option Nat
  | .swapped slot | .privateParked _ slot => some slot
  | _ => none

/-- What the page is read from, by where it is: its window, or its slot. -/
theorem loadSource_eq (b : Backing) :
    b = .anonymous ∨ (∃ w, b.loadSource = .file w ∧ b.readSlot? = none ∧ b.window? = some w)
      ∨ ∃ slot, b.loadSource = .swap slot ∧ b.readSlot? = some slot ∧ b.slot? = some slot
          ∧ b.abandonedSlot? = none := by
  cases b with
  | anonymous => exact Or.inl rfl
  | swapped slot => exact Or.inr (Or.inr ⟨slot, rfl, rfl, rfl, rfl⟩)
  | privateFile w => exact Or.inr (Or.inl ⟨w, rfl, rfl, rfl⟩)
  | mappedFile w => exact Or.inr (Or.inl ⟨w, rfl, rfl, rfl⟩)
  | privateParked w slot => exact Or.inr (Or.inr ⟨slot, rfl, rfl, rfl, rfl⟩)
  | mappedParked w slot => exact Or.inr (Or.inl ⟨w, rfl, rfl, rfl⟩)

theorem slot?_of_abandonedSlot? {b : Backing} {slot : Nat} (h : b.abandonedSlot? = some slot) :
    b.slot? = some slot ∧ b.readSlot? = none := by
  cases b <;> cases h
  exact ⟨rfl, rfl⟩

/-- A page that has a window still has one after loading. -/
theorem loaded?_ne_anonymous {b c : Backing} (hb : b ≠ .anonymous) (h : b.loaded? = some c) :
    c ≠ .anonymous := by
  cases b with
  | anonymous => exact absurd rfl hb
  | swapped slot => cases h
  | privateFile w | mappedFile w | privateParked w slot | mappedParked w slot =>
    cases h
    exact fun hc => by cases hc

/-- A page of a mapping keeps its descriptor when it is loaded. -/
theorem exists_loaded? {b : Backing} (h : b.isMapped = true) : ∃ c, b.loaded? = some c := by
  cases b with
  | mappedFile w | mappedParked w slot => exact ⟨_, rfl⟩
  | anonymous | swapped slot | privateFile w | privateParked w slot => cases h

/-- A page of a mapping that names no slot is as it is when it is loaded. -/
theorem eq_mappedFile {b : Backing} (h : b.isMapped = true) (hslot : b.slot? = none) :
    ∃ w, b = .mappedFile w := by
  cases b with
  | mappedFile w => exact ⟨w, rfl⟩
  | mappedParked w slot => cases hslot
  | anonymous | swapped slot | privateFile w | privateParked w slot => cases h

end Backing

/-- A page that is read from a file can be: the file goes on for as long as the window. -/
def Backing.Readable (files : Array OpenFile) (b : Backing) : Prop :=
  ∀ w, b.loadSource = .file w →
    ((files.getD w.source.file default).read w.offset w.readBytes).length = w.readBytes

/-- A file that holds bytes and takes and gives as many as are asked for. -/
structure OpenFile.IsPlain (file : OpenFile) : Prop where
  isConsole : file.isConsole = false
  medium? : file.medium? = none

/-- Everything is written. -/
theorem OpenFile.IsPlain.write {file : OpenFile} (h : file.IsPlain) (offset : Nat)
    (patch : Bytes) :
    file.write offset patch = (patch.length,
      { file.record offset patch patch.length with
        contents := .bytes (Bytes.overwrite file.data offset patch) }) := by
  have hconsole := h.isConsole
  have htakes := takes_of_memory h.medium? offset patch
  unfold OpenFile.write OpenFile.store OpenFile.data
  rw [hconsole, htakes, h.medium?]
  cases hcontents : file.contents with
  | console =>
    unfold OpenFile.isConsole at hconsole
    rw [hcontents] at hconsole
    cases hconsole
  | bytes data =>
    simp only [Bool.false_eq_true, if_false, Option.isSome_none, Bool.false_and, List.take_length]

theorem OpenFile.IsPlain.read {file : OpenFile} (h : file.IsPlain) (offset count : Nat) :
    file.read offset count = Bytes.slice file.data offset count := by
  unfold OpenFile.read
  rw [gives_of_memory h.medium?]

/-- The page that a window shows: the bytes of the file and then zeros. -/
def FileWindow.view (w : FileWindow) (file : OpenFile) : Page :=
  Page.ofBytes (Bytes.slice file.data w.offset w.readBytes)

namespace Pager

/-- What a page that is not mapped holds, by its backing. -/
def parked? (p : Pager n) (b : Backing) : Option Page :=
  match b.loadSource with
  | .nowhere => none
  | .file w => some (w.view (p.file w.source.file))
  | .swap slot => some (p.swap.pageIn slot)

/-- The frame that a page is mapped to. -/
def frame? (p : Pager n) (id : SpaceId) (upage : Nat) : Option (Fin n) :=
  (p.address? id upage).bind p.frames.pool.frameHolding?

/-- What a page holds, if there is such a page. -/
def content? (p : Pager n) (id : SpaceId) (upage : Nat) : Option Page :=
  match p.frame? id upage with
  | some i => some (p.page i)
  | none => (p.descriptor? id upage).bind fun d => p.parked? d.backing

end Pager

namespace FileWindow

theorem getElem?_view (w : FileWindow) (file : OpenFile) {i : Nat} (hi : i < pageSize) :
    (w.view file).bytes[i]?
      = some (if i < w.readBytes then (file.data[w.offset + i]?).getD 0 else 0) := by
  unfold view
  rw [Page.getElem?_ofBytes, if_pos hi, Bytes.getElem?_slice]
  split
  · rfl
  · rfl

/-- A read that did not fall short brings all the bytes that were asked for. -/
theorem read_eq_slice {file : OpenFile} {offset count : Nat}
    (h : (file.read offset count).length = count) :
    file.read offset count = Bytes.slice file.data offset count := by
  have hgives : file.gives offset count = count := by
    have hle := file.gives_le offset count
    unfold OpenFile.read at h
    rw [Bytes.length_slice] at h
    omega
  unfold OpenFile.read
  rw [hgives]

/-- A page that was filled from its window without falling short is what the window shows,
whatever it held before. -/
theorem load_eq_ok {w : FileWindow} {file : OpenFile} {page page' : Page}
    (h : w.load file page = (.ok (), page')) : page' = w.view file := by
  unfold load at h
  simp only at h
  split at h
  next hlen =>
    cases h
    refine Page.ext_getElem? ?_
    intro i hi
    rw [Page.getElem?_clearFrom _ _ hi, getElem?_view _ _ hi]
    split
    next hr =>
      rw [Page.getElem?_overwrite _ _ _ hi, hlen, if_pos ⟨Nat.zero_le _, by omega⟩]
      have hslice := read_eq_slice hlen
      rw [hslice] at hlen ⊢
      rw [Nat.sub_zero, Bytes.getElem?_slice, if_pos hr]
      rw [Bytes.length_slice] at hlen
      rw [List.getElem?_eq_getElem (by omega)]
      rfl
    next => rfl
  next => cases h

/-- A window onto a file that is long enough shows what is read of it, and zeros. -/
theorem bytes_view {w : FileWindow} {file : OpenFile}
    (hread : (file.read w.offset w.readBytes).length = w.readBytes)
    (hfit : w.readBytes + w.zeroBytes = pageSize) :
    (w.view file).bytes = file.read w.offset w.readBytes ++ Bytes.zeros w.zeroBytes := by
  have hslice := read_eq_slice hread
  rw [hslice] at hread ⊢
  show (Bytes.slice file.data w.offset w.readBytes).take pageSize ++ Bytes.zeros (pageSize - _) = _
  rw [List.take_of_length_le (by omega), hread, Nat.sub_eq_of_eq_add' hfit.symm]

theorem length_read_of_load {w : FileWindow} {file : OpenFile} {page page' : Page}
    (h : w.load file page = (.ok (), page')) :
    (file.read w.offset w.readBytes).length = w.readBytes := by
  unfold load at h
  simp only at h
  split at h
  next hlen => exact hlen
  next => cases h

/-- A page is filled from a plain file that goes on for as long as the window, whatever it held
before. -/
theorem load_of_isPlain {w : FileWindow} {file : OpenFile} (h : file.IsPlain)
    (hlength : w.offset + w.readBytes ≤ file.data.length) (page : Page) :
    w.load file page = (.ok (), w.view file) := by
  have hread : (file.read w.offset w.readBytes).length = w.readBytes := by
    rw [h.read, Bytes.length_slice]
    omega
  have hload : w.load file page
      = (.ok (), (page.overwrite 0 (file.read w.offset w.readBytes)).clearFrom w.readBytes) := by
    unfold load
    simp only
    rw [if_pos hread]
  rw [hload, load_eq_ok hload]

/-- What a file in memory is left as when a page is written to it: the whole page went. -/
theorem save_of_isPlain {file : OpenFile} (h : file.IsPlain) (w : FileWindow) (page : Page) :
    w.save file page = (.ok (),
      { file.record w.offset page.bytes pageSize with
        contents := .bytes (Bytes.overwrite file.data w.offset page.bytes) }) := by
  unfold save
  simp only [h.write, page.length_bytes, if_true]

/-- However a save ends, the file was asked to take the page. -/
theorem save_file (w : FileWindow) (file : OpenFile) (page : Page) :
    (w.save file page).2 = (file.write w.offset page.bytes).2 := by
  unfold save
  simp only
  split
  · rfl
  · rfl

/-- Saving a page fails with a short write only. -/
theorem save_eq_error {w : FileWindow} {file file' : OpenFile} {page : Page} {e : PagingError}
    (h : w.save file page = (.error e, file')) : ∃ actual, e = .shortWrite pageSize actual := by
  unfold save at h
  simp only at h
  split at h
  next => cases h
  next =>
    cases h
    exact ⟨_, rfl⟩

end FileWindow

/-- A file that gives as many bytes as are asked for gives as many after it was written to: what it
is ready to give does not change, and what it holds only grows. -/
theorem OpenFile.length_read_write {file : OpenFile} {offset count : Nat}
    (h : (file.read offset count).length = count) (start : Nat) (patch : Bytes) :
    ((file.write start patch).2.read offset count).length = count := by
  have hgrows : file.data.length ≤ (file.write start patch).2.data.length := by
    unfold OpenFile.data write store
    cases file.contents with
    | console => exact Nat.le_refl _
    | bytes data =>
      by_cases hnone : (file.medium?.isSome
          && (if file.isConsole = true then 0 else file.takes start patch) == 0) = true
      · simp only [if_pos hnone, Nat.le_refl]
      · simp only [if_neg hnone, Bytes.length_overwrite]
        exact Nat.le_max_left ..
  have hgives : (file.write start patch).2.gives offset count = file.gives offset count := rfl
  have hle := file.gives_le offset count
  unfold OpenFile.read at h ⊢
  rw [Bytes.length_slice] at h ⊢
  rw [hgives]
  omega

/-- A file in memory takes a whole page. -/
theorem OpenFile.IsPlain.data_save {file : OpenFile} (h : file.IsPlain) (w : FileWindow)
    (page : Page) : (w.save file page).2.data = Bytes.overwrite file.data w.offset page.bytes := by
  rw [FileWindow.save_of_isPlain h]
  rfl

/-- A file in memory is still in memory when it was written to. -/
theorem OpenFile.IsPlain.save {file : OpenFile} (h : file.IsPlain) (w : FileWindow) (page : Page) :
    (w.save file page).2.IsPlain := by
  rw [FileWindow.save_of_isPlain h]
  exact ⟨rfl, h.medium?⟩

end DemandPaging

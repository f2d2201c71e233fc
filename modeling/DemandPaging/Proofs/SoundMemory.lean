import DemandPaging.Proofs.ProcessMemory
/-!
# Sound memories

In the memory of a process each page of a mapping is a whole page of its file, and no two pages
show the same part of a file (`Memory.Sound`). Then a store in one page is seen in no other one
(`Sound.look_store_of_ne`), and in its own page as a store there (`Sound.look_store_self`),
though it may be made in a file.

Between calls every page of a mapping belongs to a mapping that is listed (`Memory.Listed`). So
a file of which no mapping is listed is shown by no page.
-/

namespace DemandPaging

/-- The files that a process uses: those that it hands to its calls, and among them those of its
segments and those that it maps. None of them is both. -/
structure FileUse where
  own : Nat → Prop
  segment : Nat → Prop
  mapped : Nat → Prop
  own_of_segment : ∀ {k}, segment k → own k
  own_of_mapped : ∀ {k}, mapped k → own k
  apart : ∀ k, mapped k → ¬ segment k

namespace Memory

/-- The pages of mappings are whole pages of their files, and no two pages show the same part
of a file. -/
structure Sound (U : FileUse) (M : Memory) : Prop where
  mapped : ∀ {v k offset}, M.pages v = some (.shows k offset) → U.mapped k
  within : ∀ {v k offset}, M.pages v = some (.shows k offset) →
    offset + pageSize ≤ (M.files k).length
  apart : ∀ {v v' k offset offset'}, M.pages v = some (.shows k offset) →
    M.pages v' = some (.shows k offset') → v ≠ v' →
      offset + pageSize ≤ offset' ∨ offset' + pageSize ≤ offset
  paged : ∀ k, U.mapped k → (M.files k).length % pageSize = 0
  regions : ∀ {m r}, M.regions m = some r → U.mapped r.file

/-- Every page of a mapping lies in the region of a mapping of its file that is listed. -/
def Listed (M : Memory) : Prop :=
  ∀ v k offset, M.pages v = some (.shows k offset) →
    ∃ m r, M.regions m = some r ∧ r.file = k ∧ v ∈ pageRange r.base r.pageCount

variable {U : FileUse} {M M' : Memory} {u v start : Nat} {bytes : Bytes}

theorem look_eq_none_iff : M.look v = none ↔ M.pages v = none := by
  unfold look
  split
  next h => simp [h]
  next h => simp [h]
  next h => simp [h]

theorem look_of_shows {k offset : Nat} (h : M.pages v = some (.shows k offset)) :
    M.look v = some (.ok (Bytes.pageAt (M.files k) offset), true) := by
  unfold look
  rw [h]

/-- A page is the same in another memory that has it and the file it shows, if it shows one. -/
theorem look_congr (hpage : M'.pages v = M.pages v)
    (hfile : ∀ k offset, M.pages v = some (.shows k offset) →
      Bytes.pageAt (M'.files k) offset = Bytes.pageAt (M.files k) offset) :
    M'.look v = M.look v := by
  unfold look
  rw [hpage]
  split
  next => rfl
  next => rfl
  next k offset h => rw [hfile k offset h]

@[simp] theorem pages_setPage (M : Memory) (upage : Nat) (page? : Option MemoryPage) (u : Nat) :
    (M.setPage upage page?).pages u = if u = upage then page? else M.pages u := rfl

theorem look_setPage_own (M : Memory) (v : Nat) (contents : Except PagingError Page)
    (writable : Bool) :
    (M.setPage v (some (.own contents writable))).look v = some (contents, writable) := by
  unfold look
  rw [pages_setPage, if_pos rfl]

theorem look_setPage_of_ne (h : u ≠ v) (page? : Option MemoryPage) :
    (M.setPage v page?).look u = M.look u :=
  look_congr (if_neg h) fun _ _ _ => rfl

/-- A memory without pages is sound. -/
theorem Sound.empty {files : Nat → Bytes}
    (hpaged : ∀ k, U.mapped k → (files k).length % pageSize = 0) :
    (Memory.empty files).Sound U where
  mapped hv := by cases hv
  within hv := by cases hv
  apart hv := by cases hv
  paged := hpaged
  regions hm := by cases hm

theorem Listed.empty (files : Nat → Bytes) : (Memory.empty files).Listed := by
  intro v k offset hv
  cases hv

/-- Fewer pages of mappings, and files as long as they were, are as sound. -/
theorem Sound.of_le (h : M.Sound U)
    (hpages : ∀ v k offset, M'.pages v = some (.shows k offset) →
      M.pages v = some (.shows k offset))
    (hlength : ∀ k, (M'.files k).length = (M.files k).length)
    (hregions : ∀ m r, M'.regions m = some r → M.regions m = some r) : M'.Sound U where
  mapped hv := h.mapped (hpages _ _ _ hv)
  within hv := hlength _ ▸ h.within (hpages _ _ _ hv)
  apart hv hv' hne := h.apart (hpages _ _ _ hv) (hpages _ _ _ hv') hne
  paged k hk := hlength k ▸ h.paged k hk
  regions hm := h.regions (hregions _ _ hm)

/-- A page of the process alone, or none, in place of a page shows no more than before. -/
theorem shows_of_setPage {page? : Option MemoryPage}
    (hpage : ∀ k offset, page? ≠ some (.shows k offset)) {k offset : Nat}
    (h : (M.setPage v page?).pages u = some (.shows k offset)) :
    u ≠ v ∧ M.pages u = some (.shows k offset) := by
  rw [pages_setPage] at h
  split at h
  next => exact absurd h (hpage k offset)
  next hne => exact ⟨hne, h⟩

theorem Sound.setPage (h : M.Sound U) (v : Nat) {page? : Option MemoryPage}
    (hpage : ∀ k offset, page? ≠ some (.shows k offset)) : (M.setPage v page?).Sound U :=
  h.of_le (fun _ _ _ hu => (shows_of_setPage hpage hu).2) (fun _ => rfl) fun _ _ hm => hm

theorem Listed.setPage (h : M.Listed) (v : Nat) {page? : Option MemoryPage}
    (hpage : ∀ k offset, page? ≠ some (.shows k offset)) : (M.setPage v page?).Listed :=
  fun u k offset hu => h u k offset (shows_of_setPage hpage hu).2

/-! ### Stores -/

/-- Nothing is stored where there is no page, or none that can be had. -/
theorem store_eq_self (h : ∀ page writable, M.look v ≠ some (.ok page, writable)) (start : Nat)
    (bytes : Bytes) : M.store v start bytes = M := by
  unfold store
  split
  next page writable hpage => exact absurd (by unfold look; rw [hpage]) (h page writable)
  next k offset hpage => exact absurd (look_of_shows hpage) (h _ _)
  next => rfl

theorem regions_store (M : Memory) (v start : Nat) (bytes : Bytes) :
    (M.store v start bytes).regions = M.regions
      ∧ (M.store v start bytes).nextRegion = M.nextRegion := by
  unfold store
  split
  next => exact ⟨rfl, rfl⟩
  next => exact ⟨rfl, rfl⟩
  next => exact ⟨rfl, rfl⟩

/-- A store changes no part of a file into a page of its own, nor the other way round. -/
theorem shows_store_iff (M : Memory) (v start : Nat) (bytes : Bytes) {u k offset : Nat} :
    (M.store v start bytes).pages u = some (.shows k offset)
      ↔ M.pages u = some (.shows k offset) := by
  unfold store
  split
  next page writable hpage =>
    rw [pages_setPage]
    split
    next hu => simp [hu, hpage]
    next => exact Iff.rfl
  next => exact Iff.rfl
  next => exact Iff.rfl

/-- A store changes the files in the part that the page shows. -/
theorem Sound.files_store (h : M.Sound U) (hfits : start + bytes.length ≤ pageSize) (k : Nat) :
    ((M.store v start bytes).files k).length = (M.files k).length
      ∧ ∀ i, (∀ offset, M.pages v = some (.shows k offset) →
          ¬(offset ≤ i ∧ i < offset + pageSize)) →
        ((M.store v start bytes).files k)[i]? = (M.files k)[i]? := by
  unfold store
  split
  next => exact ⟨rfl, fun _ _ => rfl⟩
  next k' offset hpage =>
    by_cases hk : k = k'
    · subst hk
      have hwithin := h.within hpage
      simp only [if_true]
      refine ⟨Bytes.length_overwrite_of_le (by omega), fun i hi => ?_⟩
      have hout := hi offset hpage
      rw [Bytes.getElem?_overwrite_of_le (by omega), if_neg (by omega)]
    · simp only [if_neg hk, implies_true, and_self]
  next => exact ⟨rfl, fun _ _ => rfl⟩

theorem Sound.store (h : M.Sound U) (hfits : start + bytes.length ≤ pageSize) :
    (M.store v start bytes).Sound U :=
  h.of_le (fun _ _ _ => (shows_store_iff ..).mp) (fun k => (h.files_store hfits k).1)
    fun m r hm => by rwa [(regions_store M v start bytes).1] at hm

theorem Listed.store (h : M.Listed) (v start : Nat) (bytes : Bytes) :
    (M.store v start bytes).Listed := by
  intro u k offset hu
  rw [(regions_store M v start bytes).1]
  exact h u k offset ((shows_store_iff ..).mp hu)

theorem Sound.look_store_self (h : M.Sound U) (hfits : start + bytes.length ≤ pageSize)
    {page : Page} {writable : Bool} (hlook : M.look v = some (.ok page, writable)) :
    (M.store v start bytes).look v = some (.ok (page.overwrite start bytes), writable) := by
  unfold look at hlook
  split at hlook
  next => cases hlook
  next hpage =>
    cases hlook
    unfold Memory.store look
    simp [hpage]
  next k offset hpage =>
    cases hlook
    rw [look_of_shows ((shows_store_iff ..).mpr hpage), Memory.store, hpage]
    simp only [if_true]
    rw [Bytes.pageAt_overwrite_within hfits (h.within hpage)]

theorem Sound.look_store_of_ne (h : M.Sound U) (hfits : start + bytes.length ≤ pageSize)
    (hne : u ≠ v) : (M.store v start bytes).look u = M.look u := by
  unfold Memory.store
  split
  next => exact look_setPage_of_ne hne _
  next k offset hpage =>
    refine look_congr rfl ?_
    intro k' offset' hu
    by_cases hk : k' = k
    · subst hk
      have hwithin := h.within hpage
      have hapart := h.apart hpage hu hne.symm
      simp only [if_true]
      exact Bytes.pageAt_overwrite_apart (by omega) (by omega)
    · simp only [if_neg hk]
  next => rfl

/-! ### Segments and mappings -/

theorem shows_describe {d : Descriptor} {k offset : Nat}
    (h : (M.describe d).pages u = some (.shows k offset)) : M.pages u = some (.shows k offset) := by
  unfold describe at h
  split at h
  next => exact (shows_of_setPage (by simp) h).2
  next => exact h

theorem regions_describe (M : Memory) (d : Descriptor) :
    (M.describe d).regions = M.regions ∧ (M.describe d).nextRegion = M.nextRegion := by
  unfold describe
  split
  next => exact ⟨rfl, rfl⟩
  next => exact ⟨rfl, rfl⟩

/-- A segment may be described by descriptors that come to the same. -/
theorem addPages_congr {page page' : Nat → Descriptor} {count i : Nat}
    (hupage : ∀ j, (page j).upage = (page' j).upage)
    (hdescribe : ∀ j (M : Memory), M.describe (page j) = M.describe (page' j)) :
    Memory.addPages page count i M = Memory.addPages page' count i M := by
  induction count generalizing i M with
  | zero => rfl
  | succ count ih =>
    unfold Memory.addPages
    rw [hupage, hdescribe, ih]

theorem Listed.addPages {page : Nat → Descriptor} {count i : Nat} (h : M.Listed) :
    (Memory.addPages page count i M).2.Listed := by
  induction count generalizing i M with
  | zero => exact h
  | succ count ih =>
    unfold Memory.addPages
    split
    next => exact h
    next =>
      refine ih ?_
      intro u k offset hu
      rw [(regions_describe M (page i)).1]
      exact h u k offset (shows_describe hu)

/-- A page that shows a file once one was mapped is a new page or an old one. -/
theorem shows_of_addRegion {r : Region} {k offset : Nat}
    (h : (M.addRegion r).pages v = some (.shows k offset)) :
    (∃ i, i < r.pageCount ∧ v = r.base + i * pageSize ∧ k = r.file ∧ offset = i * pageSize)
      ∨ M.pages v = some (.shows k offset) := by
  unfold addRegion at h
  simp only at h
  split at h
  next hrange =>
    obtain ⟨i, hi, rfl⟩ := mem_pageRange.mp hrange
    cases h
    exact Or.inl ⟨i, hi, rfl, rfl, Nat.add_sub_cancel_left ..⟩
  next => exact Or.inr h

/-- Mapping a file that no page shows, and that consists of whole pages. -/
theorem Sound.addRegion {r : Region} (h : M.Sound U) (hmapped : U.mapped r.file)
    (hcount : r.pageCount * pageSize ≤ (M.files r.file).length)
    (hfresh : ∀ v offset, M.pages v ≠ some (.shows r.file offset)) : (M.addRegion r).Sound U := by
  refine ⟨?_, ?_, ?_, h.paged, ?_⟩
  · intro v k offset hv
    rcases shows_of_addRegion hv with ⟨i, _, _, rfl, _⟩ | hv
    · exact hmapped
    · exact h.mapped hv
  · intro v k offset hv
    rcases shows_of_addRegion hv with ⟨i, hi, _, rfl, rfl⟩ | hv
    · exact Nat.le_trans (mul_add_pageSize_le hi) hcount
    · exact h.within hv
  · intro v v' k offset offset' hv hv' hne
    rcases shows_of_addRegion hv with ⟨i, _, rfl, rfl, rfl⟩ | hv
    · rcases shows_of_addRegion hv' with ⟨j, _, rfl, _, rfl⟩ | hv'
      -- of two pages of the region the one ends where or before the other starts
      · have hij : i < j ∨ j < i := by
          rcases Nat.lt_trichotomy i j with h | h | h
          · exact Or.inl h
          · exact absurd (by rw [h]) hne
          · exact Or.inr h
        exact hij.imp mul_add_pageSize_le mul_add_pageSize_le
      · exact absurd hv' (hfresh _ _)
    · rcases shows_of_addRegion hv' with ⟨j, _, _, rfl, _⟩ | hv'
      · exact absurd hv (hfresh _ _)
      · exact h.apart hv hv' hne
  · intro m r' hm
    unfold Memory.addRegion at hm
    simp only at hm
    split at hm
    next =>
      cases hm
      exact hmapped
    next => exact h.regions hm

/-- Striking a mapping off the list takes no page away. -/
theorem Sound.unlist (h : M.Sound U) (m : Nat) : (M.unlist m).Sound U := by
  refine h.of_le (fun _ _ _ hu => hu) (fun _ => rfl) ?_
  intro m' r hm
  unfold Memory.unlist at hm
  simp only at hm
  split at hm
  next => cases hm
  next => exact hm

/-- What is left when pages are taken out. -/
theorem pages_foldl_setPage (l : List Nat) (M : Memory) (u : Nat) :
    (l.foldl (·.setPage · none) M).pages u = if u ∈ l then none else M.pages u := by
  induction l generalizing M with
  | nil => rfl
  | cons v rest ih =>
    rw [List.foldl_cons, ih, pages_setPage]
    by_cases hu : u = v
    · simp [hu]
    · simp [hu]

theorem foldl_setPage_eq (l : List Nat) (M : Memory) :
    (l.foldl (·.setPage · none) M).files = M.files
      ∧ (l.foldl (·.setPage · none) M).regions = M.regions
      ∧ (l.foldl (·.setPage · none) M).nextRegion = M.nextRegion := by
  induction l generalizing M with
  | nil => exact ⟨rfl, rfl, rfl⟩
  | cons v rest ih => exact ih _

theorem Listed.unmapFile (h : M.Listed) (m : Nat) : (M.unmapFile m).Listed := by
  unfold Memory.unmapFile
  split
  next => exact h
  next r hr =>
    intro v k offset hv
    rw [pages_foldl_setPage] at hv
    split at hv
    next => cases hv
    next hout =>
      obtain ⟨m', r', hr', hfile, hrange⟩ := h v k offset hv
      refine ⟨m', r', ?_, hfile, hrange⟩
      rw [(foldl_setPage_eq _ _).2.1]
      refine (if_neg ?_).trans hr'
      -- a page of the mapping that went is gone
      intro hm
      rw [hm, hr] at hr'
      cases hr'
      exact hout hrange

theorem Listed.addRegion (h : M.Listed) (r : Region)
    (hnext : ∀ m r', M.regions m = some r' → m < M.nextRegion) : (M.addRegion r).Listed := by
  intro v k offset hv
  unfold Memory.addRegion at hv ⊢
  simp only at hv ⊢
  split at hv
  next hrange =>
    cases hv
    exact ⟨M.nextRegion, r, if_pos rfl, rfl, hrange⟩
  next =>
    obtain ⟨m, r', hr', hfile, hrange⟩ := h v k offset hv
    exact ⟨m, r', (if_neg (Nat.ne_of_lt (hnext m r' hr'))).trans hr', hfile, hrange⟩

theorem Listed.writeChunks (h : M.Listed) (cs : List Chunk)
    (bytes : Bytes) : (M.writeChunks cs bytes).2.Listed := by
  induction cs generalizing M bytes with
  | nil => exact h
  | cons c rest ih =>
    unfold Memory.writeChunks
    split
    next => exact ih (h.store _ _ _) _
    next => exact h
    next => exact h

/-- After every call the pages of mappings are those of listed mappings. -/
theorem Listed.perform (h : M.Listed) (hnext : ∀ m r, M.regions m = some r → m < M.nextRegion)
    (near : Nat → Nat → Bool) (c : Call) : (c.perform near M).2.Listed := by
  cases c with
  | read | fetch => exact h
  | fault address stackPointer =>
    show (M.fault near address stackPointer).2.Listed
    unfold Memory.fault
    split
    next => exact h
    next =>
      split
      next => exact h
      next => exact h
      next =>
        split
        next => exact h.setPage _ (by simp)
        next => exact h
  | write address bytes =>
    show (M.writeUser address bytes).2.Listed
    unfold Memory.writeUser
    split
    next => exact h.writeChunks _ _
    next => exact h
  | mapFile file base =>
    show (M.mapFile file base).2.Listed
    unfold Memory.mapFile
    split
    next => exact h
    next =>
      simp only
      split
      next => exact h.addRegion _ hnext
      next => exact h
  | unmapFile mapping => exact h.unmapFile mapping
  | addSegment file offset upage readBytes zeroBytes writable =>
    show (M.addSegment file offset upage readBytes zeroBytes writable).2.Listed
    unfold Memory.addSegment
    split
    next => exact h
    next => exact h.addPages

end Memory

/-- Every call has an answer or an error. -/
theorem Call.length_performAll (near : Nat → Nat → Bool) (M : Memory) (cs : List Call) :
    (performAll near M cs).1.length = cs.length := by
  induction cs generalizing M with
  | nil => rfl
  | cons c rest ih => exact congrArg (· + 1) (ih _)

end DemandPaging

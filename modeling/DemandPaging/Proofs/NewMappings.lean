import DemandPaging.Proofs.OpenHandles
/-!
# Mapping a file, all of it or nothing

A file is mapped when the address, the file and every page of the range pass their checks
(`Pager.CanMap`), and otherwise the pager is as it was. The checks come first and see every page,
so that describing the pages cannot stop half way (`run_mapFile`).

The pages of a new mapping divide the file among them: each shows a part of it that is not empty,
and every byte is in the part of one page only (`existsUnique_mappingWindow`). Nothing else is
different afterwards but the list of mappings and the handle that the mapping holds
(`Pager.MapsFile`). A table of mappings gives out every number once (`MappingTable.Issued`).
-/

namespace DemandPaging

open Pager PagerAction

variable {n : Nat}

/-! ## When a file is mapped -/

/-- The file can be mapped at `base`: the address is one of user space and the first of a page,
the file has bytes and can be opened once more, and its pages end in user space and are vacant. -/
structure Pager.CanMap (p : Pager n) (id : SpaceId) (index base : Nat) : Prop where
  ne_zero : base ≠ 0
  user : IsUserAddress base
  aligned : PageAligned base
  isConsole : (p.file index).isConsole = false
  length_ne_zero : (p.file index).length ≠ 0
  fits : base + pagesFor (p.file index).length * pageSize ≤ userTop
  vacant : ∀ i, i < pagesFor (p.file index).length →
    p.descriptor? id (base + i * pageSize) = none ∧ p.address? id (base + i * pageSize) = none
  reopens : (p.file index).reopens = true

theorem mappingFault?_eq_none_iff {file : OpenFile} {base : Nat} :
    mappingFault? file base = none
      ↔ base ≠ 0 ∧ IsUserAddress base ∧ PageAligned base ∧ file.isConsole = false
        ∧ file.length ≠ 0 ∧ base + pagesFor file.length * pageSize ≤ userTop := by
  constructor
  · intro h
    obtain ⟨haligned, hfits, hlength, hbase, hconsole⟩ := of_mappingFault?_eq_none h
    have hcount := (pagesFor_spec hlength).2.1
    have hpages : pageSize ≤ pagesFor file.length * pageSize := Nat.le_mul_of_pos_left _ hcount
    have hpos := pageSize_pos
    exact ⟨hbase, Nat.lt_of_lt_of_le (by omega) hfits, haligned, hconsole, hlength, hfits⟩
  · rintro ⟨hbase, huser, haligned, hconsole, hlength, hfits⟩
    unfold mappingFault?
    rw [if_neg (not_or.mpr ⟨hbase, not_not_intro huser⟩), if_neg (not_not_intro haligned),
      if_neg (by simp [hconsole]), if_neg hlength, if_neg (Nat.not_lt.mpr hfits)]

theorem canMap_iff {p : Pager n} {id : SpaceId} {index base : Nat} :
    p.CanMap id index base
      ↔ mappingFault? (p.file index) base = none
        ∧ (p.space id).isVacantRange (pagesFor (p.file index).length) base = true
        ∧ (p.file index).reopens = true := by
  rw [mappingFault?_eq_none_iff, isVacantRange_iff]
  constructor
  · intro h
    exact ⟨⟨h.ne_zero, h.user, h.aligned, h.isConsole, h.length_ne_zero, h.fits⟩,
      fun i hi => isVacant_iff.mpr (h.vacant i hi), h.reopens⟩
  · rintro ⟨⟨hbase, huser, haligned, hconsole, hlength, hfits⟩, hvacant, hreopens⟩
    exact ⟨hbase, huser, haligned, hconsole, hlength, hfits,
      fun i hi => isVacant_iff.mp (hvacant i hi), hreopens⟩

/-- The state after the file was mapped. -/
def Pager.mapped (p : Pager n) (id : SpaceId) (index base : Nat) : Pager n :=
  let file := p.file index
  let source : FileRef := ⟨index, file.nextHandle⟩
  { p with
    files := p.files.modify index fun _ =>
      { file with handles := file.handles ++ [file.nextHandle], nextHandle := file.nextHandle + 1 }
    spaces := p.spaces.put id
      { p.space id with
        descriptors := (p.space id).descriptors.insertAll (mappingPages source base file.length)
        mappings := ((p.space id).mappings.add ⟨source, base, pagesFor file.length⟩).2 } }

/-- Mapping a file is carried out as a whole, or refused with nothing changed. -/
theorem run_mapFile (p : Pager n) (id : SpaceId) (index base : Nat) :
    (p.CanMap id index base ∧ (mapFile id index base).run p
        = .done (p.space id).mappings.nextId (p.mapped id index base))
      ∨ ¬ p.CanMap id index base ∧ ∃ e, (mapFile id index base).run p = .failed e p := by
  rw [canMap_iff]
  unfold mapFile
  simp only [run_bind, run_read]
  cases hfault : mappingFault? (p.file index) base with
  | some e => exact Or.inr ⟨fun h => by simp at h, e, rfl⟩
  | none =>
    cases hvacant : (p.space id).isVacantRange (pagesFor (p.file index).length) base with
    | false => exact Or.inr ⟨fun h => by simp at h, .alreadyMapped, rfl⟩
    | true =>
      unfold OpenFile.open?
      cases hreopens : (p.file index).reopens with
      | false => exact Or.inr ⟨fun h => by simp at h, .reopenFailed, rfl⟩
      | true =>
        refine Or.inl ⟨⟨rfl, rfl, rfl⟩, ?_⟩
        have hspace : (p.updateFile index fun _ => { p.file index with
            handles := (p.file index).handles ++ [(p.file index).nextHandle]
            nextHandle := (p.file index).nextHandle + 1 }).space id = p.space id := rfl
        simp only [Bool.not_true, Bool.false_eq_true, if_false, if_true,
          addPages_of_isVacantRange hvacant, run_bind, run_update, updateSpace_eq, run_pure, hspace]
        rfl

/-! ## The pages of a file -/

/-- Every page of a file shows some bytes of it, and none beyond its end. -/
theorem mappingWindow_spec (source : FileRef) {length i : Nat} (hi : i < pagesFor length) :
    0 < (mappingWindow source length i).readBytes
      ∧ (mappingWindow source length i).readBytes + (mappingWindow source length i).zeroBytes
        = pageSize
      ∧ (mappingWindow source length i).offset + (mappingWindow source length i).readBytes
        ≤ length := by
  have hstart := mul_lt_of_lt_pagesFor hi
  have hpos := pageSize_pos
  simp only [mappingWindow]
  omega

/-- Every byte of a file is shown by one page of its mapping and by no other. -/
theorem existsUnique_mappingWindow (source : FileRef) {length x : Nat} (hx : x < length) :
    ∃! i, i < pagesFor length ∧ (mappingWindow source length i).offset ≤ x
      ∧ x < (mappingWindow source length i).offset + (mappingWindow source length i).readBytes := by
  have hpos := pageSize_pos
  have hsplit : x / pageSize * pageSize + x % pageSize = x := Nat.div_add_mod' x pageSize
  have hmod : x % pageSize < pageSize := Nat.mod_lt _ hpos
  refine ⟨x / pageSize, ⟨div_lt_pagesFor hx, ?_⟩, ?_⟩
  · simp only [mappingWindow]
    omega
  · rintro i ⟨_, hlow, hhigh⟩
    simp only [mappingWindow] at hlow hhigh
    refine Nat.le_antisymm ((Nat.le_div_iff_mul_le hpos).mpr hlow) ?_
    refine Nat.le_of_lt_succ ((Nat.div_lt_iff_lt_mul hpos).mpr ?_)
    rw [Nat.succ_mul]
    omega

/-- Descriptors of different pages that had none are all added. -/
theorem size_insertAll {t : DescriptorTable} {ds : List Descriptor}
    (hnodup : ds.Pairwise fun a b => a.upage ≠ b.upage)
    (hvacant : ∀ d ∈ ds, t.find? d.upage = none) :
    (t.insertAll ds).size = t.size + ds.length := by
  induction ds generalizing t with
  | nil => rfl
  | cons d rest ih =>
    obtain ⟨hhead, htail⟩ := List.pairwise_cons.mp hnodup
    have hnone : t.find? d.upage = none := hvacant d (List.mem_cons_self ..)
    refine (ih (t := t.insert d.upage d) htail fun e he => ?_).trans ?_
    · rw [KeyedTable.find?_insert, if_neg (hhead e he).symm]
      exact hvacant e (List.mem_cons_of_mem _ he)
    · rw [KeyedTable.size_insert hnone, List.length_cons]
      omega

/-! ## Numbers -/

/-- The table has given out these numbers since it was empty, and no others. -/
inductive MappingTable.Issued : MappingTable → List Nat → Prop where
  | empty : Issued {} []
  | added {t : MappingTable} {numbers : List Nat} {fm : FileMapping} (h : Issued t numbers) :
      Issued (t.add fm).2 (numbers ++ [(t.add fm).1])
  | removed {t : MappingTable} {numbers : List Nat} {number : Nat} (h : Issued t numbers) :
      Issued (t.remove number) numbers

theorem MappingTable.Issued.lt_nextId {t : MappingTable} {numbers : List Nat}
    (h : t.Issued numbers) : ∀ m ∈ numbers, m < t.nextId := by
  induction h with
  | empty => exact fun _ hm => absurd hm List.not_mem_nil
  | removed _ ih => exact ih
  | added _ ih =>
    intro m hm
    rcases List.mem_append.mp hm with hm | hm
    · exact Nat.lt_succ_of_lt (ih m hm)
    · exact List.mem_singleton.mp hm ▸ Nat.lt_succ_self _

/-! ## What mapping a file does -/

/-- The file is mapped under the number `m`, with a handle that was opened for it, and all else
is as it was. -/
structure Pager.MapsFile (p : Pager n) (id : SpaceId) (index base m : Nat) (q : Pager n) :
    Prop where
  frames : q.frames = p.frames
  swap : q.swap = p.swap
  config : q.config = p.config
  size_spaces : q.spaces.size = p.spaces.size
  size_files : q.files.size = p.files.size
  space : ∀ o, o ≠ id → q.space o = p.space o
  pid : (q.space id).pid = (p.space id).pid
  directory : (q.space id).directory = (p.space id).directory
  file_of_ne : ∀ k, k ≠ index → q.file k = p.file k
  file : q.file index = { p.file index with
    handles := (p.file index).handles ++ [(p.file index).nextHandle]
    nextHandle := (p.file index).nextHandle + 1 }
  number : m = (p.space id).mappings.nextId
  nextId : (q.space id).mappings.nextId = m + 1
  mapping? : ∀ k, q.mapping? id k = if k = m
    then some ⟨⟨index, (p.file index).nextHandle⟩, base, pagesFor (p.file index).length⟩
    else p.mapping? id k
  size_descriptors : (q.space id).descriptors.size
    = (p.space id).descriptors.size + pagesFor (p.file index).length
  descriptor? : ∀ u, u ∉ pageRange base (pagesFor (p.file index).length) →
    q.descriptor? id u = p.descriptor? id u

theorem Pager.CanMap.mapsFile {p : Pager n} {id : SpaceId} {index base : Nat}
    (h : p.CanMap id index base) (hid : id < p.spaces.size) :
    p.MapsFile id index base (p.space id).mappings.nextId (p.mapped id index base) := by
  have hspace := fun o => space_of_put (q := p.mapped id index base) rfl hid o
  have hfiles : (p.mapped id index base).files = p.files.modify index fun _ =>
      { p.file index with
        handles := (p.file index).handles ++ [(p.file index).nextHandle]
        nextHandle := (p.file index).nextHandle + 1 } := rfl
  have hindex := lt_size_of_mappingFault? (canMap_iff.mp h).1
  obtain ⟨_, _, _, hold, hmapping⟩ := Visible.views_mapped (q := p.mapped id index base) hid rfl
  refine ⟨rfl, rfl, rfl, Spaces.size_put .., Array.size_modify, ?_, ?_, ?_, ?_, ?_, rfl, ?_, ?_, ?_,
    fun u hu => hold id u fun hc => hu hc.2⟩
  · exact fun o ho => (hspace o).trans (if_neg ho)
  · rw [hspace, if_pos rfl]
  · rw [hspace, if_pos rfl]
  · exact fun k hk => (file_modify hfiles k).trans (if_neg fun hc => hk hc.1)
  · exact (file_modify hfiles index).trans (if_pos ⟨rfl, hindex⟩)
  · rw [hspace, if_pos rfl]
    rfl
  · intro k
    rw [hmapping]
    simp only [true_and]
  · rw [hspace, if_pos rfl]
    refine (size_insertAll (pairwise_mappingPages ..) ?_).trans ?_
    · intro d hd
      obtain ⟨i, hi, rfl⟩ := List.mem_map.mp hd
      exact (h.vacant i (List.mem_range.mp hi)).1
    · rw [mappingPages, List.length_map, List.length_range]

/-- **Mapping a file is all or nothing, and the pages tile the file.** Whatever the state, the
request is answered with a number exactly if the file can be mapped there, and otherwise with an
error that leaves the pager as it was.

When it is answered, the mapping is added under a number above all those that its table has given
out, whether they are still live or not, and holds a handle that was not open before. Its pages
are described, each as a page of a mapping that is writable and not loaded, by the window at its
place in the file, of which a part that is not empty is bytes of the file and the rest of the page
zeros. Each byte of the file is in the window of one page and of no other. All else is as it was. -/
theorem Pager.mapFile_exact (p : Pager n) {id : SpaceId} (hid : id < p.spaces.size)
    (index base : Nat) :
    ((∃ m q, (mapFile id index base).run p = .done m q) ↔ p.CanMap id index base)
      ∧ (∀ e q, (mapFile id index base).run p = .failed e q → q = p)
      ∧ (∀ reason, (mapFile id index base).run p ≠ .fatal reason)
      ∧ ∀ m q, (mapFile id index base).run p = .done m q →
          p.MapsFile id index base m q
          ∧ (∀ numbers, (p.space id).mappings.Issued numbers → ∀ m' ∈ numbers, m' < m)
          ∧ (∀ s es, s.Agrees none → Run s es p → ∀ m' ∈ s.newMappings id es, m' < m)
          ∧ ((p.file index).Numbered → (p.file index).nextHandle ∉ (p.file index).handles)
          ∧ ∃ window : Nat → FileWindow,
              (∀ i, i < pagesFor (p.file index).length →
                q.descriptor? id (base + i * pageSize)
                    = some { upage := base + i * pageSize, backing := .mappedFile (window i),
                             writable := true, loaded := false }
                  ∧ (window i).source = ⟨index, (p.file index).nextHandle⟩
                  ∧ (window i).offset = i * pageSize
                  ∧ 0 < (window i).readBytes
                  ∧ (window i).readBytes + (window i).zeroBytes = pageSize
                  ∧ (window i).offset + (window i).readBytes ≤ (p.file index).length)
              ∧ ∀ x, x < (p.file index).length →
                  ∃! i, i < pagesFor (p.file index).length ∧ (window i).offset ≤ x
                    ∧ x < (window i).offset + (window i).readBytes := by
  rcases run_mapFile p id index base with ⟨hcan, hrun⟩ | ⟨hcannot, e, hrun⟩
  · rw [hrun]
    refine ⟨iff_of_true ⟨_, _, rfl⟩ hcan, fun _ _ h => (nomatch h), fun _ h => (nomatch h), ?_⟩
    intro m q h
    cases h
    obtain ⟨_, _, hnew, _, _⟩ := Visible.views_mapped (q := p.mapped id index base) hid rfl
    refine ⟨hcan.mapsFile hid, fun numbers h => h.lt_nextId, ?_, ?_,
      mappingWindow ⟨index, (p.file index).nextHandle⟩ (p.file index).length, ?_,
      fun x hx => existsUnique_mappingWindow _ hx⟩
    · exact fun s es hs h k hk => ((h.newMappings_ascending hs).2.1 k hk).2
    · exact fun hnumbered hmem => Nat.lt_irrefl _ (hnumbered.lt_next _ hmem)
    · intro i hi
      exact ⟨hnew i hi, rfl, rfl, mappingWindow_spec _ hi⟩
  · rw [hrun]
    refine ⟨iff_of_false (fun ⟨_, _, h⟩ => (nomatch h)) hcannot, ?_, fun _ h => (nomatch h),
      fun _ _ h => (nomatch h)⟩
    intro _ _ h
    cases h
    rfl

/-- A file of two bytes that reports two pages and a half. -/
def overstated : Array OpenFile :=
  #[{ contents := .bytes [1, 2], medium? := some { length? := some 10240 } }]

/-- The file is mapped as long as it says that it is, and not at the null address. -/
theorem Pager.mapFile_exact_oneFrame :
    0 < (oneFrame overstated).spaces.size
      ∧ (∃ q, (mapFile 0 0 pageSize).run (oneFrame overstated) = .done 0 q
        ∧ (q.space 0).descriptors.size = 3 ∧ (q.file 0).handles = [0, 1]
        ∧ q.frames = (oneFrame overstated).frames
        ∧ ∃ w, q.descriptor? 0 (3 * pageSize) = some ⟨3 * pageSize, .mappedFile w, true, false⟩
          ∧ w.offset = 2 * pageSize ∧ 0 < w.readBytes)
      ∧ ¬ ∃ m q, (mapFile 0 0 0).run (oneFrame overstated) = .done m q := by
  have hid : 0 < (oneFrame overstated).spaces.size := by decide
  obtain ⟨hiff, _, _, hdone⟩ := mapFile_exact (oneFrame overstated) hid 0 pageSize
  have hcan : (oneFrame overstated).CanMap 0 0 pageSize :=
    canMap_iff.mpr ⟨by decide, by decide, rfl⟩
  obtain ⟨m, q, hrun⟩ := hiff.mpr hcan
  obtain ⟨hmaps, _, _, _, window, hwindow, _⟩ := hdone m q hrun
  obtain ⟨hpage, _, hoffset, hread, _⟩ := hwindow 2 (by decide)
  refine ⟨hid, ⟨q, ?_, hmaps.size_descriptors, by rw [hmaps.file]; rfl, hmaps.frames,
    window 2, hpage, hoffset, hread⟩, ?_⟩
  · rw [hrun, hmaps.number]
    rfl
  · rw [(mapFile_exact (oneFrame overstated) hid 0 0).1]
    exact fun h => h.ne_zero rfl

end DemandPaging

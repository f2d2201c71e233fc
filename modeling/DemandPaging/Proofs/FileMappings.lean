import DemandPaging.Pager.Mapping
import DemandPaging.Proofs.SwapSlots
import DemandPaging.Proofs.Changes
/-!
# Descriptors in bulk

Two operations touch the descriptors of many pages at once. Mapping a file describes each
page of it (`find?_mapped`), after a check that all of them are vacant
(`isVacantRange_iff`); with the check passed no page is refused (`addPages_of_isVacantRange`).
The end of a process frees the slots of all its descriptors (`freeAll_eq_ok`).
-/

namespace DemandPaging

/-! ## The pages of a file -/

/-- What is asked of a base address before anything is mapped there. -/
theorem of_mappingFault?_eq_none {file : OpenFile} {base : Nat}
    (h : mappingFault? file base = none) :
    PageAligned base ∧ base + pagesFor file.length * pageSize ≤ userTop ∧ file.length ≠ 0
      ∧ base ≠ 0 ∧ file.isConsole = false := by
  unfold mappingFault? at h
  split at h
  next => cases h
  next hbase =>
    split at h
    next => cases h
    next haligned =>
      split at h
      next => cases h
      next hconsole =>
        split at h
        next => cases h
        next hlength =>
          split at h
          next => cases h
          next htop =>
            exact ⟨Decidable.not_not.mp haligned, Nat.not_lt.mp htop, hlength,
              fun hz => hbase (Or.inl hz), by simpa using hconsole⟩

theorem isVacantRange_iff {s : AddressSpace} {count upage : Nat} :
    s.isVacantRange count upage = true
      ↔ ∀ i, i < count → s.isVacant (upage + i * pageSize) = true := by
  induction count generalizing upage with
  | zero => simp [AddressSpace.isVacantRange]
  | succ count ih =>
    rw [AddressSpace.isVacantRange, Bool.and_eq_true, ih]
    constructor
    · intro h i hi
      obtain ⟨hfirst, hrest⟩ := h
      cases i with
      | zero => rwa [Nat.zero_mul, Nat.add_zero]
      | succ i =>
        rw [Nat.succ_mul, Nat.add_comm (i * pageSize), ← Nat.add_assoc]
        exact hrest i (by omega)
    · intro h
      refine ⟨by simpa using h 0 (Nat.succ_pos _), ?_⟩
      intro i hi
      have hi := h (i + 1) (by omega)
      rwa [Nat.succ_mul, Nat.add_comm (i * pageSize), ← Nat.add_assoc] at hi

theorem isVacant_iff {s : AddressSpace} {upage : Nat} :
    s.isVacant upage = true
      ↔ s.descriptors.find? upage = none ∧ s.directory.frameAddress? upage = none := by
  unfold AddressSpace.isVacant
  rw [PageDirectory.isMapped_eq, KeyedTable.contains]
  simp

/-- The descriptors of a mapping at `base` of a file of `length` bytes. -/
def mappingPages (source : FileRef) (base length : Nat) : List Descriptor :=
  (List.range (pagesFor length)).map (mappingPage source base length)

/-- Put descriptors in place of whatever their pages had. -/
def DescriptorTable.insertAll (t : DescriptorTable) (ds : List Descriptor) : DescriptorTable :=
  ds.foldl (fun t d => t.insert d.upage d) t

/-- Pages of which none has a descriptor, and no two are the same, are added one after the other. -/
theorem DescriptorTable.addPages_eq_insertAll {page : Nat → Descriptor} {count i : Nat}
    {t : DescriptorTable} (hdistinct : ∀ j k, j < k → (page j).upage ≠ (page k).upage)
    (hvacant : ∀ j, i ≤ j → j < i + count → t.find? (page j).upage = none) :
    addPages page count i t = (.ok (), t.insertAll ((List.range' i count).map page)) := by
  induction count generalizing i t with
  | zero => rfl
  | succ count ih =>
    rw [addPages_of_vacant_first (hvacant i (Nat.le_refl _) (by omega)), ih]
    · rfl
    · intro j hlow hhigh
      rw [KeyedTable.find?_insert, if_neg (hdistinct i j (by omega)).symm]
      exact hvacant j (by omega) (by omega)

theorem upage_mappingPage_ne (source : FileRef) (base length : Nat) {j k : Nat} (h : j < k) :
    (mappingPage source base length j).upage ≠ (mappingPage source base length k).upage := by
  intro heq
  have hmul : j * pageSize = k * pageSize := Nat.add_left_cancel heq
  exact Nat.ne_of_lt h (Nat.eq_of_mul_eq_mul_right pageSize_pos hmul)

/-- The pages of a new mapping differ. -/
theorem pairwise_mappingPages (source : FileRef) (base length : Nat) :
    (mappingPages source base length).Pairwise fun a b => a.upage ≠ b.upage :=
  List.pairwise_map.mpr (List.pairwise_lt_range.imp fun hjk =>
    upage_mappingPage_ne source base length hjk)

theorem find?_insertAll_of_ne {t : DescriptorTable} {ds : List Descriptor} {u : Nat}
    (h : ∀ d ∈ ds, d.upage ≠ u) : (t.insertAll ds).find? u = t.find? u := by
  induction ds generalizing t with
  | nil => rfl
  | cons d rest ih =>
    refine (ih fun e he => h e (List.mem_cons_of_mem _ he)).trans ?_
    rw [KeyedTable.find?_insert, if_neg (h d (List.mem_cons_self ..)).symm]

theorem find?_insertAll_of_mem {t : DescriptorTable} {ds : List Descriptor} {d : Descriptor}
    (hnodup : ds.Pairwise fun a b => a.upage ≠ b.upage) (h : d ∈ ds) :
    (t.insertAll ds).find? d.upage = some d := by
  induction ds generalizing t with
  | nil => cases h
  | cons e rest ih =>
    obtain ⟨hhead, htail⟩ := List.pairwise_cons.mp hnodup
    rcases List.mem_cons.mp h with rfl | h
    · refine (find?_insertAll_of_ne fun c hc => (hhead c hc).symm).trans ?_
      exact KeyedTable.find?_insert_self ..
    · exact ih htail h

/-- The pages of a vacant range are all described: the call that maps a file cannot stop halfway. -/
theorem addPages_of_isVacantRange {s : AddressSpace} {base length : Nat}
    (h : s.isVacantRange (pagesFor length) base = true) (source : FileRef) :
    s.descriptors.addPages (mappingPage source base length) (pagesFor length) 0
      = (.ok (), s.descriptors.insertAll (mappingPages source base length)) := by
  have hvacant : ∀ j, 0 ≤ j → j < 0 + pagesFor length →
      s.descriptors.find? (mappingPage source base length j).upage = none := fun j _ hj =>
    (isVacant_iff.mp (isVacantRange_iff.mp h j (by omega))).1
  rw [DescriptorTable.addPages_eq_insertAll
    (fun j k => upage_mappingPage_ne source base length) hvacant, ← List.range_eq_range']
  rfl

/-- After a file was mapped each of its pages has its own descriptor. -/
theorem find?_mapped (t : DescriptorTable) (source : FileRef) (base length : Nat) {i : Nat}
    (hi : i < pagesFor length) :
    (t.insertAll (mappingPages source base length)).find? (base + i * pageSize)
      = some (mappingPage source base length i) :=
  find?_insertAll_of_mem (d := mappingPage source base length i)
    (pairwise_mappingPages source base length) (List.mem_map.mpr ⟨i, List.mem_range.mpr hi, rfl⟩)

theorem find?_mapped_other (t : DescriptorTable) (source : FileRef) (base length : Nat) {u : Nat}
    (hu : u ∉ pageRange base (pagesFor length)) :
    (t.insertAll (mappingPages source base length)).find? u = t.find? u := by
  refine find?_insertAll_of_ne fun d hd => ?_
  obtain ⟨i, hi, rfl⟩ := List.mem_map.mp hd
  intro heq
  subst heq
  exact hu (mem_pageRange.mpr ⟨i, List.mem_range.mp hi, rfl⟩)

/-! ## The slots of a space -/

/-- The slots that descriptors name, in order. -/
def slotsOf (ds : List Descriptor) : List Nat := ds.filterMap fun d => d.backing.slot?

theorem slotsOf_cons (d : Descriptor) (rest : List Descriptor) :
    slotsOf (d :: rest) = match d.backing.slot? with
      | some slot => slot :: slotsOf rest
      | none => slotsOf rest := by
  unfold slotsOf
  rw [List.filterMap_cons]
  cases d.backing.slot? with
  | none => rfl
  | some slot => rfl

/-- Slots that are claimed, each named once, are all freed, and no other slot is. -/
theorem freeAll_eq_ok {swap : SwapArea} {ds : List Descriptor} (hnodup : (slotsOf ds).Nodup)
    (hclaimed : ∀ slot ∈ slotsOf ds, swap.Claimed slot) (htidy : swap.slots.Tidy) :
    ∃ swap', ds.foldlM (fun swap d =>
        match d.backing.slot? with
        | some slot => swap.discard slot
        | none => Except.ok swap) swap = .ok swap'
      ∧ swap'.device = swap.device ∧ swap'.slots.length = swap.slots.length ∧ swap'.slots.Tidy
      ∧ ∀ slot, swap'.Claimed slot ↔ swap.Claimed slot ∧ slot ∉ slotsOf ds := by
  induction ds generalizing swap with
  | nil => exact ⟨swap, rfl, rfl, rfl, htidy, by simp [slotsOf]⟩
  | cons d rest ih =>
    cases hslot : d.backing.slot? with
    | none =>
      rw [slotsOf_cons, hslot] at hnodup hclaimed ⊢
      rw [List.foldlM_cons, hslot]
      exact ih hnodup hclaimed htidy
    | some slot =>
      rw [slotsOf_cons, hslot] at hnodup hclaimed ⊢
      obtain ⟨hnotin, hnodup⟩ := List.nodup_cons.mp hnodup
      have hheld := hclaimed slot (List.mem_cons_self ..)
      have hrest : ∀ s ∈ slotsOf rest, (swap.freed slot).Claimed s :=
        fun s hs => (SwapArea.claimed_freed hheld s).mpr
          ⟨hclaimed s (List.mem_cons_of_mem _ hs), fun heq => hnotin (heq ▸ hs)⟩
      obtain ⟨swap', hrun, hdevice, hlength, htidy', hiff⟩ :=
        ih hnodup hrest (htidy.put slot false)
      refine ⟨swap', ?_, hdevice, hlength.trans (Bitmap.length_put ..), htidy', ?_⟩
      · rw [List.foldlM_cons, hslot]
        simp only [SwapArea.discard_of_claimed hheld]
        exact hrun
      · intro s
        rw [hiff, SwapArea.claimed_freed hheld, List.mem_cons, not_or, and_assoc]

theorem mem_slotsOf_values {t : DescriptorTable} {slot : Nat} :
    slot ∈ slotsOf t.values ↔ ∃ u d, t.find? u = some d ∧ d.backing.slot? = some slot := by
  unfold slotsOf KeyedTable.values
  rw [List.filterMap_map, List.mem_filterMap]
  constructor
  · intro h
    obtain ⟨⟨u, d⟩, hmem, hslot⟩ := h
    exact ⟨u, d, KeyedTable.mem_bindings_iff.mp hmem, hslot⟩
  · intro h
    obtain ⟨u, d, hd, hslot⟩ := h
    exact ⟨(u, d), KeyedTable.mem_bindings_iff.mpr hd, hslot⟩

/-- Where no two pages name one slot, no slot is listed twice. -/
theorem nodup_slotsOf_values {t : DescriptorTable}
    (h : ∀ u u' d d' slot, t.find? u = some d → t.find? u' = some d' →
      d.backing.slot? = some slot → d'.backing.slot? = some slot → u = u') :
    (slotsOf t.values).Nodup := by
  unfold slotsOf KeyedTable.values
  rw [List.filterMap_map]
  refine List.pairwise_filterMap.mpr (t.ascending.imp_of_mem fun {a b} ha hb hab => ?_)
  intro s hs s' hs' hsame
  subst hsame
  have heq := h a.1 b.1 a.2 b.2 s (KeyedTable.mem_bindings_iff.mp ha)
    (KeyedTable.mem_bindings_iff.mp hb) hs hs'
  omega

end DemandPaging

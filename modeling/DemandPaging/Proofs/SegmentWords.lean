import DemandPaging.Space.DescriptorTable
/-!
# Segments in machine words

A segment can be described by taking one page off after the other: the next page of the space, the
next bytes of the file, and what is still missing of both counts. `SegmentRest.describe` does so
with numbers that have an end on both sides. A count that would go below zero and a position that
would go beyond the limit stop it without an answer.

Both counts together stay a multiple of the page size, so the zeros that a page needs are always
there. The pages are those that `addSegment` counts, unless a position comes to the limit
(`describe_cases`). So a build that looks for numbers that do not fit in a word describes the same
pages as one that does not, or stops the system (`describeSegment_cases`).
-/

namespace DemandPaging

namespace SegmentRest

variable {limit count : Nat} {s r : SegmentRest} {source : FileRef} {writable : Bool}

/-- What remains is what there was less one page. -/
theorem eq_of_next?_eq_some (h : s.next? limit = some r) :
    r = ⟨s.offset + s.here, s.upage + pageSize, s.readBytes - s.here,
      s.zeroBytes - (pageSize - s.here)⟩ := by
  unfold next? at h
  split at h
  next readBytes zeroBytes offset upage hread hzero hoffset hupage =>
    cases h
    have hread := difference?_eq_some_iff.mp hread
    have hzero := difference?_eq_some_iff.mp hzero
    have hoffset := (sumBelow?_eq_some_iff.mp hoffset).1
    have hupage := (sumBelow?_eq_some_iff.mp hupage).1
    rw [SegmentRest.mk.injEq]
    omega
  next => cases h

/-- No number leaves its range while a whole page remains to be described. -/
theorem next?_eq_some (hpage : pageSize ≤ s.readBytes + s.zeroBytes)
    (hoffset : s.offset + s.readBytes < limit)
    (hupage : s.upage + (s.readBytes + s.zeroBytes) < limit) :
    s.next? limit = some ⟨s.offset + s.here, s.upage + pageSize, s.readBytes - s.here,
      s.zeroBytes - (pageSize - s.here)⟩ := by
  have hhere : s.here = min s.readBytes pageSize := rfl
  have hread : difference? s.readBytes s.here = some (s.readBytes - s.here) := if_pos (by omega)
  have hzero : difference? s.zeroBytes (pageSize - s.here)
      = some (s.zeroBytes - (pageSize - s.here)) := if_pos (by omega)
  have hstart : sumBelow? limit s.offset s.here = some (s.offset + s.here) := if_pos (by omega)
  have hbase : sumBelow? limit s.upage pageSize = some (s.upage + pageSize) := if_pos (by omega)
  unfold next?
  rw [hread, hzero, hstart, hbase]

open DescriptorTable

/-- The first page that is taken off is the first one of the segment. -/
theorem page_eq_segmentPage (s : SegmentRest) (source : FileRef) (writable : Bool) :
    s.page source writable = segmentPage source s.offset s.upage s.readBytes writable 0 := by
  unfold page segmentPage segmentWindow here
  simp only [Nat.zero_mul, Nat.min_zero, Nat.sub_zero, Nat.add_zero]

/-- The pages of what remains are the pages of the segment but the first. -/
theorem segmentPage_rest (s : SegmentRest) (source : FileRef) (writable : Bool) :
    segmentPage source (s.offset + s.here) (s.upage + pageSize) (s.readBytes - s.here) writable
      = fun i => segmentPage source s.offset s.upage s.readBytes writable (i + 1) := by
  funext i
  have hhere : s.here = min s.readBytes pageSize := rfl
  have hplace : (i + 1) * pageSize = i * pageSize + pageSize := Nat.succ_mul ..
  have hupage : s.upage + pageSize + i * pageSize = s.upage + (i + 1) * pageSize := by omega
  have hoffset : s.offset + s.here + min (s.readBytes - s.here) (i * pageSize)
      = s.offset + min s.readBytes ((i + 1) * pageSize) := by omega
  have hrest : s.readBytes - s.here - min (s.readBytes - s.here) (i * pageSize)
      = s.readBytes - min s.readBytes ((i + 1) * pageSize) := by omega
  simp only [segmentPage, segmentWindow, hupage, hoffset, hrest]

end SegmentRest

/-- Pages may be counted from another number. -/
theorem DescriptorTable.addPages_succ (page : Nat → Descriptor) (count i : Nat)
    (t : DescriptorTable) :
    addPages page count (i + 1) t = addPages (fun j => page (j + 1)) count i t := by
  induction count generalizing i t with
  | zero => rfl
  | succ count ih =>
    unfold addPages
    split
    next => exact ih ..
    next => rfl

open DescriptorTable in
/-- Taking one page off after the other describes the pages of the segment, unless a position comes
to the limit. What remains is a whole number of pages at every step, so nothing goes below zero. -/
theorem SegmentRest.describe_cases {count : Nat} {s : SegmentRest}
    (hpages : s.readBytes + s.zeroBytes = count * pageSize) (limit : Nat) (source : FileRef)
    (writable : Bool) (t : DescriptorTable) :
    s.describe limit source writable t
        = some (addPages (segmentPage source s.offset s.upage s.readBytes writable) count 0 t)
      ∨ s.describe limit source writable t = none
        ∧ (limit ≤ s.offset + s.readBytes ∨ limit ≤ s.upage + (s.readBytes + s.zeroBytes)) := by
  induction count generalizing s t with
  | zero =>
    rw [Nat.zero_mul] at hpages
    left
    unfold describe
    rw [if_pos ⟨by omega, by omega⟩]
    rfl
  | succ count ih =>
    have hpos := pageSize_pos
    have hhere : s.here ≤ s.readBytes := Nat.min_le_left ..
    rw [Nat.succ_mul] at hpages
    unfold describe addPages
    rw [if_neg (by omega), page_eq_segmentPage]
    cases t.add (segmentPage source s.offset s.upage s.readBytes writable 0) with
    | error e => exact Or.inl rfl
    | ok t =>
      simp only
      split
      next rest hrest =>
        have hless := of_next?_eq_some hrest
        cases eq_of_next?_eq_some hrest
        simp only at hless
        have hrest := ih (s := ⟨s.offset + s.here, s.upage + pageSize, s.readBytes - s.here,
          s.zeroBytes - (pageSize - s.here)⟩) (by simp only; omega) t
        rw [addPages_succ, ← segmentPage_rest]
        refine hrest.imp_right fun h => ⟨h.1, ?_⟩
        have hlimit := h.2
        simp only at hlimit
        omega
      next hnone =>
        refine Or.inr ⟨rfl, Decidable.byContradiction fun hlimit => ?_⟩
        rw [next?_eq_some (by omega) (by omega) (by omega)] at hnone
        cases hnone

/-- Below the limit the pages of the segment are described. -/
theorem SegmentRest.describe_eq_addPages {limit : Nat} (source : FileRef) (writable : Bool)
    {count : Nat} {s : SegmentRest} (hpages : s.readBytes + s.zeroBytes = count * pageSize)
    (hoffset : s.offset + s.readBytes < limit)
    (hupage : s.upage + (s.readBytes + s.zeroBytes) < limit) (t : DescriptorTable) :
    s.describe limit source writable t
      = some (DescriptorTable.addPages
          (DescriptorTable.segmentPage source s.offset s.upage s.readBytes writable) count 0 t) :=
  (describe_cases hpages limit source writable t).resolve_right fun h => by omega

namespace DescriptorTable

/-- A build that looks for numbers that do not fit in a word describes the same pages as one that
does not, or it stops the system, and then there is such a number. -/
theorem describeSegment_cases (overflow : Overflow) (t : DescriptorTable) (source : FileRef)
    (offset upage readBytes zeroBytes : Nat) (writable : Bool) :
    t.describeSegment overflow source offset upage readBytes zeroBytes writable
        = .ok (t.addSegment source offset upage readBytes zeroBytes writable)
      ∨ t.describeSegment overflow source offset upage readBytes zeroBytes writable
          = .error .overflow
        ∧ overflow = .stops
        ∧ (wordLimit ≤ offset + readBytes ∨ wordLimit ≤ upage + (readBytes + zeroBytes)) := by
  cases overflow with
  | wraps => exact Or.inl rfl
  | stops =>
    unfold describeSegment
    by_cases hupage : ¬ PageAligned upage
    · left
      simp only [if_pos hupage, addSegment, if_pos (Or.inl hupage)]
    by_cases hlimit : ¬ readBytes + zeroBytes < wordLimit
    · right
      simp only [if_neg hupage, sumBelow?, if_neg hlimit, true_and]
      omega
    have hsum : sumBelow? wordLimit readBytes zeroBytes = some (readBytes + zeroBytes) :=
      if_pos (Decidable.not_not.mp hlimit)
    by_cases haligned : ¬ PageAligned (readBytes + zeroBytes)
    · left
      simp only [if_neg hupage, hsum, if_pos haligned, addSegment, if_pos (Or.inr haligned)]
    simp only [if_neg hupage, hsum, if_neg haligned, addSegment,
      if_neg (not_or_intro hupage haligned)]
    rcases SegmentRest.describe_cases (s := ⟨offset, upage, readBytes, zeroBytes⟩)
      (Decidable.not_not.mp haligned).pageBase_eq.symm wordLimit source writable t
      with h | ⟨h, hlimit⟩
    · left
      simp only [h]
    · right
      simp only [h, true_and]
      exact hlimit

/-- A segment that does not consist of whole pages is refused in every build. -/
theorem describeSegment_of_misaligned {t : DescriptorTable} {source : FileRef}
    {offset upage readBytes zeroBytes : Nat} {writable : Bool}
    (h : ¬ PageAligned upage ∨ ¬ PageAligned (readBytes + zeroBytes))
    (hsum : readBytes + zeroBytes < wordLimit) (overflow : Overflow) :
    t.describeSegment overflow source offset upage readBytes zeroBytes writable
      = .ok (.error .misaligned, t) := by
  cases overflow with
  | wraps => exact congrArg Except.ok (if_pos h)
  | stops =>
    unfold describeSegment
    by_cases hupage : ¬ PageAligned upage
    · simp only [if_pos hupage]
    · have hbytes := h.resolve_left hupage
      simp only [if_neg hupage, sumBelow?, if_pos hsum, if_pos hbytes]

end DescriptorTable

end DemandPaging

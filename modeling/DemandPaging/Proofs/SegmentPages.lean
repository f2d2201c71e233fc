import DemandPaging.Proofs.Segments
import DemandPaging.Proofs.SegmentWords
/-!
# The pages of a program segment

The windows of the pages of a segment, read one after the other, are the bytes of the file and then
the zeros, as if the segment had been read at once. So `addSegment_tiles` says all that there is to
say of a segment that meets no page with a descriptor. It is described the same whether its pages
are counted or taken off one by one, and in every build, while its numbers fit in a word.
-/

namespace DemandPaging

/-! ## Adding pages -/

namespace DescriptorTable

/-- Pages of which none has a descriptor, and no two are the same, are all added. -/
theorem addPages_of_vacant {page : Nat → Descriptor} {count i : Nat} {t : DescriptorTable}
    (hdistinct : ∀ j k, j < k → (page j).upage ≠ (page k).upage)
    (hvacant : ∀ j, i ≤ j → j < i + count → t.find? (page j).upage = none) :
    ∃ t', addPages page count i t = (.ok (), t') ∧ t'.size = t.size + count := by
  induction count generalizing i t with
  | zero => exact ⟨t, rfl, rfl⟩
  | succ count ih =>
    have hfirst : t.find? (page i).upage = none := hvacant i (Nat.le_refl _) (by omega)
    obtain ⟨t', hrest, hsize⟩ := ih (i := i + 1) (t := t.insert (page i).upage (page i)) <| by
      intro j hlow hhigh
      rw [KeyedTable.find?_insert, if_neg (hdistinct i j (by omega)).symm]
      exact hvacant j (by omega) (by omega)
    refine ⟨t', ?_, ?_⟩
    · rw [addPages_of_vacant_first hfirst]
      exact hrest
    · rw [hsize, KeyedTable.size_insert hfirst]
      omega

/-- No two pages of a segment are the same. -/
theorem upage_segmentPage_ne (source : FileRef) (offset upage readBytes : Nat) (writable : Bool)
    {j k : Nat} (h : j < k) :
    (segmentPage source offset upage readBytes writable j).upage
      ≠ (segmentPage source offset upage readBytes writable k).upage := by
  intro heq
  have hmul : j * pageSize = k * pageSize := Nat.add_left_cancel heq
  exact Nat.ne_of_lt h (Nat.eq_of_mul_eq_mul_right pageSize_pos hmul)

end DescriptorTable

/-! ## What the pages hold -/

theorem Bytes.slice_append (bytes : Bytes) (start count more : Nat) :
    slice bytes start count ++ slice bytes (start + count) more
      = slice bytes start (count + more) := by
  unfold slice
  rw [List.take_add, List.drop_drop]

theorem Bytes.zeros_append (count more : Nat) :
    zeros count ++ zeros more = zeros (count + more) := List.replicate_append_replicate

section Reading

open DescriptorTable

variable {file : OpenFile} {offset readBytes : Nat}

/-- Of a segment that fits in a word every page begins where the pages before it end. -/
theorem offset_segmentWindow (source : FileRef) (hword : offset + readBytes < wordLimit) (i : Nat) :
    (segmentWindow source offset readBytes i).offset = offset + min readBytes (i * pageSize) :=
  Nat.mod_eq_of_lt (by omega)

/-- The file goes on for as long as every page of the segment. -/
theorem segmentWindow_within (source : FileRef) (hlength : offset + readBytes ≤ file.data.length)
    (hword : offset + readBytes < wordLimit) (i : Nat) :
    (segmentWindow source offset readBytes i).offset
      + (segmentWindow source offset readBytes i).readBytes ≤ file.data.length := by
  rw [offset_segmentWindow source hword]
  show _ + min (readBytes - min readBytes (i * pageSize)) pageSize ≤ _
  omega

/-- A page of a segment shows its part of the file, and zeros. -/
theorem bytes_view_segmentWindow (source : FileRef) (hplain : file.IsPlain)
    (hlength : offset + readBytes ≤ file.data.length) (hword : offset + readBytes < wordLimit)
    (i : Nat) :
    ((segmentWindow source offset readBytes i).view file).bytes
      = Bytes.slice file.data (offset + min readBytes (i * pageSize))
          (min (readBytes - min readBytes (i * pageSize)) pageSize)
        ++ Bytes.zeros (pageSize - min (readBytes - min readBytes (i * pageSize)) pageSize) := by
  have hread : (file.read (segmentWindow source offset readBytes i).offset
      (segmentWindow source offset readBytes i).readBytes).length
        = (segmentWindow source offset readBytes i).readBytes := by
    have hwithin := segmentWindow_within source hlength hword i
    rw [hplain.read, Bytes.length_slice]
    omega
  rw [FileWindow.bytes_view hread (Nat.add_sub_cancel' (Nat.min_le_right ..)), hplain.read,
    offset_segmentWindow source hword]
  rfl

/-- The first pages of a segment, one after the other, show the file up to where its bytes end,
and from there on zeros. -/
theorem flatMap_view_segmentWindow (source : FileRef) (hplain : file.IsPlain)
    (hlength : offset + readBytes ≤ file.data.length) (hword : offset + readBytes < wordLimit)
    (count : Nat) :
    (List.range count).flatMap (fun i => ((segmentWindow source offset readBytes i).view file).bytes)
      = Bytes.slice file.data offset (min readBytes (count * pageSize))
        ++ Bytes.zeros (count * pageSize - readBytes) := by
  induction count with
  | zero => simp [Bytes.slice, Bytes.zeros]
  | succ count ih =>
    rw [List.range_succ, List.flatMap_append, ih, List.flatMap_singleton,
      bytes_view_segmentWindow source hplain hlength hword, Nat.succ_mul]
    rcases Nat.le_total readBytes (count * pageSize) with hover | hwithin
    · -- the bytes of the file have ended: the page is all zeros
      have hhere : min (readBytes - min readBytes (count * pageSize)) pageSize = 0 := by omega
      rw [hhere, show min readBytes (count * pageSize + pageSize) = min readBytes (count * pageSize)
        by omega, show Bytes.slice file.data _ 0 = [] from List.take_zero, List.nil_append,
        List.append_assoc, Bytes.zeros_append]
      congr 2
      omega
    · -- the page goes on in the file
      rw [show count * pageSize - readBytes = 0 by omega, show Bytes.zeros 0 = [] from rfl,
        List.append_nil, ← List.append_assoc, Nat.min_eq_right hwithin, Bytes.slice_append]
      congr 2
      · omega
      · omega

end Reading

open DescriptorTable

/-- **A segment is described page by page as it would be read at once.** Where the segment starts
at a page and consists of whole pages, and none of them has a descriptor, describing it succeeds.
It adds one descriptor for each page and leaves the others alone: each page is a private page of
the file that is not loaded, with the rights that were asked for, and its window is one page of
bytes and zeros together. Taken off one page after the other, with numbers that end on both
sides, the segment gives the same table, and so it does in every build while its places fit in a
word. Then, filled from a plain file that reaches as far as the segment, whatever they held before,
the pages are the bytes of the file and then the zeros.

A segment that does not start at a page, or that does not consist of whole pages, is refused, and
the table stays as it is. -/
theorem DescriptorTable.addSegment_tiles (t : DescriptorTable) (source : FileRef)
    (offset upage readBytes zeroBytes : Nat) (writable : Bool) :
    (PageAligned upage → PageAligned (readBytes + zeroBytes) →
      (∀ i, i < (readBytes + zeroBytes) / pageSize → t.find? (upage + i * pageSize) = none) →
      ∃ t', t.addSegment source offset upage readBytes zeroBytes writable = (.ok (), t')
        ∧ (∀ limit, offset + readBytes < limit → upage + (readBytes + zeroBytes) < limit →
            SegmentRest.describe limit source writable ⟨offset, upage, readBytes, zeroBytes⟩ t
              = some (.ok (), t'))
        ∧ (offset + readBytes < wordLimit → upage + (readBytes + zeroBytes) < wordLimit →
            ∀ overflow, t.describeSegment overflow source offset upage readBytes zeroBytes writable
              = .ok (.ok (), t'))
        ∧ t'.size = t.size + (readBytes + zeroBytes) / pageSize
        ∧ (∀ u, (∀ i, i < (readBytes + zeroBytes) / pageSize → u ≠ upage + i * pageSize) →
            t'.find? u = t.find? u)
        ∧ ∃ window : Nat → FileWindow,
            (∀ i, i < (readBytes + zeroBytes) / pageSize →
              t'.find? (upage + i * pageSize)
                  = some { upage := upage + i * pageSize, backing := .privateFile (window i),
                           writable := writable, loaded := false }
                ∧ (window i).source = source
                ∧ (window i).readBytes + (window i).zeroBytes = pageSize)
            ∧ ∀ file : OpenFile, file.IsPlain → offset + readBytes ≤ file.data.length →
                offset + readBytes < wordLimit → ∀ before : Nat → Page, ∃ after : Nat → Page,
                  (∀ i, i < (readBytes + zeroBytes) / pageSize →
                    (window i).load file (before i) = (.ok (), after i))
                  ∧ (List.range ((readBytes + zeroBytes) / pageSize)).flatMap
                      (fun i => (after i).bytes)
                    = Bytes.slice file.data offset readBytes ++ Bytes.zeros zeroBytes)
    ∧ (¬ PageAligned upage ∨ ¬ PageAligned (readBytes + zeroBytes) →
        t.addSegment source offset upage readBytes zeroBytes writable = (.error .misaligned, t)
          ∧ (readBytes + zeroBytes < wordLimit → ∀ overflow,
            t.describeSegment overflow source offset upage readBytes zeroBytes writable
              = .ok (.error .misaligned, t))) := by
  refine ⟨?_, fun hunaligned => ⟨if_pos hunaligned, fun hsum overflow =>
    describeSegment_of_misaligned hunaligned hsum overflow⟩⟩
  intro hupage hsum hvacant
  have hpages : readBytes + zeroBytes = (readBytes + zeroBytes) / pageSize * pageSize :=
    hsum.pageBase_eq.symm
  have haddSegment : t.addSegment source offset upage readBytes zeroBytes writable
      = addPages (segmentPage source offset upage readBytes writable)
          ((readBytes + zeroBytes) / pageSize) 0 t :=
    if_neg fun hunaligned => hunaligned.elim (fun h => h hupage) fun h => h hsum
  have hnone : ∀ j, 0 ≤ j → j < 0 + (readBytes + zeroBytes) / pageSize →
      t.find? (segmentPage source offset upage readBytes writable j).upage = none :=
    fun j _ hj => hvacant j (by rwa [Nat.zero_add] at hj)
  obtain ⟨t', hadd, hsize⟩ := addPages_of_vacant
    (fun j k => upage_segmentPage_ne source offset upage readBytes writable) hnone
  have hok := haddSegment.trans hadd
  obtain ⟨_, _, hfind, hothers⟩ := addSegment_eq_ok hok
  refine ⟨t', hok, ?_, ?_, hsize, hothers, segmentWindow source offset readBytes, ?_, ?_⟩
  · intro limit hoffset hend
    rw [SegmentRest.describe_eq_addPages source writable hpages hoffset hend, hadd]
  · intro hoffset hend overflow
    refine ((t.describeSegment_cases overflow source offset upage readBytes zeroBytes
      writable).resolve_right fun h => ?_).trans (congrArg _ hok)
    omega
  · exact fun i hi => ⟨(hfind i hi).2, rfl, Nat.add_sub_cancel' (Nat.min_le_right ..)⟩
  · intro file hplain hlength hword before
    refine ⟨fun i => (segmentWindow source offset readBytes i).view file, ?_, ?_⟩
    · exact fun i _ => FileWindow.load_of_isPlain hplain
        (segmentWindow_within source hlength hword i) (before i)
    · rw [flatMap_view_segmentWindow source hplain hlength hword, ← hpages,
        Nat.min_eq_left (Nat.le_add_right ..), Nat.add_sub_cancel_left]

/-- Two bytes from the second one of a file on, and zeros up to the end of the second page. -/
theorem addSegment_tiles_twoPages :
    ∃ (t' : DescriptorTable) (window : Nat → FileWindow),
      DescriptorTable.addSegment ∅ ⟨0, 0⟩ 1 pageSize 2 (2 * pageSize - 2) true = (.ok (), t')
        ∧ SegmentRest.describe userTop ⟨0, 0⟩ true ⟨1, pageSize, 2, 2 * pageSize - 2⟩ ∅
          = some (.ok (), t')
        ∧ t'.size = 2
        ∧ (∀ before : Nat → Page, ∃ after : Nat → Page,
            (∀ i, i < 2 → (window i).load (.ofBytes [1, 2, 3]) (before i) = (.ok (), after i))
              ∧ (after 0).bytes ++ (after 1).bytes = [2, 3] ++ Bytes.zeros (2 * pageSize - 2))
        ∧ DescriptorTable.addSegment t' ⟨0, 0⟩ 1 2 2 (2 * pageSize - 2) true
          = (.error .misaligned, t') := by
  obtain ⟨t', hadd, hsteps, _, hsize, _, window, _, hload⟩ :=
    (DescriptorTable.addSegment_tiles ∅ ⟨0, 0⟩ 1 pageSize 2 (2 * pageSize - 2) true).1
      (by decide) (by decide) fun _ _ => rfl
  refine ⟨t', window, hadd, hsteps userTop (by decide) (by decide), hsize, ?_, ?_⟩
  · intro before
    obtain ⟨after, hafter, hbytes⟩ := hload (.ofBytes [1, 2, 3]) ⟨rfl, rfl⟩ (by decide) (by decide) before
    refine ⟨after, hafter, ?_⟩
    rw [← List.append_nil (after 1).bytes]
    exact hbytes
  · exact ((DescriptorTable.addSegment_tiles t' ⟨0, 0⟩ 1 2 2 (2 * pageSize - 2) true).2
      (Or.inl (by decide))).1

end DemandPaging

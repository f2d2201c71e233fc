import Mathlib.Data.Nat.Find
import DemandPaging.Proofs.SegmentPages
/-!
# Program segments that are refused

A segment that does not consist of whole pages is refused before anything is done. A segment of
which a page has a descriptor already is refused at the first such page (`addPages_stops`), and
then the pages before it are described and stay so. Hence the table is as it was only if the page
that is taken is the very first one (`addSegment_refused`). Each page that stays keeps a reference
to the file (`references`), which nobody gives back.

A mapping is described in the same way, but only after all of its pages were looked at.
-/

namespace DemandPaging

namespace KeyedTable

variable {α : Type}

/-- A binding with a new key is one more, somewhere. -/
theorem perm_insertBinding {key : Nat} {value : α} {bs : List (Nat × α)}
    (h : bs.find? (fun b => b.1 == key) = none) :
    (insertBinding key value bs).Perm ((key, value) :: bs) := by
  induction bs with
  | nil => exact .refl _
  | cons b rest ih =>
    rw [find?_bindings_cons] at h
    split at h
    next => cases h
    next hne =>
      unfold insertBinding
      split
      next => exact .refl _
      next =>
        rw [if_neg (Ne.symm hne)]
        exact ((ih h).cons b).trans (.swap ..)

theorem perm_values_insert {t : KeyedTable α} {key : Nat} (h : t.find? key = none) (value : α) :
    (t.insert key value).values.Perm (value :: t.values) :=
  (perm_insertBinding (Option.map_eq_none_iff.mp h)).map Prod.snd

end KeyedTable

/-- The handle of a file that a descriptor refers to, if any. -/
def Descriptor.source? (d : Descriptor) : Option FileRef := d.backing.window?.map FileWindow.source

namespace DescriptorTable

variable {t t' : DescriptorTable} {page : Nat → Descriptor} {source : FileRef}

/-- How many descriptors refer to a handle of a file. -/
def references (t : DescriptorTable) (source : FileRef) : Nat :=
  t.values.countP fun d => d.source? = some source

theorem references_insert {d : Descriptor} (h : t.find? d.upage = none)
    (hsource : d.source? = some source) :
    references (t.insert d.upage d) source = t.references source + 1 := by
  unfold references
  rw [(KeyedTable.perm_values_insert h d).countP_eq, List.countP_cons_of_pos]
  exact decide_eq_true hsource

/-- The table `t'` is the table `t` with the first `count` pages described, which it did not
have. -/
structure Describes (page : Nat → Descriptor) (count : Nat) (t t' : DescriptorTable) : Prop where
  vacant : ∀ i, i < count → t.find? (page i).upage = none
  described : ∀ i, i < count → t'.find? (page i).upage = some (page i)
  others : ∀ u, (∀ i, i < count → u ≠ (page i).upage) → t'.find? u = t.find? u
  size : t'.size = t.size + count

/-- Pages that have no descriptor are all described, each with a reference to its file. -/
theorem addPages_describes {count : Nat} (hdistinct : ∀ j k, j < k → (page j).upage ≠ (page k).upage)
    (hvacant : ∀ i, i < count → t.find? (page i).upage = none) :
    ∃ t', addPages page count 0 t = (.ok (), t') ∧ Describes page count t t' := by
  obtain ⟨t', hadd, hsize⟩ := addPages_of_vacant (i := 0) hdistinct fun i _ hi =>
    hvacant i (by rwa [Nat.zero_add] at hi)
  obtain ⟨hpages, hothers⟩ := addPages_eq_ok hadd
  refine ⟨t', hadd, hvacant, fun i hi => (hpages i (Nat.zero_le _) (by omega)).2, ?_, hsize⟩
  exact fun u hu => hothers u fun i _ hi => hu i (by omega)

/-- Each page that is added and shows the file is one reference more. -/
theorem references_addPages {count i : Nat} (h : addPages page count i t = (.ok (), t'))
    (hsource : ∀ j, (page j).source? = some source) :
    t'.references source = t.references source + count := by
  induction count generalizing i t with
  | zero =>
    cases h
    rfl
  | succ count ih =>
    cases hfirst : t.find? (page i).upage with
    | some d =>
      rw [addPages_of_described_first hfirst] at h
      cases h
    | none =>
      rw [addPages_of_vacant_first hfirst] at h
      rw [ih h, references_insert hfirst (hsource i)]
      omega

/-- Pages are added up to the first one that has a descriptor, and those before it stay. -/
theorem addPages_stops {count i k : Nat} (hk : k < count)
    (hdistinct : ∀ j l, j < l → (page j).upage ≠ (page l).upage)
    (hvacant : ∀ j, i ≤ j → j < i + k → t.find? (page j).upage = none)
    (htaken : t.contains (page (i + k)).upage = true)
    (hadded : addPages page k i t = (.ok (), t')) :
    addPages page count i t = (.error .alreadyMapped, t') := by
  obtain ⟨more, rfl⟩ : ∃ more, count = more + 1 := ⟨count - 1, by omega⟩
  induction k generalizing i more t with
  | zero =>
    cases hadded
    rw [Nat.add_zero] at htaken
    obtain ⟨d, hd⟩ := KeyedTable.contains_eq_true_iff.mp htaken
    exact addPages_of_described_first hd more
  | succ k ih =>
    obtain ⟨fewer, rfl⟩ : ∃ fewer, more = fewer + 1 := ⟨more - 1, by omega⟩
    have hfirst : t.find? (page i).upage = none := hvacant i (Nat.le_refl _) (by omega)
    -- with the first page added the others are as they were
    have hlater : ∀ j, i < j → (t.insert (page i).upage (page i)).find? (page j).upage
        = t.find? (page j).upage := by
      intro j hj
      rw [KeyedTable.find?_insert, if_neg (hdistinct i j hj).symm]
    rw [addPages_of_vacant_first hfirst] at hadded ⊢
    refine ih (i := i + 1) ?_ ?_ hadded fewer (by omega)
    · intro j hlow hhigh
      rw [hlater j (by omega)]
      exact hvacant j (by omega) (by omega)
    · rw [Nat.add_right_comm, Nat.add_assoc]
      unfold KeyedTable.contains at htaken ⊢
      rwa [hlater _ (by omega)]

/-- Where a page of a range has a descriptor, there is a first one that does. -/
theorem exists_first_described (t : DescriptorTable) (page : Nat → Descriptor) {count i : Nat}
    (hi : i < count) (h : t.contains (page i).upage = true) :
    ∃ k, k < count ∧ t.contains (page k).upage = true
      ∧ ∀ j, j < k → t.find? (page j).upage = none := by
  have hsome : ∃ k, t.contains (page k).upage = true := ⟨i, h⟩
  refine ⟨Nat.find hsome, Nat.lt_of_le_of_lt (Nat.find_le h) hi, Nat.find_spec hsome, ?_⟩
  intro j hj
  have hnot := Nat.find_min hsome hj
  simpa [KeyedTable.contains] using hnot

/-- **What a segment that is refused leaves behind.** A segment is refused just if it does not
consist of whole pages, or some page of it has a descriptor, wherever in the range that page is.

In the first case the table stays as it is. In the second case the pages before the first one that
has a descriptor are described as they would be if the segment was accepted, and no other
descriptor changes. Each of them refers to the file. So the table stays as it is only if the page
that has a descriptor is the first one of the range.

Taken off one page after the other, with numbers that end on both sides, the segment is refused in
the same way. -/
theorem addSegment_refused (t : DescriptorTable) (source : FileRef)
    (offset upage readBytes zeroBytes : Nat) (writable : Bool) :
    ((∃ e t', t.addSegment source offset upage readBytes zeroBytes writable = (.error e, t'))
        ↔ ¬ PageAligned upage ∨ ¬ PageAligned (readBytes + zeroBytes)
          ∨ ∃ i, i < (readBytes + zeroBytes) / pageSize
            ∧ t.contains (upage + i * pageSize) = true)
      ∧ ∀ e t', t.addSegment source offset upage readBytes zeroBytes writable = (.error e, t') →
          e = .misaligned ∧ (¬ PageAligned upage ∨ ¬ PageAligned (readBytes + zeroBytes)) ∧ t' = t
          ∨ e = .alreadyMapped ∧ PageAligned upage ∧ PageAligned (readBytes + zeroBytes)
            ∧ (∃ k, k < (readBytes + zeroBytes) / pageSize
              ∧ t.contains (upage + k * pageSize) = true
              ∧ Describes (segmentPage source offset upage readBytes writable) k t t'
              ∧ t'.references source = t.references source + k
              ∧ (t' = t ↔ k = 0))
            ∧ ∀ limit, offset + readBytes < limit → upage + (readBytes + zeroBytes) < limit →
                SegmentRest.describe limit source writable ⟨offset, upage, readBytes, zeroBytes⟩ t
                  = some (.error .alreadyMapped, t') := by
  by_cases hunaligned : ¬ PageAligned upage ∨ ¬ PageAligned (readBytes + zeroBytes)
  · have hrefused : t.addSegment source offset upage readBytes zeroBytes writable
        = (.error .misaligned, t) := if_pos hunaligned
    refine ⟨⟨fun _ => or_assoc.mp (Or.inl hunaligned), fun _ => ⟨_, _, hrefused⟩⟩, ?_⟩
    intro e t' h
    cases hrefused.symm.trans h
    exact Or.inl ⟨rfl, hunaligned, rfl⟩
  · have hupage : PageAligned upage := Decidable.not_not.mp fun h => hunaligned (Or.inl h)
    have hsum : PageAligned (readBytes + zeroBytes) :=
      Decidable.not_not.mp fun h => hunaligned (Or.inr h)
    have hadd : t.addSegment source offset upage readBytes zeroBytes writable
        = addPages (segmentPage source offset upage readBytes writable)
            ((readBytes + zeroBytes) / pageSize) 0 t := if_neg hunaligned
    have hdistinct : ∀ j k, j < k →
        (segmentPage source offset upage readBytes writable j).upage
          ≠ (segmentPage source offset upage readBytes writable k).upage :=
      fun j k => upage_segmentPage_ne source offset upage readBytes writable
    by_cases htaken : ∃ i, i < (readBytes + zeroBytes) / pageSize
        ∧ t.contains (upage + i * pageSize) = true
    · obtain ⟨i, hi, hcontains⟩ := htaken
      obtain ⟨k, hk, hfirst, hvacant⟩ := exists_first_described t
        (segmentPage source offset upage readBytes writable) hi hcontains
      obtain ⟨t', hadded, hdescribes⟩ := addPages_describes hdistinct hvacant
      have hstops := addPages_stops hk hdistinct (fun j _ hj => hvacant j (by omega))
        (by rwa [Nat.zero_add]) hadded
      refine ⟨⟨fun _ => Or.inr (Or.inr ⟨i, hi, hcontains⟩), fun _ => ⟨_, _, hadd.trans hstops⟩⟩, ?_⟩
      intro e s h
      cases (hadd.trans hstops).symm.trans h
      refine Or.inr ⟨rfl, hupage, hsum, ⟨k, hk, hfirst, hdescribes,
        references_addPages hadded fun _ => rfl, ?_, ?_⟩, ?_⟩
      · intro hsame
        have hsize := hdescribes.size
        rw [hsame] at hsize
        omega
      · intro hzero
        subst hzero
        cases hadded
        rfl
      · intro limit hoffset hend
        rw [SegmentRest.describe_eq_addPages source writable hsum.pageBase_eq.symm hoffset hend,
          hstops]
    -- where no page has a descriptor the segment is accepted
    · have hvacant : ∀ i, i < (readBytes + zeroBytes) / pageSize →
          t.find? (upage + i * pageSize) = none := by
        intro i hi
        have hnot : ¬ t.contains (upage + i * pageSize) = true := fun h => htaken ⟨i, hi, h⟩
        simpa [KeyedTable.contains] using hnot
      obtain ⟨s, hadded, _⟩ := addPages_describes hdistinct hvacant
      have haccepted : ∀ e t',
          t.addSegment source offset upage readBytes zeroBytes writable ≠ (.error e, t') := by
        intro e t' h
        cases (hadd.trans hadded).symm.trans h
      refine ⟨⟨?_, ?_⟩, fun e t' h => absurd h (haccepted e t')⟩
      · intro h
        obtain ⟨e, t', h⟩ := h
        exact absurd h (haccepted e t')
      · intro h
        exact absurd (or_assoc.mpr h) (fun h => h.elim hunaligned htaken)

/-- A table with one page, which a program has read one byte of a file for. -/
def onePage : DescriptorTable :=
  KeyedTable.insert ∅ (2 * pageSize)
    { upage := 2 * pageSize, backing := .privateFile ⟨⟨0, 0⟩, 0, 1, pageSize - 1⟩, writable := true }

/-- A segment of two pages is refused for its second page, and the first one is described. -/
theorem addSegment_refused_onePage :
    ∃ t', onePage.addSegment ⟨0, 0⟩ 0 pageSize 2 (2 * pageSize - 2) true
        = (.error .alreadyMapped, t')
      ∧ t'.find? pageSize = some (segmentPage ⟨0, 0⟩ 0 pageSize 2 true 0)
      ∧ t'.size = 2 ∧ t'.references ⟨0, 0⟩ = 2 ∧ t' ≠ onePage := by
  obtain ⟨hiff, hleaves⟩ :=
    addSegment_refused onePage ⟨0, 0⟩ 0 pageSize 2 (2 * pageSize - 2) true
  obtain ⟨e, t', hrefused⟩ := hiff.mpr (Or.inr (Or.inr ⟨1, by decide, by decide⟩))
  obtain ⟨_, hunaligned, _⟩ | ⟨rfl, _, _, ⟨k, hk, htaken, hdescribes, hcount, hsame⟩, _⟩ :=
    hleaves e t' hrefused
  · exact absurd hunaligned (by decide)
  · have hk : k < 2 := hk
    -- the page that was taken is not the first one
    have hne : k ≠ 0 := by
      rintro rfl
      exact absurd htaken (by decide)
    obtain rfl : k = 1 := by omega
    exact ⟨t', hrefused, hdescribes.described 0 (by decide), hdescribes.size, hcount,
      fun h => hne (hsame.mp h)⟩

/-- The table is not as it was, and there is one reference more to the file. -/
theorem addSegment_keeps_part :
    ∃ t', onePage.addSegment ⟨0, 0⟩ 0 pageSize 2 (2 * pageSize - 2) true
        = (.error .alreadyMapped, t')
      ∧ (∃ u, t'.find? u ≠ onePage.find? u)
      ∧ onePage.references ⟨0, 0⟩ < t'.references ⟨0, 0⟩ :=
  ⟨_, rfl, ⟨pageSize, by decide⟩, by decide⟩

end DescriptorTable

end DemandPaging

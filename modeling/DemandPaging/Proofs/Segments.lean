import DemandPaging.Proofs.Contents
/-!
# Describing a program segment

A segment that is accepted gets a descriptor for each of its pages, none of which had one, and
nothing else changes (`addSegment_eq_done`). Whether a page of the range is mapped, or lies in
user space at all, is not looked at. Where both are as they should be, no page of the range
held anything before, and no later request meets a mapped page that its descriptor calls absent
(`addSegment_accepted`). `addSegment_over_stack` shows what happens otherwise: a page of the
stack is described a second time, and loading it stops the system.
-/

namespace DemandPaging

open Pager PagerAction

variable {n : Nat}

namespace DescriptorTable

/-- Pages are added to a table that had none of them, and the others stay. -/
theorem addPages_eq_ok {page : Nat → Descriptor} {count i : Nat} {t t' : DescriptorTable}
    (h : addPages page count i t = (.ok (), t')) :
    (∀ j, i ≤ j → j < i + count →
        t.find? (page j).upage = none ∧ t'.find? (page j).upage = some (page j))
      ∧ ∀ u, (∀ j, i ≤ j → j < i + count → u ≠ (page j).upage) → t'.find? u = t.find? u := by
  induction count generalizing i t with
  | zero =>
    cases h
    exact ⟨fun j hlow hhigh => absurd hhigh (by omega), fun _ _ => rfl⟩
  | succ count ih =>
    cases hfirst : t.find? (page i).upage with
    | some d =>
      rw [addPages_of_described_first hfirst] at h
      cases h
    | none =>
      rw [addPages_of_vacant_first hfirst] at h
      obtain ⟨hrest, hothers⟩ := ih h
      -- a page that comes later was not in the table even with this one added
      have hlater : ∀ j, i + 1 ≤ j → j < i + 1 + count →
          (page j).upage ≠ (page i).upage ∧ t.find? (page j).upage = none := by
        intro j hlow hhigh
        have hfind := (hrest j hlow hhigh).1
        rw [KeyedTable.find?_insert] at hfind
        split at hfind
        next => cases hfind
        next hne => exact ⟨hne, hfind⟩
      refine ⟨?_, ?_⟩
      · intro j hlow hhigh
        by_cases hj : j = i
        · subst hj
          refine ⟨hfirst, ?_⟩
          rw [hothers _ fun k hlow hhigh => ((hlater k hlow hhigh).1).symm,
            KeyedTable.find?_insert, if_pos rfl]
        · exact ⟨(hlater j (by omega) (by omega)).2, (hrest j (by omega) (by omega)).2⟩
      · intro u hu
        rw [hothers u fun j hlow hhigh => hu j (by omega) (by omega), KeyedTable.find?_insert,
          if_neg (hu i (Nat.le_refl _) (by omega))]

/-- A segment that is accepted consists of whole pages that had no descriptor. -/
theorem addSegment_eq_ok {t t' : DescriptorTable} {source : FileRef}
    {offset upage readBytes zeroBytes : Nat} {writable : Bool}
    (h : t.addSegment source offset upage readBytes zeroBytes writable = (.ok (), t')) :
    PageAligned upage ∧ PageAligned (readBytes + zeroBytes)
      ∧ (∀ i, i < (readBytes + zeroBytes) / pageSize →
          t.find? (upage + i * pageSize) = none
            ∧ t'.find? (upage + i * pageSize)
              = some (segmentPage source offset upage readBytes writable i))
      ∧ ∀ u, (∀ i, i < (readBytes + zeroBytes) / pageSize → u ≠ upage + i * pageSize) →
          t'.find? u = t.find? u := by
  unfold addSegment at h
  split at h
  next => cases h
  next haligned =>
    obtain ⟨hpages, hothers⟩ := addPages_eq_ok h
    refine ⟨Decidable.not_not.mp fun h => haligned (Or.inl h),
      Decidable.not_not.mp fun h => haligned (Or.inr h), ?_, ?_⟩
    · exact fun i hi => hpages i (Nat.zero_le _) (by omega)
    · exact fun u hu => hothers u fun i _ hi => hu i (by omega)

end DescriptorTable

/-- Only the descriptors of the space change when a segment is accepted. -/
theorem addSegment_eq_done {p q : Pager n} {id : SpaceId} {source : FileRef}
    {offset upage readBytes zeroBytes : Nat} {writable : Bool}
    (h : (addSegment id source offset upage readBytes zeroBytes writable).run p = .done () q) :
    ∃ t, (p.space id).descriptors.addSegment source offset upage readBytes zeroBytes writable
        = (.ok (), t)
      ∧ q = p.putSpace id { p.space id with descriptors := t } := by
  rcases run_addSegment_cases id source offset upage readBytes zeroBytes writable p
    with ⟨result, t, hadd, hrun⟩ | ⟨hrun, _⟩
  · rw [hrun] at h
    cases result with
    | ok u =>
      cases h
      exact ⟨t, hadd, rfl⟩
    | error e => cases h
  · rw [hrun] at h
    cases h

/-- A page keeps what it holds when pages without a descriptor get one. -/
theorem content?_putDescriptors {p : Pager n} {id : SpaceId} (hid : id < p.spaces.size)
    {t : DescriptorTable}
    (ht : ∀ u d, p.descriptor? id u = some d → t.find? u = some d) {o : SpaceId} {v : Nat}
    {page : Page} (h : p.content? o v = some page) :
    (p.putSpace id { p.space id with descriptors := t }).content? o v = some page := by
  have hspace : (p.putSpace id { p.space id with descriptors := t }).space o
      = if o = id then { p.space id with descriptors := t } else p.space o :=
    Spaces.lookup_put hid o _
  have hframe : (p.putSpace id { p.space id with descriptors := t }).frame? o v = p.frame? o v := by
    unfold frame? address?
    rw [hspace]
    split
    next ho =>
      subst ho
      rfl
    next => rfl
  have hdescriptor : ∀ d, p.descriptor? o v = some d →
      (p.putSpace id { p.space id with descriptors := t }).descriptor? o v = some d := by
    intro d hd
    unfold descriptor?
    rw [hspace]
    split
    next ho =>
      subst ho
      exact ht v d hd
    next => exact hd
  unfold content? at h ⊢
  rw [hframe]
  cases hi : p.frame? o v with
  | some i =>
    rw [hi] at h
    exact h
  | none =>
    rw [hi] at h
    obtain ⟨d, hd, hparked⟩ := Option.bind_eq_some_iff.mp h
    exact Option.bind_eq_some_iff.mpr ⟨d, hdescriptor d hd, hparked⟩

theorem apply_addSegment {p q : Pager n} {id : SpaceId} {source : FileRef}
    {offset upage readBytes zeroBytes : Nat} {writable : Bool}
    (h : (addSegment id source offset upage readBytes zeroBytes writable).run p = .done () q) :
    Event.apply p (.request (.addSegment id source offset upage readBytes zeroBytes writable))
      = some q := by
  show ((addSegment id source offset upage readBytes zeroBytes writable >>= fun _ =>
    (pure .nothing : PagerAction n Answer)).run p).state? = some q
  rw [run_bind, h]
  rfl

/-- Where the tables agree, no request meets a mapped page that its descriptor calls absent. -/
theorem Pager.Agrees.perform_ne_mapped {p : Pager n} (hp : p.Agrees none) {op : Operation}
    (hop : op.Permitted p) (v pid : Nat) :
    op.perform.run p ≠ .fatal (.mappedWithoutDescriptor v pid) := by
  intro hstops
  have hspec := perform_spec hp hop
  rw [hstops] at hspec
  rcases hspec with ⟨_, _, _, _, _, ⟨_, _, hreason⟩ | ⟨_, _, hreason⟩, _⟩ | hoverflow
  · cases hreason
  · cases hreason
  · cases hoverflow

/-- When a segment is accepted, its pages had no descriptor and get those of the segment. No
other descriptor changes, nor does anything that is not a descriptor, and every page holds what
it did.

If moreover the range lies in user space and nothing is mapped there, which is not checked, then
no page of it held anything before. And whatever happens later, no request meets a mapped page
whose descriptor calls it absent. -/
theorem addSegment_accepted {p q : Pager n} {id : SpaceId} {source : FileRef}
    {offset upage readBytes zeroBytes : Nat} {writable : Bool} (hid : id < p.spaces.size)
    (h : (addSegment id source offset upage readBytes zeroBytes writable).run p = .done () q) :
    (∀ i, i < (readBytes + zeroBytes) / pageSize →
        p.descriptor? id (upage + i * pageSize) = none
          ∧ q.descriptor? id (upage + i * pageSize)
            = some (DescriptorTable.segmentPage source offset upage readBytes writable i))
      ∧ (∀ u, (∀ i, i < (readBytes + zeroBytes) / pageSize → u ≠ upage + i * pageSize) →
          q.descriptor? id u = p.descriptor? id u)
      ∧ (∃ t, q = p.putSpace id { p.space id with descriptors := t })
      ∧ (∀ o v page, p.content? o v = some page → q.content? o v = some page)
      ∧ (p.Reachable → upage + (readBytes + zeroBytes) ≤ userTop →
          (∀ u, upage ≤ u → u < upage + (readBytes + zeroBytes) →
            (p.space id).directory.isMapped u = false) →
          (∀ i, i < (readBytes + zeroBytes) / pageSize →
            p.content? id (upage + i * pageSize) = none)
          ∧ ∀ es r (op : Operation), Run q es r → op.Permitted r → ∀ v pid,
              op.perform.run r ≠ .fatal (.mappedWithoutDescriptor v pid)) := by
  have happly := apply_addSegment h
  obtain ⟨t, hadd, rfl⟩ := addSegment_eq_done h
  obtain ⟨haligned, _, hpages, hothers⟩ := DescriptorTable.addSegment_eq_ok hadd
  have hdescriptor : ∀ u, (p.putSpace id { p.space id with descriptors := t }).descriptor? id u
      = t.find? u := by
    intro u
    unfold descriptor?
    rw [space_putSpace hid]
  refine ⟨?_, ?_, ⟨t, rfl⟩, ?_, ?_⟩
  · exact fun i hi => ⟨(hpages i hi).1, (hdescriptor _).trans (hpages i hi).2⟩
  · exact fun u hu => (hdescriptor u).trans (hothers u hu)
  · intro o v page hpage
    refine content?_putDescriptors hid ?_ hpage
    -- a page that has a descriptor is none of the segment
    intro u d hd
    rw [hothers u, ← hd]
    · rfl
    · intro i hi heq
      rw [heq, show p.descriptor? id (upage + i * pageSize) = none from (hpages i hi).1] at hd
      cases hd
  · intro hreach htop hunmapped
    have hop : (Operation.addSegment id source offset upage readBytes zeroBytes writable).Permitted
      p := ⟨hid, htop, hunmapped⟩
    refine ⟨?_, ?_⟩
    · intro i hi
      have hpage : p.CanDescribe id
          (DescriptorTable.segmentPage source offset upage readBytes writable i) :=
        canDescribe_segmentPage haligned htop hunmapped hi
      rw [hreach.visited.agrees.content?_eq_none_iff]
      exact ⟨(hpages i hi).1, framed?_of_unmapped hpage.unmapped⟩
    · intro es r op hrun hpermitted
      have hr := (Run.step (e := .request _) hop happly hrun).agrees hreach.visited.agrees
      exact hr.perform_ne_mapped hpermitted

/-- A segment of two bytes and zeros is described where nothing is. -/
theorem addSegment_accepted_oneFrame :
    ∃ q, (addSegment 0 ⟨0, 0⟩ 0 pageSize 2 (pageSize - 2) true).run (oneFrame #[.ofBytes [1, 2]])
        = .done () q
      ∧ (q.descriptor? 0 pageSize).isSome = true
      ∧ ∀ es r (op : Operation), Run q es r → op.Permitted r → ∀ v pid,
        op.perform.run r ≠ .fatal (.mappedWithoutDescriptor v pid) := by
  have hadded : (addSegment 0 ⟨0, 0⟩ 0 pageSize 2 (pageSize - 2) true).run
      (oneFrame #[.ofBytes [1, 2]]) = .done () _ := rfl
  obtain ⟨hpages, _, _, _, hlater⟩ := addSegment_accepted (by decide) hadded
  have hpage := (hpages 0 (by decide)).2
  refine ⟨_, hadded, Option.isSome_of_mem hpage, ?_⟩
  exact (hlater ⟨_, _, isStart_oneFrame _, .refl⟩ (by decide) fun _ _ _ => rfl).2

/-- Why an action stopped the system, if it did. -/
def Outcome.reason? {α : Type} : Outcome n α → Option Fatal
  | .fatal reason => some reason
  | _ => none

theorem Outcome.eq_fatal {α : Type} {o : Outcome n α} {reason : Fatal}
    (h : o.reason? = some reason) : o = .fatal reason := by
  cases o with
  | fatal other =>
    cases h
    rfl
  | done a q => cases h
  | failed e q => cases h

/-- A page of the stack has a frame and no descriptor. A segment is accepted over it all the same,
and then loading the page stops the system. -/
theorem addSegment_over_stack :
    ∃ p q : Pager 2, p.Reachable ∧ (p.space 0).directory.isMapped topPage = true
      ∧ (addSegment 0 ⟨0, 0⟩ 0 topPage 2 (pageSize - 2) true).run p = .done () q
      ∧ (loadAt 0 topPage).run q = .fatal (.mappedWithoutDescriptor topPage 1) := by
  obtain ⟨p, hp⟩ : ∃ p, p = (small 2 #[.ofBytes [1, 2]] #[1]).ran
    [.request (.fault 0 topPage topPage)] := ⟨_, rfl⟩
  have hreach : p.Reachable := ⟨_, _, isStart_small (by decide) _ _,
    hp ▸ run_ran (by decide +kernel)⟩
  have hmapped : (p.space 0).directory.isMapped topPage = true := by
    rw [hp]
    decide +kernel
  have hstate : ((addSegment 0 ⟨0, 0⟩ 0 topPage 2 (pageSize - 2) true).run p).state?.isSome
      = true := by
    rw [hp]
    decide +kernel
  have hstops : ((addSegment 0 ⟨0, 0⟩ 0 topPage 2 (pageSize - 2) true >>= fun _ =>
      loadAt 0 topPage).run p).reason? = some (.mappedWithoutDescriptor topPage 1) := by
    rw [hp]
    decide +kernel
  rw [run_bind] at hstops
  cases hadded : (addSegment 0 ⟨0, 0⟩ 0 topPage 2 (pageSize - 2) true).run p with
  | done u q =>
    rw [hadded] at hstops
    exact ⟨p, q, hreach, hmapped, hadded, Outcome.eq_fatal hstops⟩
  | failed e q =>
    rw [hadded] at hstops
    cases hstops
  | fatal reason =>
    rw [hadded] at hstate
    cases hstate

end DemandPaging

import DemandPaging.Proofs.PageOrigins
/-!
# Asking again for a page that is there

A page that is mapped is recognised in two ways. A fault looks at the descriptor and then at
the page directory, and does nothing. A load looks at the descriptor only, so it does nothing
for a page that has one, and does not find a page of the stack that lives in its frame only.
-/

namespace DemandPaging

open Pager PagerAction Outcome

variable {n : Nat} {p : Pager n} {id : SpaceId} {address : Nat}

/-- A mapped page lies in user space. -/
theorem Pager.FramesAgree.isUserAddress (hp : p.FramesAgree none)
    (hmapped : (p.address? id address).isSome = true) : IsUserAddress address := by
  obtain ⟨x, hx⟩ := Option.isSome_iff_exists.mp hmapped
  obtain ⟨i, a, ha, _, _, hupage⟩ := hp.assigned id address x hx
  exact .of_pageBase (hupage ▸ (hp.upage i a ha).2)

/-- While a page is mapped it has a descriptor if it is one of a segment or of a mapping, and
none if it is one of the stack. -/
theorem Pager.DescriptorsAgree.descriptor?_eq_none_iff {upage : Nat} (hp : p.DescriptorsAgree)
    (hmapped : (p.address? id upage).isSome = true) :
    p.descriptor? id upage = none ↔ (p.origin? id upage).isNone = true := by
  unfold Pager.origin?
  cases hd : p.descriptor? id upage with
  | none => exact iff_of_true rfl rfl
  | some d =>
    refine iff_of_false (by simp) ?_
    have hslot := hp.slot_of_loaded id upage d hd ((hp.loaded_iff id upage d hd).mpr hmapped)
    have hbacked := hp.backed id upage d hd
    rw [Option.bind_some, Descriptor.origin?, Option.isNone_map]
    cases hb : d.backing with
    | anonymous => exact absurd hb hbacked
    | privateFile w | mappedFile w => exact Bool.false_ne_true
    | swapped slot | privateParked w slot | mappedParked w slot =>
      rw [hb] at hslot
      cases hslot

/-- A page that is loaded already is left as it is. One of the stack is not found. -/
theorem run_ensureLoaded_of_mapped {upage : Nat} (hp : p.DescriptorsAgree)
    (hmapped : (p.address? id upage).isSome = true) :
    (ensureLoaded id upage).run p
      = if (p.origin? id upage).isNone then .failed .notFound p else .done () p := by
  unfold ensureLoaded bringIn
  simp only [run_bind, run_read, ← hp.descriptor?_eq_none_iff hmapped]
  cases hd : p.descriptor? id upage with
  | none =>
    rw [show (p.space id).descriptors.find? upage = none from hd]
    rfl
  | some d =>
    rw [show (p.space id).descriptors.find? upage = some d from hd]
    simp only [(hp.loaded_iff id upage d hd).mpr hmapped]
    rfl

theorem run_loadAt_of_mapped (hp : p.DescriptorsAgree)
    (hmapped : (p.address? id address).isSome = true) :
    (loadAt id address).run p
      = if (p.origin? id (pageBase address)).isNone then .failed .notFound p else .done () p :=
  run_ensureLoaded_of_mapped hp (by rwa [address?_pageBase])

/-- A fault in a page that is mapped does nothing, whether or not the page has a descriptor. -/
theorem run_handleFault_of_mapped (hp : p.Agrees none)
    (hmapped : (p.address? id address).isSome = true) (hzero : address ≠ 0) (stackPointer : Nat) :
    (handleFault id address stackPointer).run p = .done () p := by
  have hbase : (p.address? id (pageBase address)).isSome = true := by rwa [address?_pageBase]
  have hcase := handleFault_case p id address stackPointer
  generalize (handleFault id address stackPointer).run p = outcome at hcase
  cases hcase with
  | wrong hwrong =>
    rcases hwrong with h | h | ⟨_, hnone, _⟩
    · exact absurd h hzero
    · exact absurd (hp.frames.isUserAddress hmapped) h
    · rw [hnone] at hbase
      cases hbase
  | described _ _ _ hd =>
    rw [run_ensureLoaded_of_mapped hp.descriptors hbase, if_neg]
    intro hnone
    rw [(hp.descriptors.descriptor?_eq_none_iff hbase).mpr hnone] at hd
    cases hd
  | there => rfl
  | grows _ _ _ hnone =>
    rw [hnone] at hbase
    cases hbase

/-- A page that was served has the origin that it had. -/
theorem Served.origin? {q : Pager n} {upage : Nat} (h : Served p id upage q) :
    q.origin? id upage = p.origin? id upage := by
  cases h with
  | there _ hq => rw [hq]
  | loaded hd _ h => exact origin?_of_loaded hd h.descriptor?
  | grown hd _ h =>
    unfold Pager.origin?
    rw [h.descriptor?, hd]

/-- A page that was served is mapped in a state in which the tables agree. -/
theorem agrees_of_served {q : Pager n} (hp : p.Agrees none) (hid : id < p.spaces.size)
    (h : (loadAt id address).run p = .done () q
      ∨ ∃ stackPointer, (handleFault id address stackPointer).run p = .done () q) :
    q.Agrees none ∧ Served p id (pageBase address) q := by
  rcases h with h | ⟨stackPointer, h⟩
  · have hspec := ensureLoaded_serves hp id (pageBase address)
    rw [show (ensureLoaded id (pageBase address)).run p = .done () q from h] at hspec
    exact ⟨hspec.1.agrees hp, hspec.2.2⟩
  · have hspec := (handleFault_spec hp hid address stackPointer).and
      (handleFault_serves hp hid address stackPointer)
    rw [h] at hspec
    obtain ⟨⟨_, hleads⟩, _, hserved⟩ := hspec
    rcases hleads with ⟨hleads, _⟩ | ⟨_, _, hleads⟩
    · exact ⟨hleads.agrees hp, hserved⟩
    · exact ⟨hleads.agrees hp, hserved⟩

/-- **Asking again for a page that is there.** A fault in a page that is mapped succeeds and changes
nothing. A load of such a page changes nothing either; it succeeds if the page is one of a segment
or of a mapping, and says that there is none if it is one of the stack. So after a load or a fault
succeeded, every further fault in the page succeeds and changes nothing, and so does every further
load of it, unless it is a page of the stack. -/
theorem Pager.Visited.loads_again {p : Pager n} (hp : p.Visited) {id : SpaceId}
    (hid : id < p.spaces.size) (address : Nat) :
    ((p.address? id address).isSome = true →
        (address ≠ 0 → ∀ stackPointer, (handleFault id address stackPointer).run p = .done () p)
          ∧ (loadAt id address).run p
            = if (p.origin? id (pageBase address)).isNone then .failed .notFound p
              else .done () p)
      ∧ ∀ q, ((loadAt id address).run p = .done () q
            ∨ ∃ stackPointer, (handleFault id address stackPointer).run p = .done () q) →
          ∀ again, pageBase again = pageBase address →
            (q.address? id again).isSome = true
            ∧ (again ≠ 0 → ∀ stackPointer, (handleFault id again stackPointer).run q = .done () q)
            ∧ (loadAt id again).run q
              = if (p.origin? id (pageBase address)).isNone then .failed .notFound q
                else .done () q := by
  have hagrees := hp.agrees
  refine ⟨fun hmapped => ⟨run_handleFault_of_mapped hagrees hmapped,
    run_loadAt_of_mapped hagrees.descriptors hmapped⟩, ?_⟩
  intro q hrun again hagain
  obtain ⟨hq, hserved⟩ := agrees_of_served hagrees hid hrun
  have hmapped : (q.address? id again).isSome = true := by
    rw [← address?_pageBase, hagain]
    exact hserved.isMapped hagrees hq (pageAligned_pageBase address)
  refine ⟨hmapped, run_handleFault_of_mapped hq hmapped, ?_⟩
  rw [run_loadAt_of_mapped hq.descriptors hmapped, hagain, hserved.origin?]

/-- With one frame, the top page of a stack is loaded again after the page below it took its
frame. -/
theorem run_loadAt_twoStackPages :
    ((oneFrame #[]).ran twoStackPages).Reachable
      ∧ ∃ q, (loadAt 0 topPage).run ((oneFrame #[]).ran twoStackPages) = .done () q := by
  refine ⟨⟨_, _, isStart_oneFrame #[], run_ran (by decide +kernel)⟩, ?_⟩
  have hdone : ((loadAt 0 topPage).run ((oneFrame #[]).ran twoStackPages)).isDone = true := by
    decide +kernel
  obtain ⟨_, q, hq⟩ := eq_done hdone
  exact ⟨q, hq⟩

/-- After the top page of a stack was loaded from its slot, faults in it do nothing. -/
theorem Pager.Visited.loads_again_oneFrame :
    ∃ q, (loadAt 0 topPage).run ((oneFrame #[]).ran twoStackPages) = .done () q
      ∧ (q.address? 0 topPage).isSome = true
      ∧ ∀ stackPointer, (handleFault 0 topPage stackPointer).run q = .done () q := by
  obtain ⟨hp, q, hq⟩ := run_loadAt_twoStackPages
  have hid : 0 < ((oneFrame #[]).ran twoStackPages).spaces.size := by decide +kernel
  obtain ⟨_, hagain⟩ := hp.visited.loads_again hid topPage
  obtain ⟨hmapped, hfault, _⟩ := hagain q (Or.inl hq) topPage rfl
  exact ⟨q, hq, hmapped, hfault (by decide)⟩

/-- A second load of the page does not find it, though it is mapped and nothing has changed. -/
theorem loadAt_stack_page_again :
    ∃ p q : Pager 1, p.Reachable ∧ (loadAt 0 topPage).run p = .done () q
      ∧ (q.address? 0 topPage).isSome = true
      ∧ (loadAt 0 topPage).run q = .failed .notFound q := by
  obtain ⟨hp, q, hrun⟩ := run_loadAt_twoStackPages
  obtain ⟨hq, hserved⟩ := agrees_of_served hp.visited.agrees (by decide +kernel) (Or.inl hrun)
  have hmapped : (q.address? 0 topPage).isSome = true :=
    hserved.isMapped hp.visited.agrees hq (pageAligned_pageBase topPage)
  refine ⟨_, q, hp, hrun, hmapped, ?_⟩
  rw [run_loadAt_of_mapped hq.descriptors hmapped, hserved.origin?, if_pos (by decide +kernel)]

end DemandPaging

import DemandPaging.Proofs.Runs
/-!
# Who holds the swap slots

In every state of a run the slots that are marked are those that descriptors name, and each
of them is named once (`Visited.slots_exact`). So there are as many as there are descriptors
that name one. The page of a frame that is reclaimed never names one.
-/

namespace DemandPaging

open Pager

variable {n : Nat}

namespace Pager

/-- The descriptors of all spaces that name a slot. -/
def slotOwners (p : Pager n) : List Descriptor :=
  p.spaces.toList.flatMap fun s => s.descriptors.values.filter fun d => d.backing.slot?.isSome

/-- The slots that the descriptors of all spaces name. -/
def namedSlots (p : Pager n) : List Nat :=
  p.spaces.toList.flatMap fun s => slotsOf s.descriptors.values

theorem length_slotOwners (p : Pager n) : p.slotOwners.length = p.namedSlots.length := by
  unfold slotOwners namedSlots
  rw [List.length_flatMap, List.length_flatMap]
  refine congrArg List.sum (List.map_congr_left ?_)
  intro s _
  unfold slotsOf
  rw [List.length_filterMap_eq_countP, List.countP_eq_length_filter]

theorem space_of_lt {p : Pager n} {id : SpaceId} (h : id < p.spaces.toList.length) :
    p.space id = p.spaces.toList[id] := by
  have hlt : id < p.spaces.size := h
  unfold space Spaces.lookup
  rw [Array.getD_eq_getD_getElem?, Array.getElem?_eq_getElem hlt]
  exact Array.getElem_toList hlt

theorem mem_slotsOf_space {p : Pager n} {id : SpaceId} {slot : Nat} :
    slot ∈ slotsOf (p.space id).descriptors.values ↔ ∃ u, p.slot? id u = some slot := by
  simp only [mem_slotsOf_values, slot?_eq_some_iff]
  rfl

theorem mem_namedSlots {p : Pager n} {slot : Nat} :
    slot ∈ p.namedSlots ↔ ∃ id u, p.slot? id u = some slot := by
  unfold namedSlots
  rw [List.mem_flatMap]
  constructor
  · intro h
    obtain ⟨s, hs, hslot⟩ := h
    obtain ⟨id, hid, rfl⟩ := List.mem_iff_getElem.mp hs
    rw [← space_of_lt hid] at hslot
    exact ⟨id, mem_slotsOf_space.mp hslot⟩
  · intro h
    obtain ⟨id, u, h⟩ := h
    obtain ⟨d, hd, _⟩ := slot?_eq_some_iff.mp h
    have hid : id < p.spaces.toList.length := lt_size_of_descriptor hd
    refine ⟨p.space id, ?_, mem_slotsOf_space.mpr ⟨u, h⟩⟩
    rw [space_of_lt hid]
    exact List.getElem_mem hid

/-- Slots that are each named once make up a list without repetitions. -/
theorem SlotsAgree.nodup_namedSlots {p : Pager n} (h : p.SlotsAgree) : p.namedSlots.Nodup := by
  unfold namedSlots List.Nodup
  rw [List.pairwise_flatMap]
  constructor
  -- within one space the slots differ from page to page
  · intro s hs
    obtain ⟨id, hid, rfl⟩ := List.mem_iff_getElem.mp hs
    rw [← space_of_lt hid]
    exact nodup_slotsOf_values fun u u' d d' slot hd hd' hs hs' =>
      (h.unique id u id u' slot (slot?_eq_some_iff.mpr ⟨d, hd, hs⟩)
        (slot?_eq_some_iff.mpr ⟨d', hd', hs'⟩)).2
  -- and of two spaces no slot is named in both
  · refine List.pairwise_iff_getElem.mpr ?_
    intro id id' hid hid' hlt slot hslot slot' hslot' heq
    subst heq
    rw [← space_of_lt hid] at hslot
    rw [← space_of_lt hid'] at hslot'
    obtain ⟨u, hu⟩ := mem_slotsOf_space.mp hslot
    obtain ⟨u', hu'⟩ := mem_slotsOf_space.mp hslot'
    exact Nat.ne_of_lt hlt (h.unique id u id' u' slot hu hu').1

/-- As many slots are marked as descriptors name one. -/
theorem SlotsAgree.used_eq {p : Pager n} (h : p.SlotsAgree) :
    p.swap.used = p.slotOwners.length := by
  have hmarked : ((List.range p.swap.slots.length).filter p.swap.slots.isSet).Perm
      p.namedSlots := by
    refine (List.perm_ext_iff_of_nodup (List.nodup_range.filter _) h.nodup_namedSlots).mpr ?_
    intro slot
    rw [List.mem_filter, List.mem_range, mem_namedSlots, ← h.claimed_iff]
    exact ⟨fun hs => hs.2, fun hs => ⟨Bitmap.lt_of_isSet hs, hs⟩⟩
  unfold SwapArea.used
  rw [Bitmap.countOnes_eq_countP h.tidy, List.countP_eq_length_filter, hmarked.length_eq,
    length_slotOwners]

end Pager

/-- The page of a frame that the clock chose gives up no slot when it is moved to one. -/
theorem Pager.Agrees.not_stale {p : Pager n} (hp : p.Agrees none) {i : Fin n} {a : Assignment}
    {r : Pager n} (h : chooseVictim.run p = .done (i, a) r) (writable : Bool) (slot : Nat) :
    (((r.space a.owner).descriptors.getOrAdd a.upage .anonymous writable).1.backing.movedTo slot).2
      = none := by
  have hspec := chooseVictim_spec p fun _ => True
  rw [h] at hspec
  obtain ⟨q, hquiet, hi, _, _, rfl⟩ := hspec
  have hq := hquiet.agrees hp
  have hmapped := hq.frames.mapped i a hi (by simp)
  obtain ⟨_, hslot, _⟩ := hq.victim writable (by rw [hmapped]; rfl) rfl
  rw [(Backing.slot?_movedTo _ slot).2]
  exact hslot

/-- Slots are neither leaked nor shared: those that are marked are those that descriptors
name, each of them is named by one descriptor of one space, and there are as many of the
ones as of the others. No page gives up a slot when it is evicted, which happens in such
states only: a request asks for a frame where it starts or between two pages of a copy. -/
theorem Pager.Visited.slots_exact {p : Pager n} (hp : p.Visited) :
    (∀ slot, p.swap.holds slot = .ok true ↔ ∃ id u, p.slot? id u = some slot)
      ∧ (∀ id u id' u' slot, p.slot? id u = some slot → p.slot? id' u' = some slot →
          id = id' ∧ u = u')
      ∧ p.swap.used = p.slotOwners.length
      ∧ ∀ i a r, chooseVictim.run p = .done (i, a) r → ∀ slot,
          (((r.space a.owner).descriptors.getOrAdd a.upage .anonymous
            ((r.space a.owner).directory.writable a.upage)).1.backing.movedTo slot).2 = none := by
  have hagrees := hp.agrees
  refine ⟨?_, hagrees.slots.unique, hagrees.slots.used_eq,
    fun i a r h slot => hagrees.not_stale h _ slot⟩
  intro slot
  rw [SwapArea.holds_eq_true_iff, hagrees.slots.claimed_iff]

/-- With one frame, the second page of a stack sends the first one to a slot. Then one slot is
held, and one descriptor names it. -/
theorem Pager.Visited.slots_exact_oneFrame :
    ((oneFrame #[]).ran twoStackPages).swap.holds 0 = .ok true
      ∧ (∃ id u, ((oneFrame #[]).ran twoStackPages).slot? id u = some 0)
      ∧ ((oneFrame #[]).ran twoStackPages).slotOwners.length = 1 := by
  have hrun : Run (oneFrame #[]) twoStackPages _ := run_ran (by decide +kernel)
  obtain ⟨hholds, _, hused, _⟩ := Pager.Visited.slots_exact
    (Pager.Reachable.visited ⟨_, _, isStart_oneFrame #[], hrun⟩)
  have hheld : ((oneFrame #[]).ran twoStackPages).swap.holds 0 = .ok true :=
    SwapArea.holds_eq_true_iff.mpr
      (by decide +kernel : ((oneFrame #[]).ran twoStackPages).swap.slots.isSet 0 = true)
  exact ⟨hheld, (hholds 0).mp hheld, hused.symm.trans (by decide +kernel)⟩

end DemandPaging

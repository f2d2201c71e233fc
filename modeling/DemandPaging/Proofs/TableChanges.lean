import DemandPaging.Proofs.FrameUse
import DemandPaging.Proofs.Agreement
/-!
# Changes that the agreement of the tables survives

How the four parts of `Agrees` carry over from one state to another that differs from it in
a known way: in flags and contents only (`SameTables`), in who has a frame
(`FramesAgree.of_assigned`, `of_mapped`, `of_freed`, `of_pinned`), in the descriptor of one
page (`DescriptorsAgree.of_page`), in who names a slot (`SlotsAgree.of_claimed`, `of_freed`)
or in which mappings are live (`MappingsAgree.of_le`).

The states are compared by their look-ups, so that the lemmas do not depend on how a change
is made.
-/

namespace DemandPaging

variable {n : Nat}

namespace Pager

variable {p q : Pager n} {id : SpaceId} {s : AddressSpace}

/-! ## Look-ups after a space was replaced -/

theorem space_of_put (hq : q.spaces = p.spaces.put id s) (hid : id < p.spaces.size)
    (other : SpaceId) : q.space other = if other = id then s else p.space other := by
  unfold space
  rw [hq, Spaces.lookup_put hid]

theorem address?_of_put (hq : q.spaces = p.spaces.put id s) (hid : id < p.spaces.size)
    (other : SpaceId) (u : Nat) :
    q.address? other u
      = if other = id then s.directory.frameAddress? u else p.address? other u := by
  unfold address?
  rw [space_of_put hq hid]
  split
  · rfl
  · rfl

theorem has_of_put (hq : q.spaces = p.spaces.put id s) (hid : id < p.spaces.size)
    (flag : PageFlag) (other : SpaceId) (u : Nat) :
    q.has flag other u = if other = id then s.directory.has flag u else p.has flag other u := by
  unfold has
  rw [space_of_put hq hid]
  split
  · rfl
  · rfl

theorem descriptor?_of_put (hq : q.spaces = p.spaces.put id s) (hid : id < p.spaces.size)
    (other : SpaceId) (u : Nat) :
    q.descriptor? other u
      = if other = id then s.descriptors.find? u else p.descriptor? other u := by
  unfold descriptor?
  rw [space_of_put hq hid]
  split
  · rfl
  · rfl

theorem mappings_of_put (hq : q.spaces = p.spaces.put id s) (hid : id < p.spaces.size)
    (other : SpaceId) :
    (q.space other).mappings = if other = id then s.mappings else (p.space other).mappings := by
  rw [space_of_put hq hid]
  split
  · rfl
  · rfl

/-- A space that is put in the place of one with the same mappings. -/
theorem mappings_of_put_same (hq : q.spaces = p.spaces.put id s)
    (hs : s.mappings = (p.space id).mappings) (other : SpaceId) :
    (q.space other).mappings = (p.space other).mappings := by
  unfold space at hs ⊢
  rw [hq]
  unfold Spaces.put
  rw [Spaces.lookup_update]
  split
  next h => rw [hs, h.1]
  next => rfl

theorem mappings_updateDirectory (p : Pager n) (id : SpaceId) (g : PageDirectory → PageDirectory)
    (other : SpaceId) :
    ((p.updateDirectory id g).space other).mappings = (p.space other).mappings := by
  unfold updateDirectory updateSpace space
  rw [Spaces.lookup_update]
  split
  next h => rw [h.1]
  next => rfl

theorem reserved_of_put (hq : q.spaces = p.spaces.put id s) (hid : id < p.spaces.size)
    (other : SpaceId) :
    (q.space other).directory.reserved
      = if other = id then s.directory.reserved else (p.space other).directory.reserved := by
  rw [space_of_put hq hid]
  split
  · rfl
  · rfl

/-! ## The parts of the agreement, one look-up at a time -/

theorem slot?_congr (hdesc : ∀ id u, q.descriptor? id u = p.descriptor? id u) (id : SpaceId)
    (u : Nat) : q.slot? id u = p.slot? id u := by
  rw [slot?, hdesc, slot?]

theorem mapping?_congr (hmappings : ∀ id, (q.space id).mappings = (p.space id).mappings)
    (id : SpaceId) (m : Nat) : q.mapping? id m = p.mapping? id m := by
  rw [mapping?, hmappings, mapping?]

/-- Descriptors may go, as long as those that stay keep their pages where they are. -/
theorem DescriptorsAgree.of_le (h : p.DescriptorsAgree)
    (hdesc : ∀ id u d, q.descriptor? id u = some d →
      p.descriptor? id u = some d ∧ q.address? id u = p.address? id u) : q.DescriptorsAgree where
  key id u d hd := h.key id u d (hdesc id u d hd).1
  upage id u d hd := h.upage id u d (hdesc id u d hd).1
  loaded_iff id u d hd := by
    rw [(hdesc id u d hd).2]
    exact h.loaded_iff id u d (hdesc id u d hd).1
  slot_of_loaded id u d hd := h.slot_of_loaded id u d (hdesc id u d hd).1
  backed id u d hd := h.backed id u d (hdesc id u d hd).1

/-- Pages that were neither described nor mapped are described, and are not loaded. -/
theorem DescriptorsAgree.of_added (h : p.DescriptorsAgree)
    (haddr : ∀ id u, q.address? id u = p.address? id u)
    (hdesc : ∀ id u d, q.descriptor? id u = some d → p.descriptor? id u = some d
      ∨ d.upage = u ∧ (PageAligned u ∧ IsUserAddress u) ∧ d.loaded = false
        ∧ p.address? id u = none ∧ d.backing ≠ .anonymous) : q.DescriptorsAgree where
  key id u d hd := by
    rcases hdesc id u d hd with hd | ⟨hkey, _⟩
    · exact h.key id u d hd
    · exact hkey
  upage id u d hd := by
    rcases hdesc id u d hd with hd | ⟨_, hu, _⟩
    · exact h.upage id u d hd
    · exact hu
  loaded_iff id u d hd := by
    rw [haddr]
    rcases hdesc id u d hd with hd | ⟨_, _, hloaded, hnone, _⟩
    · exact h.loaded_iff id u d hd
    · simp [hloaded, hnone]
  slot_of_loaded id u d hd hloaded := by
    rcases hdesc id u d hd with hd | ⟨_, _, habsent, _⟩
    · exact h.slot_of_loaded id u d hd hloaded
    · rw [habsent] at hloaded
      cases hloaded
  backed id u d hd := by
    rcases hdesc id u d hd with hd | ⟨_, _, _, _, hbacked⟩
    · exact h.backed id u d hd
    · exact hbacked

theorem DescriptorsAgree.congr (h : p.DescriptorsAgree)
    (haddr : ∀ id u, q.address? id u = p.address? id u)
    (hdesc : ∀ id u, q.descriptor? id u = p.descriptor? id u) : q.DescriptorsAgree :=
  h.of_le fun id u _ hd => ⟨hdesc id u ▸ hd, haddr id u⟩

theorem SlotsAgree.congr (h : p.SlotsAgree) (hslots : q.swap.slots = p.swap.slots)
    (hsectors : q.swap.device.sectors = p.swap.device.sectors)
    (hslot : ∀ id u, q.slot? id u = p.slot? id u) : q.SlotsAgree where
  fitted := by
    have hfitted := h.fitted
    unfold SwapArea.Fitted at hfitted ⊢
    rw [hslots, hsectors]
    exact hfitted
  tidy := hslots ▸ h.tidy
  claimed_iff slot := by
    unfold SwapArea.Claimed
    simp only [hslots, hslot]
    exact h.claimed_iff slot
  unique id u id' u' slot hu hu' := h.unique id u id' u' slot (hslot id u ▸ hu) (hslot id' u' ▸ hu')

/-- Mappings may go, and descriptors may change as long as those of live mappings keep
their windows. -/
theorem MappingsAgree.of_le (h : p.MappingsAgree)
    (hmapping : ∀ id m fm, q.mapping? id m = some fm → p.mapping? id m = some fm)
    (hnext : ∀ id, (q.space id).mappings.nextId = (p.space id).mappings.nextId)
    (hdesc : ∀ id m fm u d w, q.mapping? id m = some fm → u ∈ fm.pages →
      p.descriptor? id u = some d → d.backing.isMapped = true → d.backing.window? = some w →
      ∃ d', q.descriptor? id u = some d' ∧ d'.backing.isMapped = true
        ∧ d'.backing.window? = some w) :
    q.MappingsAgree where
  numbered id m fm hm := by
    rw [hnext]
    exact h.numbered id m fm (hmapping id m fm hm)
  placed id m fm hm := h.placed id m fm (hmapping id m fm hm)
  described id m fm i hm hi := by
    obtain ⟨d, w, hd, hmapped, hw, hsource⟩ := h.described id m fm i (hmapping id m fm hm) hi
    obtain ⟨d', hd', hmapped', hw'⟩ :=
      hdesc id m fm _ d w hm (mem_pageRange.mpr ⟨i, hi, rfl⟩) hd hmapped hw
    exact ⟨d', w, hd', hmapped', hw', hsource⟩
  disjoint id m m' fm fm' u hm hm' :=
    h.disjoint id m m' fm fm' u (hmapping id m fm hm) (hmapping id m' fm' hm')

theorem MappingsAgree.congr (h : p.MappingsAgree)
    (hmappings : ∀ id, (q.space id).mappings = (p.space id).mappings)
    (hdesc : ∀ id u, q.descriptor? id u = p.descriptor? id u) : q.MappingsAgree :=
  h.of_le (fun id m fm hm => mapping?_congr hmappings id m ▸ hm) (fun id => by rw [hmappings])
    fun id _ _ u d w _ _ hd hmapped hw => ⟨d, (hdesc id u).trans hd, hmapped, hw⟩

/-- Two states with the same tables: they differ in contents of frames and files, in flags,
in where the clock stands and in counters at most. -/
structure SameTables (p q : Pager n) : Prop where
  base : q.frames.pool.base = p.frames.pool.base
  inUse : ∀ i, q.frames.pool.inUse.get i = p.frames.pool.inUse.get i
  assignment? : ∀ i, q.assignment? i = p.assignment? i
  size : q.spaces.size = p.spaces.size
  reserved : ∀ id, (q.space id).directory.reserved = (p.space id).directory.reserved
  address? : ∀ id u, q.address? id u = p.address? id u
  descriptor? : ∀ id u, q.descriptor? id u = p.descriptor? id u
  mappings : ∀ id, (q.space id).mappings = (p.space id).mappings
  slots : q.swap.slots = p.swap.slots
  sectors : q.swap.device.sectors = p.swap.device.sectors

/-- A mapping with a new number is added, of pages that were not described. -/
theorem MappingsAgree.of_added (h : p.MappingsAgree) {o : SpaceId} {new : FileMapping}
    (hplaced : PageAligned new.base ∧ new.base + new.pageCount * pageSize ≤ userTop)
    (hmapping : ∀ id m, q.mapping? id m = if id = o ∧ m = (p.space o).mappings.nextId
      then some new else p.mapping? id m)
    (hnext : ∀ id, (q.space id).mappings.nextId
      = if id = o then (p.space id).mappings.nextId + 1 else (p.space id).mappings.nextId)
    (hnew : ∀ k, k < new.pageCount →
      ∃ d w, q.descriptor? o (new.base + k * pageSize) = some d ∧ d.backing.isMapped = true
        ∧ d.backing.window? = some w ∧ w.source = new.source ∧ w.offset = k * pageSize)
    (hstays : ∀ id u d, p.descriptor? id u = some d → q.descriptor? id u = some d)
    (hfree : ∀ k, k < new.pageCount → p.descriptor? o (new.base + k * pageSize) = none) :
    q.MappingsAgree := by
  -- the pages of the new mapping were not described, those of the old ones were
  have hapart : ∀ m fm u, p.mapping? o m = some fm → u ∈ fm.pages → u ∉ new.pages := by
    intro m fm u hm hu hunew
    obtain ⟨k, hk, rfl⟩ := mem_pageRange.mp hunew
    obtain ⟨j, hj, hju⟩ := mem_pageRange.mp hu
    obtain ⟨d, _, hd, _⟩ := h.described o m fm j hm hj
    rw [← hju, hfree k hk] at hd
    cases hd
  refine ⟨?_, ?_, ?_, ?_⟩
  · intro id m fm hm
    rw [hmapping] at hm
    rw [hnext]
    split at hm
    next hthis =>
      rw [if_pos hthis.1, hthis.1, hthis.2]
      exact Nat.lt_succ_self _
    next =>
      have hlt := h.numbered id m fm hm
      split
      · exact Nat.lt_succ_of_lt hlt
      · exact hlt
  · intro id m fm hm
    rw [hmapping] at hm
    split at hm
    next =>
      cases hm
      exact hplaced
    next => exact h.placed id m fm hm
  · intro id m fm k hm hk
    rw [hmapping] at hm
    split at hm
    next hthis =>
      cases hm
      rw [hthis.1]
      exact hnew k hk
    next =>
      obtain ⟨d, w, hd, hrest⟩ := h.described id m fm k hm hk
      exact ⟨d, w, hstays _ _ d hd, hrest⟩
  · intro id m m' fm fm' u hm hm' hu hu'
    rw [hmapping] at hm hm'
    split at hm
    next hthis =>
      cases hm
      split at hm'
      next hthat => exact hthis.2.trans hthat.2.symm
      next => exact absurd hu (hapart m' fm' u (hthis.1 ▸ hm') hu')
    next =>
      split at hm'
      next hthat =>
        cases hm'
        exact absurd hu' (hapart m fm u (hthat.1 ▸ hm) hu)
      next => exact h.disjoint id m m' fm fm' u hm hm' hu hu'

theorem frameAddress_congr (h : q.frames.pool.base = p.frames.pool.base) (i : Fin n) :
    q.frameAddress i = p.frameAddress i := by
  simp only [frameAddress, FramePool.frameAddress, h]

theorem FramesAgree.congr {f : Option (Fin n)} (h : p.FramesAgree f)
    (hbase : q.frames.pool.base = p.frames.pool.base)
    (huse : ∀ i, q.frames.pool.inUse.get i = p.frames.pool.inUse.get i)
    (hassign : ∀ i, q.assignment? i = p.assignment? i) (hsize : q.spaces.size = p.spaces.size)
    (hreserved : ∀ id, (q.space id).directory.reserved = (p.space id).directory.reserved)
    (haddr : ∀ id u, q.address? id u = p.address? id u) : q.FramesAgree f where
  low := hbase ▸ h.low
  reserved id := (hreserved id).trans (h.reserved id)
  inUse i := by rw [huse, hassign, h.inUse]
  owner i a ha := hsize ▸ h.owner i a (hassign i ▸ ha)
  upage i a ha := h.upage i a (hassign i ▸ ha)
  evicting i a ha := h.evicting i a (hassign i ▸ ha)
  mapped i a ha hne := by
    rw [haddr, frameAddress_congr hbase]
    exact h.mapped i a (hassign i ▸ ha) hne
  assigned id u x hx := by
    obtain ⟨i, a, ha, hrest⟩ := h.assigned id u x (haddr id u ▸ hx)
    exact ⟨i, a, (hassign i).trans ha, hrest⟩
  flying i hi := by
    obtain ⟨a, ha, hpins, hnone⟩ := h.flying i hi
    exact ⟨a, (hassign i).trans ha, hpins, (haddr _ _).trans hnone⟩

theorem SameTables.agrees {f : Option (Fin n)} (h : SameTables p q) (hp : p.Agrees f) :
    q.Agrees f where
  frames := hp.frames.congr h.base h.inUse h.assignment? h.size h.reserved h.address?
  descriptors := hp.descriptors.congr h.address? h.descriptor?
  slots := hp.slots.congr h.slots h.sectors (slot?_congr h.descriptor?)
  mappings := hp.mappings.congr h.mappings h.descriptor?

/-! ## Frames that change hands -/

section Frames

variable {f : Option (Fin n)} {i : Fin n} {a : Assignment}

theorem FramesAgree.assignment?_of_free (h : p.FramesAgree f)
    (hfree : p.frames.pool.inUse.get i = false) : p.assignment? i = none := by
  have hi := h.inUse i
  rw [hfree] at hi
  simpa using hi.symm

/-- A frame goes from the page that it was assigned to, or from nowhere, to a page that is
not mapped, and is in flight until that page is. -/
theorem FramesAgree.of_assigned (h : p.FramesAgree none)
    (hbase : q.frames.pool.base = p.frames.pool.base) (hsize : q.spaces.size = p.spaces.size)
    (hreserved : ∀ id, (q.space id).directory.reserved = (p.space id).directory.reserved)
    (huse : ∀ j, q.frames.pool.inUse.get j = if j = i then true else p.frames.pool.inUse.get j)
    (hassign : ∀ j, q.assignment? j = if j = i then some a else p.assignment? j)
    (haddr : ∀ id u, q.address? id u = if ∃ b, p.assignment? i = some b ∧ id = b.owner
      ∧ pageBase u = b.upage then none else p.address? id u)
    (howner : a.owner < p.spaces.size) (hupage : PageAligned a.upage ∧ IsUserAddress a.upage)
    (hevicting : a.evicting = false) (hpins : a.pins = 1)
    (hnone : p.address? a.owner a.upage = none) : q.FramesAgree (some i) := by
  have hframe := frameAddress_congr hbase
  -- a page that was mapped to another frame still is
  have hother : ∀ j b, p.assignment? j = some b → j ≠ i →
      q.address? b.owner b.upage = p.address? b.owner b.upage := by
    intro j b hb hj
    rw [haddr, if_neg]
    intro h
    obtain ⟨c, hc, howner, hupage⟩ := h
    rw [(h.upage j b hb).1.pageBase_eq] at hupage
    exact hj (h.eq_of_same_page hb hc howner hupage)
  refine ⟨hbase ▸ h.low, fun id => (hreserved id).trans (h.reserved id), ?_, ?_, ?_, ?_, ?_, ?_, ?_⟩
  · have := h.inUse
    grind
  · have := h.owner
    grind
  · have := h.upage
    grind
  · have := h.evicting
    grind
  · intro j b hb hj
    have hji : j ≠ i := fun heq => hj (heq ▸ rfl)
    rw [hassign, if_neg hji] at hb
    rw [hother j b hb hji, hframe]
    exact h.mapped j b hb (by simp)
  · intro id u x hx
    rw [haddr] at hx
    split at hx
    next => cases hx
    next hne =>
      obtain ⟨j, b, hb, _, howner, hupage⟩ := h.assigned id u x hx
      have hji : j ≠ i := fun heq => hne ⟨b, heq ▸ hb, howner.symm, hupage.symm⟩
      refine ⟨j, b, ?_, fun heq => hji (Option.some.inj heq).symm, howner, hupage⟩
      rw [hassign, if_neg hji, hb]
  · intro j hj
    cases hj
    refine ⟨a, by rw [hassign, if_pos rfl], hpins, ?_⟩
    rw [haddr, hnone]
    split
    · rfl
    · rfl

/-- The frame in flight lands: its page is mapped to it. -/
theorem FramesAgree.of_mapped (h : p.FramesAgree (some i)) (hi : p.assignment? i = some a)
    (hbase : q.frames.pool.base = p.frames.pool.base) (hsize : q.spaces.size = p.spaces.size)
    (hreserved : ∀ id, (q.space id).directory.reserved = (p.space id).directory.reserved)
    (huse : ∀ j, q.frames.pool.inUse.get j = p.frames.pool.inUse.get j)
    (hassign : ∀ j, q.assignment? j = p.assignment? j)
    (haddr : ∀ id u, q.address? id u = if id = a.owner ∧ pageBase u = a.upage
      then some (p.frameAddress i) else p.address? id u) : q.FramesAgree none := by
  have hframe := frameAddress_congr hbase
  refine ⟨hbase ▸ h.low, fun id => (hreserved id).trans (h.reserved id), ?_, ?_, ?_, ?_, ?_, ?_, ?_⟩
  · exact fun j => by rw [huse, hassign, h.inUse]
  · exact fun j b hb => hsize ▸ h.owner j b (hassign j ▸ hb)
  · exact fun j b hb => h.upage j b (hassign j ▸ hb)
  · exact fun j b hb => h.evicting j b (hassign j ▸ hb)
  · intro j b hb _
    rw [hassign] at hb
    rw [haddr, hframe]
    split
    next hpage =>
      rw [(h.upage j b hb).1.pageBase_eq] at hpage
      -- the only frame of that page is the one that landed
      rw [h.eq_of_same_page hb hi hpage.1 hpage.2]
    next hne =>
      refine h.mapped j b hb fun heq => hne ?_
      cases heq
      rw [hi] at hb
      cases hb
      exact ⟨rfl, (h.upage i a hi).1.pageBase_eq⟩
  · intro id u x hx
    rw [haddr] at hx
    split at hx
    next hpage => exact ⟨i, a, (hassign i).trans hi, by simp, hpage.1.symm, hpage.2.symm⟩
    next =>
      obtain ⟨j, b, hb, _, hrest⟩ := h.assigned id u x hx
      exact ⟨j, b, (hassign j).trans hb, by simp, hrest⟩
  · intro j hj
    cases hj

/-- Frames are taken back, and with them go the mappings of the pages that they backed. -/
theorem FramesAgree.of_freed (h : p.FramesAgree f) (gone : Fin n → Prop)
    (hflight : ∀ i, f = some i → gone i)
    (hbase : q.frames.pool.base = p.frames.pool.base) (hsize : q.spaces.size = p.spaces.size)
    (hreserved : ∀ id, (q.space id).directory.reserved = (p.space id).directory.reserved)
    (huse : ∀ j, q.frames.pool.inUse.get j = true ↔ p.frames.pool.inUse.get j = true ∧ ¬ gone j)
    (hassign : ∀ j b, q.assignment? j = some b ↔ p.assignment? j = some b ∧ ¬ gone j)
    (haddr : ∀ id u x, q.address? id u = some x ↔ p.address? id u = some x
      ∧ ∀ j b, gone j → p.assignment? j = some b → ¬ (b.owner = id ∧ b.upage = pageBase u)) :
    q.FramesAgree none := by
  have hframe := frameAddress_congr hbase
  refine ⟨hbase ▸ h.low, fun id => (hreserved id).trans (h.reserved id), ?_, ?_, ?_, ?_, ?_, ?_, ?_⟩
  · intro j
    refine Bool.eq_iff_iff.mpr ?_
    rw [huse, h.inUse, Option.isSome_iff_exists, Option.isSome_iff_exists]
    simp only [hassign]
    exact ⟨fun ⟨⟨b, hb⟩, hne⟩ => ⟨b, hb, hne⟩, fun ⟨b, hb, hne⟩ => ⟨⟨b, hb⟩, hne⟩⟩
  · exact fun j b hb => hsize ▸ h.owner j b ((hassign j b).mp hb).1
  · exact fun j b hb => h.upage j b ((hassign j b).mp hb).1
  · exact fun j b hb => h.evicting j b ((hassign j b).mp hb).1
  · intro j b hb _
    obtain ⟨hb, hstays⟩ := (hassign j b).mp hb
    rw [hframe]
    -- a frame that stays backs no page of a frame that goes, as no page has two frames
    refine (haddr _ _ _).mpr ⟨h.mapped j b hb fun hf => hstays (hflight j hf), ?_⟩
    intro k c hk hc hpage
    rw [(h.upage j b hb).1.pageBase_eq] at hpage
    exact hstays (h.eq_of_same_page hc hb hpage.1 hpage.2 ▸ hk)
  · intro id u x hx
    obtain ⟨hx, hstays⟩ := (haddr id u x).mp hx
    obtain ⟨j, b, hb, _, hpage⟩ := h.assigned id u x hx
    exact ⟨j, b, (hassign j b).mpr ⟨hb, fun hj => hstays j b hj hb hpage⟩, by simp, hpage⟩
  · intro j hj
    cases hj

/-- The pins of a frame are nobody else's business. -/
theorem FramesAgree.of_pinned {pins : Nat} (h : p.FramesAgree none) (hi : p.assignment? i = some a)
    (hpool : q.frames.pool = p.frames.pool) (hspaces : q.spaces = p.spaces)
    (hassign : ∀ j, q.assignment? j = if j = i then some { a with pins := pins }
      else p.assignment? j) : q.FramesAgree none := by
  have hframe := frameAddress_congr (congrArg FramePool.base hpool)
  have haddr : ∀ id u, q.address? id u = p.address? id u := fun id u => by
    simp only [address?, space, hspaces]
  -- pins are all that an assignment may differ in
  have hback : ∀ j b, q.assignment? j = some b →
      ∃ c, p.assignment? j = some c ∧ c.owner = b.owner ∧ c.upage = b.upage
        ∧ c.evicting = b.evicting := by
    grind
  refine ⟨hpool ▸ h.low, ?_, ?_, ?_, ?_, ?_, ?_, ?_, ?_⟩
  · intro id
    unfold space
    rw [hspaces]
    exact h.reserved id
  · have := h.inUse
    grind
  · intro j b hb
    obtain ⟨c, hc, howner, _⟩ := hback j b hb
    rw [hspaces, ← howner]
    exact h.owner j c hc
  · intro j b hb
    obtain ⟨c, hc, _, hupage, _⟩ := hback j b hb
    exact hupage ▸ h.upage j c hc
  · intro j b hb
    obtain ⟨c, hc, _, _, hevicting⟩ := hback j b hb
    exact hevicting ▸ h.evicting j c hc
  · intro j b hb _
    obtain ⟨c, hc, howner, hupage, _⟩ := hback j b hb
    rw [haddr, hframe, ← howner, ← hupage]
    exact h.mapped j c hc (by simp)
  · intro id u x hx
    obtain ⟨j, b, hb, _, hpage⟩ := h.assigned id u x (haddr id u ▸ hx)
    by_cases hj : j = i
    · subst hj
      rw [hi] at hb
      cases hb
      exact ⟨j, _, (hassign j).trans (if_pos rfl), by simp, hpage⟩
    · exact ⟨j, b, by rw [hassign, if_neg hj, hb], by simp, hpage⟩
  · intro j hj
    cases hj

end Frames

/-! ## One page that changes -/

section OnePage

variable {o : SpaceId} {v : Nat}

/-- Of all pages of all spaces only the page `v` of the space `o` may have another
descriptor, another frame or other flags. -/
structure OnlyPage (p q : Pager n) (o : SpaceId) (v : Nat) : Prop where
  size : q.spaces.size = p.spaces.size
  reserved : ∀ id, (q.space id).directory.reserved = (p.space id).directory.reserved
  mappings : ∀ id, (q.space id).mappings = (p.space id).mappings
  address? : ∀ id u, ¬(id = o ∧ pageBase u = v) → q.address? id u = p.address? id u
  has : ∀ flag id u, ¬(id = o ∧ pageBase u = v) → q.has flag id u = p.has flag id u
  descriptor? : ∀ id u, ¬(id = o ∧ u = v) → q.descriptor? id u = p.descriptor? id u

theorem OnlyPage.of_put (hq : q.spaces = p.spaces.put o s) (ho : o < p.spaces.size)
    (hreserved : s.directory.reserved = (p.space o).directory.reserved)
    (hmappings : s.mappings = (p.space o).mappings)
    (haddr : ∀ u, pageBase u ≠ v →
      s.directory.frameAddress? u = (p.space o).directory.frameAddress? u)
    (hflag : ∀ flag u, pageBase u ≠ v →
      s.directory.has flag u = (p.space o).directory.has flag u)
    (hdesc : ∀ u, u ≠ v → s.descriptors.find? u = (p.space o).descriptors.find? u) :
    OnlyPage p q o v where
  size := by rw [hq, Spaces.size_put]
  reserved id := by
    rw [space_of_put hq ho]
    split
    next h => rw [h, hreserved]
    next => rfl
  mappings id := by
    rw [space_of_put hq ho]
    split
    next h => rw [h, hmappings]
    next => rfl
  address? id u hne := by
    rw [address?_of_put hq ho]
    split
    next h =>
      rw [haddr u fun hu => hne ⟨h, hu⟩, h]
      rfl
    next => rfl
  has flag id u hne := by
    rw [has_of_put hq ho]
    split
    next h =>
      rw [hflag flag u fun hu => hne ⟨h, hu⟩, h]
      rfl
    next => rfl
  descriptor? id u hne := by
    rw [descriptor?_of_put hq ho]
    split
    next h =>
      rw [hdesc u fun hu => hne ⟨h, hu⟩, h]
      rfl
    next => rfl

theorem OnlyPage.slot? (h : OnlyPage p q o v) (id : SpaceId) (u : Nat)
    (hne : ¬(id = o ∧ u = v)) : q.slot? id u = p.slot? id u := by
  rw [Pager.slot?, h.descriptor? id u hne, Pager.slot?]

/-- The descriptor and the mapping of one page change together. -/
theorem DescriptorsAgree.of_page (h : p.DescriptorsAgree) (hpage : OnlyPage p q o v)
    (hnew : ∀ d, q.descriptor? o v = some d → d.upage = v ∧ (PageAligned v ∧ IsUserAddress v)
      ∧ (d.loaded = true ↔ (q.address? o v).isSome = true)
      ∧ (d.loaded = true → d.backing.slot? = none) ∧ d.backing ≠ .anonymous) :
    q.DescriptorsAgree := by
  -- a page either is the one that changed, or has its old descriptor and frame
  have hcases : ∀ id u d, q.descriptor? id u = some d → (id = o ∧ u = v)
      ∨ (p.descriptor? id u = some d ∧ q.address? id u = p.address? id u) := by
    intro id u d hd
    by_cases hthis : id = o ∧ u = v
    · exact Or.inl hthis
    · rw [hpage.descriptor? id u hthis] at hd
      refine Or.inr ⟨hd, hpage.address? id u fun hc => hthis ⟨hc.1, ?_⟩⟩
      rw [← hc.2, (h.upage id u d hd).1.pageBase_eq]
  constructor
  · intro id u d hd
    rcases hcases id u d hd with ⟨rfl, rfl⟩ | ⟨hp, _⟩
    · exact (hnew d hd).1
    · exact h.key id u d hp
  · intro id u d hd
    rcases hcases id u d hd with ⟨rfl, rfl⟩ | ⟨hp, _⟩
    · exact (hnew d hd).2.1
    · exact h.upage id u d hp
  · intro id u d hd
    rcases hcases id u d hd with ⟨rfl, rfl⟩ | ⟨hp, haddr⟩
    · exact (hnew d hd).2.2.1
    · rw [haddr]
      exact h.loaded_iff id u d hp
  · intro id u d hd
    rcases hcases id u d hd with ⟨rfl, rfl⟩ | ⟨hp, _⟩
    · exact (hnew d hd).2.2.2.1
    · exact h.slot_of_loaded id u d hp
  · intro id u d hd
    rcases hcases id u d hd with ⟨rfl, rfl⟩ | ⟨hp, _⟩
    · exact (hnew d hd).2.2.2.2
    · exact h.backed id u d hp

/-- A page of a live mapping keeps its window. -/
theorem MappingsAgree.of_page (h : p.MappingsAgree) (hpage : OnlyPage p q o v)
    (hkept : ∀ m fm d w, p.mapping? o m = some fm → v ∈ fm.pages → p.descriptor? o v = some d →
      d.backing.isMapped = true → d.backing.window? = some w →
      ∃ d', q.descriptor? o v = some d' ∧ d'.backing.isMapped = true
        ∧ d'.backing.window? = some w) : q.MappingsAgree := by
  have hmapping := mapping?_congr hpage.mappings
  refine h.of_le (fun id m fm hm => hmapping id m ▸ hm) (fun id => by rw [hpage.mappings]) ?_
  intro id m fm u d w hm hu hd hmapped hw
  by_cases hthis : id = o ∧ u = v
  · obtain ⟨rfl, rfl⟩ := hthis
    exact hkept m fm d w (hmapping _ m ▸ hm) hu hd hmapped hw
  · exact ⟨d, (hpage.descriptor? id u hthis).trans hd, hmapped, hw⟩

/-- One page comes to name a slot that no page named. -/
theorem SlotsAgree.of_claimed {slot : Nat} (h : p.SlotsAgree) (hlt : slot < p.swap.slots.length)
    (hfree : ¬ p.swap.Claimed slot) (hslots : q.swap.slots = p.swap.slots.put slot true)
    (hsectors : q.swap.device.sectors = p.swap.device.sectors) (hpage : OnlyPage p q o v)
    (hbefore : p.slot? o v = none) (hafter : q.slot? o v = some slot) : q.SlotsAgree := by
  -- a slot that was free was named by nobody, so the new name is the only one
  have hunnamed : ∀ id u, p.slot? id u ≠ some slot := fun id u hu =>
    hfree ((h.claimed_iff slot).mpr ⟨id, u, hu⟩)
  have hiff : ∀ id u s, q.slot? id u = some s
      ↔ (id = o ∧ u = v ∧ s = slot) ∨ p.slot? id u = some s := by
    intro id u s
    by_cases hthis : id = o ∧ u = v
    · obtain ⟨rfl, rfl⟩ := hthis
      simp [hafter, hbefore, eq_comm]
    · rw [hpage.slot? id u hthis]
      simp only [not_and] at hthis
      exact ⟨Or.inr, fun hor => hor.resolve_left fun hc => hthis hc.1 hc.2.1⟩
  refine ⟨?_, hslots ▸ h.tidy.put slot true, ?_, ?_⟩
  · have hfitted := h.fitted
    unfold SwapArea.Fitted at hfitted ⊢
    rw [hslots, hsectors, Bitmap.length_put]
    exact hfitted
  · intro s
    have hclaimed : q.swap.Claimed s ↔ s = slot ∨ p.swap.Claimed s := by
      unfold SwapArea.Claimed
      rw [hslots, Bitmap.isSet_put _ hlt]
      split
      next hs => simp [hs]
      next hs => simp [hs]
    rw [hclaimed, h.claimed_iff]
    simp only [hiff]
    constructor
    · intro h
      rcases h with rfl | ⟨id, u, hu⟩
      · exact ⟨o, v, Or.inl ⟨rfl, rfl, rfl⟩⟩
      · exact ⟨id, u, Or.inr hu⟩
    · intro h
      obtain ⟨id, u, ⟨_, _, rfl⟩ | hu⟩ := h
      · exact Or.inl rfl
      · exact Or.inr ⟨id, u, hu⟩
  · intro id u id' u' s hu hu'
    rcases (hiff id u s).mp hu with ⟨rfl, rfl, rfl⟩ | hu
    · rcases (hiff id' u' s).mp hu' with ⟨rfl, rfl, _⟩ | hu'
      · exact ⟨rfl, rfl⟩
      · exact absurd hu' (hunnamed id' u')
    · rcases (hiff id' u' s).mp hu' with ⟨_, _, rfl⟩ | hu'
      · exact absurd hu (hunnamed id u)
      · exact h.unique id u id' u' s hu hu'

/-- Pages cease to name their slots, and the slots are freed. -/
theorem SlotsAgree.of_freed (h : p.SlotsAgree) (gone : SpaceId → Nat → Prop)
    (hlength : q.swap.slots.length = p.swap.slots.length) (htidy : q.swap.slots.Tidy)
    (hsectors : q.swap.device.sectors = p.swap.device.sectors)
    (hclaimed : ∀ s, q.swap.Claimed s ↔ p.swap.Claimed s
      ∧ ∀ id u, gone id u → p.slot? id u ≠ some s)
    (hslot : ∀ id u s, q.slot? id u = some s ↔ p.slot? id u = some s ∧ ¬ gone id u) :
    q.SlotsAgree where
  fitted := by
    have hfitted := h.fitted
    unfold SwapArea.Fitted at hfitted ⊢
    rw [hlength, hsectors]
    exact hfitted
  tidy := htidy
  claimed_iff s := by
    rw [hclaimed, h.claimed_iff]
    constructor
    · intro h
      obtain ⟨⟨id, u, hu⟩, hkept⟩ := h
      exact ⟨id, u, (hslot id u s).mpr ⟨hu, fun hgone => hkept id u hgone hu⟩⟩
    · intro h
      obtain ⟨id, u, hu⟩ := h
      obtain ⟨hu, hstays⟩ := (hslot id u s).mp hu
      refine ⟨⟨id, u, hu⟩, fun id' u' hgone hu' => hstays ?_⟩
      obtain ⟨rfl, rfl⟩ := h.unique id u id' u' s hu hu'
      exact hgone
  unique id u id' u' s hu hu' :=
    h.unique id u id' u' s ((hslot id u s).mp hu).1 ((hslot id' u' s).mp hu').1

/-- The page at `(o, v)` gives up the slot that it named, if it named one. -/
theorem SlotsAgree.of_freed? (h : p.SlotsAgree) (slot? : Option Nat) (reads : UInt32)
    (hswap : q.swap = (p.swap.withReads reads).freed? slot?) (hpage : OnlyPage p q o v)
    (hbefore : p.slot? o v = slot?) (hafter : q.slot? o v = none) : q.SlotsAgree := by
  have hiff : ∀ id u s, q.slot? id u = some s ↔ p.slot? id u = some s ∧ ¬(id = o ∧ u = v) := by
    intro id u s
    by_cases hthis : id = o ∧ u = v
    · obtain ⟨rfl, rfl⟩ := hthis
      simp [hafter]
    · simp [hpage.slot? id u hthis, hthis]
  cases slot? with
  | none =>
    refine h.congr (by rw [hswap]; rfl) (by rw [hswap]; rfl) ?_
    intro id u
    by_cases hthis : id = o ∧ u = v
    · rw [hthis.1, hthis.2, hafter, hbefore]
    · exact hpage.slot? id u hthis
  | some slot =>
    -- the page named the slot, so it was held; and nobody else named it
    have hheld : p.swap.Claimed slot := (h.claimed_iff slot).mpr ⟨o, v, hbefore⟩
    refine h.of_freed _ ?_ ?_ (by rw [hswap]; rfl) ?_ hiff
    · rw [hswap]
      exact Bitmap.length_put _ _ _
    · rw [hswap]
      exact h.tidy.put slot false
    · intro s
      rw [hswap]
      refine (SwapArea.claimed_freed hheld s).trans ?_
      refine and_congr_right fun _ => ⟨?_, ?_⟩
      · intro hs id u h hu
        obtain ⟨rfl, rfl⟩ := h
        exact hs (Option.some.inj (hu.symm.trans hbefore))
      · intro hkept hs
        exact hkept o v ⟨rfl, rfl⟩ (hs ▸ hbefore)

end OnePage

end Pager

end DemandPaging

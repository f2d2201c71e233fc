import DemandPaging.Proofs.Changes
import DemandPaging.Proofs.SwapSlots
/-!
# When the tables of the pager agree

Five tables speak of the same pages: the frame pool, the frame assignments, the page
directories, the descriptors and the slots of the swap area. `Agrees` is what ties them
together between operations, in four parts:

* `FramesAgree`: the frames that are handed out are those that are assigned, and a frame
  is assigned to a page exactly when the directory maps the page to it;
* `DescriptorsAgree`: a descriptor is marked loaded exactly when its page is mapped, and
  then names no slot;
* `SlotsAgree`: the claimed slots are those that descriptors name, each named once;
* `MappingsAgree`: the pages of a live mapping have descriptors that say so, and two
  mappings share no page.

In the middle of an operation one frame may be assigned to a page that is not mapped yet.
Such a frame is *in flight*; the first part is stated relative to it.
-/

namespace DemandPaging

variable {n : Nat}

namespace Pager

/-- The physical address that a page is mapped to. -/
def address? (p : Pager n) (id : SpaceId) (upage : Nat) : Option Nat :=
  (p.space id).directory.frameAddress? upage

/-- Whether a page is mapped with the given flag set. -/
def has (p : Pager n) (flag : PageFlag) (id : SpaceId) (upage : Nat) : Bool :=
  (p.space id).directory.has flag upage

/-- The descriptor of a page. -/
def descriptor? (p : Pager n) (id : SpaceId) (upage : Nat) : Option Descriptor :=
  (p.space id).descriptors.find? upage

/-- The slot that the descriptor of a page names. -/
def slot? (p : Pager n) (id : SpaceId) (upage : Nat) : Option Nat :=
  (p.descriptor? id upage).bind (·.backing.slot?)

/-- The live mapping of a space with the given number. -/
def mapping? (p : Pager n) (id : SpaceId) (mapping : Nat) : Option FileMapping :=
  (p.space id).mappings.find? mapping

/-- What a frame is assigned to. -/
def assignment? (p : Pager n) (i : Fin n) : Option Assignment := p.frames.assignments.get i

/-- The address of a frame. -/
def frameAddress (p : Pager n) (i : Fin n) : Nat := p.frames.pool.frameAddress i

/-- Pool, assignments and page directories agree, but for the frame in flight. -/
structure FramesAgree (p : Pager n) (flight : Option (Fin n)) : Prop where
  low : p.frames.pool.base + n * pageSize ≤ 0x100000000
  reserved : ∀ id, (p.space id).directory.reserved = []
  inUse : ∀ i, p.frames.pool.inUse.get i = (p.assignment? i).isSome
  owner : ∀ i a, p.assignment? i = some a → a.owner < p.spaces.size
  upage : ∀ i a, p.assignment? i = some a → PageAligned a.upage ∧ IsUserAddress a.upage
  evicting : ∀ i a, p.assignment? i = some a → a.evicting = false
  mapped : ∀ i a, p.assignment? i = some a → flight ≠ some i →
    p.address? a.owner a.upage = some (p.frameAddress i)
  assigned : ∀ id u x, p.address? id u = some x →
    ∃ i a, p.assignment? i = some a ∧ flight ≠ some i ∧ a.owner = id ∧ a.upage = pageBase u
  flying : ∀ i, flight = some i → ∃ a, p.assignment? i = some a ∧ a.pins = 1
    ∧ p.address? a.owner a.upage = none

/-- Descriptors and page directories agree. -/
structure DescriptorsAgree (p : Pager n) : Prop where
  key : ∀ id u d, p.descriptor? id u = some d → d.upage = u
  upage : ∀ id u d, p.descriptor? id u = some d → PageAligned u ∧ IsUserAddress u
  loaded_iff : ∀ id u d, p.descriptor? id u = some d →
    (d.loaded = true ↔ (p.address? id u).isSome = true)
  slot_of_loaded : ∀ id u d, p.descriptor? id u = some d → d.loaded = true →
    d.backing.slot? = none
  backed : ∀ id u d, p.descriptor? id u = some d → d.backing ≠ .anonymous

/-- Descriptors and swap slots agree. -/
structure SlotsAgree (p : Pager n) : Prop where
  fitted : p.swap.Fitted
  tidy : p.swap.slots.Tidy
  claimed_iff : ∀ slot, p.swap.Claimed slot ↔ ∃ id u, p.slot? id u = some slot
  unique : ∀ id u id' u' slot, p.slot? id u = some slot → p.slot? id' u' = some slot →
    id = id' ∧ u = u'

/-- Descriptors and mappings agree. -/
structure MappingsAgree (p : Pager n) : Prop where
  numbered : ∀ id m fm, p.mapping? id m = some fm → m < (p.space id).mappings.nextId
  placed : ∀ id m fm, p.mapping? id m = some fm →
    PageAligned fm.base ∧ fm.base + fm.pageCount * pageSize ≤ userTop
  described : ∀ id m fm i, p.mapping? id m = some fm → i < fm.pageCount →
    ∃ d w, p.descriptor? id (fm.base + i * pageSize) = some d ∧ d.backing.isMapped = true
      ∧ d.backing.window? = some w ∧ w.source = fm.source ∧ w.offset = i * pageSize
  disjoint : ∀ id m m' fm fm' u, p.mapping? id m = some fm → p.mapping? id m' = some fm' →
    u ∈ fm.pages → u ∈ fm'.pages → m = m'

/-- All tables agree, but for the frame in flight. -/
structure Agrees (p : Pager n) (flight : Option (Fin n)) : Prop where
  frames : p.FramesAgree flight
  descriptors : p.DescriptorsAgree
  slots : p.SlotsAgree
  mappings : p.MappingsAgree

variable {p : Pager n} {flight : Option (Fin n)}

/-! ## First consequences -/

theorem FramesAgree.frameAddress_lt (h : p.FramesAgree flight) (i : Fin n) :
    p.frameAddress i < 0x100000000 := by
  have hlow := h.low
  have hi := mul_add_pageSize_le i.isLt
  have hpos := pageSize_pos
  unfold frameAddress FramePool.frameAddress
  omega

theorem pageAligned_frameAddress (p : Pager n) (i : Fin n) : PageAligned (p.frameAddress i) :=
  p.frames.pool.base_aligned.add_mul i

theorem frameAddress_inj {i j : Fin n} (h : p.frameAddress i = p.frameAddress j) : i = j := by
  have hpos := pageSize_pos
  unfold frameAddress FramePool.frameAddress at h
  exact Fin.ext (Nat.eq_of_mul_eq_mul_right hpos (Nat.add_left_cancel h))

/-- A page is mapped at all its addresses or at none. -/
theorem address?_pageBase (p : Pager n) (id : SpaceId) (u : Nat) :
    p.address? id (pageBase u) = p.address? id u :=
  PageDirectory.frameAddress?_pageBase _ _

/-- A mapped page is mapped to the frame that is assigned to it. -/
theorem FramesAgree.frame_of_address (h : p.FramesAgree flight) {id : SpaceId} {u x : Nat}
    (hx : p.address? id u = some x) :
    ∃ i a, p.assignment? i = some a ∧ flight ≠ some i ∧ a.owner = id ∧ a.upage = pageBase u
      ∧ x = p.frameAddress i := by
  obtain ⟨i, a, ha, hne, rfl, hu⟩ := h.assigned id u x hx
  have hmapped := h.mapped i a ha hne
  rw [hu, address?_pageBase, hx] at hmapped
  exact ⟨i, a, ha, hne, rfl, hu, Option.some.inj hmapped⟩

/-- No page has two frames. -/
theorem FramesAgree.eq_of_same_page (h : p.FramesAgree flight) {i j : Fin n} {a b : Assignment}
    (ha : p.assignment? i = some a) (hb : p.assignment? j = some b) (howner : a.owner = b.owner)
    (hupage : a.upage = b.upage) : i = j := by
  by_cases hi : flight = some i
  · obtain ⟨a', ha', _, hnone⟩ := h.flying i hi
    rw [ha] at ha'
    cases ha'
    by_cases hj : flight = some j
    · exact Option.some.inj (hi.symm.trans hj)
    · have hmapped := h.mapped j b hb hj
      rw [← howner, ← hupage, hnone] at hmapped
      cases hmapped
  · have hmapped := h.mapped i a ha hi
    by_cases hj : flight = some j
    · obtain ⟨b', hb', _, hnone⟩ := h.flying j hj
      rw [hb] at hb'
      cases hb'
      rw [howner, hupage, hnone] at hmapped
      cases hmapped
    · rw [howner, hupage, h.mapped j b hb hj] at hmapped
      exact (frameAddress_inj (Option.some.inj hmapped)).symm

/-- Of a space that does not exist nothing is mapped. -/
theorem FramesAgree.lt_size_of_address (h : p.FramesAgree flight) {id : SpaceId} {u x : Nat}
    (hx : p.address? id u = some x) : id < p.spaces.size := by
  obtain ⟨i, a, ha, _, rfl, _⟩ := h.assigned id u x hx
  exact h.owner i a ha

/-- Of a space that does not exist no page has a descriptor. -/
theorem lt_size_of_descriptor {id : SpaceId} {u : Nat} {d : Descriptor}
    (hd : p.descriptor? id u = some d) : id < p.spaces.size := by
  refine Decidable.byContradiction ?_
  intro hid
  have hspace : p.space id = default := Spaces.lookup_of_size_le (Nat.le_of_not_lt hid)
  unfold descriptor? at hd
  rw [hspace] at hd
  cases hd

theorem slot?_eq_some_iff {id : SpaceId} {u slot : Nat} :
    p.slot? id u = some slot ↔ ∃ d, p.descriptor? id u = some d ∧ d.backing.slot? = some slot := by
  unfold slot?
  rw [Option.bind_eq_some_iff]

end Pager

end DemandPaging

import DemandPaging.Pager.Loading
import DemandPaging.Proofs.Evicting
import DemandPaging.Proofs.Steps
/-!
# Loading a page

`bringInAbsent_lands`: loading a page either moves it to a frame, with everything else as it
was to any process, or fails for a reason that lies in its file or in the swap device, and
then has moved nothing.

A page is loaded from the files as they are when the operation ends, since the only other
page that is touched loses its frame before. So each of these operations is one step
(`Leads`).
-/

namespace DemandPaging

open Pager PagerAction Outcome

variable {n : Nat}

namespace Backing

/-- Reading the slot and abandoning it come to the same: the slot is freed. -/
theorem freed?_abandoned (b : Backing) (s : SwapArea) :
    (s.freed? b.readSlot?).freed? b.abandonedSlot? = s.freed? b.slot? := by
  cases b <;> rfl

end Backing

/-- Why filling a frame failed: the file was too short, or the device refused, whose disk ends
within the slot and so does not hold all sectors that it declares. -/
inductive LoadFails (files : Array OpenFile) (swap : SwapArea) (b : Backing) :
    PagingError → Prop where
  | short {w : FileWindow} {actual : Nat} (hb : b.loadSource = .file w)
      (hactual : actual = ((files.getD w.source.file default).read w.offset w.readBytes).length)
      (h : actual ≠ w.readBytes) : LoadFails files swap b (.shortRead w.readBytes actual)
  | refused {slot : Nat} {cause : DeviceError} (hb : b.loadSource = .swap slot)
      (hshort : ¬ swap.Reaches slot) (hswap : ¬ swap.Backed) :
      LoadFails files swap b (.device cause)

/-! ## Filling frames -/

/-- A frame is filled with what the page holds, or in part. -/
theorem fillFrame_spec {p : Pager n} {i : Fin n} {b : Backing} (hb : b ≠ .anonymous)
    (hfitted : p.swap.Fitted) (hclaimed : ∀ slot, b.slot? = some slot → p.swap.Claimed slot) :
    ((fillFrame i b.loadSource).run p).Meets
      (fun _ q => b.Readable p.files ∧ ∃ page reads, p.parked? b = some page
        ∧ q = { p with
            frames := p.frames.write i page
            swap := (p.swap.withReads reads).freed? b.readSlot? })
      (fun e q => LoadFails q.files q.swap b e ∧ ∃ page reads,
        q = { p with frames := p.frames.write i page, swap := p.swap.withReads reads })
      (fun _ => False) := by
  rcases b.loadSource_eq with h | ⟨w, hsource, hread, _⟩ | ⟨slot, hsource, hread, hslot, _⟩
  · exact absurd h hb
  · unfold parked?
    rw [hsource, hread]
    unfold fillFrame
    simp only [run_bind, run_read, run_update]
    cases hload : w.load (p.file w.source.file) (p.page i) with
    | mk result page =>
      cases result with
      | ok u =>
        refine ⟨?_, page, p.swap.device.reads, by rw [FileWindow.load_eq_ok hload], rfl⟩
        intro v hv
        cases hsource.symm.trans hv
        exact FileWindow.length_read_of_load hload
      -- what was read before the file ended stays in the frame, which goes back
      | error e =>
        refine ⟨?_, page, p.swap.device.reads, rfl⟩
        unfold FileWindow.load at hload
        simp only at hload
        split at hload
        next => cases hload
        next hshort =>
          cases hload
          exact .short hsource rfl hshort
  · unfold parked?
    rw [hsource, hread]
    unfold fillFrame
    obtain ⟨reads, hfetch | ⟨hshort, cause, page, hfetch⟩⟩ :=
      SwapArea.fetch_of_claimed hfitted (hclaimed slot hslot) (p.page i)
    · simp only [run_bind, run_read, hfetch]
      exact ⟨fun v hv => (by cases hsource.symm.trans hv), _, reads, rfl, rfl⟩
    · simp only [run_bind, run_read, hfetch]
      have hswap : ¬ p.swap.Backed := fun hbacked =>
        hshort (hbacked.reaches hfitted (Bitmap.lt_of_isSet (hclaimed slot hslot)))
      exact ⟨.refused hsource hshort hswap, page, reads, rfl⟩

/-- An unmapped user page is mapped on request. -/
theorem run_mapFrame {p : Pager n} {id : SpaceId} {upage : Nat} {i : Fin n} {f : Option (Fin n)}
    (hp : p.FramesAgree f) (huser : IsUserAddress upage) (hnone : p.address? id upage = none)
    (writable : Bool) :
    ∃ directory, PageDirectory.Installed (p.space id).directory directory upage (p.frameAddress i)
        writable
      ∧ (mapFrame id upage i writable).run p
        = .done true (p.putSpace id { p.space id with directory := directory }) := by
  obtain ⟨directory, hmap, hinstalled⟩ := PageDirectory.map_of_unmapped (hp.reserved id) huser hnone
    (pageAligned_frameAddress p i) (hp.frameAddress_lt i) writable
  refine ⟨directory, hinstalled, ?_⟩
  unfold mapFrame
  simp only [run_bind, run_read]
  rw [show p.frames.pool.frameAddress i = p.frameAddress i from rfl, hmap]
  simp only [ofFatal, run_pure, run_bind, run_update]
  rw [updateDirectory, updateSpace_eq]

/-- A slot is freed, if one is named and it holds a page. -/
theorem run_freeSlot? {p : Pager n} {slot? : Option Nat}
    (hclaimed : ∀ slot, slot? = some slot → p.swap.Claimed slot) :
    (freeSlot? slot?).run p = .done () { p with swap := p.swap.freed? slot? } := by
  cases slot? with
  | none => rfl
  | some slot =>
    unfold freeSlot? freeSlot
    simp only [run_bind, run_read, SwapArea.discard_of_claimed (hclaimed slot rfl)]
    rfl

theorem run_settle {p : Pager n} {id : SpaceId} {upage : Nat} {i : Fin n} {f : Option (Fin n)}
    {d : Descriptor} (hp : p.FramesAgree f) (hid : id < p.spaces.size) (huser : IsUserAddress upage)
    (hnone : p.address? id upage = none) (hd : p.descriptor? id upage = some d)
    (hclaimed : ∀ slot, d.backing.abandonedSlot? = some slot → p.swap.Claimed slot) :
    ∃ directory, PageDirectory.Installed (p.space id).directory directory upage (p.frameAddress i)
        (d.writable || d.backing.isMapped)
      ∧ (settle id upage d i).run p = .done ()
        { p with
          swap := p.swap.freed? d.backing.abandonedSlot?
          spaces := p.spaces.put id
            { p.space id with
              directory := if d.backing.loadsDirty then directory.setFlag .dirty upage true
                else directory
              descriptors := match d.backing.loaded? with
                | some b => (p.space id).descriptors.insert upage
                    { d with backing := b, loaded := true }
                | none => (p.space id).descriptors.erase upage } } := by
  obtain ⟨r, hr⟩ : ∃ r, r = ({ p with swap := p.swap.freed? d.backing.abandonedSlot? } : Pager n) :=
    ⟨_, rfl⟩
  have hrframes : r.FramesAgree f := by
    subst hr
    exact hp.congr rfl (fun _ => rfl) (fun _ => rfl) rfl (fun _ => rfl) fun _ _ => rfl
  have hrnone : r.address? id upage = none := by
    subst hr
    exact hnone
  have hrd : (r.space id).descriptors.find? upage = some d := by
    subst hr
    exact hd
  have hrid : id < r.spaces.size := by
    subst hr
    exact hid
  obtain ⟨directory, hinstalled, hrun⟩ :=
    run_mapFrame (i := i) hrframes huser hrnone (d.writable || d.backing.isMapped)
  -- each way to settle changes one space twice, which comes to one change of it
  have hgoal : (settle id upage d i).run p = .done () (r.putSpace id { r.space id with
      directory := if d.backing.loadsDirty then directory.setFlag .dirty upage true else directory
      descriptors := match d.backing.loaded? with
        | some b => (r.space id).descriptors.insert upage { d with backing := b, loaded := true }
        | none => (r.space id).descriptors.erase upage }) := by
    unfold settle
    rw [run_bind, run_freeSlot? hclaimed, ← hr]
    simp only [run_bind, hrun, if_true]
    cases d.backing.loadsDirty <;> cases d.backing.loaded? <;>
      simp only [run_bind, run_update, updateDirectory, updateDescriptors, updateSpace_eq,
        space_putSpace hrid, putSpace_putSpace, KeyedTable.modify_eq_insert hrd, if_true,
        Bool.false_eq_true, if_false]
  subst hr
  exact ⟨directory, hinstalled, hgoal⟩

/-- A frame can be given back to the frame table of a state in which the tables agree. -/
theorem run_returnFrame {p q : Pager n} {id : SpaceId} {i : Fin n} {a : Assignment}
    {f : Option (Fin n)} (hp : p.FramesAgree f) (hi : p.assignment? i = some a)
    (howner : a.owner = id) (hq : q.frames = p.frames) :
    (returnFrame id i).run q = .done () { q with frames := p.frames.without i } := by
  have huse : p.frames.pool.inUse.get i = true := by
    rw [hp.inUse, hi]
    rfl
  unfold returnFrame
  simp only [run_bind, run_read, hq,
    FrameTable.giveBack_eq_ok hi howner (hp.evicting i a hi) huse]
  rfl

theorem Pager.DescriptorsAgree.address?_of_not_loaded {p : Pager n} (hp : p.DescriptorsAgree)
    {id : SpaceId} {upage : Nat} {d : Descriptor} (hd : p.descriptor? id upage = some d)
    (hloaded : d.loaded = false) : p.address? id upage = none := by
  have hiff := hp.loaded_iff id upage d hd
  rw [hloaded] at hiff
  simpa using hiff

namespace Pager

/-- The page `upage` was brought into the frame `i`, which has `pins` pins. It holds what its file
or its slot held. -/
structure Landed (p : Pager n) (id : SpaceId) (upage : Nat) (d : Descriptor) (i : Fin n)
    (pins : Nat) (q : Pager n) : Prop where
  assigned : q.assignment? i = some ⟨id, upage, pins, false⟩
  descriptor? : q.descriptor? id upage
    = d.backing.loaded?.map fun b => { d with backing := b, loaded := true }
  writable : q.has .writable id upage = (d.writable || d.backing.isMapped)
  framed? : ∃ page, q.framed? id upage = some page
    ∧ (∀ w, d.backing.loadSource = .file w → page = w.view (q.file w.source.file))
    ∧ ∀ slot, d.backing.loadSource = .swap slot → page = p.swap.pageIn slot

theorem Landed.unpinned {p q : Pager n} {id : SpaceId} {upage : Nat} {d : Descriptor} {i : Fin n}
    {pins : Nat} (h : p.Landed id upage d i pins q) :
    p.Landed id upage d i 0 (q.assign i (some ⟨id, upage, 0, false⟩)) where
  assigned := (FrameTable.assignments_assign _ _ _ _).trans (if_pos rfl)
  descriptor? := h.descriptor?
  writable := h.writable
  framed? := h.framed?

/-- The page `upage` got the frame `i` and could not be loaded into it. The frame went back, and
nothing was done to this page or, from when the frame was obtained, to any other. -/
structure GaveUp (p : Pager n) (id : SpaceId) (upage : Nat) (i : Fin n) (q : Pager n) : Prop where
  obtained : ∃ t, (obtainFrame id upage false).run p = .done i t ∧ q.files = t.files
    ∧ ∀ o v, SamePage t q o v
  freed : q.assignment? i = none
  kept : SamePage p q id upage

end Pager

/-- The page that the frame in flight was filled with and mapped for has landed. -/
theorem Pager.Landed.of_settled {p q r : Pager n} {id : SpaceId} {upage : Nat} {d : Descriptor}
    {i : Fin n} {page : Page} {directory : PageDirectory} (hp : p.Agrees none)
    (hd : p.descriptor? id upage = some d) (hr : r.Agrees (some i))
    (hi : r.assignment? i = some (.fresh id upage))
    (hmap : PageDirectory.Installed (r.space id).directory directory upage (r.frameAddress i)
      (d.writable || d.backing.isMapped))
    (hpage : r.parked? d.backing = some page)
    (hsame : SamePage p r id upage)
    (hframes : q.frames = r.frames.write i page) (hfiles : q.files = r.files)
    (hspaces : q.spaces = r.spaces.put id
      { r.space id with
        directory := if d.backing.loadsDirty then directory.setFlag .dirty upage true
          else directory
        descriptors := match d.backing.loaded? with
          | some b => (r.space id).descriptors.insert upage { d with backing := b, loaded := true }
          | none => (r.space id).descriptors.erase upage }) :
    p.Landed id upage d i 1 q := by
  have haligned := (hr.frames.upage i _ hi).1
  obtain ⟨_, hmapped, hafter, _, hwritable⟩ := Quiet.views_settled (o := id) (v := upage)
    (hr.frames.owner i _ hi) haligned hmap hspaces
  refine ⟨by rw [assignment?, hframes]; exact hi, hafter, hwritable, page,
    Quiet.framed?_of_written hmapped hframes, ?_, ?_⟩
  · intro w hw
    unfold parked? at hpage
    rw [hw] at hpage
    rw [file, hfiles]
    exact (Option.some.inj hpage).symm
  · intro slot hslot
    unfold parked? at hpage
    rw [hslot] at hpage
    rw [← Option.some.inj hpage]
    refine hsame.pageIn slot (slot?_eq_some_iff.mpr ⟨d, hd, ?_⟩)
    rcases d.backing.loadSource_eq with h | ⟨w, hsource, _⟩ | ⟨s, hsource, _, hs, _⟩
    · exact absurd h (hp.descriptors.backed id upage d hd)
    · cases hslot.symm.trans hsource
    · cases hslot.symm.trans hsource
      exact hs

/-- The frame that was obtained for a page goes back after an attempt to fill it. -/
theorem Pager.GaveUp.of_returned {p r : Pager n} {id : SpaceId} {upage : Nat} {i : Fin n}
    (hobtained : (obtainFrame id upage false).run p = .done i r) (hr : r.Agrees (some i))
    (hsame : SamePage p r id upage) (page : Page) (reads : UInt32) :
    p.GaveUp id upage i { r with
      frames := (r.frames.write i page).without i
      swap := r.swap.withReads reads } := by
  have hscribbled : ∀ o v, SamePage r
      { r with frames := r.frames.write i page, swap := r.swap.withReads reads } o v :=
    fun _ _ => Quiet.samePage_scribbled hr
  have hleft : ∀ o v, SamePage r { r with
      frames := (r.frames.write i page).without i
      swap := r.swap.withReads reads } o v := fun o v =>
    (hscribbled o v).trans (.of_spaces rfl rfl (fun _ _ => rfl) fun _ _ => rfl)
  refine ⟨⟨r, hobtained, rfl, hleft⟩, ?_, hsame.trans (hleft id upage)⟩
  exact (FrameTable.assignments_without _ _ _).trans (if_pos rfl)

/-- A page that is not loaded is loaded into a new frame, or it stays where it is. -/
theorem bringInAbsent_lands {p : Pager n} {id : SpaceId} {upage : Nat} {d : Descriptor}
    (hp : p.Agrees none) (hd : p.descriptor? id upage = some d) (hloaded : d.loaded = false) :
    ((bringInAbsent id upage d).run p).Meets
      (fun i q => Leads id upage p [] q ∧ p.Landed id upage d i 1 q)
      (fun e q => Leads id upage p [] q ∧ LoadFails q.files q.swap d.backing e
        ∧ ∃ i, p.GaveUp id upage i q)
      (OutOfFrames p id upage) := by
  have hid := lt_size_of_descriptor hd
  obtain ⟨haligned, huser⟩ := hp.descriptors.upage id upage d hd
  have hnone := hp.descriptors.address?_of_not_loaded hd hloaded
  have hbacked := hp.descriptors.backed id upage d hd
  unfold bringInAbsent
  refine ((obtainFrame_spec hp hid haligned huser hnone fun _ => False).and
    (.self _ p)).bind ?_ (fun _ _ h => h.1.elim) fun _ h => h.1
  intro i r h
  obtain ⟨⟨hchain, hi, -, hrd⟩, hobtained⟩ := h
  have hr : r.Agrees (some i) := hchain.agrees hp
  rw [hd] at hrd
  have hrid : id < r.spaces.size := hr.frames.owner i _ hi
  have hrnone : r.address? id upage = none := by
    obtain ⟨a, ha, _, hnone⟩ := hr.frames.flying i rfl
    rw [hi] at ha
    cases ha
    exact hnone
  have hclaimed : ∀ slot, d.backing.slot? = some slot → r.swap.Claimed slot := fun slot hs =>
    (hr.slots.claimed_iff slot).mpr ⟨id, upage, slot?_eq_some_iff.mpr ⟨d, hrd, hs⟩⟩
  have hsame : SamePage p r id upage :=
    hchain.samePage_of_absent hp haligned (framed?_of_unmapped hnone)
  have hchain : ∀ S, Chain S p none [] r (some i) := fun S => hchain.mono fun _ h => h.elim
  refine (fillFrame_spec hbacked hr.slots.fitted hclaimed).attempt.bind ?_ (fun _ _ h => h.elim)
    fun _ h => h.elim
  intro answer q h
  rcases answer with e | u
  · obtain ⟨hfails, page, reads, rfl⟩ := h
    have hscribbled : ∀ S, Quiet S r (some i)
      { r with frames := r.frames.write i page, swap := r.swap.withReads reads } (some i) :=
      fun S => .scribbled
    have hq := (hscribbled fun _ => True).agrees hr
    show (((returnFrame id i) >>= fun _ => fail e).run _).Meets _ _ _
    rw [run_bind, run_returnFrame hq.frames (a := .fresh id upage) hi (show _ = id from rfl) rfl]
    have hback : ∀ S, Chain S p none [] _ none := fun S =>
      ((hchain S).quiet (hscribbled S)).quiet .returned
    exact ⟨.of_chain hback hp fun _ _ => List.not_mem_nil, hfails, i,
      .of_returned hobtained hr hsame page reads⟩
  · obtain ⟨hread, page, reads, hpage, rfl⟩ := h
    -- the slot that the page was read from is free, one that it abandons is not yet
    have habandoned : ∀ slot, d.backing.abandonedSlot? = some slot →
        ((r.swap.withReads reads).freed? d.backing.readSlot?).Claimed slot := by
      intro slot hslot
      obtain ⟨hs, hread⟩ := Backing.slot?_of_abandonedSlot? hslot
      rw [hread]
      exact hclaimed slot hs
    obtain ⟨directory, hmap, hrun⟩ := run_settle (i := i)
      (p := { r with
        frames := r.frames.write i page
        swap := (r.swap.withReads reads).freed? d.backing.readSlot? })
      (hr.frames.congr rfl (fun _ => rfl) (fun _ => rfl) rfl (fun _ => rfl) fun _ _ => rfl)
      hrid huser hrnone hrd habandoned
    show ((settle id upage d i >>= fun _ => pure i).run _).Meets _ _ _
    rw [run_bind, hrun, Backing.freed?_abandoned]
    refine ⟨⟨fun S hS => (hchain S).quiet (.settled hi hrd hloaded hpage hS hmap hread), ?_⟩,
      .of_settled hp hd hr hi hmap hpage hsame rfl rfl rfl⟩
    exact ((hchain _).steady hp (fun _ _ => List.not_mem_nil) id upage).brought
      (fun o v hv hours => Quiet.samePage_settled hr hi hmap rfl rfl rfl hv hours)
      (framed?_of_unmapped hnone)

/-! ## Pins -/

theorem resident?_of_assigned {p : Pager n} (hp : p.FramesAgree none) {i : Fin n} {a : Assignment}
    (hi : p.assignment? i = some a) : p.resident? a.owner a.upage = some (i, a) := by
  have hmapped : (p.space a.owner).directory.frameAddress? a.upage = some (p.frameAddress i) :=
    hp.mapped i a hi (by simp)
  have hassign : p.frames.assignments.get i = some a := hi
  unfold Pager.resident? FrameTable.resident?
  rw [hmapped, Option.bind_some, show p.frameAddress i = p.frames.pool.frameAddress i from rfl,
    FramePool.frameHolding?_frameAddress]
  simp [hassign, Assignment.backs, hp.evicting i a hi]

/-- Only a mapped page is resident, and in the frame that is assigned to it. -/
theorem of_resident? {p : Pager n} {id : SpaceId} {upage : Nat} {i : Fin n} {a : Assignment}
    (h : p.resident? id upage = some (i, a)) :
    p.assignment? i = some a ∧ a.owner = id ∧ a.upage = upage := by
  unfold Pager.resident? FrameTable.resident? at h
  split at h
  next => cases h
  next j _ =>
    split at h
    next => cases h
    next b hb =>
      split at h
      next hbacks =>
        cases h
        simp [Assignment.backs] at hbacks
        exact ⟨hb, hbacks.1.1, hbacks.1.2⟩
      next => cases h

/-- A page that is not resident is not mapped. -/
theorem address?_of_not_resident {p : Pager n} (hp : p.FramesAgree none) {id : SpaceId}
    {upage : Nat} (haligned : PageAligned upage) (h : p.resident? id upage = none) :
    p.address? id upage = none := by
  cases hx : p.address? id upage with
  | none => rfl
  | some x =>
    obtain ⟨i, a, hi, _, rfl, hu⟩ := hp.assigned id upage x hx
    rw [haligned.pageBase_eq] at hu
    subst hu
    rw [resident?_of_assigned hp hi] at h
    cases h

theorem pin_spec (p : Pager n) (id : SpaceId) (upage : Nat) :
    ((pin id upage).run p).Meets
      (fun i q => ∃ a, p.assignment? i = some a ∧ a.owner = id ∧ a.upage = upage
        ∧ q = p.assign i (some { a with pins := a.pins + 1 }))
      (fun e q => e = .notResident ∧ q = p ∧ p.resident? id upage = none)
      (fun _ => False) := by
  unfold pin
  simp only [run_bind, run_read]
  split
  next hnone => exact ⟨rfl, rfl, hnone⟩
  next i a hsome =>
    obtain ⟨hi, howner, hupage⟩ := of_resident? hsome
    exact ⟨a, hi, howner, hupage, rfl⟩

theorem unpin_spec (p : Pager n) (id : SpaceId) (upage : Nat) :
    ((unpin id upage).run p).Meets
      (fun _ q => ∃ i a, p.assignment? i = some a ∧ a.owner = id ∧ a.upage = upage
        ∧ q = p.assign i (some { a with pins := a.pins - 1 }))
      (fun _ q => q = p ∧ ∀ i a, p.resident? id upage = some (i, a) → a.pins = 0)
      (fun _ => False) := by
  unfold unpin
  simp only [run_bind, run_read]
  split
  next hnone =>
    refine ⟨rfl, ?_⟩
    intro i a h
    rw [hnone] at h
    cases h
  next i a hsome =>
    obtain ⟨hi, howner, hupage⟩ := of_resident? hsome
    split
    next hpins =>
      refine ⟨rfl, ?_⟩
      intro j b h
      rw [hsome] at h
      cases h
      exact hpins
    next => exact ⟨i, a, hi, howner, hupage, rfl⟩

/-- A pin that was set can be taken back. -/
theorem run_unpin {p : Pager n} (hp : p.FramesAgree none) {id : SpaceId} {upage : Nat} {i : Fin n}
    {a : Assignment} (hi : p.assignment? i = some a) (howner : a.owner = id)
    (hupage : a.upage = upage) (hpins : a.pins ≠ 0) :
    (unpin id upage).run p = .done () (p.assign i (some { a with pins := a.pins - 1 })) := by
  subst howner hupage
  unfold unpin
  simp only [run_bind, run_read, resident?_of_assigned hp hi]
  rw [if_neg hpins]
  rfl

end DemandPaging

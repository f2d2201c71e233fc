import DemandPaging.Proofs.Moves
import DemandPaging.Proofs.TableChanges
/-!
# Quiet moves keep the tables in agreement

The quiet moves are gone through one by one. For each that changes a page there is a lemma
on what is looked up afterwards (`views_evicted`, `views_landed`), and then one on the
agreement. `Quiet.agrees` has them all.
-/

namespace DemandPaging

variable {n : Nat}

namespace Pager

variable {p q : Pager n} {f : Option (Fin n)} {id : SpaceId} {upage : Nat} {i : Fin n}

/-- Flags of pages are in no table. -/
theorem SameTables.of_reflagged {flags : List PageFlag}
    (h : Spaces.Reflagged flags p.spaces q.spaces) (hbase : q.frames.pool.base = p.frames.pool.base)
    (huse : q.frames.pool.inUse = p.frames.pool.inUse)
    (hassign : q.frames.assignments = p.frames.assignments) (hswap : q.swap = p.swap) :
    SameTables p q where
  base := hbase
  inUse i := by rw [huse]
  assignment? i := by rw [Pager.assignment?, hassign, Pager.assignment?]
  size := h.size
  reserved := h.reserved
  address? := h.frameAddress?
  descriptor? id u := congrArg (·.find? u) (h.descriptors id)
  mappings := h.mappings
  slots := by rw [hswap]
  sectors := by rw [hswap]

/-- Nothing but the swap device and what frames and files hold is different. -/
theorem SameTables.of_spaces (hbase : q.frames.pool.base = p.frames.pool.base)
    (huse : q.frames.pool.inUse = p.frames.pool.inUse)
    (hassign : q.frames.assignments = p.frames.assignments)
    (hspaces : q.spaces = p.spaces) (hslots : q.swap.slots = p.swap.slots)
    (hsectors : q.swap.device.sectors = p.swap.device.sectors) : SameTables p q where
  base := hbase
  inUse i := by rw [huse]
  assignment? i := by rw [Pager.assignment?, hassign, Pager.assignment?]
  size := by rw [hspaces]
  reserved id := by simp only [space, hspaces]
  address? id u := by simp only [Pager.address?, space, hspaces]
  descriptor? id u := by simp only [Pager.descriptor?, space, hspaces]
  mappings id := by simp only [space, hspaces]
  slots := hslots
  sectors := hsectors

/-! ## The page that loses its frame -/

/-- A page that is mapped names no slot. -/
theorem Agrees.slot?_of_address (h : p.Agrees f) (hx : (p.address? id upage).isSome = true) :
    p.slot? id upage = none := by
  unfold slot?
  cases hd : p.descriptor? id upage with
  | none => rfl
  | some d =>
    exact h.descriptors.slot_of_loaded id upage d hd
      ((h.descriptors.loaded_iff id upage d hd).mpr hx)

/-- What is known of the descriptor that the page of a victim has or gets. -/
theorem Agrees.victim (h : p.Agrees f) {a : Assignment} (writable : Bool) {d : Descriptor}
    (hx : (p.address? a.owner a.upage).isSome = true)
    (hd : d = ((p.space a.owner).descriptors.getOrAdd a.upage .anonymous writable).1) :
    d.upage = a.upage ∧ d.backing.slot? = none
      ∧ ∀ e, p.descriptor? a.owner a.upage = some e → d = e := by
  unfold DescriptorTable.getOrAdd at hd
  split at hd
  next e he =>
    have he : p.descriptor? a.owner a.upage = some e := he
    subst hd
    refine ⟨h.descriptors.key _ _ _ he, ?_, fun c hc => Option.some.inj (he.symm.trans hc)⟩
    exact h.descriptors.slot_of_loaded _ _ _ he ((h.descriptors.loaded_iff _ _ _ he).mpr hx)
  next hnone =>
    subst hd
    exact ⟨rfl, rfl, fun e he => absurd (hnone.symm.trans he) (by simp)⟩

end Pager

open Pager

/-- Keeping a page leaves it what it is. -/
theorem Keeps.backing {swap swap' : SwapArea} {files files' : Array OpenFile} {page : Page}
    {b b' : Backing} {dirty : Bool} (h : Keeps swap files page b dirty b' swap' files') :
    b'.window? = b.window? ∧ b'.isMapped = b.isMapped ∧ b' ≠ .anonymous := by
  cases h with
  | written => exact ⟨rfl, rfl, by simp⟩
  | dropped => exact ⟨rfl, rfl, by simp⟩
  | @stored b dirty slot _ hb _ =>
    refine ⟨(Backing.window?_movedTo b slot).1, (Backing.window?_movedTo b slot).2, ?_⟩
    cases b <;> simp [Backing.movedTo]

/-- Keeping a page takes a slot or leaves the swap area alone. -/
theorem Keeps.slot {swap swap' : SwapArea} {files files' : Array OpenFile} {page : Page}
    {b b' : Backing} {dirty : Bool} (h : Keeps swap files page b dirty b' swap' files') :
    (swap' = swap ∧ b'.slot? = none)
      ∨ ∃ slot, swap.store page = .ok (.ok slot, swap') ∧ b'.slot? = some slot := by
  cases h with
  | written => exact Or.inl ⟨rfl, rfl⟩
  | dropped => exact Or.inl ⟨rfl, rfl⟩
  | @stored b dirty slot _ _ h => exact Or.inr ⟨slot, h, (Backing.slot?_movedTo b slot).1⟩

namespace Quiet

variable {S : Array OpenFile → Prop} {p : Pager n} {id : SpaceId} {upage : Nat} {i : Fin n}

theorem agrees_took {frames : FrameTable n} (hp : p.Agrees none) (hid : id < p.spaces.size)
    (haligned : PageAligned upage) (huser : IsUserAddress upage)
    (hnone : p.address? id upage = none) (h : p.frames.takeFree id upage = some (i, frames)) :
    ({ p with frames := frames } : Pager n).Agrees (some i) := by
  obtain ⟨hfree, huse, hassign, hbase, _⟩ := FrameTable.takeFree_eq_some h
  have hi := hp.frames.assignment?_of_free hfree
  refine ⟨?_, hp.descriptors.congr (fun _ _ => rfl) fun _ _ => rfl,
    hp.slots.congr rfl rfl fun _ _ => rfl, hp.mappings.congr (fun _ => rfl) fun _ _ => rfl⟩
  refine hp.frames.of_assigned hbase rfl (fun _ => rfl) huse hassign ?_ hid
    ⟨haligned, huser⟩ rfl rfl hnone
  intro id u
  rw [if_neg]
  · rfl
  · intro h
    obtain ⟨b, hb, _⟩ := h
    rw [hi] at hb
    cases hb

/-- The page of a victim has no frame afterwards, and a descriptor that says where it is. -/
theorem views_evicted {q : Pager n} {o : SpaceId} {v : Nat} {d : Descriptor}
    (ho : o < p.spaces.size) (hv : PageAligned v)
    (hspaces : q.spaces = p.spaces.put o
      { p.space o with
        directory := (p.space o).directory.unmap v
        descriptors := (p.space o).descriptors.insert v d }) :
    OnlyPage p q o v ∧ q.address? o v = none ∧ q.descriptor? o v = some d := by
  refine ⟨.of_put hspaces ho rfl rfl ?_ ?_ ?_, ?_, ?_⟩
  · intro u hu
    rw [PageDirectory.frameAddress?_unmap, hv.pageBase_eq, if_neg hu]
  · intro flag u hu
    rw [PageDirectory.has_unmap, hv.pageBase_eq, if_neg hu]
  · intro u hu
    rw [KeyedTable.find?_insert, if_neg hu]
  · rw [address?_of_put hspaces ho, if_pos rfl, PageDirectory.frameAddress?_unmap, if_pos rfl]
  · rw [descriptor?_of_put hspaces ho, if_pos rfl, KeyedTable.find?_insert_self]

theorem agrees_evicted {q : Pager n} {victim : Assignment} {d : Descriptor} {b : Backing}
    {files : Array OpenFile} {dirty writable : Bool} (hp : p.Agrees none)
    (hid : id < p.spaces.size) (haligned : PageAligned upage) (huser : IsUserAddress upage)
    (hnone : p.address? id upage = none) (hvictim : p.assignment? i = some victim)
    (hd : d = ((p.space victim.owner).descriptors.getOrAdd victim.upage .anonymous writable).1)
    (hkeeps : Keeps p.swap p.files (p.page i) d.backing dirty b q.swap files)
    (hframes : q.frames = (p.frames.write i .zero).assign i (some (.fresh id upage)))
    (hspaces : q.spaces = p.spaces.put victim.owner
      { p.space victim.owner with
        directory := (p.space victim.owner).directory.unmap victim.upage
        descriptors := (p.space victim.owner).descriptors.insert victim.upage
          { d with backing := b, loaded := false } }) : q.Agrees (some i) := by
  obtain ⟨hvaligned, hvuser⟩ := hp.frames.upage i victim hvictim
  have hmapped : (p.address? victim.owner victim.upage).isSome = true := by
    rw [hp.frames.mapped i victim hvictim (by simp)]
    rfl
  obtain ⟨hkey, hslot, hsame⟩ := hp.victim _ hmapped hd
  obtain ⟨hwindow, hisMapped, hbacked⟩ := hkeeps.backing
  obtain ⟨honly, haddr, hafter⟩ :=
    views_evicted (hp.frames.owner i victim hvictim) hvaligned hspaces
  refine ⟨?_, ?_, ?_, ?_⟩
  · refine hp.frames.of_assigned (a := .fresh id upage) (by rw [hframes]; rfl) honly.size
      honly.reserved ?_ ?_ ?_ hid ⟨haligned, huser⟩ rfl rfl hnone
    · intro j
      rw [hframes]
      show p.frames.pool.inUse.get j = _
      split
      next hj =>
        rw [hj, hp.frames.inUse, hvictim]
        rfl
      next => rfl
    · intro j
      rw [assignment?, hframes, FrameTable.assignments_assign]
      rfl
    · intro o u
      simp only [hvictim, Option.some.injEq, exists_eq_left']
      split
      next h => rw [h.1, ← address?_pageBase, h.2, haddr]
      next h => exact honly.address? o u h
  · refine hp.descriptors.of_page honly ?_
    intro e he
    rw [hafter] at he
    cases he
    refine ⟨hkey, ⟨hvaligned, hvuser⟩, ?_, by simp, hbacked⟩
    rw [haddr]
    simp
  -- the page named no slot while it was mapped, so none is given up
  · have hbefore := hp.slot?_of_address hmapped
    rcases hkeeps.slot with ⟨hswap, hb⟩ | ⟨slot, hstore, hb⟩
    · refine hp.slots.congr (by rw [hswap]) (by rw [hswap]) ?_
      intro o u
      by_cases hpage : o = victim.owner ∧ u = victim.upage
      · rw [hpage.1, hpage.2, hbefore, slot?, hafter]
        exact hb
      · exact honly.slot? o u hpage
    · obtain ⟨hlt, hfree, hput, hsectors, _⟩ := SwapArea.store_eq_ok hp.slots.fitted hstore
      refine hp.slots.of_claimed hlt hfree hput hsectors honly hbefore ?_
      rw [slot?, hafter]
      exact hb
  · refine hp.mappings.of_page honly ?_
    intro m fm e w _ _ he hemapped hw
    have hde := hsame e he
    subst hde
    exact ⟨_, hafter, hisMapped.trans hemapped, hwindow.trans hw⟩

theorem agrees_returned (hp : p.Agrees (some i)) :
    ({ p with frames := p.frames.without i } : Pager n).Agrees none := by
  obtain ⟨a, ha, _, hnone⟩ := hp.frames.flying i rfl
  refine ⟨?_, hp.descriptors.congr (fun _ _ => rfl) fun _ _ => rfl,
    hp.slots.congr rfl rfl fun _ _ => rfl, hp.mappings.congr (fun _ => rfl) fun _ _ => rfl⟩
  refine hp.frames.of_freed (· = i) (fun j hj => (Option.some.inj hj).symm) rfl rfl
    (fun _ => rfl) ?_ ?_ ?_
  · intro j
    show (p.frames.without i).pool.inUse.get j = true ↔ _
    rw [FrameTable.inUse_without]
    split
    next hj => simp [hj]
    next hj => simp [hj]
  · intro j b
    show (p.frames.without i).assignments.get j = some b ↔ _
    rw [FrameTable.assignments_without]
    split
    next hj => simp [hj]
    next hj => simp [hj, assignment?]
  · intro o u x
    refine ⟨fun hx => ⟨hx, ?_⟩, fun h => h.1⟩
    -- the page of the frame in flight is mapped nowhere
    intro j b heq hb h
    subst heq
    obtain ⟨rfl, hu⟩ := h
    rw [ha] at hb
    cases hb
    rw [hu, address?_pageBase] at hnone
    exact absurd (hx.symm.trans hnone) (by simp)

/-- The page that lands is mapped to its frame, and its descriptor is as after loading. -/
theorem views_landed {q : Pager n} {o : SpaceId} {v frame : Nat} {writable : Bool}
    {directory : PageDirectory} {descriptors : DescriptorTable} (dirty : Bool)
    (ho : o < p.spaces.size) (hv : PageAligned v)
    (hmap : PageDirectory.Installed (p.space o).directory directory v frame writable)
    (hdesc : ∀ u, u ≠ v → descriptors.find? u = (p.space o).descriptors.find? u)
    (hspaces : q.spaces = p.spaces.put o
      { p.space o with
        directory := if dirty then directory.setFlag .dirty v true else directory
        descriptors := descriptors }) :
    OnlyPage p q o v ∧ q.address? o v = some frame ∧ q.descriptor? o v = descriptors.find? v
      ∧ q.has .dirty o v = dirty ∧ q.has .writable o v = writable := by
  have haddr : ∀ u, (if dirty then directory.setFlag .dirty v true else directory).frameAddress? u
      = directory.frameAddress? u := by
    intro u
    split
    · exact PageDirectory.frameAddress?_setFlag ..
    · rfl
  have hmapped : directory.isMapped v = true := by
    rw [PageDirectory.isMapped_eq, hmap.frameAddress?, if_pos rfl]
    rfl
  refine ⟨.of_put hspaces ho ?_ rfl ?_ ?_ hdesc, ?_, ?_, ?_, ?_⟩
  · show (if dirty then _ else _ : PageDirectory).reserved = _
    split
    · exact hmap.reserved
    · exact hmap.reserved
  · intro u hu
    rw [haddr, hmap.frameAddress?, hv.pageBase_eq, if_neg hu]
  · intro flag u hu
    have hother := hmap.has_other flag u (by rwa [hv.pageBase_eq])
    split
    · rw [PageDirectory.has_setFlag, hv.pageBase_eq, if_neg fun hc => hu hc.1]
      exact hother
    · exact hother
  · rw [address?_of_put hspaces ho, if_pos rfl, haddr, hmap.frameAddress?, if_pos rfl]
  · rw [descriptor?_of_put hspaces ho, if_pos rfl]
  · rw [has_of_put hspaces ho, if_pos rfl]
    cases dirty with
    | false => exact hmap.dirty_self
    | true =>
      show (directory.setFlag .dirty v true).has .dirty v = true
      rw [PageDirectory.has_setFlag, if_pos ⟨rfl, rfl⟩, hmapped]
      rfl
  · rw [has_of_put hspaces ho, if_pos rfl]
    cases dirty with
    | false => exact hmap.writable_self
    | true =>
      show (directory.setFlag .dirty v true).has .writable v = writable
      rw [PageDirectory.has_setFlag, if_neg (by simp)]
      exact hmap.writable_self

/-- The page that was filled is mapped to its frame, and its descriptor is as after loading. -/
theorem views_settled {q : Pager n} {o : SpaceId} {v frame : Nat} {d : Descriptor} {writable : Bool}
    {directory : PageDirectory} (ho : o < p.spaces.size) (hv : PageAligned v)
    (hmap : PageDirectory.Installed (p.space o).directory directory v frame writable)
    (hspaces : q.spaces = p.spaces.put o
      { p.space o with
        directory := if d.backing.loadsDirty then directory.setFlag .dirty v true else directory
        descriptors := match d.backing.loaded? with
          | some b => (p.space o).descriptors.insert v { d with backing := b, loaded := true }
          | none => (p.space o).descriptors.erase v }) :
    OnlyPage p q o v ∧ q.address? o v = some frame
      ∧ q.descriptor? o v = d.backing.loaded?.map (fun b => { d with backing := b, loaded := true })
      ∧ q.has .dirty o v = d.backing.loadsDirty ∧ q.has .writable o v = writable := by
  obtain ⟨honly, haddr, hafter, hflags⟩ := views_landed _ ho hv hmap (fun u hu => by
    split
    · rw [KeyedTable.find?_insert, if_neg hu]
    · rw [KeyedTable.find?_erase, if_neg hu]) hspaces
  refine ⟨honly, haddr, hafter.trans ?_, hflags⟩
  cases d.backing.loaded? with
  | none => exact (KeyedTable.find?_erase ..).trans (if_pos rfl)
  | some b => exact KeyedTable.find?_insert_self ..

/-- A page lands with its frame: it is mapped, and its slot is freed. -/
theorem agrees_landed {q : Pager n} {a : Assignment} {slot? : Option Nat} (reads : UInt32)
    (hp : p.Agrees (some i)) (hi : p.assignment? i = some a)
    (honly : OnlyPage p q a.owner a.upage)
    (haddr : q.address? a.owner a.upage = some (p.frameAddress i))
    (hbase : q.frames.pool.base = p.frames.pool.base)
    (huse : q.frames.pool.inUse = p.frames.pool.inUse)
    (hassign : q.frames.assignments = p.frames.assignments)
    (hswap : q.swap = (p.swap.withReads reads).freed? slot?)
    (hslot : p.slot? a.owner a.upage = slot?)
    (hdesc : ∀ e, q.descriptor? a.owner a.upage = some e →
      e.upage = a.upage ∧ e.loaded = true ∧ e.backing.slot? = none ∧ e.backing ≠ .anonymous)
    (hkept : ∀ d w, p.descriptor? a.owner a.upage = some d → d.backing.isMapped = true →
      d.backing.window? = some w → ∃ e, q.descriptor? a.owner a.upage = some e
        ∧ e.backing.isMapped = true ∧ e.backing.window? = some w) : q.Agrees none := by
  have hpage := hp.frames.upage i a hi
  refine ⟨?_, ?_, ?_, hp.mappings.of_page honly fun m fm d w _ _ => hkept d w⟩
  · refine hp.frames.of_mapped hi hbase honly.size honly.reserved (fun j => by rw [huse])
      (fun j => by rw [assignment?, hassign, assignment?]) ?_
    intro o u
    split
    next h => rw [h.1, ← address?_pageBase, h.2, haddr]
    next h => exact honly.address? o u h
  · refine hp.descriptors.of_page honly ?_
    intro e he
    obtain ⟨hkey, hloaded, hnoslot, hbacked⟩ := hdesc e he
    -- the descriptor says that the page is loaded, and the directory now says so too
    refine ⟨hkey, hpage, ?_, fun _ => hnoslot, hbacked⟩
    rw [hloaded, haddr]
    simp
  · refine hp.slots.of_freed? _ _ hswap honly hslot ?_
    unfold Pager.slot?
    cases he : q.descriptor? a.owner a.upage with
    | none => rfl
    | some e => exact (hdesc e he).2.2.1

theorem agrees_settled {q : Pager n} {d : Descriptor} {page : Page} {reads : UInt32}
    {directory : PageDirectory} {writable : Bool} (hp : p.Agrees (some i))
    (hi : p.assignment? i = some (.fresh id upage)) (hd : p.descriptor? id upage = some d)
    (hmap : PageDirectory.Installed (p.space id).directory directory upage (p.frameAddress i)
      writable)
    (hframes : q.frames = p.frames.write i page)
    (hswap : q.swap = (p.swap.withReads reads).freed? d.backing.slot?)
    (hspaces : q.spaces = p.spaces.put id
      { p.space id with
        directory := if d.backing.loadsDirty then directory.setFlag .dirty upage true
          else directory
        descriptors := match d.backing.loaded? with
          | some b => (p.space id).descriptors.insert upage { d with backing := b, loaded := true }
          | none => (p.space id).descriptors.erase upage }) : q.Agrees none := by
  have hid : id < p.spaces.size := hp.frames.owner i _ hi
  have haligned : PageAligned upage := (hp.frames.upage i _ hi).1
  obtain ⟨honly, haddr, hafter, _⟩ := views_settled hid haligned hmap hspaces
  have hslot : p.slot? id upage = d.backing.slot? := by
    unfold Pager.slot?
    rw [hd]
    rfl
  refine agrees_landed _ hp hi honly haddr (by rw [hframes]; rfl) (by rw [hframes]; rfl)
    (by rw [hframes]; rfl) hswap hslot ?_ ?_
  · intro e he
    obtain ⟨b, hb, rfl⟩ := Option.map_eq_some_iff.mp (hafter.symm.trans he)
    obtain ⟨_, _, hnone⟩ := Backing.window?_loaded? hb
    exact ⟨hp.descriptors.key id upage d hd, rfl, hnone,
      Backing.loaded?_ne_anonymous (hp.descriptors.backed _ _ _ hd) hb⟩
  · intro e w he hmapped hw
    have he : p.descriptor? id upage = some e := he
    rw [hd] at he
    cases he
    -- only a private page may lose its descriptor here
    obtain ⟨b, hb⟩ := Backing.exists_loaded? hmapped
    obtain ⟨hwindow, hisMapped, _⟩ := Backing.window?_loaded? hb
    refine ⟨{ d with backing := b, loaded := true }, ?_, hisMapped.trans hmapped,
      hwindow.trans hw⟩
    show q.descriptor? id upage = _
    rw [hafter, hb]
    rfl

/-- Every quiet move keeps the tables in agreement. -/
theorem agrees {q : Pager n} {f g : Option (Fin n)} (move : Quiet S p f q g) (hp : p.Agrees f) :
    q.Agrees g := by
  cases move with
  | swept =>
    refine SameTables.agrees (p := p) ?_ hp
    exact SameTables.of_reflagged (.notAccessed _ _) rfl rfl rfl rfl
  | took hid haligned huser hnone h => exact agrees_took hp hid haligned huser hnone h
  | evicted hid haligned huser hnone hvictim _ hd hkeeps =>
    exact agrees_evicted hp hid haligned huser hnone hvictim hd hkeeps rfl rfl
  | scribbled =>
    refine SameTables.agrees (p := p) ?_ hp
    exact SameTables.of_spaces rfl rfl rfl rfl rfl rfl
  | returned => exact agrees_returned hp
  | settled hi hd _ _ _ hmap => exact agrees_settled hp hi hd hmap rfl rfl rfl
  | pinned hi =>
    exact ⟨hp.frames.of_pinned hi rfl rfl (FrameTable.assignments_assign _ _ · _),
      hp.descriptors.congr (fun _ _ => rfl) fun _ _ => rfl,
      hp.slots.congr rfl rfl fun _ _ => rfl, hp.mappings.congr (fun _ => rfl) fun _ _ => rfl⟩
  | accessed =>
    refine SameTables.agrees (p := p) ?_ hp
    exact SameTables.of_reflagged (.update_setFlag ..) rfl rfl rfl rfl

end Quiet

end DemandPaging

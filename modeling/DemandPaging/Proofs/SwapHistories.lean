import DemandPaging.Proofs.SwapSlots
/-!
# What a swap area keeps

`SwapArea.History device s held` says that `s` can result from binding `device` and then
storing, fetching and discarding pages in any order, and that `held` is the record of it: for
each slot the page that was stored there last, unless it was fetched or discarded since. The
device may declare any number of sectors, over a disk of any length.

`SwapArea.Keeps` is what every operation preserves: the slots that are marked are those with a
page in the record, and the sectors of such a slot lie on the disk and spell that page. From
it `SwapArea.History.faithful` reads off what the next operation answers.
-/

namespace DemandPaging

namespace SwapArea

/-! ## A write, exactly -/

/-- Writing declared sectors of a swap device succeeds if its disk has them all, and fails
at the end of the disk otherwise. -/
theorem writeSectors_result {first : UInt32} {page : Page} {ks : List Nat} {d : BlockDevice}
    (hrole : d.role = .swap)
    (hks : ∀ k ∈ ks, k < sectorsPerPage ∧ (first + UInt32.ofNat k).toNat < d.sectors.toNat) :
    (writeSectors first page ks d).1
      = if ∀ k ∈ ks, (first + UInt32.ofNat k).toNat < d.disk.sectors.length
        then .ok () else .error .writeFailed := by
  induction ks generalizing d with
  | nil => rfl
  | cons k rest ih =>
    obtain ⟨hk, hdeclared⟩ := hks k (List.mem_cons_self ..)
    have hlen := page.length_sector hk
    have hin : ¬ ¬ first + UInt32.ofNat k < d.sectors := fun h =>
      h (UInt32.lt_iff_toNat_lt.mpr hdeclared)
    have hours : d.role ≠ .foreign := by
      rw [hrole]
      decide
    by_cases hdisk : (first + UInt32.ofNat k).toNat < d.disk.sectors.length
    · have hwrite : d.write (first + UInt32.ofNat k) (page.sector k)
          = .ok { d with disk := ⟨d.disk.sectors.set (first + UInt32.ofNat k).toNat
                            ⟨page.sector k, hlen⟩⟩,
                          writes := d.writes + 1 } := by
        simp only [BlockDevice.write, Disk.write, if_neg hin, dif_pos hlen, if_neg hours,
          if_pos hdisk]
      unfold writeSectors
      rw [hwrite]
      refine Eq.trans (ih ?_ ?_) ?_
      · exact hrole
      · exact fun j hj => hks j (List.mem_cons_of_mem _ hj)
      · simp only [List.length_set, List.forall_mem_cons, hdisk, true_and]
    · have hwrite : d.write (first + UInt32.ofNat k) (page.sector k) = .error .writeFailed := by
        simp only [BlockDevice.write, Disk.write, if_neg hin, dif_pos hlen, if_neg hours,
          if_neg hdisk]
      unfold writeSectors
      rw [hwrite, if_neg fun hall => hdisk (hall k (List.mem_cons_self ..))]

/-- The sectors of a slot are declared by the device. -/
theorem sector_lt {s : SwapArea} (hs : s.Fitted) {slot k : Nat} (hslot : slot < s.slots.length)
    (hk : k < sectorsPerPage) : slot * sectorsPerPage + k < s.device.sectors.toNat := by
  unfold Fitted at hs
  simp only [sectorsPerPage] at *
  omega

/-- The page of a slot can be written if the disk reaches to its end. -/
theorem writeSectors_slot {s : SwapArea} (hs : s.Fitted) (hrole : s.device.role = .swap)
    {slot : Nat} (hslot : slot < s.slots.length) (page : Page) :
    s.Reaches slot ∧ (writeSectors (firstSector slot) page (List.range sectorsPerPage) s.device).1
        = .ok ()
      ∨ ¬ s.Reaches slot
        ∧ (writeSectors (firstSector slot) page (List.range sectorsPerPage) s.device).1
          = .error .writeFailed := by
  have hreaches : (∀ k ∈ List.range sectorsPerPage,
      (firstSector slot + UInt32.ofNat k).toNat < s.device.disk.sectors.length)
        ↔ s.Reaches slot := by
    unfold Reaches
    constructor
    · intro h
      have hlast := h (sectorsPerPage - 1) (List.mem_range.mpr (by decide))
      rw [toNat_sector hs hslot (by decide)] at hlast
      simp only [sectorsPerPage] at *
      omega
    · intro h k hk
      have hk := List.mem_range.mp hk
      rw [toNat_sector hs hslot hk]
      omega
  have hdeclared : ∀ k ∈ List.range sectorsPerPage,
      k < sectorsPerPage ∧ (firstSector slot + UInt32.ofNat k).toNat < s.device.sectors.toNat := by
    intro k hk
    have hk := List.mem_range.mp hk
    exact ⟨hk, by rw [toNat_sector hs hslot hk]; exact sector_lt hs hslot hk⟩
  have hresult :
      (writeSectors (firstSector slot) page (List.range sectorsPerPage) s.device).1 = _ :=
    writeSectors_result hrole hdeclared
  by_cases h : s.Reaches slot
  · exact Or.inl ⟨h, hresult.trans (if_pos (hreaches.mpr h))⟩
  · exact Or.inr ⟨h, hresult.trans (if_neg fun hall => h (hreaches.mp hall))⟩

/-- Writing the page of one slot, entirely or in part, leaves the pages of the others alone. -/
theorem writeSectors_pages {s : SwapArea} (hs : s.Fitted) {slot : Nat}
    (hslot : slot < s.slots.length) (page : Page) :
    ∃ disk writes, (writeSectors (firstSector slot) page (List.range sectorsPerPage) s.device).2
        = { s.device with disk := disk, writes := writes }
      ∧ disk.sectors.length = s.device.disk.sectors.length
      ∧ ∀ k, k ≠ slot → (s.withDisk disk writes).pageIn k = s.pageIn k := by
  cases h : writeSectors (firstSector slot) page (List.range sectorsPerPage) s.device with
  | mk r d =>
    obtain ⟨disk, writes, hdevice, hlength⟩ := writeSectors_device h
    refine ⟨disk, writes, hdevice, hlength, ?_⟩
    intro k hk
    refine pageIn_congr fun j hj => ?_
    have hsame := writeSectors_otherSlot hs hslot h hk hj
    rw [hdevice] at hsame
    exact hsame

/-- A page is refused if every slot is taken. Otherwise the lowest free slot gets it, or the
disk ends within that slot and the others keep their pages. -/
theorem store_cases {s : SwapArea} (hs : s.Fitted) (hrole : s.device.role = .swap) (page : Page) :
    (∀ k, k < s.slots.length → s.Claimed k) ∧ s.store page = .ok (.error .swapExhausted, s)
      ∨ ∃ slot disk writes, slot < s.slots.length ∧ ¬ s.Claimed slot
        ∧ (∀ k, k < slot → s.Claimed k)
        ∧ disk.sectors.length = s.device.disk.sectors.length
        ∧ (∀ k, k ≠ slot → (s.withDisk disk writes).pageIn k = s.pageIn k)
        ∧ (s.Reaches slot
            ∧ s.store page
              = .ok (.ok slot, { s.withDisk disk writes with slots := s.slots.put slot true })
          ∨ ¬ s.Reaches slot
            ∧ s.store page = .ok (.error (.device .writeFailed), s.withDisk disk writes)) := by
  rw [store_eq]
  split
  next hflip => exact Or.inl ⟨fun k hk => Bitmap.flipLowest_eq_none hflip hk, rfl⟩
  next slot claimed hflip =>
    right
    obtain ⟨hslot, hclear, hlower, rfl⟩ := Bitmap.flipLowest_eq_some hflip
    have hwritten := writeSectors_slot hs hrole hslot page
    obtain ⟨disk, writes, hdevice, hlength, hother⟩ := writeSectors_pages hs hslot page
    refine ⟨slot, disk, writes, hslot, by simp [Claimed, hclear], hlower, hlength, hother, ?_⟩
    split
    next device hwrite =>
      rw [hwrite] at hwritten hdevice
      subst hdevice
      obtain ⟨hreaches, _⟩ | ⟨_, hfails⟩ := hwritten
      · exact Or.inl ⟨hreaches, rfl⟩
      · cases hfails
    next cause device hwrite =>
      rw [hwrite] at hwritten hdevice
      subst hdevice
      obtain ⟨_, hok⟩ | ⟨hshort, hfails⟩ := hwritten
      · cases hok
      · cases hfails
        exact Or.inr ⟨hshort, rfl⟩

/-! ## What can come of fetching and discarding -/

theorem discard_eq_ok {s s' : SwapArea} {slot : Nat} (h : s.discard slot = .ok s') :
    s.Claimed slot ∧ s' = s.freed slot := by
  have hclaimed : s.Claimed slot := by
    unfold discard at h
    rcases htest : s.slots.test slot with e | _ | _
    · rw [htest] at h
      cases h
    · rw [htest] at h
      cases h
    · exact holds_eq_true_iff.mp htest
  rw [discard_of_claimed hclaimed] at h
  cases h
  exact ⟨hclaimed, rfl⟩

/-- Only a slot that holds a page is fetched and freed. A fetch that fails changes nothing but
the count of reads. -/
theorem fetch_eq_ok {s s' : SwapArea} {slot : Nat} {dest page : Page}
    {r : Except PagingError Unit} (h : s.fetch slot dest = .ok (r, s', page)) :
    ∃ reads, r = .ok () ∧ s.Claimed slot ∧ s' = (s.withReads reads).freed slot
      ∨ (∃ e, r = .error e) ∧ s' = s.withReads reads := by
  obtain ⟨reads, hreads⟩ := readSectors_device (firstSector slot) (List.range sectorsPerPage)
    s.device dest
  refine ⟨reads, ?_⟩
  unfold fetch at h
  split at h
  next device page' hread =>
    rw [hread] at hreads
    simp only at hreads
    subst hreads
    cases hdiscard : SwapArea.discard (s.withReads reads) slot with
    | error e =>
      rw [show { s with device := { s.device with reads := reads } } = s.withReads reads from rfl,
        hdiscard] at h
      cases h
    | ok freed =>
      rw [show { s with device := { s.device with reads := reads } } = s.withReads reads from rfl,
        hdiscard] at h
      cases h
      obtain ⟨hclaimed, rfl⟩ := discard_eq_ok hdiscard
      exact Or.inl ⟨rfl, hclaimed, rfl⟩
  next e device page' hread =>
    rw [hread] at hreads
    simp only at hreads
    subst hreads
    cases h
    exact Or.inr ⟨⟨_, rfl⟩, rfl⟩

/-! ## Histories -/

/-- Which page each slot holds, if any. -/
abbrev Record := Nat → Option Page

/-- The record after a slot got a page or lost it. -/
def Record.set (held : Record) (slot : Nat) (page? : Option Page) : Record :=
  fun k => if k = slot then page? else held k

/-- What can become of a device that is bound as a swap area, with the record of the pages that
were stored. -/
inductive History (device : BlockDevice) : SwapArea → Record → Prop where
  | created {s : SwapArea} (h : create device = .ok s) : History device s fun _ => none
  | stored {s s' : SwapArea} {held : Record} {page : Page} {slot : Nat}
      (history : History device s held) (h : s.store page = .ok (.ok slot, s')) :
      History device s' (held.set slot (some page))
  | refused {s s' : SwapArea} {held : Record} {page : Page} {e : PagingError}
      (history : History device s held) (h : s.store page = .ok (.error e, s')) :
      History device s' held
  | fetched {s s' : SwapArea} {held : Record} {slot : Nat} {dest page : Page}
      (history : History device s held) (h : s.fetch slot dest = .ok (.ok (), s', page)) :
      History device s' (held.set slot none)
  | unread {s s' : SwapArea} {held : Record} {slot : Nat} {dest page : Page} {e : PagingError}
      (history : History device s held) (h : s.fetch slot dest = .ok (.error e, s', page)) :
      History device s' held
  | discarded {s s' : SwapArea} {held : Record} {slot : Nat}
      (history : History device s held) (h : s.discard slot = .ok s') :
      History device s' (held.set slot none)

/-- The area of a device holds what its record says. -/
structure Keeps (device : BlockDevice) (s : SwapArea) (held : Record) : Prop where
  role : s.device.role = .swap
  sectors : s.device.sectors = device.sectors
  fitted : s.Fitted
  tidy : s.slots.Tidy
  claimed : ∀ slot, s.Claimed slot ↔ (held slot).isSome = true
  page : ∀ slot page, held slot = some page → s.Reaches slot ∧ s.pageIn slot = page

namespace Keeps

variable {device : BlockDevice} {s s' : SwapArea} {held : Record}

theorem created (h : create device = .ok s) : Keeps device s fun _ => none := by
  unfold create at h
  split at h
  next hrole =>
    cases h
    refine ⟨hrole, rfl, rfl, Bitmap.tidy_clear _, ?_, fun _ _ hpage => nomatch hpage⟩
    intro slot
    simp [Claimed, Bitmap.isSet_clear]
  next => cases h

theorem withReads (h : Keeps device s held) (reads : UInt32) :
    Keeps device (s.withReads reads) held where
  role := h.role
  sectors := h.sectors
  fitted := h.fitted
  tidy := h.tidy
  claimed := h.claimed
  page := h.page

/-- Writing over sectors that spell no page of the record. -/
theorem withDisk (h : Keeps device s held) {disk : Disk} {writes : UInt32}
    (hlength : disk.sectors.length = s.device.disk.sectors.length)
    (hpage : ∀ slot, (held slot).isSome = true →
      (s.withDisk disk writes).pageIn slot = s.pageIn slot) :
    Keeps device (s.withDisk disk writes) held where
  role := h.role
  sectors := h.sectors
  fitted := h.fitted
  tidy := h.tidy
  claimed := h.claimed
  page slot page hslot := by
    obtain ⟨hreaches, hsame⟩ := h.page slot page hslot
    refine ⟨?_, (hpage slot (by rw [hslot]; rfl)).trans hsame⟩
    unfold Reaches at hreaches ⊢
    exact Nat.le_trans hreaches (Nat.le_of_eq hlength.symm)

/-- A slot is marked or freed, and its page is recorded. -/
theorem put (h : Keeps device s held) {slot : Nat} (hslot : slot < s.slots.length)
    {page? : Option Page}
    (hpage : ∀ page, page? = some page → s.Reaches slot ∧ s.pageIn slot = page) :
    Keeps device { s with slots := s.slots.put slot page?.isSome } (held.set slot page?) where
  role := h.role
  sectors := h.sectors
  fitted := by
    unfold Fitted
    rw [Bitmap.length_put]
    exact h.fitted
  tidy := h.tidy.put slot _
  claimed k := by
    unfold Claimed Record.set
    rw [Bitmap.isSet_put _ hslot]
    split
    next => rfl
    next => exact h.claimed k
  page k page hk := by
    unfold Record.set at hk
    split at hk
    next heq =>
      subst heq
      exact hpage page hk
    next => exact h.page k page hk

theorem freed (h : Keeps device s held) {slot : Nat} (hslot : s.Claimed slot) :
    Keeps device (s.freed slot) (held.set slot none) :=
  have hnone : ∀ page, none = some page → s.Reaches slot ∧ s.pageIn slot = page := by simp
  h.put (Bitmap.lt_of_isSet hslot) hnone

/-- A free slot is none of those that the record names. -/
theorem ne_of_free (h : Keeps device s held) {slot k : Nat} (hfree : ¬ s.Claimed slot)
    (hk : (held k).isSome = true) : k ≠ slot := by
  intro heq
  subst heq
  exact hfree ((h.claimed k).mpr hk)

/-- A page that was stored is recorded. -/
theorem stored (h : Keeps device s held) {page : Page} {slot : Nat}
    (hstore : s.store page = .ok (.ok slot, s')) : Keeps device s' (held.set slot (some page)) := by
  obtain ⟨_, _, _, _, hpage, _⟩ := store_eq_ok h.fitted hstore
  obtain ⟨_, hfails⟩ | ⟨_, disk, writes, hslot, hfree, _, hlength, hother, hcases⟩ :=
    store_cases h.fitted h.role page
  · rw [hfails] at hstore
    cases hstore
  · obtain ⟨hreaches, hok⟩ | ⟨_, hfails⟩ := hcases
    · rw [hok] at hstore
      cases hstore
      have hkeeps := h.withDisk hlength fun k hk => hother k (h.ne_of_free hfree hk)
      have hstored : ∀ page', some page = some page' → (s.withDisk disk writes).Reaches slot
          ∧ (s.withDisk disk writes).pageIn slot = page' := by
        intro page' heq
        cases heq
        refine ⟨?_, hpage⟩
        unfold Reaches at hreaches ⊢
        exact Nat.le_trans hreaches (Nat.le_of_eq hlength.symm)
      exact hkeeps.put hslot hstored
    · rw [hfails] at hstore
      cases hstore

/-- A page that is refused may have been written in part, but not over one that is kept. -/
theorem refused (h : Keeps device s held) {page : Page} {e : PagingError}
    (hstore : s.store page = .ok (.error e, s')) : Keeps device s' held := by
  obtain ⟨_, hfull⟩ | ⟨_, disk, writes, _, hfree, _, hlength, hother, hcases⟩ :=
    store_cases h.fitted h.role page
  · rw [hfull] at hstore
    cases hstore
    exact h
  · obtain ⟨_, hok⟩ | ⟨_, hshort⟩ := hcases
    · rw [hok] at hstore
      cases hstore
    · rw [hshort] at hstore
      cases hstore
      exact h.withDisk hlength fun k hk => hother k (h.ne_of_free hfree hk)

end Keeps

variable {device : BlockDevice} {s : SwapArea} {held : Record}

theorem History.keeps (h : History device s held) : Keeps device s held := by
  induction h with
  | created h => exact .created h
  | stored _ h ih => exact ih.stored h
  | refused _ h ih => exact ih.refused h
  | fetched _ h ih =>
    obtain ⟨reads, ⟨_, hclaimed, rfl⟩ | ⟨⟨_, herror⟩, _⟩⟩ := fetch_eq_ok h
    · exact (ih.withReads reads).freed hclaimed
    · cases herror
  | unread _ h ih =>
    obtain ⟨reads, ⟨hok, _⟩ | ⟨_, rfl⟩⟩ := fetch_eq_ok h
    · cases hok
    · exact ih.withReads reads
  | discarded _ h ih =>
    obtain ⟨hclaimed, rfl⟩ := discard_eq_ok h
    exact ih.freed hclaimed

/-- A swap area is a faithful store of pages. It has as many slots as whole pages fit on the
device, slot by slot in sectors that the device has, whose numbers do not wrap around, nor do
those that are counted up to behind the last of them. At any time it holds the pages of the
record and no others.

A page that is to be stored gets the lowest free slot. It is refused if there is none, or if the
disk ends within that slot, and then the slots that are held and their pages are as before. A
page that is held is fetched as it was stored, wherever it is put, or it is discarded; that frees
its slot and no other. -/
theorem History.faithful (h : History device s held) :
    s.capacity = device.sectors.toNat / sectorsPerPage
      ∧ (∀ slot k, slot < s.capacity → k < sectorsPerPage →
          (firstSector slot + UInt32.ofNat k).toNat = slot * sectorsPerPage + k
            ∧ slot * sectorsPerPage + k < device.sectors.toNat
            ∧ slot * sectorsPerPage + sectorsPerPage + 1 < UInt32.size)
      ∧ (∀ slot, s.holds slot = .ok true ↔ (held slot).isSome = true)
      ∧ s.used = (List.range s.capacity).countP (fun slot => (held slot).isSome)
      ∧ (∀ page,
          (∀ k, k < s.capacity → (held k).isSome = true)
              ∧ s.store page = .ok (.error .swapExhausted, s)
            ∨ ∃ slot s', slot < s.capacity ∧ held slot = none
              ∧ (∀ k, k < slot → (held k).isSome = true)
              ∧ (slot * sectorsPerPage + sectorsPerPage ≤ s.device.disk.sectors.length
                  ∧ s.store page = .ok (.ok slot, s')
                ∨ s.device.disk.sectors.length < slot * sectorsPerPage + sectorsPerPage
                  ∧ s.store page = .ok (.error (.device .writeFailed), s')
                  ∧ s'.slots = s.slots
                  ∧ ∀ k, (held k).isSome = true → s'.pageIn k = s.pageIn k))
      ∧ ∀ slot page, held slot = some page →
          (∀ dest, ∃ s', s.fetch slot dest = .ok (.ok (), s', page)
            ∧ ∀ k, s'.holds k = .ok true ↔ (held k).isSome = true ∧ k ≠ slot)
          ∧ ∃ s', s.discard slot = .ok s'
            ∧ ∀ k, s'.holds k = .ok true ↔ (held k).isSome = true ∧ k ≠ slot := by
  have hkeeps := h.keeps
  have hcapacity : s.slots.length = device.sectors.toNat / sectorsPerPage := by
    rw [← hkeeps.sectors]
    exact hkeeps.fitted
  refine ⟨hcapacity, ?_, ?_, ?_, ?_, ?_⟩
  -- the sectors of a slot
  · intro slot k hslot hk
    have hlt := sector_lt hkeeps.fitted hslot hk
    refine ⟨toNat_sector hkeeps.fitted hslot hk, hkeeps.sectors ▸ hlt, ?_⟩
    have hword := device.sectors.toNat_lt_size
    unfold capacity at hslot
    rw [hcapacity] at hslot
    simp only [sectorsPerPage, UInt32.size] at *
    omega
  -- which slots are held, and how many
  · exact fun slot => holds_eq_true_iff.trans (hkeeps.claimed slot)
  · unfold used
    rw [Bitmap.countOnes_eq_countP hkeeps.tidy]
    exact List.countP_congr fun slot _ => hkeeps.claimed slot
  -- storing
  · intro page
    obtain ⟨hall, hfull⟩ | ⟨slot, disk, writes, hslot, hfree, hlower, _, hother, hcases⟩ :=
      store_cases hkeeps.fitted hkeeps.role page
    · exact Or.inl ⟨fun k hk => (hkeeps.claimed k).mp (hall k hk), hfull⟩
    · right
      have hnone : held slot = none := by
        rw [hkeeps.claimed] at hfree
        simpa using hfree
      have hlower := fun k hk => (hkeeps.claimed k).mp (hlower k hk)
      obtain hok | ⟨hshort, hfails⟩ := hcases
      · exact ⟨slot, _, hslot, hnone, hlower, Or.inl hok⟩
      · exact ⟨slot, _, hslot, hnone, hlower, Or.inr ⟨Nat.lt_of_not_le hshort, hfails, rfl,
          fun k hk => hother k (hkeeps.ne_of_free hfree hk)⟩⟩
  -- fetching and discarding
  · intro slot page hpage
    have hclaimed : s.Claimed slot := (hkeeps.claimed slot).mpr (by rw [hpage]; rfl)
    obtain ⟨hreaches, hspelled⟩ := hkeeps.page slot page hpage
    have hfreed : ∀ k, (s.freed slot).holds k = .ok true ↔ (held k).isSome = true ∧ k ≠ slot := by
      intro k
      rw [holds_eq_true_iff, claimed_freed hclaimed, hkeeps.claimed]
    refine ⟨?_, s.freed slot, discard_of_claimed hclaimed, hfreed⟩
    intro dest
    obtain ⟨reads, hfetch | ⟨hshort, _⟩⟩ := fetch_of_claimed hkeeps.fitted hclaimed dest
    · rw [hspelled] at hfetch
      exact ⟨_, hfetch, hfreed⟩
    · exact absurd hreaches hshort

/-- A device that declares two slots and one sector more, over a disk that ends in the middle of
the second slot. -/
def shortDevice : BlockDevice := ⟨"short", .swap, 17, Disk.blank 12, 0, 0⟩

/-- The short device with every slot free. -/
def shortArea : SwapArea := ⟨shortDevice, Bitmap.clear 2⟩

theorem store_shortArea (page : Page) :
    ∃ s, shortArea.store page = .ok (.ok 0, s) ∧ s.device.disk.sectors.length = 12 := by
  have hfree : ¬ shortArea.Claimed 0 := by
    unfold Claimed
    decide
  obtain ⟨hall, _⟩ | ⟨slot, disk, writes, _, _, hlower, hlength, _, hcases⟩ :=
    store_cases (s := shortArea) rfl rfl page
  · exact absurd (hall 0 (by decide)) hfree
  · obtain rfl : slot = 0 := Nat.eq_zero_of_not_pos fun hpos => hfree (hlower 0 hpos)
    obtain ⟨_, hok⟩ | ⟨hshort, _⟩ := hcases
    · exact ⟨_, hok, hlength⟩
    · exact absurd (by unfold Reaches; decide) hshort

/-- On the short device the first page goes to the lowest slot. The second page is refused, since
the disk ends within the other slot, and then the first one is fetched as it was. -/
theorem History.faithful_shortArea :
    ∃ once twice fetched, shortArea.store (Page.ofBytes [7]) = .ok (.ok 0, once)
      ∧ once.store Page.zero = .ok (.error (.device .writeFailed), twice)
      ∧ twice.used = 1
      ∧ twice.fetch 0 Page.zero = .ok (.ok (), fetched, Page.ofBytes [7])
      ∧ fetched.holds 0 ≠ .ok true := by
  obtain ⟨once, hstored, hlength⟩ := store_shortArea (Page.ofBytes [7])
  have hcreated : History shortDevice shortArea fun _ => none := .created rfl
  have honce := hcreated.stored hstored
  obtain ⟨hcapacity, _, _, _, hstore, _⟩ := honce.faithful
  -- of the two slots the second one is free, and the disk does not have all of it
  obtain ⟨hfull, _⟩ | ⟨slot, twice, hslot, hfree, _, hcases⟩ := hstore Page.zero
  · exact absurd (hfull 1 (by rw [hcapacity]; decide)) (by decide)
  · have hsecond : slot = 1 := by
      have hne : slot ≠ 0 := by
        rintro rfl
        cases hfree
      have hlt : slot < 2 := Nat.lt_of_lt_of_eq hslot hcapacity
      omega
    obtain ⟨hreaches, _⟩ | ⟨_, hrefused, _⟩ := hcases
    · rw [hsecond, hlength] at hreaches
      exact absurd hreaches (by decide)
    · obtain ⟨hcapacity, _, _, hused, _, hheld⟩ := (honce.refused hrefused).faithful
      obtain ⟨fetched, hfetched, hfreed⟩ := (hheld 0 (Page.ofBytes [7]) rfl).1 Page.zero
      refine ⟨once, twice, fetched, hstored, hrefused, ?_, hfetched, fun h => ((hfreed 0).mp h).2 rfl⟩
      rw [hused, hcapacity]
      rfl

end SwapArea

end DemandPaging

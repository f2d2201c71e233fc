import DemandPaging.Storage.SwapArea
import DemandPaging.Proofs.BitCount
/-!
# The pages in the swap area

A slot is `Claimed` when its bit is set, and `pageIn` is the page that its eight sectors
spell. The three operations of a swap area are described by these two alone:

* `store_eq_ok`: a page goes to a slot that was free, and is what that slot then holds;
  every other slot keeps its page;
* `fetch_of_claimed`: a claimed slot gives back the page that it holds and is free again,
  or the device refuses and everything but its counters is as before;
* `discard_of_claimed`: a claimed slot is freed.
-/

namespace DemandPaging

/-- Pages are equal when their bytes are. -/
theorem Page.ext_getElem? {p q : Page} (h : ∀ i, i < pageSize → p.bytes[i]? = q.bytes[i]?) :
    p = q := by
  refine Page.ext (List.ext_getElem? ?_)
  intro i
  by_cases hi : i < pageSize
  · exact h i hi
  · rw [List.getElem?_eq_none (by rw [p.length_bytes]; omega),
      List.getElem?_eq_none (by rw [q.length_bytes]; omega)]

namespace BlockDevice

theorem write_eq_ok {d d' : BlockDevice} {sector : UInt32} {data : Bytes}
    (h : d.write sector data = .ok d') :
    ∃ hlen : data.length = sectorSize, sector.toNat < d.disk.sectors.length
      ∧ d' = { d with disk := ⟨d.disk.sectors.set sector.toNat ⟨data, hlen⟩⟩,
                      writes := d.writes + 1 } := by
  unfold write at h
  split at h
  next => cases h
  next =>
    split at h
    next hlen =>
      split at h
      next => cases h
      next =>
        split at h
        next disk hdisk =>
          cases h
          unfold Disk.write at hdisk
          split at hdisk
          next hlt =>
            cases hdisk
            exact ⟨hlen, hlt, rfl⟩
          next => cases hdisk
        next => cases h
    next => cases h

theorem read_eq_ok {d d' : BlockDevice} {sector : UInt32} {size : Nat} {contents : Sector}
    (h : d.read sector size = .ok (contents, d')) :
    d.disk.sectors[sector.toNat]? = some contents ∧ d' = { d with reads := d.reads + 1 } := by
  unfold read at h
  split at h
  next => cases h
  next =>
    split at h
    next => cases h
    next =>
      split at h
      next found hfound =>
        cases h
        unfold Disk.read at hfound
        split at hfound
        next _ hsome =>
          cases hfound
          exact ⟨hsome, rfl⟩
        next => cases hfound
      next => cases h

end BlockDevice

namespace SwapArea

/-- Whether a slot holds a page. -/
def Claimed (s : SwapArea) (slot : Nat) : Prop := s.slots.isSet slot = true

theorem holds_eq_ok_iff {s : SwapArea} {slot : Nat} {value : Bool} :
    s.holds slot = .ok value ↔ slot < s.slots.length ∧ s.slots.isSet slot = value := by
  unfold holds
  rw [Bitmap.test_eq_ok_iff]
  constructor
  · rintro ⟨hlt, hbit⟩
    exact ⟨hlt, (Bitmap.isSet_eq_bit _ hlt).trans hbit⟩
  · rintro ⟨hlt, hset⟩
    exact ⟨hlt, (Bitmap.isSet_eq_bit _ hlt).symm.trans hset⟩

theorem holds_eq_true_iff {s : SwapArea} {slot : Nat} : s.holds slot = .ok true ↔ s.Claimed slot :=
  holds_eq_ok_iff.trans (and_iff_right_of_imp Bitmap.lt_of_isSet)

/-- The contents of a sector of the device; zeros beyond the end of its disk. -/
def sectorAt (s : SwapArea) (sector : Nat) : Sector :=
  s.device.disk.sectors[sector]?.getD Sector.zero

/-- The page that the sectors of a slot spell. -/
def pageIn (s : SwapArea) (slot : Nat) : Page :=
  Page.ofBytes ((List.range pageSize).map fun i =>
    ((s.sectorAt (slot * sectorsPerPage + i / sectorSize)).bytes[i % sectorSize]?).getD 0)

/-- The area with a slot freed. -/
def freed (s : SwapArea) (slot : Nat) : SwapArea := { s with slots := s.slots.put slot false }

/-- The area with a slot freed, if one is named. -/
def freed? (s : SwapArea) : Option Nat → SwapArea
  | some slot => s.freed slot
  | none => s

/-- The area after its device was read a number of times. -/
def withReads (s : SwapArea) (reads : UInt32) : SwapArea :=
  { s with device := { s.device with reads := reads } }

/-- The area after its device was written a number of times. -/
def withDisk (s : SwapArea) (disk : Disk) (writes : UInt32) : SwapArea :=
  { s with device := { s.device with disk := disk, writes := writes } }

/-- As many slots as the device has room for. -/
def Fitted (s : SwapArea) : Prop := s.slots.length = s.device.sectors.toNat / sectorsPerPage

/-- The disk holds as many sectors as the device declares. -/
def Backed (s : SwapArea) : Prop := s.device.sectors.toNat ≤ s.device.disk.sectors.length

/-- The disk holds all sectors of a slot. -/
def Reaches (s : SwapArea) (slot : Nat) : Prop :=
  slot * sectorsPerPage + sectorsPerPage ≤ s.device.disk.sectors.length

theorem Backed.reaches {s : SwapArea} (h : s.Backed) (hs : s.Fitted) {slot : Nat}
    (hslot : slot < s.slots.length) : s.Reaches slot := by
  unfold Backed at h
  unfold Fitted at hs
  unfold Reaches
  simp only [sectorsPerPage] at *
  omega

theorem getElem?_pageIn (s : SwapArea) (slot : Nat) {i : Nat} (hi : i < pageSize) :
    (s.pageIn slot).bytes[i]?
      = some (((s.sectorAt (slot * sectorsPerPage + i / sectorSize)).bytes[i % sectorSize]?).getD
          0) := by
  unfold pageIn
  rw [Page.getElem?_ofBytes, if_pos hi, List.getElem?_map, List.getElem?_range hi]
  rfl

theorem pageIn_congr {s t : SwapArea} {slot : Nat}
    (h : ∀ k, k < sectorsPerPage → t.device.disk.sectors[slot * sectorsPerPage + k]?
      = s.device.disk.sectors[slot * sectorsPerPage + k]?) :
    t.pageIn slot = s.pageIn slot := by
  refine Page.ext_getElem? ?_
  intro i hi
  have hk := div_sectorSize_lt hi
  rw [getElem?_pageIn _ _ hi, getElem?_pageIn _ _ hi, sectorAt, sectorAt, h _ hk]

/-- Sector numbers of a slot that the device has room for do not wrap around. -/
theorem toNat_sector {s : SwapArea} (hs : s.Fitted) {slot k : Nat} (hslot : slot < s.slots.length)
    (hk : k < sectorsPerPage) :
    (firstSector slot + UInt32.ofNat k).toNat = slot * sectorsPerPage + k := by
  have hlt := s.device.sectors.toNat_lt
  unfold Fitted at hs
  unfold firstSector
  rw [UInt32.toNat_add, UInt32.toNat_ofNat', UInt32.toNat_ofNat']
  simp only [sectorsPerPage] at *
  omega

/-! ## Writing a page -/

/-- Writing some sectors of a page leaves the other sectors of the device alone. -/
theorem writeSectors_other {first : UInt32} {page : Page} {ks : List Nat} {d d' : BlockDevice}
    {r : Except DeviceError Unit} (h : writeSectors first page ks d = (r, d')) {sector : Nat}
    (hne : ∀ k ∈ ks, (first + UInt32.ofNat k).toNat ≠ sector) :
    d'.disk.sectors[sector]? = d.disk.sectors[sector]? := by
  induction ks generalizing d with
  | nil =>
    cases h
    rfl
  | cons k rest ih =>
    unfold writeSectors at h
    split at h
    next d₁ hwrite =>
      obtain ⟨hlen, hlt, rfl⟩ := BlockDevice.write_eq_ok hwrite
      rw [ih h fun k hk => hne k (List.mem_cons_of_mem _ hk)]
      exact List.getElem?_set_ne (hne k (List.mem_cons_self ..))
    next =>
      cases h
      rfl

/-- After all writes succeeded, each sector that was written holds its part of the page. -/
theorem writeSectors_self {first : UInt32} {page : Page} {ks : List Nat} {d d' : BlockDevice}
    (h : writeSectors first page ks d = (.ok (), d'))
    (hnodup : ks.Pairwise fun j k =>
      (first + UInt32.ofNat j).toNat ≠ (first + UInt32.ofNat k).toNat)
    {k : Nat} (hk : k ∈ ks) :
    ∃ contents, d'.disk.sectors[(first + UInt32.ofNat k).toNat]? = some contents
      ∧ contents.bytes = page.sector k := by
  induction ks generalizing d with
  | nil => cases hk
  | cons j rest ih =>
    have hhead := (List.pairwise_cons.mp hnodup).1
    unfold writeSectors at h
    split at h
    next d₁ hwrite =>
      rcases List.mem_cons.mp hk with rfl | hk
      · obtain ⟨hlen, hlt, rfl⟩ := BlockDevice.write_eq_ok hwrite
        refine ⟨⟨page.sector k, hlen⟩, ?_, rfl⟩
        -- the later writes go to other sectors
        rw [writeSectors_other h fun j hj => (hhead j hj).symm]
        exact List.getElem?_set_self hlt
      · exact ih h (List.pairwise_cons.mp hnodup).2 hk
    next => cases h

/-- Writing changes nothing on the device but its count of writes and the contents of its disk. -/
theorem writeSectors_device {first : UInt32} {page : Page} {ks : List Nat} {d d' : BlockDevice}
    {r : Except DeviceError Unit} (h : writeSectors first page ks d = (r, d')) :
    ∃ disk writes, d' = { d with disk := disk, writes := writes }
      ∧ disk.sectors.length = d.disk.sectors.length := by
  induction ks generalizing d with
  | nil =>
    cases h
    exact ⟨_, _, rfl, rfl⟩
  | cons k rest ih =>
    unfold writeSectors at h
    split at h
    next d₁ hwrite =>
      obtain ⟨hlen, hlt, rfl⟩ := BlockDevice.write_eq_ok hwrite
      obtain ⟨disk, writes, rfl, hdisk⟩ := ih h
      exact ⟨disk, writes, rfl, hdisk.trans List.length_set⟩
    next =>
      cases h
      exact ⟨_, _, rfl, rfl⟩

/-- The sectors of a slot are its own. -/
theorem pairwise_sectors {s : SwapArea} (hs : s.Fitted) {slot : Nat}
    (hslot : slot < s.slots.length) :
    (List.range sectorsPerPage).Pairwise fun j k =>
      (firstSector slot + UInt32.ofNat j).toNat ≠ (firstSector slot + UInt32.ofNat k).toNat := by
  refine List.pairwise_lt_range.imp_of_mem fun {j k} hj hk hjk => ?_
  rw [toNat_sector hs hslot (List.mem_range.mp hj), toNat_sector hs hslot (List.mem_range.mp hk)]
  omega

/-- Writing the page of one slot leaves the sectors of the others alone, also when it fails on
the way. -/
theorem writeSectors_otherSlot {s : SwapArea} (hs : s.Fitted) {slot : Nat}
    (hslot : slot < s.slots.length) {page : Page} {d : BlockDevice} {r : Except DeviceError Unit}
    (h : writeSectors (firstSector slot) page (List.range sectorsPerPage) s.device = (r, d))
    {other : Nat} (hne : other ≠ slot) {k : Nat} (hk : k < sectorsPerPage) :
    d.disk.sectors[other * sectorsPerPage + k]?
      = s.device.disk.sectors[other * sectorsPerPage + k]? := by
  refine writeSectors_other h ?_
  intro j hj
  have hj := List.mem_range.mp hj
  rw [toNat_sector hs hslot hj]
  simp only [sectorsPerPage] at *
  omega

/-- A slot that holds a page is freed on request. -/
theorem discard_of_claimed {s : SwapArea} {slot : Nat} (h : s.Claimed slot) :
    s.discard slot = .ok (s.freed slot) := by
  have hlt := Bitmap.lt_of_isSet h
  have htest : s.slots.test slot = .ok true :=
    Bitmap.test_eq_ok_iff.mpr ⟨hlt, by rw [← Bitmap.isSet_eq_bit]; exact h⟩
  have hset : s.slots.set slot false = .ok (s.slots.put slot false) :=
    Bitmap.set_eq_ok_iff.mpr ⟨hlt, by rw [Bitmap.put, dif_pos hlt]⟩
  simp only [discard, htest, hset, bind, Except.bind, pure, Except.pure, if_true]
  rfl

/-- A slot that is given up right after it was claimed leaves the marks as they were. -/
theorem discard_of_flipLowest {s : SwapArea} {slot : Nat} {claimed : Bitmap}
    (h : s.slots.flipLowest false = some (slot, claimed)) (device : BlockDevice) :
    SwapArea.discard ⟨device, claimed⟩ slot = .ok { s with device := device } := by
  obtain ⟨hlt, hclear, _, rfl⟩ := Bitmap.flipLowest_eq_some h
  have hclaimed : SwapArea.Claimed ⟨device, s.slots.put slot true⟩ slot := by
    unfold Claimed
    rw [Bitmap.isSet_put _ hlt, if_pos rfl]
  have hslots : (s.slots.put slot true).put slot false = s.slots := by
    rw [← hclear]
    exact Bitmap.put_put_of_isSet hlt true
  rw [Bool.not_false, discard_of_claimed hclaimed]
  show Except.ok (SwapArea.mk device ((s.slots.put slot true).put slot false)) = _
  rw [hslots]

/-- Storing a page never stops the system. -/
theorem store_eq (s : SwapArea) (page : Page) :
    s.store page = .ok (match s.slots.flipLowest false with
      | none => (.error .swapExhausted, s)
      | some (slot, claimed) =>
        match writeSectors (firstSector slot) page (List.range sectorsPerPage) s.device with
        | (.ok (), device) => (.ok slot, { device := device, slots := claimed })
        | (.error e, device) => (.error (.device e), { s with device := device })) := by
  unfold store
  cases hflip : s.slots.flipLowest false with
  | none => rfl
  | some found =>
    obtain ⟨slot, claimed⟩ := found
    simp only
    cases hwrite : writeSectors (firstSector slot) page (List.range sectorsPerPage) s.device with
    | mk result device =>
      cases result with
      | ok => rfl
      | error e =>
        simp only [discard_of_flipLowest hflip]
        rfl

/-- A page goes to a slot that was free, which holds it from then on; the other slots keep
their pages and their marks. -/
theorem store_eq_ok {s s' : SwapArea} {page : Page} {slot : Nat} (hs : s.Fitted)
    (h : s.store page = .ok (.ok slot, s')) :
    slot < s.slots.length ∧ ¬ s.Claimed slot
      ∧ s'.slots = s.slots.put slot true ∧ s'.device.sectors = s.device.sectors
      ∧ s'.pageIn slot = page
      ∧ ∀ other, other < s.slots.length → other ≠ slot → s'.pageIn other = s.pageIn other := by
  rw [store_eq, Except.ok.injEq] at h
  split at h
  next => cases h
  next found claimed hflip =>
    obtain ⟨hlt, hclear, _, rfl⟩ := Bitmap.flipLowest_eq_some hflip
    split at h
    next device hwrite =>
      cases h
      -- no write of the page hits the sector of another one
      have hpos := pairwise_sectors hs hlt
      obtain ⟨_, _, hdevice, _⟩ := writeSectors_device hwrite
      refine ⟨hlt, by simp [Claimed, hclear], rfl, by rw [hdevice], ?_, ?_⟩
      · refine Page.ext_getElem? ?_
        intro i hi
        have hk := div_sectorSize_lt hi
        obtain ⟨contents, hcontents, hbytes⟩ :=
          writeSectors_self hwrite hpos (List.mem_range.mpr hk)
        rw [toNat_sector hs hlt hk] at hcontents
        rw [getElem?_pageIn _ _ hi, sectorAt, hcontents, Option.getD_some, hbytes]
        unfold Page.sector Page.slice
        rw [Bytes.getElem?_slice, if_pos (Nat.mod_lt _ (by decide)), Nat.div_add_mod',
          List.getElem?_eq_getElem (by rw [page.length_bytes]; exact hi)]
        rfl
      · intro other _ hne
        exact pageIn_congr fun k hk => writeSectors_otherSlot hs hlt hwrite hne hk
    next => cases h

/-- The disk reaches to the end of a slot that a page was stored in. -/
theorem reaches_of_store {s s' : SwapArea} {page : Page} {slot : Nat} (hs : s.Fitted)
    (h : s.store page = .ok (.ok slot, s')) : s'.Reaches slot := by
  obtain ⟨hlt, _⟩ := store_eq_ok hs h
  rw [store_eq, Except.ok.injEq] at h
  split at h
  next => cases h
  next found claimed _ =>
    split at h
    next device hwrite =>
      cases h
      -- the last sector of the slot was written, so the disk has it
      obtain ⟨_, hlast, _⟩ := writeSectors_self hwrite (pairwise_sectors hs hlt)
        (List.mem_range.mpr (by decide : sectorsPerPage - 1 < sectorsPerPage))
      rw [toNat_sector hs hlt (by decide)] at hlast
      obtain ⟨hin, _⟩ := List.getElem?_eq_some_iff.mp hlast
      show slot * sectorsPerPage + sectorsPerPage ≤ device.disk.sectors.length
      unfold sectorsPerPage at hin ⊢
      omega
    next => cases h

/-- Storing a page changes the size neither of the device nor of its disk. -/
theorem device_store {s s' : SwapArea} {page : Page} {r : Except PagingError Nat}
    (h : s.store page = .ok (r, s')) : s'.device.sectors = s.device.sectors
      ∧ s'.device.disk.sectors.length = s.device.disk.sectors.length := by
  rw [store_eq, Except.ok.injEq] at h
  split at h
  next =>
    cases h
    exact ⟨rfl, rfl⟩
  next slot claimed _ =>
    split at h
    next device hwrite =>
      cases h
      obtain ⟨disk, writes, rfl, hdisk⟩ := writeSectors_device hwrite
      exact ⟨rfl, hdisk⟩
    next cause device hwrite =>
      cases h
      obtain ⟨disk, writes, rfl, hdisk⟩ := writeSectors_device hwrite
      exact ⟨rfl, hdisk⟩

theorem backed_store {s s' : SwapArea} {page : Page} {r : Except PagingError Nat}
    (h : s.store page = .ok (r, s')) (hs : s.Backed) : s'.Backed := by
  obtain ⟨hsectors, hdisk⟩ := device_store h
  unfold Backed
  rw [hsectors, hdisk]
  exact hs

/-- Storing fails when no slot is free or the device refuses. -/
theorem store_eq_error {s s' : SwapArea} {page : Page} {e : PagingError}
    (h : s.store page = .ok (.error e, s')) : e = .swapExhausted ∨ ∃ cause, e = .device cause := by
  rw [store_eq, Except.ok.injEq] at h
  split at h
  next =>
    cases h
    exact Or.inl rfl
  next =>
    split at h
    next => cases h
    next cause _ _ =>
      cases h
      exact Or.inr ⟨cause, rfl⟩

/-! ## Reading a page -/

/-- Reading sectors changes nothing on the device but its count of reads. -/
theorem readSectors_device (first : UInt32) (ks : List Nat) (d : BlockDevice) (page : Page) :
    ∃ reads, (readSectors first ks d page).2.1 = { d with reads := reads } := by
  induction ks generalizing d page with
  | nil => exact ⟨d.reads, rfl⟩
  | cons k rest ih =>
    unfold readSectors
    split
    next contents d₁ hread =>
      obtain ⟨_, rfl⟩ := BlockDevice.read_eq_ok hread
      exact ih ..
    next => exact ⟨d.reads, rfl⟩

/-- Sectors that the device declares and its disk holds can be read. -/
theorem readSectors_of_disk {first : UInt32} {ks : List Nat} {d : BlockDevice} {page : Page}
    (hks : ∀ k ∈ ks, (first + UInt32.ofNat k).toNat < d.sectors.toNat
      ∧ (first + UInt32.ofNat k).toNat < d.disk.sectors.length) :
    (readSectors first ks d page).1 = .ok () := by
  induction ks generalizing d page with
  | nil => rfl
  | cons k rest ih =>
    obtain ⟨hdeclared, hdisk⟩ := hks k (List.mem_cons_self ..)
    obtain ⟨contents, hsome⟩ : ∃ contents,
        d.disk.sectors[(first + UInt32.ofNat k).toNat]? = some contents :=
      ⟨_, List.getElem?_eq_getElem hdisk⟩
    have hread : d.read (first + UInt32.ofNat k) sectorSize
        = .ok (contents, { d with reads := d.reads + 1 }) := by
      unfold BlockDevice.read Disk.read
      rw [if_neg (fun h => h (UInt32.lt_iff_toNat_lt.mpr hdeclared)), if_neg (by simp), hsome]
    unfold readSectors
    rw [hread]
    exact ih fun j hj => hks j (List.mem_cons_of_mem _ hj)

/-- After all reads succeeded, the page has the bytes of the sectors that were read, and
elsewhere those that it had. -/
theorem readSectors_bytes {first : UInt32} {ks : List Nat} {d d' : BlockDevice} {page page' : Page}
    (h : readSectors first ks d page = (.ok (), d', page')) (hnodup : ks.Nodup) {i : Nat}
    (hi : i < pageSize) :
    page'.bytes[i]? = if i / sectorSize ∈ ks
      then some (((d.disk.sectors[(first + UInt32.ofNat (i / sectorSize)).toNat]?.getD
        Sector.zero).bytes[i % sectorSize]?).getD 0)
      else page.bytes[i]? := by
  induction ks generalizing d page with
  | nil =>
    cases h
    rfl
  | cons k rest ih =>
    have hnotin := (List.nodup_cons.mp hnodup).1
    unfold readSectors at h
    split at h
    next contents d₁ hread =>
      obtain ⟨hcontents, rfl⟩ := BlockDevice.read_eq_ok hread
      have hlen := contents.length_bytes
      rw [ih h (List.nodup_cons.mp hnodup).2, Page.getElem?_overwrite _ _ _ hi, hlen]
      -- the byte `i` lies in the sector `i / sectorSize` of its page
      have hin : (k * sectorSize ≤ i ∧ i < k * sectorSize + sectorSize) ↔ i / sectorSize = k := by
        simp only [sectorSize]
        omega
      simp only [hin, List.mem_cons]
      by_cases hk : i / sectorSize = k
      · have hoffset : i - k * sectorSize = i % sectorSize := by
          simp only [sectorSize] at *
          omega
        rw [if_neg (hk ▸ hnotin), if_pos hk, if_pos (Or.inl hk), hk, hcontents, Option.getD_some,
          hoffset, List.getElem?_eq_getElem (by rw [hlen]; exact Nat.mod_lt _ (by decide))]
        rfl
      · rw [if_neg hk]
        simp only [hk, false_or]
    next => cases h

/-- Fetching the page of a claimed slot brings that page and frees the slot, unless the
device refuses, whose disk then ends within the slot; then everything is as before but its
counters and the page to be filled. -/
theorem fetch_of_claimed {s : SwapArea} {slot : Nat} (hs : s.Fitted) (h : s.Claimed slot)
    (page : Page) :
    ∃ reads, s.fetch slot page
        = .ok (.ok (), (s.withReads reads).freed slot, s.pageIn slot)
      ∨ ¬ s.Reaches slot ∧ ∃ cause page', s.fetch slot page
        = .ok (.error (.device cause), s.withReads reads, page') := by
  -- the slot is given back only after the last read, so a read that fails leaves it claimed
  have hlt := Bitmap.lt_of_isSet h
  obtain ⟨reads, hreads⟩ := readSectors_device (firstSector slot) (List.range sectorsPerPage)
    s.device page
  refine ⟨reads, ?_⟩
  unfold fetch
  split
  next device page' hread =>
    left
    rw [hread] at hreads
    simp only at hreads
    subst hreads
    have hdiscard : SwapArea.discard { s with device := { s.device with reads := reads } } slot
        = .ok ((s.withReads reads).freed slot) := discard_of_claimed h
    rw [hdiscard]
    have hpage : page' = s.pageIn slot := by
      refine Page.ext_getElem? ?_
      intro i hi
      have hk := div_sectorSize_lt hi
      rw [readSectors_bytes hread List.nodup_range hi, if_pos (List.mem_range.mpr hk),
        toNat_sector hs hlt hk, getElem?_pageIn _ _ hi]
      rfl
    rw [hpage]
    rfl
  next cause device page' hread =>
    right
    rw [hread] at hreads
    simp only at hreads
    subst hreads
    refine ⟨?_, cause, page', rfl⟩
    intro hreaches
    have hks : ∀ k ∈ List.range sectorsPerPage,
        (firstSector slot + UInt32.ofNat k).toNat < s.device.sectors.toNat
          ∧ (firstSector slot + UInt32.ofNat k).toNat < s.device.disk.sectors.length := by
      intro k hk
      have hk := List.mem_range.mp hk
      rw [toNat_sector hs hlt hk]
      unfold Fitted at hs
      unfold Reaches at hreaches
      simp only [sectorsPerPage] at *
      omega
    have hok : (readSectors (firstSector slot) (List.range sectorsPerPage) s.device page).1
        = .ok () := readSectors_of_disk hks
    rw [hread] at hok
    cases hok

/-! ## Freeing a slot -/

theorem claimed_freed {s : SwapArea} {slot : Nat} (h : s.Claimed slot) (other : Nat) :
    (s.freed slot).Claimed other ↔ s.Claimed other ∧ other ≠ slot := by
  unfold Claimed freed
  rw [Bitmap.isSet_put _ (Bitmap.lt_of_isSet h)]
  by_cases ho : other = slot
  · simp [ho]
  · simp [ho]

end SwapArea

end DemandPaging

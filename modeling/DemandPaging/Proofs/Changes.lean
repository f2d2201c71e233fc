import DemandPaging.Pager.State
/-!
# What single changes do to look-ups

The pager changes its tables one binding at a time. This module says what each such
change does to every later look-up, and how two changes at the same place combine into
one: a modification of a known binding is an insertion (`modify_eq_insert`), a change of
an address space puts another space in its place (`update_eq_put`), and of two spaces put
at one place the second counts (`put_put`).

Page directories are described by two observations, the frame address of a page and its
flags. Pages are told apart by their base address, so a change at one address of a page
is a change at all of them.
-/

namespace DemandPaging

theorem pageNumber_eq_iff {a b : Nat} : pageNumber a = pageNumber b ↔ pageBase a = pageBase b := by
  have hpos := pageSize_pos
  constructor
  · intro h
    simp only [pageBase, pageNumber] at *
    rw [h]
  · intro h
    exact Nat.eq_of_mul_eq_mul_right hpos h

theorem pageBase_pageBase (a : Nat) : pageBase (pageBase a) = pageBase a :=
  (pageAligned_pageBase a).pageBase_eq

theorem pageBase_le (a : Nat) : pageBase a ≤ a := by
  have := pageBase_add_offsetInPage a
  omega

theorem IsUserAddress.pageBase {a : Nat} (h : IsUserAddress a) : IsUserAddress (pageBase a) :=
  Nat.lt_of_le_of_lt (pageBase_le a) h

theorem IsUserAddress.of_pageBase {a : Nat} (h : IsUserAddress (DemandPaging.pageBase a)) :
    IsUserAddress a := by
  unfold IsUserAddress DemandPaging.pageBase at *
  -- the top of user space is the end of a page
  simp only [userTop, pageSize] at *
  omega

theorem PageAligned.add_mul {base : Nat} (h : PageAligned base) (i : Nat) :
    PageAligned (base + i * pageSize) := by
  simp only [PageAligned, offsetInPage] at *
  rw [Nat.add_mul_mod_self_right]
  exact h

/-- A page ends where the next one starts, or before. -/
theorem mul_add_pageSize_le {i count : Nat} (h : i < count) :
    i * pageSize + pageSize ≤ count * pageSize := by
  rw [← Nat.succ_mul]
  exact Nat.mul_le_mul_right _ h

namespace KeyedTable

variable {α : Type}

@[simp] theorem find?_insert_self (t : KeyedTable α) (key : Nat) (value : α) :
    (t.insert key value).find? key = some value := by
  rw [find?_insert, if_pos rfl]

theorem length_insertBinding {key : Nat} {value : α} {bs : List (Nat × α)}
    (h : bs.find? (fun b => b.1 == key) = none) :
    (insertBinding key value bs).length = bs.length + 1 := by
  induction bs with
  | nil => rfl
  | cons b rest ih =>
    rw [find?_bindings_cons] at h
    split at h
    next => cases h
    next hne =>
      unfold insertBinding
      split
      · rfl
      · rw [if_neg (Ne.symm hne), List.length_cons, ih h, List.length_cons]

/-- A new key adds one binding. -/
theorem size_insert {t : KeyedTable α} {key : Nat} (h : t.find? key = none) (value : α) :
    (t.insert key value).size = t.size + 1 :=
  length_insertBinding (Option.map_eq_none_iff.mp h)

/-- Modifying a known binding is inserting its new value. -/
theorem modify_eq_insert {t : KeyedTable α} {key : Nat} {v : α} (h : t.find? key = some v)
    (f : α → α) : t.modify key f = t.insert key (f v) := by
  refine ext ?_
  intro k
  rw [find?_modify, find?_insert]
  by_cases hk : k = key
  · subst hk
    rw [h, if_pos rfl]
    simp
  · simp [hk]

@[simp] theorem modify_insert (t : KeyedTable α) (key : Nat) (v : α) (f : α → α) :
    (t.insert key v).modify key f = t.insert key (f v) := by
  refine ext ?_
  intro k
  rw [find?_modify, find?_insert, find?_insert]
  by_cases hk : k = key
  · simp [hk]
  · simp [hk]

theorem insert_of_find?_eq_some {t : KeyedTable α} {key : Nat} {v : α}
    (h : t.find? key = some v) : t.insert key v = t := by
  refine ext ?_
  intro k
  rw [find?_insert]
  split
  next hk => rw [hk, h]
  next => rfl

end KeyedTable

namespace Spaces

/-- The spaces with another one in the place `id`. -/
def put (spaces : Spaces) (id : SpaceId) (s : AddressSpace) : Spaces :=
  spaces.update id fun _ => s

@[simp] theorem size_put (spaces : Spaces) (id : SpaceId) (s : AddressSpace) :
    (spaces.put id s).size = spaces.size := size_update ..

theorem lookup_put {spaces : Spaces} {id : SpaceId} (h : id < spaces.size) (other : SpaceId)
    (s : AddressSpace) :
    (spaces.put id s).lookup other = if other = id then s else spaces.lookup other := by
  unfold put
  rw [lookup_update]
  by_cases ho : other = id
  · rw [if_pos ⟨ho, h⟩, if_pos ho]
  · rw [if_neg fun hc => ho hc.1, if_neg ho]

/-- Two rows of spaces are equal when they are equally long and agree everywhere. -/
theorem ext_lookup {a b : Spaces} (hsize : a.size = b.size) (h : ∀ id, a.lookup id = b.lookup id) :
    a = b := by
  refine Array.ext hsize ?_
  intro i ha hb
  have hi := h i
  unfold lookup at hi
  rwa [Array.getD_eq_getD_getElem?, Array.getD_eq_getD_getElem?, Array.getElem?_eq_getElem ha,
    Array.getElem?_eq_getElem hb] at hi

/-- Changing a space is putting the changed one in its place. -/
theorem update_eq_put (spaces : Spaces) (id : SpaceId) (f : AddressSpace → AddressSpace) :
    spaces.update id f = spaces.put id (f (spaces.lookup id)) := by
  refine ext_lookup (by rw [size_put, size_update]) ?_
  intro other
  unfold put
  rw [lookup_update, lookup_update]

/-- Of two spaces put at one place the second counts. -/
@[simp] theorem put_put (spaces : Spaces) (id : SpaceId) (s t : AddressSpace) :
    (spaces.put id s).put id t = spaces.put id t := by
  refine ext_lookup (by simp only [size_put]) ?_
  intro other
  unfold put
  rw [lookup_update, size_update, lookup_update, lookup_update]
  split
  · rfl
  · rfl

/-- Putting a space where it is changes nothing. -/
theorem put_lookup (spaces : Spaces) (id : SpaceId) :
    spaces.put id (spaces.lookup id) = spaces := by
  refine ext_lookup (size_put ..) ?_
  intro other
  unfold put
  rw [lookup_update]
  split
  next h => rw [h.1]
  next => rfl

/-- Beyond the last space there is one without pages. -/
theorem lookup_of_size_le {spaces : Spaces} {id : SpaceId} (h : spaces.size ≤ id) :
    spaces.lookup id = default := by
  unfold lookup
  rw [Array.getD_eq_getD_getElem?, Array.getElem?_eq_none h]
  rfl

end Spaces

namespace Pager

variable {n : Nat} {p : Pager n} {id : SpaceId}

/-- The pager with another space in the place `id`. -/
def putSpace (p : Pager n) (id : SpaceId) (s : AddressSpace) : Pager n :=
  { p with spaces := p.spaces.put id s }

theorem updateSpace_eq (p : Pager n) (id : SpaceId) (f : AddressSpace → AddressSpace) :
    p.updateSpace id f = p.putSpace id (f (p.space id)) := by
  unfold updateSpace putSpace
  rw [Spaces.update_eq_put]
  rfl

theorem space_putSpace (h : id < p.spaces.size) (s : AddressSpace) :
    (p.putSpace id s).space id = s := (Spaces.lookup_put h id s).trans (if_pos rfl)

theorem pid_putSpace {s : AddressSpace} (hs : s.pid = (p.space id).pid) (other : SpaceId) :
    ((p.putSpace id s).space other).pid = (p.space other).pid := by
  unfold putSpace space Spaces.put
  rw [Spaces.lookup_update]
  split
  next h =>
    rw [h.1]
    exact hs
  next => rfl

@[simp] theorem putSpace_putSpace (p : Pager n) (id : SpaceId) (s t : AddressSpace) :
    (p.putSpace id s).putSpace id t = p.putSpace id t := by
  unfold putSpace
  rw [Spaces.put_put]

theorem putSpace_self (p : Pager n) (id : SpaceId) : p.putSpace id (p.space id) = p := by
  unfold putSpace space
  rw [Spaces.put_lookup]

end Pager

namespace PageEntry

theorem has_absent (flag : PageFlag) : absent.has flag = false := by
  cases flag <;> rfl

/-- The flags of a fresh mapping, all but two of which are clear or follow from the request. -/
theorem has_userMapping {address : Nat} {writable : Bool} {e : PageEntry}
    (h : userMapping address writable = .ok e) :
    e.has .writable = writable ∧ e.has .accessed = false ∧ e.has .dirty = false := by
  simp only [userMapping] at h
  split at h
  · cases h
    simp only [has_withFrameNumber, has_withFlag, has_absent]
    exact ⟨by simp, by simp, by simp⟩
  · cases h

/-- An entry holds every frame address below four gibibytes. -/
theorem userMapping_of_lt {address : Nat} (haligned : PageAligned address)
    (hlow : address < 0x100000000) (writable : Bool) :
    ∃ e, userMapping address writable = .ok e ∧ e.frameAddress = address := by
  have hsmall : address / pageSize < 0x100000 := by
    simp only [pageSize]
    omega
  have hnumber : narrow? (BitVec.ofNat 32 (address / pageSize))
      = some (BitVec.ofNat 20 (address / pageSize)) := by
    refine (numberNarrowing.narrow?_eq_some_iff _ _).mpr ?_
    rw [BitVec.toNat_ofNat, BitVec.toNat_ofNat, Nat.mod_eq_of_lt hsmall,
      Nat.mod_eq_of_lt (Nat.lt_of_lt_of_le hsmall (by decide))]
  unfold userMapping
  rw [hnumber]
  refine ⟨_, rfl, ?_⟩
  rw [frameAddress, frameNumber_withFrameNumber, BitVec.toNat_ofNat, Nat.mod_eq_of_lt hsmall]
  exact haligned.pageBase_eq

end PageEntry

namespace PageDirectory

theorem frameAddress?_unmap (d : PageDirectory) (upage other : Nat) :
    (d.unmap upage).frameAddress? other
      = if pageBase other = pageBase upage then none else d.frameAddress? other := by
  unfold frameAddress?
  rw [lookup_unmap]
  simp only [pageNumber_eq_iff]
  split
  · rfl
  · rfl

theorem has_unmap (d : PageDirectory) (flag : PageFlag) (upage other : Nat) :
    (d.unmap upage).has flag other
      = if pageBase other = pageBase upage then false else d.has flag other := by
  unfold has
  rw [lookup_unmap]
  simp only [pageNumber_eq_iff]
  by_cases h : pageBase other = pageBase upage
  · rw [if_pos h, if_pos h]
  · rw [if_neg h, if_neg h]

theorem isMapped_eq (d : PageDirectory) (upage : Nat) :
    d.isMapped upage = (d.frameAddress? upage).isSome := by
  unfold isMapped frameAddress?
  rw [Option.isSome_map]

/-- Writing a flag is seen in that flag of that page, and only if the page is mapped. -/
theorem has_setFlag (d : PageDirectory) (flag other : PageFlag) (upage opage : Nat) (value : Bool) :
    (d.setFlag flag upage value).has other opage
      = if pageBase opage = pageBase upage ∧ other = flag then value && d.isMapped opage
        else d.has other opage := by
  unfold has isMapped
  rw [lookup_setFlag]
  simp only [pageNumber_eq_iff]
  cases d.lookup opage with
  | none => simp
  | some e =>
    by_cases hpage : pageBase opage = pageBase upage
    · simp [hpage, PageEntry.has_withFlag]
    · simp [hpage]

theorem frameAddress?_pageBase (d : PageDirectory) (upage : Nat) :
    d.frameAddress? (pageBase upage) = d.frameAddress? upage := by
  unfold frameAddress? lookup
  rw [pageNumber_eq_iff.mpr (pageBase_pageBase upage)]

theorem has_pageBase (d : PageDirectory) (flag : PageFlag) (upage : Nat) :
    d.has flag (pageBase upage) = d.has flag upage := by
  unfold has lookup
  rw [pageNumber_eq_iff.mpr (pageBase_pageBase upage)]

/-- An unmapped page has every flag clear. -/
theorem has_of_frameAddress?_eq_none {d : PageDirectory} {upage : Nat}
    (h : d.frameAddress? upage = none) (flag : PageFlag) : d.has flag upage = false := by
  unfold frameAddress? at h
  unfold has
  rw [Option.map_eq_none_iff.mp h]

/-- What a directory is after a mapping was installed in it. -/
structure Installed (d d' : PageDirectory) (upage frame : Nat) (writable : Bool) : Prop where
  frameAddress? : ∀ other,
    d'.frameAddress? other = if pageBase other = pageBase upage then some frame
      else d.frameAddress? other
  writable_self : d'.has .writable upage = writable
  accessed_self : d'.has .accessed upage = false
  dirty_self : d'.has .dirty upage = false
  has_other : ∀ flag other, pageBase other ≠ pageBase upage → d'.has flag other = d.has flag other
  reserved : d'.reserved = d.reserved

/-- A directory that keeps nothing for itself maps every unmapped user page to every frame
below four gibibytes. -/
theorem map_of_unmapped {d : PageDirectory} {upage frame : Nat} (hfree : d.reserved = [])
    (huser : IsUserAddress upage) (hnone : d.frameAddress? upage = none)
    (haligned : PageAligned frame) (hlow : frame < 0x100000000) (writable : Bool) :
    ∃ d', d.map upage frame writable = .ok (some d') ∧ Installed d d' upage frame writable := by
  have hrefuses : d.refuses upage = false := by
    simp [refuses, hfree, huser, isMapped_eq, hnone]
  obtain ⟨e, he, haddress⟩ := PageEntry.userMapping_of_lt haligned hlow writable
  have hflags := PageEntry.has_userMapping he
  have hlookup : ∀ other,
      ({ d with entries := d.entries.insert (pageNumber upage) e } : PageDirectory).lookup other
        = if pageBase other = pageBase upage then some e else d.lookup other := by
    intro other
    unfold lookup
    rw [KeyedTable.find?_insert]
    simp only [pageNumber_eq_iff]
  refine ⟨{ d with entries := d.entries.insert (pageNumber upage) e }, ?_, ?_⟩
  · unfold map
    rw [hrefuses, if_neg (by simp), he]
  · refine ⟨?_, ?_, ?_, ?_, ?_, rfl⟩
    · intro other
      unfold frameAddress?
      rw [hlookup]
      split
      · exact congrArg some haddress
      · rfl
    · simp [has, hlookup, hflags.1]
    · simp [has, hlookup, hflags.2.1]
    · simp [has, hlookup, hflags.2.2]
    · intro flag other hne
      simp [has, hlookup, hne]

end PageDirectory

end DemandPaging

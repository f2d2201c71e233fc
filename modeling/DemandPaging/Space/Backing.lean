import DemandPaging.Storage.OpenFile
import DemandPaging.Failure
/-!
# Where the contents of a page live

A `Backing` says where a page comes from the next time it is loaded. The two file
kinds differ in who owns the file: a private page is read from its file and never
written there, a mapped page belongs to a mapping and is written back when dirty.

A page that is moved to swap holds a slot from then on, and gives up the slot that
it held before (`slot?_movedTo`). Loading the page gives the slot up again: an
anonymous page then lives in its frame only and needs no descriptor, a file page is
once more what it was before it was parked (`window?_loaded?`).

In the kernel a backing is a `PageKind`, a window is a `FileSegment`, `load` is
`load_into`, `save` is `write_back`, `movedTo` is `swapped_out` and a descriptor is a
`PageDescriptor`. What a load does with each kind (`loadSource` and the functions after
it) is told apart in the middle of `load_page` there. The kinds go by other names:
`anonymous` is `Resident`, `privateFile` and `mappedFile` are `FileBacked` and
`MmapBacked`, and the parked ones are those that are `PendingRestore`.
-/

namespace DemandPaging

/-- A window of one page onto a file: `readBytes` bytes from `offset`, then
`zeroBytes` zeros. -/
structure FileWindow where
  source : FileRef
  offset : Nat
  readBytes : Nat
  zeroBytes : Nat
  deriving DecidableEq, Repr

namespace FileWindow

/-- Fill a page from the file. A short read leaves the page with the bytes that
came and otherwise as it was. -/
def load (w : FileWindow) (file : OpenFile) (page : Page) : Except PagingError Unit × Page :=
  let bytes := file.read w.offset w.readBytes
  let filled := page.overwrite 0 bytes
  if bytes.length = w.readBytes then (.ok (), filled.clearFrom w.readBytes)
  else (.error (.shortRead w.readBytes bytes.length), filled)

/-- Write the whole page to the file, zeros past `readBytes` included. -/
def save (w : FileWindow) (file : OpenFile) (page : Page) : Except PagingError Unit × OpenFile :=
  let (count, written) := file.write w.offset page.bytes
  if count = pageSize then (.ok (), written) else (.error (.shortWrite pageSize count), written)

/-- A window in one line, without its file. -/
def describe (w : FileWindow) : String :=
  "FileSegment \x7b offset: " ++ toString w.offset ++ ", read_bytes: " ++ toString w.readBytes
    ++ ", zero_bytes: " ++ toString w.zeroBytes ++ ", .. \x7d"

end FileWindow

/-- Where a page comes from the next time it is loaded. -/
inductive Backing where
  /-- Nowhere: the page has been in its frame only, and is being evicted. -/
  | anonymous
  /-- An anonymous page in a swap slot. -/
  | swapped (slot : Nat)
  /-- A page of a program, still as it is in its file. -/
  | privateFile (window : FileWindow)
  /-- A page of a mapped file. -/
  | mappedFile (window : FileWindow)
  /-- A page of a program that was changed and now is in a swap slot. -/
  | privateParked (window : FileWindow) (slot : Nat)
  /-- A page of a mapped file that also is in a swap slot. -/
  | mappedParked (window : FileWindow) (slot : Nat)
  deriving DecidableEq, Repr

/-- What a page is filled from. -/
inductive LoadSource where
  | file (window : FileWindow)
  | swap (slot : Nat)
  | nowhere

namespace Backing

/-- The window onto a file, if the page has one. -/
def window? : Backing → Option FileWindow
  | .anonymous | .swapped _ => none
  | .privateFile window | .mappedFile window | .privateParked window _
  | .mappedParked window _ => some window

/-- The swap slot that is claimed for the page, if any. -/
def slot? : Backing → Option Nat
  | .swapped slot | .privateParked _ slot | .mappedParked _ slot => some slot
  | .anonymous | .privateFile _ | .mappedFile _ => none

/-- Whether the page belongs to a mapping. -/
def isMapped : Backing → Bool
  | .mappedFile _ | .mappedParked _ _ => true
  | .anonymous | .swapped _ | .privateFile _ | .privateParked _ _ => false

/-- The backing after the page was written to `slot`, and the slot it gives up. -/
def movedTo (slot : Nat) : Backing → Backing × Option Nat
  | .anonymous => (.swapped slot, none)
  | .swapped stale => (.swapped slot, some stale)
  | .privateFile window => (.privateParked window slot, none)
  | .mappedFile window => (.mappedParked window slot, none)
  | .privateParked window stale => (.privateParked window slot, some stale)
  | .mappedParked window stale => (.mappedParked window slot, some stale)

/-- What the page is filled from. A mapped page is always read from its file, even
when it also is in a swap slot: it went there clean. -/
def loadSource : Backing → LoadSource
  | .anonymous => .nowhere
  | .swapped slot | .privateParked _ slot => .swap slot
  | .privateFile window | .mappedFile window | .mappedParked window _ => .file window

/-- The slot that loading the page gives up without reading it. -/
def abandonedSlot? : Backing → Option Nat
  | .mappedParked _ slot => some slot
  | _ => none

/-- The backing after loading; an anonymous page then lives in its frame only. -/
def loaded? : Backing → Option Backing
  | .swapped _ => none
  | .privateParked window _ => some (.privateFile window)
  | .mappedParked window _ => some (.mappedFile window)
  | backing => some backing

/-- Whether the page, once loaded, holds data newer than its file. -/
def loadsDirty : Backing → Bool
  | .privateParked _ _ => true
  | _ => false

/-- Moving a page to swap makes the new slot the one it holds and gives up exactly
the one it held. -/
theorem slot?_movedTo (b : Backing) (slot : Nat) :
    (b.movedTo slot).1.slot? = some slot ∧ (b.movedTo slot).2 = b.slot? := by
  cases b <;> exact ⟨rfl, rfl⟩

/-- Neither moving a page to swap nor loading it changes its window or its nature. -/
theorem window?_movedTo (b : Backing) (slot : Nat) :
    (b.movedTo slot).1.window? = b.window? ∧ (b.movedTo slot).1.isMapped = b.isMapped := by
  cases b <;> exact ⟨rfl, rfl⟩

theorem window?_loaded? {b c : Backing} (h : b.loaded? = some c) :
    c.window? = b.window? ∧ c.isMapped = b.isMapped ∧ c.slot? = none := by
  cases b <;> cases h <;> exact ⟨rfl, rfl, rfl⟩

end Backing

/-- What the pager knows about one page of an address space. -/
structure Descriptor where
  upage : Nat
  backing : Backing
  writable : Bool
  /-- Whether the page has a frame and a hardware mapping at the moment. -/
  loaded : Bool := false
  deriving DecidableEq, Repr

end DemandPaging

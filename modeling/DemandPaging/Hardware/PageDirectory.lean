import DemandPaging.KeyedTable
import DemandPaging.Hardware.PageEntry
/-!
# Page directories

The page table entries of one address space, by page number. An unmapped page has
every flag clear. A new mapping is refused where there is one already, outside
user space, and on pages that the hardware keeps for itself.

In the kernel this is `SoftPageDirectory`, `frameAddress?` is `get_page`, `map` is
`set_page`, `unmap` is `clear_page`, and `setFlag` is `set_accessed` or `set_dirty`.
Reserved pages stand for a directory that refuses a mapping on its own account.
-/

namespace DemandPaging

/-- The hardware's view of one address space. -/
structure PageDirectory where
  /-- Entries by page number. -/
  entries : KeyedTable PageEntry := .empty
  /-- Addresses of pages that cannot be mapped. -/
  reserved : List Nat := []

namespace PageDirectory

/-- The entry of the page that holds `upage`. -/
def lookup (d : PageDirectory) (upage : Nat) : Option PageEntry :=
  d.entries.find? (pageNumber upage)

/-- The physical address of the frame that a page is mapped to. -/
def frameAddress? (d : PageDirectory) (upage : Nat) : Option Nat :=
  (d.lookup upage).map PageEntry.frameAddress

/-- Whether a page is mapped. -/
def isMapped (d : PageDirectory) (upage : Nat) : Bool := (d.lookup upage).isSome

/-- Number of mapped pages. -/
def size (d : PageDirectory) : Nat := d.entries.size

/-- Whether a request to map `upage` is refused. -/
def refuses (d : PageDirectory) (upage : Nat) : Bool :=
  d.reserved.contains upage || !decide (IsUserAddress upage) || d.isMapped upage

/-- Map `upage` to the frame at physical address `frame`, or answer `none` if the
request is refused. -/
def map (d : PageDirectory) (upage frame : Nat) (writable : Bool) :
    Except Fatal (Option PageDirectory) :=
  if d.refuses upage then .ok none
  else match PageEntry.userMapping frame writable with
    | .ok entry => .ok (some { d with entries := d.entries.insert (pageNumber upage) entry })
    | .error fatal => .error fatal

/-- Remove the mapping of a page, if it has one. -/
def unmap (d : PageDirectory) (upage : Nat) : PageDirectory :=
  { d with entries := d.entries.erase (pageNumber upage) }

/-- Whether a page is mapped with the given flag set. -/
def has (d : PageDirectory) (flag : PageFlag) (upage : Nat) : Bool :=
  match d.lookup upage with
  | some entry => entry.has flag
  | none => false

/-- Write a flag of a page, if it is mapped. -/
def setFlag (d : PageDirectory) (flag : PageFlag) (upage : Nat) (value : Bool) : PageDirectory :=
  { d with entries := d.entries.modify (pageNumber upage) (·.withFlag flag value) }

/-- Whether the page was read or written since the flag was last cleared. -/
def accessed (d : PageDirectory) (upage : Nat) : Bool := d.has .accessed upage

/-- Whether the page was written since the flag was last cleared. -/
def dirty (d : PageDirectory) (upage : Nat) : Bool := d.has .dirty upage

/-- Whether user code may write to the page. -/
def writable (d : PageDirectory) (upage : Nat) : Bool := d.has .writable upage

theorem lookup_unmap (d : PageDirectory) (upage other : Nat) :
    (d.unmap upage).lookup other
      = if pageNumber other = pageNumber upage then none else d.lookup other :=
  KeyedTable.find?_erase _ _ _

theorem lookup_setFlag (d : PageDirectory) (flag : PageFlag) (upage other : Nat) (value : Bool) :
    (d.setFlag flag upage value).lookup other
      = (d.lookup other).map fun e =>
          if pageNumber other = pageNumber upage then e.withFlag flag value else e :=
  KeyedTable.find?_modify _ _ _ _

/-- Writing a flag moves no page to another frame. -/
theorem frameAddress?_setFlag (d : PageDirectory) (flag : PageFlag) (upage other : Nat)
    (value : Bool) :
    (d.setFlag flag upage value).frameAddress? other = d.frameAddress? other := by
  unfold frameAddress?
  rw [lookup_setFlag, Option.map_map]
  refine congrArg (fun f => Option.map f (d.lookup other)) (funext fun e => ?_)
  simp only [Function.comp, PageEntry.frameAddress]
  split
  · rw [PageEntry.frameNumber_withFlag]
  · rfl

end PageDirectory

end DemandPaging

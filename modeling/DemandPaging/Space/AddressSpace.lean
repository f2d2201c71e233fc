import DemandPaging.Hardware.PageDirectory
import DemandPaging.Space.DescriptorTable
import DemandPaging.Space.MappingTable
/-!
# Address spaces

What the pager keeps for one process: the page directory that the hardware reads,
the descriptors of the pages that are not there for certain, and the mapped files.

Spaces are known by their place in the list of all spaces. The process number is
only shown in messages, and two spaces may carry the same one.

In the kernel the type has the same name. Its locks are left out: one request at a time
is served here.
-/

namespace DemandPaging

/-- The place of an address space in the list of all spaces. -/
abbrev SpaceId := Nat

/-- The paging state of one process. -/
structure AddressSpace where
  pid : UInt16
  directory : PageDirectory := {}
  descriptors : DescriptorTable := .empty
  mappings : MappingTable := {}

instance : Inhabited AddressSpace := ⟨{ pid := 0 }⟩

namespace AddressSpace

/-- An address space in one line. -/
def describe (s : AddressSpace) : String :=
  "AddressSpace \x7b pid: " ++ toString s.pid.toNat ++ ", .. \x7d"

/-- Whether a page is free of both a descriptor and a hardware mapping. -/
def isVacant (s : AddressSpace) (upage : Nat) : Bool :=
  !s.descriptors.contains upage && !s.directory.isMapped upage

end AddressSpace

/-- All address spaces. -/
abbrev Spaces := Array AddressSpace

namespace Spaces

/-- A space by its place; where there is none, one without pages. -/
def lookup (spaces : Spaces) (id : SpaceId) : AddressSpace := spaces.getD id default

/-- Change one space. -/
def update (spaces : Spaces) (id : SpaceId) (f : AddressSpace → AddressSpace) : Spaces :=
  spaces.modify id f

theorem size_update (spaces : Spaces) (id : SpaceId) (f : AddressSpace → AddressSpace) :
    (spaces.update id f).size = spaces.size :=
  Array.size_modify

/-- A change is seen in the space that it was made to and nowhere else. -/
theorem lookup_update (spaces : Spaces) (id other : SpaceId) (f : AddressSpace → AddressSpace) :
    (spaces.update id f).lookup other
      = if other = id ∧ id < spaces.size then f (spaces.lookup id) else spaces.lookup other := by
  unfold update lookup
  rw [Array.getD_eq_getD_getElem?, Array.getElem?_modify]
  by_cases h : id = other
  · subst h
    by_cases hlt : id < spaces.size
    · simp [hlt]
    · simp [hlt]
  · rw [if_neg h, if_neg fun hc => h hc.1.symm, Array.getD_eq_getD_getElem?]

end Spaces

end DemandPaging

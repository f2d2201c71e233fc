import DemandPaging.KeyedTable
import DemandPaging.Storage.OpenFile
/-!
# Mapping tables

The mapped files of one address space. Each mapping holds a handle of its own and
has a number; numbers go up and are never used again.

In the kernel the table is `MmapTable`, a mapping is an `MmapEntry`, and `add` is
`insert`.
-/

namespace DemandPaging

/-- A file that is mapped at `base`. -/
structure FileMapping where
  /-- The handle that the mapping holds. -/
  source : FileRef
  base : Nat
  pageCount : Nat
  deriving DecidableEq, Repr

/-- The pages of a mapping in ascending order. -/
def FileMapping.pages (m : FileMapping) : List Nat := pageRange m.base m.pageCount

/-- The live mappings of an address space by number. -/
structure MappingTable where
  nextId : Nat := 0
  live : KeyedTable FileMapping := .empty

namespace MappingTable

/-- Add a mapping under the next number. -/
def add (t : MappingTable) (m : FileMapping) : Nat × MappingTable :=
  (t.nextId, { nextId := t.nextId + 1, live := t.live.insert t.nextId m })

/-- The mapping with the given number, if it is live. -/
def find? (t : MappingTable) (id : Nat) : Option FileMapping := t.live.find? id

/-- Drop a mapping. -/
def remove (t : MappingTable) (id : Nat) : MappingTable := { t with live := t.live.erase id }

/-- The numbers of the live mappings in ascending order. -/
def ids (t : MappingTable) : List Nat := t.live.keys

end MappingTable

end DemandPaging

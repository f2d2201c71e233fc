import DemandPaging.Bytes
import DemandPaging.Failure
/-!
# Disks

The medium behind a block device: a fixed number of sectors. A transfer moves a
whole sector and fails beyond the last one.

`read_of_write_self` and `read_of_write_ne` say what a write does to later reads.

In the kernel a disk is a `RamDisk`, which keeps its sectors in one byte string
(`DiskBytes`) and finds them by their ranges. A `Disk` is the same with the sectors
apart, and it answers the same (`Disk.read_flat`, `Disk.write_flat`).
-/

namespace DemandPaging

/-- The contents of one sector. -/
structure Sector where
  bytes : Bytes
  length_bytes : bytes.length = sectorSize

/-- The sector of zeros. -/
def Sector.zero : Sector := ⟨Bytes.zeros sectorSize, Bytes.length_zeros sectorSize⟩

/-- A medium with its sectors in order. -/
structure Disk where
  sectors : List Sector

namespace Disk

/-- A disk of zeros. -/
def blank (count : Nat) : Disk := ⟨List.replicate count Sector.zero⟩

/-- The contents of a sector. -/
def read (d : Disk) (sector : Nat) : Except DeviceError Sector :=
  match d.sectors[sector]? with
  | some contents => .ok contents
  | none => .error .readFailed

/-- Replace the contents of a sector. -/
def write (d : Disk) (sector : Nat) (contents : Sector) : Except DeviceError Disk :=
  if sector < d.sectors.length then .ok ⟨d.sectors.set sector contents⟩
  else .error .writeFailed

/-- A sector reads back as it was written. -/
theorem read_of_write_self {d e : Disk} {sector : Nat} {contents : Sector}
    (h : d.write sector contents = .ok e) : e.read sector = .ok contents := by
  unfold write at h
  split at h
  next hlt =>
    cases h
    unfold read
    rw [List.getElem?_set_self hlt]
  next => cases h

/-- Writing a sector leaves the others as they are. -/
theorem read_of_write_ne {d e : Disk} {sector other : Nat} {contents : Sector}
    (h : d.write sector contents = .ok e) (hne : other ≠ sector) :
    e.read other = d.read other := by
  unfold write at h
  split at h
  next hlt =>
    cases h
    unfold read
    rw [List.getElem?_set_ne hne.symm]
  next => cases h

end Disk

/-- A medium with its sectors in one byte string. -/
structure DiskBytes where
  bytes : Bytes

namespace DiskBytes

/-- A disk of zeros. -/
def blank (count : Nat) : DiskBytes := ⟨Bytes.zeros (count * sectorSize)⟩

/-- Whether the range of a sector is part of the disk. -/
def Reaches (d : DiskBytes) (sector : Nat) : Prop :=
  sector * sectorSize + sectorSize ≤ d.bytes.length

instance (d : DiskBytes) (sector : Nat) : Decidable (d.Reaches sector) :=
  inferInstanceAs (Decidable (_ ≤ _))

/-- The bytes in the range of a sector. -/
def read (d : DiskBytes) (sector : Nat) : Except DeviceError Bytes :=
  if d.Reaches sector then .ok (Bytes.slice d.bytes (sector * sectorSize) sectorSize)
  else .error .readFailed

/-- Put the contents of a sector over its range. -/
def write (d : DiskBytes) (sector : Nat) (contents : Sector) : Except DeviceError DiskBytes :=
  if d.Reaches sector then .ok ⟨Bytes.overwrite d.bytes (sector * sectorSize) contents.bytes⟩
  else .error .writeFailed

end DiskBytes

end DemandPaging

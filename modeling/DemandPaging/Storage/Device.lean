import DemandPaging.Storage.Disk
/-!
# Block devices

A block device names a disk, gives it a role and declares how many sectors it has.
The declared count and the disk are independent: a device may declare more than
its disk holds.

A transfer is checked in a fixed order: the sector against the declared count, the
buffer against the sector size, for writes the role, and last the disk. The two
counters count successful transfers in 32-bit words; a refused transfer changes
nothing.

In the kernel a device is a `Block` of some `BlockType` with its `BlockDriver`, `describe`
is its text, and the checks are `check_sector` and `verify_buffer`. A read there goes
straight into the buffer of the caller, as with `readInto`.
-/

namespace DemandPaging

/-- What a block device is used for. -/
inductive DeviceRole where
  | kernel
  | fileSystem
  | scratch
  | swap
  /-- Contents that nobody has identified. -/
  | raw
  /-- Owned by another operating system, hence never written. -/
  | foreign
  deriving DecidableEq, Repr

/-- The name of a role. -/
def DeviceRole.label : DeviceRole → String
  | .kernel => "Kernel"
  | .fileSystem => "File System"
  | .scratch => "Scratch"
  | .swap => "Swap"
  | .raw => "Raw"
  | .foreign => "Foreign"

/-- A block device. -/
structure BlockDevice where
  name : String
  role : DeviceRole
  /-- Declared number of sectors. -/
  sectors : UInt32
  disk : Disk
  /-- Successful reads, modulo `2 ^ 32`. -/
  reads : UInt32 := 0
  /-- Successful writes, modulo `2 ^ 32`. -/
  writes : UInt32 := 0

namespace BlockDevice

/-- Read a sector into a buffer of `bufferSize` bytes. -/
def read (d : BlockDevice) (sector : UInt32) (bufferSize : Nat) :
    Except DeviceError (Sector × BlockDevice) :=
  if ¬ sector < d.sectors then .error .sectorOutOfBounds
  else if bufferSize ≠ sectorSize then .error .bufferInvalid
  else match d.disk.read sector.toNat with
    | .ok contents => .ok (contents, { d with reads := d.reads + 1 })
    | .error e => .error e

/-- Read a sector over a buffer, answering what is reported, the buffer afterwards and the
device. -/
def readInto (d : BlockDevice) (sector : UInt32) (buffer : Bytes) :
    Except DeviceError Unit × Bytes × BlockDevice :=
  match d.read sector buffer.length with
  | .ok (contents, device) => (.ok (), contents.bytes, device)
  | .error e => (.error e, buffer, d)

/-- Write `data` to a sector. -/
def write (d : BlockDevice) (sector : UInt32) (data : Bytes) : Except DeviceError BlockDevice :=
  if ¬ sector < d.sectors then .error .sectorOutOfBounds
  else if h : data.length = sectorSize then
    if d.role = .foreign then .error .foreignWrite
    else match d.disk.write sector.toNat ⟨data, h⟩ with
      | .ok disk => .ok { d with disk := disk, writes := d.writes + 1 }
      | .error e => .error e
  else .error .bufferInvalid

/-- One line about a device: its name in quotes, its role, and three counts of at
least four digits. -/
def describe (d : BlockDevice) : String :=
  "\"" ++ d.name ++ "\" (" ++ d.role.label ++ "): "
    ++ paddedDecimal 4 d.sectors.toNat ++ " sectors, "
    ++ paddedDecimal 4 d.reads.toNat ++ " read, "
    ++ paddedDecimal 4 d.writes.toNat ++ " write"

end BlockDevice

end DemandPaging

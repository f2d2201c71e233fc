import DemandPaging.Bitmap
import DemandPaging.Storage.Device
/-!
# The swap area

A swap device cut into slots of one page each: slot `i` is the eight sectors from
`8 * i` on, and there is no header. A bitmap says which slots hold a page.

`store` claims the lowest free slot and writes a page there; if the device fails
on the way, the slot is free again but the sectors already written stay written.
`fetch` reads a page back and frees its slot; if the device fails on the way, the
slot stays claimed and the page is filled as far as the transfer got. Discarding
the page of a slot that holds none is fatal.

In the kernel `store` is `reserve_and_write`, `fetch` is `read_and_release`, `discard` is
`release` and `holds` is `is_in_use`.
-/

namespace DemandPaging

/-- A swap device and its slots. -/
structure SwapArea where
  device : BlockDevice
  /-- Set bits mark the slots that hold a page. -/
  slots : Bitmap

namespace SwapArea

/-- Bind a device, which must be one for swapping, with every slot free. -/
def create (device : BlockDevice) : Except Fatal SwapArea :=
  if device.role = .swap then
    .ok ⟨device, Bitmap.clear (device.sectors.toNat / sectorsPerPage)⟩
  else .error (.notSwapDevice device.name)

/-- Number of slots. -/
def capacity (s : SwapArea) : Nat := s.slots.length

/-- Number of slots that hold a page. -/
def used (s : SwapArea) : Nat := s.slots.countOnes

/-- Whether a slot holds a page. -/
def holds (s : SwapArea) (slot : Nat) : Except Fatal Bool := s.slots.test slot

/-- The sector at which a slot starts. Sector numbers are 32-bit words. -/
def firstSector (slot : Nat) : UInt32 := UInt32.ofNat (slot * sectorsPerPage)

/-- Write the given sectors of a page, stopping at the first failure. -/
def writeSectors (first : UInt32) (page : Page) :
    List Nat → BlockDevice → Except DeviceError Unit × BlockDevice
  | [], device => (.ok (), device)
  | k :: rest, device =>
    match device.write (first + UInt32.ofNat k) (page.sector k) with
    | .ok device => writeSectors first page rest device
    | .error e => (.error e, device)

/-- Read the given sectors into a page, stopping at the first failure. -/
def readSectors (first : UInt32) :
    List Nat → BlockDevice → Page → Except DeviceError Unit × BlockDevice × Page
  | [], device, page => (.ok (), device, page)
  | k :: rest, device, page =>
    match device.read (first + UInt32.ofNat k) sectorSize with
    | .ok (sector, device) =>
      readSectors first rest device (page.overwrite (k * sectorSize) sector.bytes)
    | .error e => (.error e, device, page)

/-- Free a slot that holds a page. -/
def discard (s : SwapArea) (slot : Nat) : Except Fatal SwapArea := do
  if ← s.slots.test slot then
    return { s with slots := ← s.slots.set slot false }
  else throw (.slotNotClaimed slot)

/-- Claim the lowest free slot and write `page` into it, answering the slot. If the device fails on
the way, the slot is given up again. -/
def store (s : SwapArea) (page : Page) : Except Fatal (Except PagingError Nat × SwapArea) :=
  match s.slots.flipLowest false with
  | none => .ok (.error .swapExhausted, s)
  | some (slot, claimed) =>
    match writeSectors (firstSector slot) page (List.range sectorsPerPage) s.device with
    | (.ok (), device) => .ok (.ok slot, { device := device, slots := claimed })
    | (.error e, device) => do
      let freed ← { device := device, slots := claimed : SwapArea }.discard slot
      return (.error (.device e), freed)

/-- Read the page in a slot over `page` and free the slot. -/
def fetch (s : SwapArea) (slot : Nat) (page : Page) :
    Except Fatal (Except PagingError Unit × SwapArea × Page) :=
  match readSectors (firstSector slot) (List.range sectorsPerPage) s.device page with
  | (.ok (), device, page) => do
    let freed ← { s with device := device }.discard slot
    return (.ok (), freed, page)
  | (.error e, device, page) => .ok (.error (.device e), { s with device := device }, page)

end SwapArea

end DemandPaging

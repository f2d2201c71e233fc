import DemandPaging.Proofs.CallSequences
import DemandPaging.Storage.Device
import Mathlib.Data.List.Induction
/-!
# A block device is an array of sectors

What a call to a block device comes to is decided by the device as it was created: by its role, its
declared size and the size of its disk. `refusal?` names the first check that a call fails, and a
refused call changes nothing (`serve_of_refused`). A sector holds what the last accepted write to it
has left there, or zeros (`contents`).

The disk is one byte string in which each sector has a range of its own (`Disk.bytes`): a sector is
read from its range (`Disk.slice_bytes`) and written over it (`Disk.bytes_set`). So a disk answers
as that byte string does, which looks whether the range is there (`Disk.read_flat`,
`Disk.write_flat`), and after any writes it still does (`Disk.writeAll_flat`).

`Holds` is what every call keeps (`Holds.serve`), and `array_of_sectors` says what comes of any
sequence of calls on a new device.
-/

namespace DemandPaging

/-! ## The disk as one byte string -/

theorem Bytes.slice_append_middle (front middle back : Bytes) :
    slice (front ++ (middle ++ back)) front.length middle.length = middle := by
  unfold slice
  rw [List.drop_left, List.take_left]

theorem Bytes.overwrite_append_middle (front back : Bytes) {middle patch : Bytes}
    (h : patch.length = middle.length) :
    overwrite (front ++ (middle ++ back)) front.length patch = front ++ (patch ++ back) := by
  unfold overwrite
  have hgap : zeros (front.length - front.length) = [] := by
    rw [Nat.sub_self]
    rfl
  simp only [List.take_left, hgap, List.append_nil]
  rw [h, List.drop_length_add_append, List.drop_left, List.append_assoc]

namespace Disk

/-- The bytes of all sectors in their order. -/
def bytes (d : Disk) : Bytes := d.sectors.flatMap Sector.bytes

theorem length_flatMap_bytes (sectors : List Sector) :
    (sectors.flatMap Sector.bytes).length = sectors.length * sectorSize := by
  induction sectors with
  | nil => exact (Nat.zero_mul _).symm
  | cons contents rest ih =>
    rw [List.flatMap_cons, List.length_append, ih, contents.length_bytes, List.length_cons,
      Nat.succ_mul, Nat.add_comm]

variable {d : Disk} {sector : Nat} {contents : Sector}

/-- A sector has its range to itself. -/
theorem bytes_eq_append (h : d.sectors[sector]? = some contents) :
    ∃ front back : Bytes, front.length = sector * sectorSize
      ∧ d.bytes = front ++ (contents.bytes ++ back)
      ∧ ∀ other, (Disk.mk (d.sectors.set sector other)).bytes = front ++ (other.bytes ++ back) := by
  obtain ⟨hlt, hget⟩ := List.getElem?_eq_some_iff.mp h
  have hsplit : d.sectors
      = d.sectors.take sector ++ contents :: d.sectors.drop (sector + 1) := by
    rw [← hget, ← List.drop_eq_getElem_cons hlt, List.take_append_drop]
  refine ⟨(d.sectors.take sector).flatMap Sector.bytes,
    (d.sectors.drop (sector + 1)).flatMap Sector.bytes, ?_, ?_, fun other => ?_⟩
  · rw [length_flatMap_bytes, List.length_take_of_le (Nat.le_of_lt hlt)]
  · unfold bytes
    rw [← List.flatMap_cons, ← List.flatMap_append, ← hsplit]
  · unfold bytes
    rw [← List.flatMap_cons, ← List.flatMap_append, List.set_eq_take_append_cons_drop, if_pos hlt]

/-- A sector is read from its range. -/
theorem slice_bytes (h : d.sectors[sector]? = some contents) :
    Bytes.slice d.bytes (sector * sectorSize) sectorSize = contents.bytes := by
  obtain ⟨front, back, hfront, hbytes, -⟩ := bytes_eq_append h
  rw [hbytes, ← hfront, ← contents.length_bytes, Bytes.slice_append_middle]

/-- A sector is written over its range. -/
theorem bytes_set (h : sector < d.sectors.length) (contents : Sector) :
    (Disk.mk (d.sectors.set sector contents)).bytes
      = Bytes.overwrite d.bytes (sector * sectorSize) contents.bytes := by
  obtain ⟨front, back, hfront, hbytes, hset⟩ := bytes_eq_append (List.getElem?_eq_getElem h)
  have hlength : contents.bytes.length = d.sectors[sector].bytes.length := by
    rw [contents.length_bytes, Sector.length_bytes]
  rw [hset, hbytes, ← hfront, Bytes.overwrite_append_middle front back hlength]

/-- The disk with its sectors in one byte string. -/
def flat (d : Disk) : DiskBytes := ⟨d.bytes⟩

theorem flat_blank (count : Nat) : (blank count).flat = .blank count := by
  unfold flat bytes blank DiskBytes.blank
  rw [List.flatMap_replicate]
  exact congrArg DiskBytes.mk List.flatten_replicate_replicate

/-- The ranges that are there are those of the sectors. -/
theorem reaches_flat (d : Disk) (sector : Nat) :
    d.flat.Reaches sector ↔ sector < d.sectors.length := by
  unfold DiskBytes.Reaches flat bytes
  rw [length_flatMap_bytes, ← Nat.succ_mul, Nat.mul_le_mul_right_iff (by decide), Nat.succ_le_iff]

/-- A read answers what the range of the sector holds, and fails just if it is not all there. -/
theorem read_flat (d : Disk) (sector : Nat) :
    d.flat.read sector = (d.read sector).map Sector.bytes := by
  unfold read DiskBytes.read
  by_cases hlt : sector < d.sectors.length
  · have hget := List.getElem?_eq_getElem hlt
    rw [if_pos ((reaches_flat d sector).mpr hlt), hget]
    exact congrArg Except.ok (slice_bytes hget)
  · rw [if_neg (mt (reaches_flat d sector).mp hlt), List.getElem?_eq_none (Nat.not_lt.mp hlt)]
    rfl

/-- A write changes the range of the sector, and fails just if it is not all there. -/
theorem write_flat (d : Disk) (sector : Nat) (contents : Sector) :
    d.flat.write sector contents = (d.write sector contents).map flat := by
  unfold write DiskBytes.write
  by_cases hlt : sector < d.sectors.length
  · rw [if_pos ((reaches_flat d sector).mpr hlt), if_pos hlt]
    exact congrArg (fun bytes => Except.ok (DiskBytes.mk bytes)) (bytes_set hlt contents).symm
  · rw [if_neg (mt (reaches_flat d sector).mp hlt), if_neg hlt]
    rfl

/-- Any writes, the first failure ending them, come to the same. -/
theorem writeAll_flat (writes : List (Nat × Sector)) (d : Disk) :
    writes.foldlM (fun (e : DiskBytes) w => e.write w.1 w.2) d.flat
      = (writes.foldlM (fun (e : Disk) w => e.write w.1 w.2) d).map flat := by
  induction writes generalizing d with
  | nil => rfl
  | cons w rest ih =>
    rw [List.foldlM_cons, List.foldlM_cons, write_flat]
    cases d.write w.1 w.2 with
    | ok e => exact ih e
    | error e => rfl

end Disk

namespace BlockDevice

/-! ## Calls -/

/-- A call to a block device, with the bytes of the caller. -/
inductive Call where
  | read (sector : UInt32) (buffer : Bytes)
  | write (sector : UInt32) (data : Bytes)

namespace Call

def sector : Call → UInt32
  | .read sector _ | .write sector _ => sector

def buffer : Call → Bytes
  | .read _ buffer => buffer
  | .write _ data => data

def isWrite : Call → Bool
  | .read .. => false
  | .write .. => true

end Call

/-- Serve a call, answering what is reported, the bytes of the caller afterwards and the device. -/
def serve (d : BlockDevice) : Call → Except DeviceError Unit × Bytes × BlockDevice
  | .read sector buffer => d.readInto sector buffer
  | .write sector data =>
    match d.write sector data with
    | .ok device => (.ok (), data, device)
    | .error e => (.error e, data, d)

/-- The device after a sequence of calls. -/
def serveAll (d : BlockDevice) (calls : List Call) : BlockDevice :=
  calls.foldl (fun d call => (d.serve call).2.2) d

/-- A new device over a disk of zeros. -/
def blank (name : String) (role : DeviceRole) (declared size : UInt32) : BlockDevice where
  name := name
  role := role
  sectors := declared
  disk := .blank size.toNat

/-- What is reported of a call that is refused, for the first check that it fails. -/
def refusal? (d : BlockDevice) (call : Call) : Option DeviceError :=
  if ¬ call.sector < d.sectors then some .sectorOutOfBounds
  else if call.buffer.length ≠ sectorSize then some .bufferInvalid
  else if call.isWrite = true ∧ d.role = .foreign then some .foreignWrite
  else if ¬ call.sector.toNat < d.disk.sectors.length then
    some (if call.isWrite then .writeFailed else .readFailed)
  else none

/-- How many of the calls are accepted writes, or accepted reads. -/
def transfers (d : BlockDevice) (isWrite : Bool) (calls : List Call) : Nat :=
  calls.countP fun call => call.isWrite == isWrite && (d.refusal? call).isNone

/-- What an accepted write leaves in a sector. -/
def written? (d : BlockDevice) (k : Nat) (call : Call) : Option Bytes :=
  if call.isWrite && (d.refusal? call).isNone && call.sector.toNat == k then some call.buffer
  else none

/-- The bytes of a sector: those that were written there last, else zeros. -/
def contents (d : BlockDevice) (calls : List Call) (k : Nat) : Bytes :=
  (lastOf? (d.written? k) calls).getD (Bytes.zeros sectorSize)

/-! ## One call -/

variable {d start : BlockDevice} {call : Call} {sector : UInt32} {data : Bytes}

theorem refusal?_eq_none_iff :
    d.refusal? call = none ↔ call.sector < d.sectors ∧ call.buffer.length = sectorSize
      ∧ (call.isWrite = true → d.role ≠ .foreign)
      ∧ call.sector.toNat < d.disk.sectors.length := by
  unfold refusal?
  grind

theorem read_of_refused {buffer : Bytes} {e : DeviceError}
    (h : d.refusal? (.read sector buffer) = some e) : d.read sector buffer.length = .error e := by
  unfold refusal? at h
  unfold read Disk.read
  grind [Call.sector, Call.buffer, Call.isWrite]

theorem write_of_refused {e : DeviceError} (h : d.refusal? (.write sector data) = some e) :
    d.write sector data = .error e := by
  unfold refusal? at h
  unfold write Disk.write
  grind [Call.sector, Call.buffer, Call.isWrite]

/-- A refused call is answered with the first check that it fails, and changes nothing. -/
theorem serve_of_refused {e : DeviceError} (h : d.refusal? call = some e) :
    d.serve call = (.error e, call.buffer, d) := by
  cases call with
  | read sector buffer => simp only [serve, readInto, read_of_refused h, Call.buffer]
  | write sector data => simp only [serve, write_of_refused h, Call.buffer]

/-- An accepted read is answered with the bytes of the sector. -/
theorem serve_read {buffer : Bytes} (h : d.refusal? (.read sector buffer) = none) :
    ∃ contents, d.disk.sectors[sector.toNat]? = some contents
      ∧ d.serve (.read sector buffer)
        = (.ok (), contents.bytes, { d with reads := d.reads + 1 }) := by
  obtain ⟨hdeclared : sector < _, hlength : buffer.length = _, -, hin : sector.toNat < _⟩ :=
    refusal?_eq_none_iff.mp h
  refine ⟨_, List.getElem?_eq_getElem hin, ?_⟩
  unfold serve readInto read Disk.read
  simp only [hdeclared, hlength, List.getElem?_eq_getElem hin, not_true, if_false, ne_eq]

/-- An accepted write replaces the sector. -/
theorem serve_write (h : d.refusal? (.write sector data) = none) :
    ∃ hlength : data.length = sectorSize, d.serve (.write sector data)
      = (.ok (), data, { d with
        disk := ⟨d.disk.sectors.set sector.toNat ⟨data, hlength⟩⟩, writes := d.writes + 1 }) := by
  obtain ⟨hdeclared : sector < _, hlength : data.length = _, hours, hin : sector.toNat < _⟩ :=
    refusal?_eq_none_iff.mp h
  refine ⟨hlength, ?_⟩
  unfold serve write Disk.write
  simp only [hdeclared, hlength, hours rfl, hin, not_true, if_false, if_true, dif_pos]

/-! ## Any sequence of calls -/

theorem length_blank (name : String) (role : DeviceRole) (declared size : UInt32) :
    (blank name role declared size).disk.sectors.length = size.toNat := List.length_replicate

theorem transfers_concat (start : BlockDevice) (isWrite : Bool) (calls : List Call) (call : Call) :
    start.transfers isWrite (calls ++ [call]) = start.transfers isWrite calls
      + if call.isWrite == isWrite && (start.refusal? call).isNone then 1 else 0 := by
  unfold transfers
  rw [List.countP_append, List.countP_singleton]

theorem contents_concat (start : BlockDevice) (calls : List Call) (call : Call) (k : Nat) :
    start.contents (calls ++ [call]) k
      = (start.written? k call).getD (start.contents calls k) :=
  getD_lastOf?_concat (start.written? k) calls call _

/-- The device is what the calls have made of `start`, which was new. -/
structure Holds (start : BlockDevice) (calls : List Call) (d : BlockDevice) : Prop where
  role : d.role = start.role
  sectors : d.sectors = start.sectors
  size : d.disk.sectors.length = start.disk.sectors.length
  bytes_eq : ∀ k contents, d.disk.sectors[k]? = some contents →
    contents.bytes = start.contents calls k
  reads : d.reads = UInt32.ofNat (start.transfers false calls)
  writes : d.writes = UInt32.ofNat (start.transfers true calls)

namespace Holds

variable {calls : List Call}

theorem created (name : String) (role : DeviceRole) (declared size : UInt32) :
    Holds (blank name role declared size) [] (blank name role declared size) where
  role := rfl
  sectors := rfl
  size := rfl
  bytes_eq k contents hget := by
    have hzero := List.eq_of_mem_replicate (List.mem_of_getElem? hget)
    rw [hzero]
    rfl
  reads := rfl
  writes := rfl

/-- Whatever the device holds, calls are refused for the role and the two sizes it began with. -/
theorem refusal?_eq (h : Holds start calls d) (call : Call) :
    d.refusal? call = start.refusal? call := by
  unfold refusal?
  rw [h.role, h.sectors, h.size]

theorem refused (h : Holds start calls d) {e : DeviceError}
    (hrefused : start.refusal? call = some e) : Holds start (calls ++ [call]) d where
  role := h.role
  sectors := h.sectors
  size := h.size
  bytes_eq k contents hget := by
    rw [contents_concat, written?, hrefused]
    simpa using h.bytes_eq k contents hget
  reads := by
    rw [transfers_concat, hrefused]
    simpa using h.reads
  writes := by
    rw [transfers_concat, hrefused]
    simpa using h.writes

theorem read (h : Holds start calls d) {buffer : Bytes}
    (haccepted : start.refusal? (.read sector buffer) = none) :
    Holds start (calls ++ [.read sector buffer]) { d with reads := d.reads + 1 } where
  role := h.role
  sectors := h.sectors
  size := h.size
  bytes_eq k contents hget := by
    rw [contents_concat]
    exact h.bytes_eq k contents hget
  reads := by
    rw [transfers_concat, haccepted, h.reads]
    exact (UInt32.ofNat_add ..).symm
  writes := by
    rw [transfers_concat]
    exact h.writes

theorem written (h : Holds start calls d) (hlength : data.length = sectorSize)
    (haccepted : start.refusal? (.write sector data) = none) :
    Holds start (calls ++ [.write sector data]) { d with
      disk := ⟨d.disk.sectors.set sector.toNat ⟨data, hlength⟩⟩, writes := d.writes + 1 } where
  role := h.role
  sectors := h.sectors
  size := List.length_set.trans h.size
  bytes_eq k contents hget := by
    rw [contents_concat]
    by_cases hk : sector.toNat = k
    · subst hk
      have hin : sector.toNat < d.disk.sectors.length := by
        rw [h.size]
        exact (refusal?_eq_none_iff.mp haccepted).2.2.2
      rw [List.getElem?_set_self hin] at hget
      cases hget
      simp [written?, haccepted, Call.isWrite, Call.sector, Call.buffer]
    · rw [List.getElem?_set_ne hk] at hget
      simp [written?, Call.sector, hk, h.bytes_eq k contents hget]
  reads := by
    rw [transfers_concat]
    exact h.reads
  writes := by
    rw [transfers_concat, haccepted, h.writes]
    exact (UInt32.ofNat_add ..).symm

/-- Every call adds to what the device holds. -/
theorem serve (h : Holds start calls d) (call : Call) :
    Holds start (calls ++ [call]) (d.serve call).2.2 := by
  have hsame := h.refusal?_eq call
  cases hrefusal : start.refusal? call with
  | some e =>
    rw [serve_of_refused (hsame.trans hrefusal)]
    exact h.refused hrefusal
  | none =>
    cases call with
    | read sector buffer =>
      obtain ⟨contents, -, hserve⟩ := serve_read (hsame.trans hrefusal)
      rw [hserve]
      exact h.read hrefusal
    | write sector data =>
      obtain ⟨hlength, hserve⟩ := serve_write (hsame.trans hrefusal)
      rw [hserve]
      exact h.written hlength hrefusal

theorem serveAll (name : String) (role : DeviceRole) (declared size : UInt32) (calls : List Call) :
    Holds (blank name role declared size) calls
      ((blank name role declared size).serveAll calls) := by
  induction calls using List.reverseRecOn with
  | nil => exact .created name role declared size
  | append_singleton calls call ih =>
    unfold BlockDevice.serveAll at ih ⊢
    rw [List.foldl_append]
    exact ih.serve call

/-- The disk is the sectors one after the other. -/
theorem disk_bytes (h : Holds start calls d) :
    d.disk.bytes = (List.range start.disk.sectors.length).flatMap (start.contents calls) := by
  unfold Disk.bytes
  rw [List.flatMap_def, List.flatMap_def]
  congr 1
  refine List.ext_getElem? fun k => ?_
  rw [List.getElem?_map, List.getElem?_map, ← h.size]
  by_cases hk : k < d.disk.sectors.length
  · have hget := List.getElem?_eq_getElem hk
    rw [hget, List.getElem?_range hk, Option.map_some, Option.map_some, h.bytes_eq k _ hget]
  · have hend := Nat.le_of_not_lt hk
    rw [List.getElem?_eq_none hend, List.getElem?_eq_none (by rwa [List.length_range])]
    rfl

end Holds

/-- **A block device is an array of sectors.** After any sequence of calls on a new device, whatever
its role, its declared size and the size of its disk, the next call is accepted just when its sector
lies within both sizes, the bytes of the caller are as long as a sector, and it writes to no foreign
device. It is refused for the first of these checks that fails, in the order of `refusal?`, and then
the device, its counters and the bytes of the caller are as they were. An accepted read answers
the range of its sector, which is what the last accepted write to it has left there, or zeros. An
accepted write puts its bytes over the range of its sector and leaves the other sectors. The
counters count the accepted reads and the accepted writes modulo `2 ^ 32`, and the disk is its
sectors one after the other. -/
theorem array_of_sectors (name : String) (role : DeviceRole) (declared size : UInt32)
    (calls : List Call) :
    ∃ start d, start = blank name role declared size ∧ d = start.serveAll calls
      ∧ (∀ call, start.refusal? call = none ↔ call.sector < declared
        ∧ call.buffer.length = sectorSize ∧ (call.isWrite = true → role ≠ .foreign)
        ∧ call.sector < size)
      ∧ (∀ call e, start.refusal? call = some e → d.serve call = (.error e, call.buffer, d))
      ∧ (∀ sector buffer, start.refusal? (.read sector buffer) = none →
        d.serve (.read sector buffer)
          = (.ok (), start.contents calls sector.toNat, { d with reads := d.reads + 1 })
        ∧ Bytes.slice d.disk.bytes (sector.toNat * sectorSize) sectorSize
          = start.contents calls sector.toNat)
      ∧ (∀ sector data, start.refusal? (.write sector data) = none → ∃ disk : Disk,
        d.serve (.write sector data)
          = (.ok (), data, { d with disk := disk, writes := d.writes + 1 })
        ∧ disk.bytes = Bytes.overwrite d.disk.bytes (sector.toNat * sectorSize) data
        ∧ ∀ k, k ≠ sector.toNat → disk.read k = d.disk.read k)
      ∧ d.reads.toNat = start.transfers false calls % UInt32.size
      ∧ d.writes.toNat = start.transfers true calls % UInt32.size
      ∧ d.disk.bytes = (List.range size.toNat).flatMap (start.contents calls) := by
  have h := Holds.serveAll name role declared size calls
  refine ⟨_, _, rfl, rfl, fun call => ?_, fun call e hrefused => ?_,
    fun sector buffer haccepted => ?_, fun sector data haccepted => ?_, ?_, ?_, ?_⟩
  · rw [refusal?_eq_none_iff, length_blank, ← UInt32.lt_iff_toNat_lt]
    rfl
  · exact serve_of_refused ((h.refusal?_eq call).trans hrefused)
  · obtain ⟨contents, hget, hserve⟩ := serve_read ((h.refusal?_eq _).trans haccepted)
    rw [hserve, Disk.slice_bytes hget, h.bytes_eq _ _ hget]
    exact ⟨rfl, rfl⟩
  · have hrefusal := (h.refusal?_eq _).trans haccepted
    obtain ⟨-, -, -, hin⟩ := refusal?_eq_none_iff.mp hrefusal
    obtain ⟨hlength, hserve⟩ := serve_write hrefusal
    exact ⟨_, hserve, Disk.bytes_set hin _, fun _ hne => Disk.read_of_write_ne (if_pos hin) hne⟩
  · rw [h.reads]
    exact UInt32.toNat_ofNat ..
  · rw [h.writes]
    exact UInt32.toNat_ofNat ..
  · rw [h.disk_bytes, length_blank]

/-- A sector that is declared but not on the disk is refused by the disk. -/
example : (blank "ram0" .foreign 4 2).refusal? (.read 3 (.replicate sectorSize 7))
    = some .readFailed := by decide +kernel

end BlockDevice

end DemandPaging

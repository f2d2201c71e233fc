import DemandPaging.Bytes
/-!
# Files that pages come from and go back to

A file is a console stream, which has no bytes at all, or a byte string. It is
used through numbered handles that share the contents; the numbers are never
used again. A transfer answers how many bytes it moved, and fewer than asked for
is a short transfer: a read stops at the end of the file, a write extends the
file, with zeros in a gap.

A file that is kept in memory moves all that there is to move. Any other file is
kept on a `Medium`, which is a parameter: how many bytes it moves is for it to
say, from one call to the next. Every call to write is on record (`writes`), with
the answer that was given.

Named as in the kernel: `read_at` is `readInto`, `write_at` is `write`, `reopen`
is `open?`.
-/

namespace DemandPaging

/-- What a file holds. -/
inductive FileContents where
  /-- An input or output stream of the console. -/
  | console
  | bytes (data : Bytes)

/-- A call to write: where, what, and how many bytes the file said it took. -/
structure WriteCall where
  offset : Nat
  bytes : Bytes
  count : Nat
  deriving DecidableEq, Repr

/-- A medium that files are kept on, known by its answers only. They may be any numbers. What is
taken for granted is that a transfer moves the bytes from the front on, and that it answers how
many of them it moved. -/
structure Medium where
  /-- The length that is reported, if it is not that of the file. -/
  length? : Option Nat := none
  /-- How many of `count` bytes at `offset` are read. -/
  gives : (offset count : Nat) → Nat := fun _ count => count
  /-- How many bytes of a call are written, after the calls that were made before it. -/
  takes : (before : List WriteCall) → (offset : Nat) → (bytes : Bytes) → Nat :=
    fun _ _ bytes => bytes.length
  /-- Whether the file can be opened once more. -/
  reopens : Bool := true

/-- A file with its open handles. -/
structure OpenFile where
  contents : FileContents
  /-- The open handles. A file is created with handle `0` open. -/
  handles : List Nat := [0]
  /-- The number of the next handle. -/
  nextHandle : Nat := 1
  /-- The medium that the file is kept on, if it is not kept in memory. -/
  medium? : Option Medium := none
  /-- The calls to write that were made so far. -/
  writes : List WriteCall := []

/-- A handle of the file with the given index. -/
structure FileRef where
  file : Nat
  handle : Nat
  deriving DecidableEq, Repr

namespace OpenFile

/-- A file with the given bytes. -/
def ofBytes (data : Bytes) : OpenFile := { contents := .bytes data }

/-- A console stream. -/
def console : OpenFile := { contents := .console }

instance : Inhabited OpenFile := ⟨console⟩

/-- Whether the file is a console stream. -/
def isConsole (f : OpenFile) : Bool :=
  match f.contents with
  | .console => true
  | .bytes _ => false

/-- The bytes that the file holds, whatever length it reports. -/
def data (f : OpenFile) : Bytes :=
  match f.contents with
  | .console => []
  | .bytes data => data

/-- The length that the file reports. -/
def length (f : OpenFile) : Nat :=
  match f.medium?.bind Medium.length? with
  | some length => length
  | none => f.data.length

/-- How many of `count` bytes at `offset` the file is ready to give. -/
def gives (f : OpenFile) (offset count : Nat) : Nat :=
  match f.medium? with
  | some medium => min count (medium.gives offset count)
  | none => count

/-- How many bytes of `patch` the file is ready to take at `offset`. -/
def takes (f : OpenFile) (offset : Nat) (patch : Bytes) : Nat :=
  match f.medium? with
  | some medium => min patch.length (medium.takes f.writes offset patch)
  | none => patch.length

/-- Read `count` bytes at `offset`, or as many of them as the file gives. -/
def read (f : OpenFile) (offset count : Nat) : Bytes :=
  Bytes.slice f.data offset (f.gives offset count)

/-- Read at `offset` over the front of a buffer, answering how many bytes the file gave and the
buffer afterwards. -/
def readInto (f : OpenFile) (offset : Nat) (buffer : Bytes) : Nat × Bytes :=
  let bytes := f.read offset buffer.length
  (bytes.length, Bytes.overwrite buffer 0 bytes)

/-- The file with one more call on record. -/
def record (f : OpenFile) (offset : Nat) (patch : Bytes) (count : Nat) : OpenFile :=
  { f with writes := f.writes ++ [⟨offset, patch, count⟩] }

/-- What the file holds after the first `count` bytes of `patch` went to `offset`. A medium that
takes nothing leaves the file as it is. -/
def store (f : OpenFile) (offset : Nat) (patch : Bytes) (count : Nat) : FileContents :=
  match f.contents with
  | .console => .console
  | .bytes data =>
    if f.medium?.isSome && count == 0 then .bytes data
    else .bytes (Bytes.overwrite data offset (patch.take count))

/-- Write `patch` at `offset`, answering how many bytes were written. -/
def write (f : OpenFile) (offset : Nat) (patch : Bytes) : Nat × OpenFile :=
  let count := if f.isConsole then 0 else f.takes offset patch
  (count, { f.record offset patch count with contents := f.store offset patch count })

/-- Whether the file can be opened once more. -/
def reopens (f : OpenFile) : Bool :=
  match f.medium? with
  | some medium => medium.reopens
  | none => true

/-- Open one more handle, if the file allows it. -/
def open? (f : OpenFile) : Option (Nat × OpenFile) :=
  if f.reopens then
    some (f.nextHandle,
      { f with handles := f.handles ++ [f.nextHandle], nextHandle := f.nextHandle + 1 })
  else none

/-- Close a handle. -/
def close (f : OpenFile) (handle : Nat) : OpenFile :=
  { f with handles := f.handles.erase handle }

/-- Every call to write is put on record, with its answer. -/
theorem writes_write (f : OpenFile) (offset : Nat) (patch : Bytes) :
    (f.write offset patch).2.writes = f.writes ++ [⟨offset, patch, (f.write offset patch).1⟩] := rfl

/-- A file in memory gives what is asked for. -/
theorem gives_of_memory {f : OpenFile} (h : f.medium? = none) (offset count : Nat) :
    f.gives offset count = count := by
  unfold gives
  rw [h]

theorem gives_le (f : OpenFile) (offset count : Nat) : f.gives offset count ≤ count := by
  unfold gives
  split
  · exact Nat.min_le_left ..
  · exact Nat.le_refl _

/-- A file in memory takes what it is given. -/
theorem takes_of_memory {f : OpenFile} (h : f.medium? = none) (offset : Nat) (patch : Bytes) :
    f.takes offset patch = patch.length := by
  unfold takes
  rw [h]

end OpenFile

end DemandPaging

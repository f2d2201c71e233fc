import DemandPaging.Frames.SecondChance
/-!
# The state of the pager

Everything that demand paging works on, in one value: the frames, the swap store,
the address spaces, and the files that pages come from. Spaces and files are known
by their place in a list that only ever grows.

In the kernel the pager is `VirtualMemory`, with its `VmConfig`, and `addSpace` is
`create_address_space`. Spaces and files are held there by counted references, which is
what their numbers stand for here.
-/

namespace DemandPaging

/-- What can be set when the system starts. -/
structure PagerConfig where
  /-- How far below `userTop` a user stack may grow, in bytes. -/
  stackLimit : Nat := defaultStackLimit
  /-- How far below the stack pointer an access still counts as one to the stack.
  Pushing all registers touches 32 bytes before the pointer moves. -/
  stackSlack : Nat := 32
  /-- How often the clock goes round before it gives up. -/
  clockRevolutions : Nat := 3
  /-- What the build does with numbers that do not fit in a word. -/
  overflow : Overflow := .wraps

/-- The state of the pager over a pool of `n` frames. -/
structure Pager (n : Nat) where
  frames : FrameTable n
  swap : SwapArea
  config : PagerConfig
  files : Array OpenFile := #[]
  spaces : Spaces := #[]

namespace Pager

variable {n : Nat}

/-- A pager without address spaces and files. The device must be one for swapping. -/
def create (pool : FramePool n) (device : BlockDevice) (config : PagerConfig) :
    Except Fatal (Pager n) :=
  match SwapArea.create device with
  | .ok swap =>
    .ok { frames := FrameTable.create pool config.clockRevolutions, swap := swap, config := config }
  | .error fatal => .error fatal

/-- An address space by its place. -/
def space (p : Pager n) (id : SpaceId) : AddressSpace := p.spaces.lookup id

/-- The file with the given index; where there is none, one without bytes. -/
def file (p : Pager n) (index : Nat) : OpenFile := p.files.getD index default

/-- Change one address space. -/
def updateSpace (p : Pager n) (id : SpaceId) (f : AddressSpace → AddressSpace) : Pager n :=
  { p with spaces := p.spaces.update id f }

/-- Change the page directory of one address space. -/
def updateDirectory (p : Pager n) (id : SpaceId) (f : PageDirectory → PageDirectory) : Pager n :=
  p.updateSpace id fun s => { s with directory := f s.directory }

/-- Change the descriptors of one address space. -/
def updateDescriptors (p : Pager n) (id : SpaceId) (f : DescriptorTable → DescriptorTable) :
    Pager n :=
  p.updateSpace id fun s => { s with descriptors := f s.descriptors }

/-- Change one file. -/
def updateFile (p : Pager n) (index : Nat) (f : OpenFile → OpenFile) : Pager n :=
  { p with files := p.files.modify index f }

/-- The contents of a frame. -/
def page (p : Pager n) (i : Fin n) : Page := p.frames.pool.contents.get i

/-- Replace the contents of a frame. -/
def writePage (p : Pager n) (i : Fin n) (page : Page) : Pager n :=
  { p with frames := p.frames.write i page }

/-- Assign a frame, or unassign it. -/
def assign (p : Pager n) (i : Fin n) (a : Option Assignment) : Pager n :=
  { p with frames := p.frames.assign i a }

/-- Add an address space without pages and mappings, answering its place. -/
def addSpace (p : Pager n) (pid : UInt16) (directory : PageDirectory) : SpaceId × Pager n :=
  (p.spaces.size, { p with spaces := p.spaces.push { pid := pid, directory := directory } })

/-- Add a file, answering its index. -/
def addFile (p : Pager n) (file : OpenFile) : Nat × Pager n :=
  (p.files.size, { p with files := p.files.push file })

end Pager

end DemandPaging

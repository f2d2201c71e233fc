import DemandPaging.Text
/-!
# How operations fail

Three kinds of failure, from the bottom up. A `DeviceError` is a transfer that a
block device refused. A `PagingError` is what an operation of the pager reports
to its caller, who may go on. A `Fatal` is a broken rule after which there is no
state to go on with: the system stops.

Each type has one function that gives the wording.

In the kernel these are `BlockError`, `VmError` and the panics that carry a text.
-/

namespace DemandPaging

/-- Why a block device refused a transfer. -/
inductive DeviceError where
  /-- The sector number is not below the declared size. -/
  | sectorOutOfBounds
  /-- The buffer is not exactly one sector long. -/
  | bufferInvalid
  /-- The medium ends before the sector that was to be read. -/
  | readFailed
  /-- The medium ends before the sector that was to be written. -/
  | writeFailed
  /-- The device belongs to another operating system. -/
  | foreignWrite
  deriving DecidableEq, Repr

/-- The wording of a device error. -/
def DeviceError.message : DeviceError → String
  | .sectorOutOfBounds => "sector out of bounds (greater than the block size)"
  | .bufferInvalid => "invalid buffer size (not `BLOCK_SECTOR_SIZE`)"
  | .readFailed => "error reading from the block device"
  | .writeFailed => "error writing to the block device"
  | .foreignWrite => "cannot write to foreign block"

/-- Why an operation of the pager failed. -/
inductive PagingError where
  /-- No descriptor covers the address. -/
  | notFound
  /-- The page already has a descriptor or a hardware mapping. -/
  | alreadyMapped
  /-- The address is null or outside user space. -/
  | badAddress
  | misaligned
  /-- Console streams have no pages to map. -/
  | consoleMapping
  | emptyFile
  /-- A file gave fewer bytes than a page needed. -/
  | shortRead (expected actual : Nat)
  /-- A file took fewer bytes than a page holds. -/
  | shortWrite (expected actual : Nat)
  | reopenFailed
  /-- The page has no frame. -/
  | notResident
  | readOnly
  /-- A descriptor or frame is not in a state that the operation accepts. -/
  | invalidState
  | swapExhausted
  /-- Every frame was pinned, or in use throughout the whole sweep. -/
  | noVictim
  | device (cause : DeviceError)
  deriving DecidableEq, Repr

/-- The wording of a paging error. -/
def PagingError.message : PagingError → String
  | .notFound => "no page descriptor for address"
  | .alreadyMapped => "page is already mapped"
  | .badAddress => "address is null or outside user space"
  | .misaligned => "address is not page aligned"
  | .consoleMapping => "console streams cannot be memory mapped"
  | .emptyFile => "cannot map an empty file"
  | .shortRead expected actual =>
    "short read: expected " ++ toString expected ++ " bytes, got " ++ toString actual
  | .shortWrite expected actual =>
    "short write: expected " ++ toString expected ++ " bytes, wrote " ++ toString actual
  | .reopenFailed => "could not reopen file for mapping"
  | .notResident => "page is not resident"
  | .readOnly => "write to read-only page"
  | .invalidState => "page in unexpected state"
  | .swapExhausted => "swap space exhausted"
  | .noVictim => "no evictable frame after a full clock sweep"
  | .device cause => "block device error: " ++ cause.message

/-- A broken rule that stops the system. -/
inductive Fatal where
  /-- A bitmap was asked for a bit that it does not have. -/
  | bitOutOfRange (index length : Nat)
  /-- A page frame pool must start on a page boundary. -/
  | poolNotAligned (base : Nat)
  /-- An address that lies in no frame of the pool was used as a frame. -/
  | outsidePool (address : Nat)
  /-- A frame that is not handed out was returned to the pool. -/
  | doubleFree (address : Nat)
  /-- A frame was freed by an address space that it is not assigned to. -/
  | notOwner (address : Nat)
  /-- A page table entry has twenty bits for the number of a frame. -/
  | frameNumberTooLarge (address : Nat)
  /-- Swapping goes to swap devices only. -/
  | notSwapDevice (name : String)
  /-- A swap slot that holds no page was released. -/
  | slotNotClaimed (slot : Nat)
  /-- No frame is free and none can be reclaimed. -/
  | outOfFrames (upage pid : Nat) (cause : PagingError)
  /-- A page that its descriptor calls absent has a hardware mapping. -/
  | mappedWithoutDescriptor (upage pid : Nat)
  /-- A page that its descriptor calls present can be neither pinned nor loaded,
  so a thread that needs it would wait for ever. -/
  | neverResident (upage pid : Nat)
  /-- A position beyond the end of a page or a byte string was used. -/
  | indexOutOfRange (index length : Nat)
  /-- A number did not fit in its word, and the build looks for that. -/
  | overflow
  | installedTwice
  | notInstalled
  deriving DecidableEq, Repr

/-- The wording of a fatal failure. The failures that say no more than that the
rules inside were broken share one word. -/
def Fatal.message : Fatal → String
  | .bitOutOfRange index length =>
    "bit " ++ toString index ++ " out of range (" ++ toString length ++ ")"
  | .poolNotAligned base => "frame pool base " ++ hexUpper base ++ " not aligned"
  | .outsidePool address => hexUpper address ++ " outside pool"
  | .doubleFree address => "double free of frame " ++ hexUpper address
  | .notOwner address =>
    "frame " ++ hexUpper address ++ " freed by a process that does not own it"
  | .frameNumberTooLarge _ => "internal"
  | .notSwapDevice name => name ++ " is not a swap device"
  | .slotNotClaimed slot => "swap slot " ++ toString slot ++ " released twice"
  | .outOfFrames upage pid cause =>
    "cannot allocate a frame for " ++ hexUpper upage ++ " of process " ++ toString pid ++ ": "
      ++ cause.message
  | .mappedWithoutDescriptor upage pid =>
    hexUpper upage ++ " of process " ++ toString pid ++ " mapped without a loaded descriptor"
  | .neverResident _ _ => "internal"
  | .indexOutOfRange _ _ => "internal"
  | .overflow => "internal"
  | .installedTwice => "virtual memory initialized twice"
  | .notInstalled => "virtual memory not initialized"

end DemandPaging

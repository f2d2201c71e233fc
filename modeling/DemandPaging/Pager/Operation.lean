import DemandPaging.Pager.Lifetime
import DemandPaging.Pager.UserCopy
/-!
# Operations and runs

What processes and the hardware can ask of the pager, as data, so that one can
speak of every sequence of requests. An error does not end a run; a fatal failure
does, and leaves no state.

In the kernel the operations are the methods of `VirtualMemory` and `FrameTable` that
others call; `setAccessed` and `setDirty` are what the hardware does to a page table
entry.
-/

namespace DemandPaging

open PagerAction

variable {n : Nat}

/-- Describe a program segment in a space. -/
def addSegment (id : SpaceId) (source : FileRef) (offset upage readBytes zeroBytes : Nat)
    (writable : Bool) : PagerAction n Unit := do
  let overflow ← read (·.config.overflow)
  let described ← read fun p => (p.space id).descriptors.describeSegment overflow source offset
    upage readBytes zeroBytes writable
  let (result, descriptors) ← ofFatal described
  update fun p => p.updateDescriptors id fun _ => descriptors
  ofResult result

/-- A request. -/
inductive Operation where
  /-- An access to a page that is not present. -/
  | fault (space : SpaceId) (address stackPointer : Nat)
  | load (space : SpaceId) (address : Nat)
  | read (space : SpaceId) (address length : Nat)
  /-- A read that brings all bytes or none. -/
  | fetch (space : SpaceId) (address length : Nat)
  | write (space : SpaceId) (address : Nat) (bytes : Bytes)
  | mapFile (space : SpaceId) (file base : Nat)
  | unmapFile (space : SpaceId) (mapping : Nat)
  | addSegment (space : SpaceId) (source : FileRef) (offset upage readBytes zeroBytes : Nat)
    (writable : Bool)
  | pin (space : SpaceId) (upage : Nat)
  | unpin (space : SpaceId) (upage : Nat)
  /-- The hardware notes an access to a mapped page, or the note is cleared. -/
  | setAccessed (space : SpaceId) (upage : Nat) (value : Bool)
  /-- The hardware notes a write to a mapped page, or the note is cleared. -/
  | setDirty (space : SpaceId) (upage : Nat) (value : Bool)
  | exit (space : SpaceId)

/-- The answer to a request that did not fail. -/
inductive Answer where
  | nothing
  /-- The physical address of a frame. -/
  | frame (address : Nat)
  | mapping (id : Nat)
  | bytes (bytes : Bytes)
  | copied (copied : Copied)

/-- Carry out a request. -/
def Operation.perform : Operation → PagerAction n Answer
  | .fault space address stackPointer => do
    handleFault space address stackPointer
    return .nothing
  | .load space address => do
    loadAt space address
    return .nothing
  | .read space address length => .copied <$> readUser space address length
  | .fetch space address length => .bytes <$> fetchUser space address length
  | .write space address bytes => do
    writeUser space address bytes
    return .nothing
  | .mapFile space file base => .mapping <$> DemandPaging.mapFile space file base
  | .unmapFile space mapping => do
    DemandPaging.unmapFile space mapping
    return .nothing
  | .addSegment space source offset upage readBytes zeroBytes writable => do
    DemandPaging.addSegment space source offset upage readBytes zeroBytes writable
    return .nothing
  | .pin space upage => do
    let i ← DemandPaging.pin space upage
    .frame <$> PagerAction.read fun p => p.frames.pool.frameAddress i
  | .unpin space upage => do
    DemandPaging.unpin space upage
    return .nothing
  | .setAccessed space upage value => do
    update fun p => p.updateDirectory space (·.setFlag .accessed upage value)
    return .nothing
  | .setDirty space upage value => do
    update fun p => p.updateDirectory space (·.setFlag .dirty upage value)
    return .nothing
  | .exit space => do
    exitSpace space
    return .nothing

/-- Carry out requests in order and collect the answers and errors. -/
def Operation.performAll : List Operation → PagerAction n (List (Except PagingError Answer))
  | [] => return []
  | op :: rest => do
    let first ← attempt op.perform
    let later ← performAll rest
    return first :: later

/-- The state after a run of requests, unless one of them was fatal. -/
def Pager.after (p : Pager n) (ops : List Operation) : Except Fatal (Pager n) :=
  match (Operation.performAll ops).run p with
  | .done _ p => .ok p
  | .failed _ p => .ok p
  | .fatal reason => .error reason

end DemandPaging

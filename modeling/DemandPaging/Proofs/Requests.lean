import DemandPaging.Pager.Operation
import DemandPaging.Proofs.SegmentWords
import DemandPaging.Proofs.Copying
import DemandPaging.Proofs.Unmapping
/-!
# What each request does

`perform_spec` says of every request that it is a sequence of moves. It names the changes
that the request can make (`Operation.Makes`), the states between the pages of a copy
(`Operation.Passes`) and the page for which the system stops when it does
(`Operation.Asks`).

A request must be one that the pager is ever asked: of a space that exists, and a segment
only where it lies in user space and nothing is mapped (`Operation.Permitted`).
-/

namespace DemandPaging

open Pager PagerAction Outcome

variable {n : Nat}

namespace Operation

/-- The space that a request is about. -/
def space : Operation → SpaceId
  | .fault space _ _ | .load space _ | .read space _ _ | .fetch space _ _ | .write space _ _
  | .mapFile space _ _ | .unmapFile space _ | .addSegment space _ _ _ _ _ _ | .pin space _
  | .unpin space _ | .setAccessed space _ _ | .setDirty space _ _ | .exit space => space

/-- Whether a request is made of a space that exists and, if a segment is described, of
pages of user space of which none is mapped. -/
def Permitted (p : Pager n) (op : Operation) : Prop :=
  op.space < p.spaces.size ∧ match op with
    | .addSegment id _ _ upage readBytes zeroBytes _ =>
      upage + (readBytes + zeroBytes) ≤ userTop
        ∧ ∀ u, upage ≤ u → u < upage + (readBytes + zeroBytes) →
          (p.space id).directory.isMapped u = false
    | _ => True

/-- To look at the addresses of a range is to look at its pages. -/
theorem forall_pageNumber_iff {start size : Nat} {P : Nat → Prop} :
    (∀ k, k < pagesFor (offsetInPage start + size) → size = 0 ∨ P (pageNumber start + k))
      ↔ ∀ u, start ≤ u → u < start + size → P (pageNumber u) := by
  simp only [pagesFor, offsetInPage, pageNumber, pageSize]
  constructor
  · intro h u hlow hhigh
    rcases h (u / 4096 - start / 4096) (by omega) with hempty | hpage
    · omega
    · rwa [Nat.add_sub_cancel' (Nat.div_le_div_right hlow)] at hpage
  · intro h k hk
    by_cases hempty : size = 0
    · exact Or.inl hempty
    · -- the first address of the range that the page has
      have hpage := h (max start ((start / 4096 + k) * 4096)) (by omega) (by omega)
      rw [show max start ((start / 4096 + k) * 4096) / 4096 = start / 4096 + k by omega] at hpage
      exact Or.inr hpage

instance decidablePermitted (p : Pager n) : (op : Operation) → Decidable (op.Permitted p)
  | .addSegment id _ _ upage readBytes zeroBytes _ =>
    decidable_of_iff (id < p.spaces.size ∧ upage + (readBytes + zeroBytes) ≤ userTop
        ∧ ∀ k, k < pagesFor (offsetInPage upage + (readBytes + zeroBytes)) →
          readBytes + zeroBytes = 0
            ∨ ((p.space id).directory.entries.find? (pageNumber upage + k)).isSome = false)
      (and_congr_right' (and_congr_right' (forall_pageNumber_iff
        (P := fun number => ((p.space id).directory.entries.find? number).isSome = false))))
  | .fault id _ _ | .load id _ | .read id _ _ | .fetch id _ _ | .write id _ _ | .mapFile id _ _
  | .unmapFile id _ | .pin id _ | .unpin id _ | .setAccessed id _ _ | .setDirty id _ _ | .exit id =>
    inferInstanceAs (Decidable (id < p.spaces.size ∧ True))

/-- The states that a request goes through: after some of the pages of a copy, and in the
end. -/
inductive Passes (p : Pager n) : Operation → Pager n → Prop where
  | ended {op : Operation} {r : Pager n} (h : (op.perform.run p).state? = some r) : Passes p op r
  | read {id : SpaceId} {address length m : Nat} {r : Pager n} (hrange : IsUserRange address length)
      (h : ((readChunks id ((chunks address length).take m) []).run p).state? = some r) :
      Passes p (.read id address length) r
  | fetch {id : SpaceId} {address length m : Nat} {r : Pager n}
      (hrange : IsUserRange address length)
      (h : ((readChunks id ((chunks address length).take m) []).run p).state? = some r) :
      Passes p (.fetch id address length) r
  | write {id : SpaceId} {address m : Nat} {bytes : Bytes} {r : Pager n}
      (hrange : IsUserRange address bytes.length)
      (h : ((writeChunks id ((chunks address bytes.length).take m) bytes).run p).state? = some r) :
      Passes p (.write id address bytes) r

/-- The page that a request needs a frame for, and the state in which it does. -/
inductive Asks (p : Pager n) : Operation → Pager n → SpaceId → Nat → Prop where
  | fault {id : SpaceId} {address stackPointer : Nat} :
      Asks p (.fault id address stackPointer) p id (pageBase address)
  | load {id : SpaceId} {address : Nat} : Asks p (.load id address) p id (pageBase address)
  | read {id : SpaceId} {address length : Nat} {front rest : List Chunk} {c : Chunk} {bytes : Bytes}
      {q : Pager n} (hchunks : chunks address length = front ++ c :: rest)
      (hfront : (readChunks id front []).run p = .done ⟨bytes, .ok ()⟩ q) :
      Asks p (.read id address length) q id c.upage
  | fetch {id : SpaceId} {address length : Nat} {front rest : List Chunk} {c : Chunk}
      {bytes : Bytes} {q : Pager n} (hchunks : chunks address length = front ++ c :: rest)
      (hfront : (readChunks id front []).run p = .done ⟨bytes, .ok ()⟩ q) :
      Asks p (.fetch id address length) q id c.upage
  | write {id : SpaceId} {address : Nat} {bytes : Bytes} {front rest : List Chunk} {c : Chunk}
      {q : Pager n} (hchunks : chunks address bytes.length = front ++ c :: rest)
      (hfront : (writeChunks id front bytes).run p = .done () q) :
      Asks p (.write id address bytes) q id c.upage

/-- Whether a request may leave everything as it is. -/
def MayRest : Operation → Prop
  | .write _ address bytes => ¬ IsUserRange address bytes.length
  | .unmapFile .. | .exit _ => False
  | _ => True

/-- The changes that a request may make. -/
inductive Makes (p : Pager n) : Operation → List Change → Prop where
  | nothing {op : Operation} (hop : op.MayRest) : Makes p op []
  | grown {id : SpaceId} {address stackPointer : Nat}
      (hd : p.descriptor? id (pageBase address) = none)
      (hnone : p.address? id (pageBase address) = none) :
      Makes p (.fault id address stackPointer) [.grown id (pageBase address)]
  | stored {id : SpaceId} {address : Nat} {bytes : Bytes} {front rest : List Chunk}
      (hrange : IsUserRange address bytes.length)
      (hchunks : chunks address bytes.length = front ++ rest)
      (hcount : storedCount id (chunks address bytes.length) bytes p = totalCount front) :
      Makes p (.write id address bytes) (storesOf id front bytes)
  | mapped {id : SpaceId} {index base handle : Nat}
      (hvacant : (p.space id).isVacantRange (pagesFor (p.file index).length) base = true) :
      Makes p (.mapFile id index base)
        [.mapped id ⟨⟨index, handle⟩, base, pagesFor (p.file index).length⟩]
  | unmapped {id : SpaceId} {m : Nat} : Makes p (.unmapFile id m) (unmapChanges p id m)
  | described {id : SpaceId} {source : FileRef} {offset upage readBytes zeroBytes k : Nat}
      {writable : Bool} (hk : k ≤ (readBytes + zeroBytes) / pageSize)
      (hvacant : ∀ i, i < k → p.descriptor? id (upage + i * pageSize) = none) :
      Makes p (.addSegment id source offset upage readBytes zeroBytes writable)
        ((List.range k).map fun i =>
          .described id (DescriptorTable.segmentPage source offset upage readBytes writable i))
  | dirtied {id : SpaceId} {upage : Nat} {value : Bool} :
      Makes p (.setDirty id upage value) [.dirtied id upage value]
  | exited {id : SpaceId} :
      Makes p (.exit id) ((p.space id).mappings.ids.flatMap (unmapChanges p id) ++ [.vacated id])

end Operation

/-- Why a file cannot be mapped: its length or the address is wrong, or the range is taken, or it
cannot be opened once more. -/
inductive MapFails (p : Pager n) (id : SpaceId) (index base : Nat) : PagingError → Prop where
  | fault {e : PagingError} (h : mappingFault? (p.file index) base = some e) :
      MapFails p id index base e
  | taken (hfault : mappingFault? (p.file index) base = none)
      (h : (p.space id).isVacantRange (pagesFor (p.file index).length) base = false) :
      MapFails p id index base .alreadyMapped
  | closed (h : ¬ (p.file index).IsPlain) : MapFails p id index base .reopenFailed

theorem mapFile_spec {p : Pager n} {id : SpaceId} (hid : id < p.spaces.size) (index base : Nat) :
    ((mapFile id index base).run p).Meets
      (fun m q => ∃ handle, Visible p none
          (.mapped id ⟨⟨index, handle⟩, base, pagesFor (p.file index).length⟩) q none
        ∧ m = (p.space id).mappings.nextId
        ∧ (p.space id).isVacantRange (pagesFor (p.file index).length) base = true)
      (fun e q => q = p ∧ MapFails p id index base e)
      (fun _ => False) := by
  unfold mapFile
  simp only [run_bind, run_read]
  split
  next e hfault => exact ⟨rfl, .fault hfault⟩
  next hfault =>
    split
    next htaken => exact ⟨rfl, .taken hfault (by simpa using htaken)⟩
    next hvacant =>
      split
      next hopen =>
        refine ⟨rfl, .closed fun hplain => ?_⟩
        unfold OpenFile.open? OpenFile.reopens at hopen
        rw [hplain.medium?] at hopen
        cases hopen
      next handle file hopen =>
        have hvacant : (p.space id).isVacantRange (pagesFor (p.file index).length) base = true := by
          simpa using hvacant
        simp only [addPages_of_isVacantRange hvacant, run_bind, run_update, run_pure]
        refine ⟨handle, ?_, rfl, hvacant⟩
        show Visible p none _ ((p.updateFile index fun _ => file).updateSpace id _) none
        rw [updateSpace_eq]
        exact .mapped hid hfault hvacant hopen

theorem putDescriptors_self (p : Pager n) (id : SpaceId) :
    p.putSpace id { p.space id with descriptors := (p.space id).descriptors } = p :=
  putSpace_self p id

/-- A page of a segment can be described: it lies in user space and nothing is mapped there. -/
structure Pager.CanDescribe (p : Pager n) (id : SpaceId) (d : Descriptor) : Prop where
  aligned : PageAligned d.upage
  user : IsUserAddress d.upage
  backing : ∃ w, d.backing = .privateFile w
  absent : d.loaded = false
  unmapped : p.address? id d.upage = none

namespace Pager.CanDescribe

variable {p : Pager n} {id : SpaceId} {d : Descriptor}

/-- A page that can be described is, unless it has a descriptor. -/
theorem visible (h : p.CanDescribe id d) (hid : id < p.spaces.size)
    (hd : p.descriptor? id d.upage = none) :
    Visible p none (.described id d) (p.putSpace id { p.space id with
      descriptors := (p.space id).descriptors.insert d.upage d }) none := by
  obtain ⟨w, hb⟩ := h.backing
  exact .described hid h.aligned h.user hb h.absent hd h.unmapped

/-- Describing pages maps nothing, so the others can still be described. -/
theorem putSpace (h : p.CanDescribe id d) (hid : id < p.spaces.size) (t : DescriptorTable) :
    (p.putSpace id { p.space id with descriptors := t }).CanDescribe id d := by
  refine ⟨h.aligned, h.user, h.backing, h.absent, ?_⟩
  unfold address?
  rw [space_putSpace hid]
  exact h.unmapped

end Pager.CanDescribe

/-- Pages of a segment are described one by one, up to the first that has a descriptor. -/
theorem addPages_chain {p : Pager n} {id : SpaceId} (page : Nat → Descriptor) (count i : Nat)
    (hid : id < p.spaces.size)
    (hpage : ∀ j, i ≤ j → j < i + count → p.CanDescribe id (page j)) :
    ∃ k, k ≤ count
      ∧ (∀ S, Chain S p none ((List.range' i k).map fun j => .described id (page j))
          (p.putSpace id { p.space id with
            descriptors :=
              (DescriptorTable.addPages page count i (p.space id).descriptors).2 }) none)
      ∧ ∀ j, i ≤ j → j < i + k → p.descriptor? id (page j).upage = none := by
  induction count generalizing p i with
  | zero =>
    refine ⟨0, Nat.le_refl _, ?_, fun j h h' => absurd h' (by omega)⟩
    intro S
    unfold DescriptorTable.addPages
    rw [putDescriptors_self]
    exact .refl
  | succ count ih =>
    cases hd : p.descriptor? id (page i).upage with
    | some d =>
      rw [DescriptorTable.addPages_of_described_first hd]
      refine ⟨0, Nat.zero_le _, ?_, fun j h h' => absurd h' (by omega)⟩
      intro S
      simp only
      rw [putDescriptors_self]
      exact .refl
    | none =>
      rw [DescriptorTable.addPages_of_vacant_first hd]
      obtain ⟨q, hq⟩ : ∃ q, q = p.putSpace id { p.space id with
        descriptors := (p.space id).descriptors.insert (page i).upage (page i) } := ⟨_, rfl⟩
      have hmove : Visible p none (.described id (page i)) q none :=
        hq ▸ (hpage i (Nat.le_refl _) (by omega)).visible hid hd
      have hspace : q.space id = { p.space id with
          descriptors := (p.space id).descriptors.insert (page i).upage (page i) } := by
        rw [hq, space_putSpace hid]
      have hqid : id < q.spaces.size := by
        rw [hq]
        show id < (p.spaces.put id _).size
        rwa [Spaces.size_put]
      obtain ⟨k, hk, hchain, hvacant⟩ := ih (i + 1) hqid fun j hj hj' =>
        hq ▸ (hpage j (by omega) (by omega)).putSpace hid _
      refine ⟨k + 1, Nat.succ_le_succ hk, ?_, ?_⟩
      · intro S
        have hrest := (Chain.of_visible hmove).trans (hchain S)
        rw [hspace] at hrest
        rw [List.range'_succ, List.map_cons]
        rwa [hq, putSpace_putSpace] at hrest
      · intro j hj hj'
        by_cases hji : j = i
        · rw [hji, hd]
        · have hjnone := hvacant j (by omega) (by omega)
          unfold descriptor? at hjnone ⊢
          rw [hspace, KeyedTable.find?_insert] at hjnone
          split at hjnone
          next => cases hjnone
          next => exact hjnone

/-- Every page of a permitted segment can be described. -/
theorem canDescribe_segmentPage {p : Pager n} {id : SpaceId} {source : FileRef}
    {offset upage readBytes zeroBytes j : Nat} {writable : Bool} (hupage : PageAligned upage)
    (htop : upage + (readBytes + zeroBytes) ≤ userTop)
    (hunmapped : ∀ u, upage ≤ u → u < upage + (readBytes + zeroBytes) →
      (p.space id).directory.isMapped u = false)
    (hj : j < (readBytes + zeroBytes) / pageSize) :
    p.CanDescribe id (DescriptorTable.segmentPage source offset upage readBytes writable j) := by
  have hpos := pageSize_pos
  have hle := Nat.le_trans (mul_add_pageSize_le hj) (Nat.div_mul_le_self _ _)
  have hplace : (DescriptorTable.segmentPage source offset upage readBytes writable j).upage
      = upage + j * pageSize := rfl
  refine ⟨hplace ▸ hupage.add_mul j, ?_, ⟨_, rfl⟩, rfl, ?_⟩
  · rw [hplace]
    unfold IsUserAddress
    omega
  · have hfree := hunmapped (upage + j * pageSize) (by omega) (by omega)
    rw [PageDirectory.isMapped_eq] at hfree
    rw [hplace]
    simpa [address?] using hfree

/-- A segment goes on in its file beyond the places that a word can name, and the build stops the
system for that. -/
inductive Operation.OverflowsFile (p : Pager n) : Operation → Fatal → Prop where
  | intro {id : SpaceId} {source : FileRef} {offset upage readBytes zeroBytes : Nat}
      {writable : Bool} (hstops : p.config.overflow = .stops)
      (hlimit : wordLimit ≤ offset + readBytes) :
      OverflowsFile p (.addSegment id source offset upage readBytes zeroBytes writable) .overflow

/-- The pages of a segment are described in the table of the space, or the system stops at a
number that does not fit in a word. -/
theorem run_addSegment_cases (id : SpaceId) (source : FileRef)
    (offset upage readBytes zeroBytes : Nat) (writable : Bool) (p : Pager n) :
    (∃ result t, (p.space id).descriptors.addSegment source offset upage readBytes zeroBytes
        writable = (result, t)
      ∧ (addSegment id source offset upage readBytes zeroBytes writable).run p
        = (ofResult result).run (p.putSpace id { p.space id with descriptors := t }))
      ∨ (addSegment id source offset upage readBytes zeroBytes writable).run p = .fatal .overflow
        ∧ p.config.overflow = .stops
        ∧ (wordLimit ≤ offset + readBytes ∨ wordLimit ≤ upage + (readBytes + zeroBytes)) := by
  unfold addSegment
  rcases DescriptorTable.describeSegment_cases p.config.overflow (p.space id).descriptors source
    offset upage readBytes zeroBytes writable with hdescribed | ⟨hfatal, hwhy⟩
  · left
    cases hadd : (p.space id).descriptors.addSegment source offset upage readBytes zeroBytes
      writable with
    | mk result t =>
      refine ⟨result, t, rfl, ?_⟩
      simp only [run_bind, run_read, run_update, hdescribed, hadd, ofFatal, run_pure,
        updateDescriptors, updateSpace_eq]
  · right
    refine ⟨?_, hwhy⟩
    simp only [run_bind, run_read, hfatal, ofFatal, run_stop]

theorem addSegment_spec {p : Pager n} {id : SpaceId} {source : FileRef}
    {offset upage readBytes zeroBytes : Nat} {writable : Bool}
    (hop : (Operation.addSegment id source offset upage readBytes zeroBytes writable).Permitted p) :
    ((addSegment id source offset upage readBytes zeroBytes writable).run p).Meets
      (fun _ q => ∃ cs, (∀ S, Chain S p none cs q none) ∧
        Operation.Makes p (.addSegment id source offset upage readBytes zeroBytes writable) cs)
      (fun _ q => ∃ cs, (∀ S, Chain S p none cs q none) ∧
        Operation.Makes p (.addSegment id source offset upage readBytes zeroBytes writable) cs)
      ((Operation.addSegment id source offset upage readBytes zeroBytes writable).OverflowsFile p) := by
  obtain ⟨hid, htop, hunmapped⟩ := hop
  have hid : id < p.spaces.size := hid
  rcases run_addSegment_cases id source offset upage readBytes zeroBytes writable p
    with ⟨result, t, hadd, hrun⟩ | ⟨hrun, hstops, hlimit⟩
  case inr =>
    have hword : userTop < wordLimit := by decide
    rw [hrun]
    exact .intro hstops (by omega)
  rw [hrun]
  unfold DescriptorTable.addSegment at hadd
  split at hadd
  next =>
    cases hadd
    rw [putDescriptors_self]
    exact ⟨[], fun _ => .refl, .nothing trivial⟩
  next haligned =>
    have hupage : PageAligned upage := Decidable.not_not.mp fun h => haligned (Or.inl h)
    obtain ⟨k, hk, hchain, hvacant⟩ := addPages_chain
      (DescriptorTable.segmentPage source offset upage readBytes writable)
      ((readBytes + zeroBytes) / pageSize) 0 hid fun j _ hj =>
        canDescribe_segmentPage hupage htop hunmapped (by omega)
    -- a segment that overlaps an old page stops there, and the pages before it stay described
    have hmakes : Operation.Makes p
        (.addSegment id source offset upage readBytes zeroBytes writable)
        ((List.range' 0 k).map fun i => .described id
          (DescriptorTable.segmentPage source offset upage readBytes writable i)) := by
      rw [← List.range_eq_range']
      exact .described hk fun i hi => hvacant i (Nat.zero_le _) (by omega)
    rw [hadd] at hchain
    cases result with
    | ok u => exact ⟨_, hchain, hmakes⟩
    | error e => exact ⟨_, hchain, hmakes⟩

/-! ## Copies -/

/-- The states that a copy out of user memory passes. -/
def ReadPasses (p : Pager n) (id : SpaceId) (address length : Nat) (r : Pager n) : Prop :=
  IsUserRange address length
    ∧ ∃ m, ((readChunks id ((chunks address length).take m) []).run p).state? = some r

/-- A copy out of user memory makes no change, and stops at a page of the range. -/
theorem readUser_spec {p : Pager n} (hp : p.Agrees none) (id : SpaceId) (address length : Nat) :
    ((readUser id address length).run p).Meets
      (fun _ q => Through (ReadPasses p id address length) p [] q)
      (fun _ _ => False)
      (StopsAt (chunks address length) (fun front q =>
        ∃ more, (readChunks id front []).run p = .done ⟨more, .ok ()⟩ q) id) := by
  unfold readUser
  split
  next hrange =>
    exact (readChunks_spec hp id _ _).mono (fun _ _ h => h.mono fun _ hr => ⟨hrange, hr⟩)
      (fun _ _ h => h) fun _ h => h
  next => exact Through.refl

theorem fetchUser_spec {p : Pager n} (hp : p.Agrees none) (id : SpaceId) (address length : Nat) :
    ((fetchUser id address length).run p).Meets
      (fun _ q => Through (ReadPasses p id address length) p [] q)
      (fun _ q => Through (ReadPasses p id address length) p [] q)
      (StopsAt (chunks address length) (fun front q =>
        ∃ more, (readChunks id front []).run p = .done ⟨more, .ok ()⟩ q) id) :=
  fetchUser_meets ((readUser_spec hp id address length).mono
    (fun _ _ h => ⟨fun _ => h, fun _ _ => h⟩) (fun _ _ h => h.elim) fun _ h => h)

/-- The states that a copy to user memory passes. -/
def WritePasses (p : Pager n) (id : SpaceId) (address : Nat) (bytes : Bytes) (r : Pager n) : Prop :=
  IsUserRange address bytes.length
    ∧ ∃ m, ((writeChunks id ((chunks address bytes.length).take m) bytes).run p).state? = some r

/-- A copy to user memory stores all of its bytes, or those up to the page that it cannot
reach. -/
theorem writeUser_spec {p : Pager n} (hp : p.Agrees none) (id : SpaceId) (address : Nat)
    (bytes : Bytes) :
    ((writeUser id address bytes).run p).Meets
      (fun _ q => ∃ cs, (Operation.write id address bytes).Makes p cs
        ∧ Through (WritePasses p id address bytes) p cs q)
      (fun _ q => ∃ cs, (Operation.write id address bytes).Makes p cs
        ∧ Through (WritePasses p id address bytes) p cs q)
      (StopsAt (chunks address bytes.length) (fun front q =>
        (writeChunks id front bytes).run p = .done () q) id) := by
  unfold writeUser
  split
  next hrange =>
    refine (writeChunks_spec hp id _ bytes).mono ?_ ?_ fun _ h => h
    · intro _ q h
      exact ⟨_, .stored hrange (List.append_nil _).symm h.2, h.1.mono fun _ hr => ⟨hrange, hr⟩⟩
    · intro _ q h
      obtain ⟨front, rest, hchunks, hthrough, hcount⟩ := h
      exact ⟨_, .stored hrange hchunks hcount, hthrough.mono fun _ hr => ⟨hrange, hr⟩⟩
  next hrange => exact ⟨[], .nothing hrange, .refl⟩

/-! ## All requests -/

/-- A request that is one step passes its end and nothing else. -/
theorem perform_of_leads {p : Pager n} {op : Operation} {X : Fatal → Prop}
    (h : (op.perform.run p).Meets (fun _ q => ∃ cs, op.Makes p cs ∧ ∃ o u, Leads o u p cs q)
      (fun _ q => ∃ cs, op.Makes p cs ∧ ∃ o u, Leads o u p cs q) X) :
    (op.perform.run p).Meets (fun _ q => ∃ cs, op.Makes p cs ∧ Through (op.Passes p) p cs q)
      (fun _ q => ∃ cs, op.Makes p cs ∧ Through (op.Passes p) p cs q) X := by
  have hended : ∀ r, (op.perform.run p).state? = some r → op.Passes p r := fun r => .ended
  revert h hended
  cases op.perform.run p with
  | done a q =>
    intro h hended
    obtain ⟨cs, hmakes, _, _, hleads⟩ := h
    exact ⟨cs, hmakes, .of_leads hleads (hended q rfl)⟩
  | failed e q =>
    intro h hended
    obtain ⟨cs, hmakes, _, _, hleads⟩ := h
    exact ⟨cs, hmakes, .of_leads hleads (hended q rfl)⟩
  | fatal reason => exact fun h _ => h

/-- Only a fault extends a stack. -/
theorem grown_not_mem_unmapChanges (p : Pager n) (id : SpaceId) (m : Nat) (o : SpaceId) (u : Nat) :
    .grown o u ∉ unmapChanges p id m := by
  unfold unmapChanges
  split
  next => exact List.not_mem_nil
  next => simp

/-- What every request does: it takes steps through the states that it passes. -/
theorem perform_spec {p : Pager n} {op : Operation} (hp : p.Agrees none) (hop : op.Permitted p) :
    (op.perform.run p).Meets (fun _ q => ∃ cs, op.Makes p cs ∧ Through (op.Passes p) p cs q)
      (fun _ q => ∃ cs, op.Makes p cs ∧ Through (op.Passes p) p cs q)
      (fun reason => (∃ q id u, op.Asks p q id u ∧ OutOfFrames q id u reason)
        ∨ op.OverflowsFile p reason) := by
  have hid := hop.1
  -- each request is cited by its own lemma, and only the three copies pass states between its ends
  cases op with
  | fault id address stackPointer =>
    refine perform_of_leads ?_
    refine (handleFault_spec hp hid address stackPointer).bind ?_ ?_
      fun reason h => Or.inl ⟨p, _, _, .fault, h⟩
    · intro _ q h
      rcases h.2 with ⟨h, _⟩ | ⟨hd, hnone, h⟩
      · exact ⟨_, .nothing trivial, _, _, h⟩
      · exact ⟨_, .grown hd hnone, _, _, h⟩
    · intro _ q h
      exact ⟨_, .nothing trivial, _, _, h.1⟩
  | load id address =>
    refine perform_of_leads ?_
    exact (ensureLoaded_spec hp id (pageBase address)).bind
      (fun _ q h => ⟨_, .nothing trivial, _, _, h.1⟩)
      (fun _ q h => ⟨_, .nothing trivial, _, _, h.1⟩) fun reason h =>
        Or.inl ⟨p, _, _, .load, h⟩
  | read id address length =>
    refine (readUser_spec hp id address length).bind ?_ (fun _ _ h => h.elim) ?_
    · intro _ q h
      exact ⟨_, .nothing trivial, h.mono fun r ⟨hrange, _, hr⟩ => .read hrange hr⟩
    · intro reason h
      obtain ⟨front, c, rest, q, hchunks, ⟨more, hfront⟩, hstop⟩ := h
      exact Or.inl ⟨q, _, _, .read hchunks hfront, hstop⟩
  | fetch id address length =>
    refine (fetchUser_spec hp id address length).bind ?_ ?_ ?_
    · intro _ q h
      exact ⟨_, .nothing trivial, h.mono fun r ⟨hrange, _, hr⟩ => .fetch hrange hr⟩
    · intro _ q h
      exact ⟨_, .nothing trivial, h.mono fun r ⟨hrange, _, hr⟩ => .fetch hrange hr⟩
    · intro reason h
      obtain ⟨front, c, rest, q, hchunks, ⟨more, hfront⟩, hstop⟩ := h
      exact Or.inl ⟨q, _, _, .fetch hchunks hfront, hstop⟩
  | write id address bytes =>
    have hpasses : ∀ {cs q}, Through (WritePasses p id address bytes) p cs q →
        Through ((Operation.write id address bytes).Passes p) p cs q := fun h =>
      h.mono fun r ⟨hrange, _, hr⟩ => .write hrange hr
    refine (writeUser_spec hp id address bytes).bind ?_ ?_ ?_
    · intro _ q h
      obtain ⟨cs, hmakes, h⟩ := h
      exact ⟨cs, hmakes, hpasses h⟩
    · intro _ q h
      obtain ⟨cs, hmakes, h⟩ := h
      exact ⟨cs, hmakes, hpasses h⟩
    · intro reason h
      obtain ⟨front, c, rest, q, hchunks, hfront, hstop⟩ := h
      exact Or.inl ⟨q, _, _, .write hchunks hfront, hstop⟩
  | mapFile id index base =>
    refine perform_of_leads ((mapFile_spec hid index base).bind ?_ ?_ fun _ h => h.elim)
    · intro m q h
      obtain ⟨handle, hmove, _, hvacant⟩ := h
      exact ⟨_, .mapped hvacant, id, base, .of_chain (fun _ => .of_visible hmove) hp (by simp)⟩
    · intro _ q h
      obtain ⟨rfl, _⟩ := h
      exact ⟨_, .nothing trivial, id, base, .refl⟩
  | unmapFile id m =>
    have hleads : ∀ {q}, p.Unmapped id m q → ∃ cs, (Operation.unmapFile id m).Makes p cs
        ∧ ∃ o u, Leads o u p cs q := fun h =>
      ⟨_, .unmapped, id, 0, .of_chain h.chain hp (grown_not_mem_unmapChanges p id m)⟩
    exact perform_of_leads ((unmapFile_spec hp hid m).bind (fun _ q h => hleads h)
      (fun _ q h => hleads h.1) fun _ h => h.elim)
  | addSegment id source offset upage readBytes zeroBytes writable =>
    have hleads : ∀ {q}, (∃ cs, (∀ S, Chain S p none cs q none) ∧ Operation.Makes p
        (.addSegment id source offset upage readBytes zeroBytes writable) cs) →
        ∃ cs, Operation.Makes p
          (.addSegment id source offset upage readBytes zeroBytes writable) cs
          ∧ ∃ o u, Leads o u p cs q := by
      intro q h
      obtain ⟨cs, hchain, hmakes⟩ := h
      refine ⟨cs, hmakes, id, upage, .of_chain hchain hp ?_⟩
      cases hmakes with
      | nothing => exact fun _ _ => List.not_mem_nil
      | described => simp
    exact perform_of_leads ((addSegment_spec hop).bind (fun _ q h => hleads h)
      (fun _ q h => hleads h) fun _ h => Or.inr h)
  | pin id upage =>
    refine perform_of_leads ((pin_spec p id upage).bind ?_ ?_ fun _ h => h.elim)
    · intro i q h
      obtain ⟨a, hi, _, _, rfl⟩ := h
      exact ⟨_, .nothing trivial, id, upage, Leads.refl.quiet hp (fun _ => .pinned hi) rfl⟩
    · intro _ q h
      obtain ⟨_, rfl, _⟩ := h
      exact ⟨_, .nothing trivial, id, upage, .refl⟩
  | unpin id upage =>
    refine perform_of_leads ((unpin_spec p id upage).bind ?_ ?_ fun _ h => h.elim)
    · intro _ q h
      obtain ⟨i, a, hi, _, _, rfl⟩ := h
      exact ⟨_, .nothing trivial, id, upage, Leads.refl.quiet hp (fun _ => .pinned hi) rfl⟩
    · intro _ q h
      obtain ⟨rfl, _⟩ := h
      exact ⟨_, .nothing trivial, id, upage, .refl⟩
  | setAccessed id upage value =>
    refine perform_of_leads ?_
    exact ⟨_, .nothing trivial, id, upage, Leads.refl.quiet hp (fun _ => .accessed) rfl⟩
  | setDirty id upage value =>
    refine perform_of_leads ?_
    exact ⟨_, .dirtied, id, upage, .of_chain (fun _ => .of_visible .dirtied) hp (by simp)⟩
  | exit id =>
    refine perform_of_leads ((exitSpace_spec hp hid).bind ?_ (fun _ _ h => h.elim)
      fun _ h => h.elim)
    intro _ q h
    refine ⟨_, .exited, id, 0, .of_chain (fun _ => h.1.chain) hp ?_⟩
    intro o u hc
    rcases List.mem_append.mp hc with hc | hc
    · obtain ⟨m, _, hm⟩ := List.mem_flatMap.mp hc
      exact grown_not_mem_unmapChanges p id m o u hm
    · cases List.mem_singleton.mp hc

end DemandPaging

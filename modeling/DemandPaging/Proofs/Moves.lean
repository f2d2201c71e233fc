import DemandPaging.Pager.Operation
import DemandPaging.Proofs.FileMappings
import DemandPaging.Proofs.FrameUse
import DemandPaging.Proofs.PageContents
/-!
# The moves of the pager

Every operation of the pager is a sequence of a few moves. A `Quiet` move shifts a page
between frame, slot and file, or keeps the books of that: no process can tell that it took
place. A `Visible` move does what some request asked for, and carries a `Change` that says
what it was. A `Chain` is a sequence of moves; it remembers the changes and forgets the
quiet moves between them. `Visibly` is a sequence in which there are none.

A move is stated with the whole state that it leads to. What must hold before it is what
the code has checked, or what the agreement of the tables implies at that point, so that
whatever all moves preserve is preserved by every operation.
-/

namespace DemandPaging

variable {n : Nat}

/-- How a page is kept when its frame is taken away: the backing before, whether the page is
dirty, and the backing, swap area and files after. -/
inductive Keeps (swap : SwapArea) (files : Array OpenFile) (page : Page) :
    Backing → Bool → Backing → SwapArea → Array OpenFile → Prop where
  /-- A dirty page of a mapping is written to its file. -/
  | written {w : FileWindow} {file : OpenFile}
      (h : w.save (files.getD w.source.file default) page = (.ok (), file)) :
      Keeps swap files page (.mappedFile w) true (.mappedFile w) swap
        (files.modify w.source.file fun _ => file)
  /-- A clean private page is still in its file. -/
  | dropped {w : FileWindow} :
      Keeps swap files page (.privateFile w) false (.privateFile w) swap files
  /-- Any other page goes to a slot. -/
  | stored {b : Backing} {dirty : Bool} {slot : Nat} {swap' : SwapArea}
      (hb : b = .anonymous ∨ (∃ w, b = .privateFile w ∧ dirty = true)
        ∨ ∃ w, b = .mappedFile w ∧ dirty = false)
      (h : swap.store page = .ok (.ok slot, swap')) :
      Keeps swap files page b dirty (b.movedTo slot).1 swap' files

/-- The state in which the page `v` of the space `o` has no frame but the descriptor `d`. -/
def Pager.kept (p : Pager n) (o : SpaceId) (v : Nat) (d : Descriptor) (swap : SwapArea)
    (files : Array OpenFile) : Pager n :=
  { p with
    swap := swap
    files := files
    spaces := p.spaces.put o
      { p.space o with
        directory := (p.space o).directory.unmap v
        descriptors := (p.space o).descriptors.insert v d } }

/-- A move that no process can tell, from and to states with or without a frame in flight.
`Source` says of the files what they are whenever a page is loaded. -/
inductive Quiet (Source : Array OpenFile → Prop) (p : Pager n) :
    Option (Fin n) → Pager n → Option (Fin n) → Prop where
  /-- The clock passed over some frames. -/
  | swept {passed : List Assignment} {hand : Nat}
      (h : ∀ a ∈ passed, ∃ i, p.assignment? i = some a ∧ a.isCandidate = true)
      (hhand : p.frames.hand < n → hand < n) :
      Quiet Source p none
        { p with
          frames := { p.frames with hand := hand }
          spaces := p.spaces.notAccessed passed }
        none
  /-- A free frame was assigned to a page that is not mapped. -/
  | took {id : SpaceId} {upage : Nat} {i : Fin n} {frames : FrameTable n}
      (hid : id < p.spaces.size) (haligned : PageAligned upage) (huser : IsUserAddress upage)
      (hnone : p.address? id upage = none) (h : p.frames.takeFree id upage = some (i, frames)) :
      Quiet Source p none { p with frames := frames } (some i)
  /-- A frame was taken from the page that it backed and assigned to another one. -/
  | evicted {id : SpaceId} {upage : Nat} {i : Fin n} {victim : Assignment} {d : Descriptor}
      {b : Backing} {swap : SwapArea} {files : Array OpenFile}
      (hid : id < p.spaces.size) (haligned : PageAligned upage) (huser : IsUserAddress upage)
      (hnone : p.address? id upage = none)
      (hvictim : p.assignment? i = some victim) (hpins : victim.pins = 0)
      (hd : d = ((p.space victim.owner).descriptors.getOrAdd victim.upage .anonymous
        (p.has .writable victim.owner victim.upage)).1)
      (hkeeps : Keeps p.swap p.files (p.page i) d.backing
        (p.has .dirty victim.owner victim.upage) b swap files) :
      Quiet Source p none
        (((p.kept victim.owner victim.upage { d with backing := b, loaded := false } swap
          files).writePage i .zero).assign i (some (.fresh id upage)))
        (some i)
  /-- The frame in flight was filled, perhaps in part, and the device read for that. -/
  | scribbled {i : Fin n} {page : Page} {reads : UInt32} :
      Quiet Source p (some i)
        { p with frames := p.frames.write i page, swap := p.swap.withReads reads } (some i)
  /-- The frame in flight was given back. -/
  | returned {i : Fin n} : Quiet Source p (some i) { p with frames := p.frames.without i } none
  /-- The frame in flight was filled as a descriptor says and mapped. -/
  | settled {id : SpaceId} {upage : Nat} {i : Fin n} {d : Descriptor} {page : Page}
      {reads : UInt32} {directory : PageDirectory}
      (hi : p.assignment? i = some (.fresh id upage)) (hd : p.descriptor? id upage = some d)
      (hloaded : d.loaded = false) (hpage : p.parked? d.backing = some page)
      (hsource : Source p.files)
      (hmap : PageDirectory.Installed (p.space id).directory directory upage (p.frameAddress i)
        (d.writable || d.backing.isMapped))
      (hread : d.backing.Readable p.files) :
      Quiet Source p (some i)
        { p with
          frames := p.frames.write i page
          swap := (p.swap.withReads reads).freed? d.backing.slot?
          spaces := p.spaces.put id
            { p.space id with
              directory := if d.backing.loadsDirty then directory.setFlag .dirty upage true
                else directory
              descriptors := match d.backing.loaded? with
                | some b => (p.space id).descriptors.insert upage
                    { d with backing := b, loaded := true }
                | none => (p.space id).descriptors.erase upage } }
        none
  /-- A frame was pinned or unpinned. -/
  | pinned {i : Fin n} {a : Assignment} {pins : Nat} (hi : p.assignment? i = some a) :
      Quiet Source p none (p.assign i (some { a with pins := pins })) none
  /-- The accessed flag of a page was written. -/
  | accessed {id : SpaceId} {upage : Nat} {value : Bool} :
      Quiet Source p none (p.updateDirectory id (·.setFlag .accessed upage value)) none

/-- What a visible move did. -/
inductive Change where
  /-- A page of zeros was added to the stack. -/
  | grown (id : SpaceId) (upage : Nat)
  /-- Bytes were written into a page. -/
  | stored (id : SpaceId) (upage start : Nat) (bytes : Bytes)
  /-- The dirty flag of a page was written. -/
  | dirtied (id : SpaceId) (upage : Nat) (value : Bool)
  /-- A page of a program was described. -/
  | described (id : SpaceId) (d : Descriptor)
  /-- A file was mapped. -/
  | mapped (id : SpaceId) (mapping : FileMapping)
  /-- A mapping was struck off the list of its space. -/
  | unlisted (id : SpaceId) (mapping : Nat)
  /-- A page of a mapping was forgotten. -/
  | dropped (id : SpaceId) (upage : Nat)
  /-- A handle of a file was closed. -/
  | closed (file handle : Nat)
  /-- A space gave back all its frames and slots. -/
  | vacated (id : SpaceId)
  /-- Somebody else changed a file. -/
  | rewritten (file : Nat)

/-- A file that somebody else has changed: other bytes, or another medium. -/
def OpenFile.rewrite (f : OpenFile) (data : Bytes) (medium? : Option Medium) : OpenFile :=
  { f with
    contents := match f.contents with
      | .console => .console
      | .bytes _ => .bytes data
    medium? := medium? }

/-- The files after a page was written back, if it was dirty. -/
def Pager.filesAfter (p : Pager n) (dirty : Bool) (w : FileWindow) (page : Page) : Array OpenFile :=
  if dirty then p.files.modify w.source.file fun _ => (w.save (p.file w.source.file) page).2
  else p.files

/-- A move that carries out part of a request. -/
inductive Visible (p : Pager n) : Option (Fin n) → Change → Pager n → Option (Fin n) → Prop where
  | grown {id : SpaceId} {upage : Nat} {i : Fin n} {directory : PageDirectory}
      (hi : p.assignment? i = some (.fresh id upage)) (hd : p.descriptor? id upage = none)
      (hzero : p.page i = .zero)
      (hmap : PageDirectory.Installed (p.space id).directory directory upage (p.frameAddress i)
        true) :
      Visible p (some i) (.grown id upage)
        { p with spaces := p.spaces.put id { p.space id with directory := directory } } none
  | stored {id : SpaceId} {upage start : Nat} {bytes : Bytes} {i : Fin n} {a : Assignment}
      (hi : p.assignment? i = some a) (howner : a.owner = id) (hupage : a.upage = upage)
      (hwritable : p.has .writable id upage = true) (hfits : start + bytes.length ≤ pageSize) :
      Visible p none (.stored id upage start bytes)
        ((p.writePage i ((p.page i).overwrite start bytes)).updateDirectory id fun d =>
          (d.setFlag .accessed upage true).setFlag .dirty upage true) none
  | dirtied {id : SpaceId} {upage : Nat} {value : Bool} :
      Visible p none (.dirtied id upage value)
        (p.updateDirectory id (·.setFlag .dirty upage value)) none
  | described {id : SpaceId} {d : Descriptor} {w : FileWindow} (hid : id < p.spaces.size)
      (haligned : PageAligned d.upage) (huser : IsUserAddress d.upage)
      (hb : d.backing = .privateFile w) (hloaded : d.loaded = false)
      (hd : p.descriptor? id d.upage = none) (hnone : p.address? id d.upage = none) :
      Visible p none (.described id d)
        { p with
          spaces := p.spaces.put id
            { p.space id with descriptors := (p.space id).descriptors.insert d.upage d } } none
  | mapped {id : SpaceId} {index base handle : Nat} {file : OpenFile} (hid : id < p.spaces.size)
      (hfault : mappingFault? (p.file index) base = none)
      (hvacant : (p.space id).isVacantRange (pagesFor (p.file index).length) base = true)
      (hopen : (p.file index).open? = some (handle, file)) :
      Visible p none (.mapped id ⟨⟨index, handle⟩, base, pagesFor (p.file index).length⟩)
        { p with
          files := p.files.modify index fun _ => file
          spaces := p.spaces.put id
            { p.space id with
              descriptors := (p.space id).descriptors.insertAll
                (mappingPages ⟨index, handle⟩ base (p.file index).length)
              mappings := ((p.space id).mappings.add
                ⟨⟨index, handle⟩, base, pagesFor (p.file index).length⟩).2 } } none
  | unlisted {id : SpaceId} {m : Nat} :
      Visible p none (.unlisted id m)
        (p.updateSpace id fun s => { s with mappings := s.mappings.remove m }) none
  /-- A page that is not mapped loses its descriptor and slot. -/
  | droppedAbsent {id : SpaceId} {upage : Nat} {d : Descriptor}
      (hd : p.descriptor? id upage = some d) (hmapped : d.backing.isMapped = true)
      (hunlisted : ∀ m fm, p.mapping? id m = some fm → upage ∉ fm.pages)
      (hnone : p.address? id upage = none) :
      Visible p none (.dropped id upage)
        { p with
          swap := p.swap.freed? d.backing.slot?
          spaces := p.spaces.put id
            { p.space id with descriptors := (p.space id).descriptors.erase upage } } none
  /-- A mapped page also loses its frame, after it was written back if it was dirty. -/
  | droppedPresent {id : SpaceId} {upage : Nat} {d : Descriptor} {w : FileWindow} {i : Fin n}
      {a : Assignment}
      (hd : p.descriptor? id upage = some d) (hb : d.backing = .mappedFile w)
      (hunlisted : ∀ m fm, p.mapping? id m = some fm → upage ∉ fm.pages)
      (hi : p.assignment? i = some a) (howner : a.owner = id) (hupage : a.upage = upage) :
      Visible p none (.dropped id upage)
        { p with
          frames := p.frames.without i
          files := p.filesAfter (p.has .dirty id upage) w (p.page i)
          spaces := p.spaces.put id
            { p.space id with
              directory := (p.space id).directory.unmap upage
              descriptors := (p.space id).descriptors.erase upage } } none
  | closed {file handle : Nat} :
      Visible p none (.closed file handle) (p.updateFile file (·.close handle)) none
  | vacated {id : SpaceId} {swap : SwapArea} (hid : id < p.spaces.size)
      (hunlisted : ∀ m, p.mapping? id m = none)
      (hswap : (p.space id).descriptors.freeSlots p.swap = .ok swap) :
      Visible p none (.vacated id)
        { p with
          frames := ((p.frames.ownedBy id).map Prod.fst).foldl FrameTable.without p.frames
          swap := swap
          spaces := p.spaces.put id
            { p.space id with
              directory := (p.frames.ownedBy id).foldl (fun d frame => d.unmap frame.2)
                (p.space id).directory
              descriptors := .empty } } none
  | rewritten {index : Nat} {data : Bytes} {medium? : Option Medium} :
      Visible p none (.rewritten index) (p.updateFile index (·.rewrite data medium?)) none

/-- A sequence of moves and the changes that they made, in order. -/
inductive Chain (Source : Array OpenFile → Prop) (p : Pager n) (flight : Option (Fin n)) :
    List Change → Pager n → Option (Fin n) → Prop where
  | refl : Chain Source p flight [] p flight
  | quiet {changes : List Change} {q r : Pager n} {f g : Option (Fin n)}
      (h : Chain Source p flight changes q f) (move : Quiet Source q f r g) :
      Chain Source p flight changes r g
  | visible {changes : List Change} {change : Change} {q r : Pager n} {f g : Option (Fin n)}
      (h : Chain Source p flight changes q f) (move : Visible q f change r g) :
      Chain Source p flight (changes ++ [change]) r g

namespace Chain

variable {S T : Array OpenFile → Prop} {p q r : Pager n} {e f g : Option (Fin n)}

theorem trans {cs ds : List Change} (h : Chain S p e cs q f) (h' : Chain S q f ds r g) :
    Chain S p e (cs ++ ds) r g := by
  induction h' with
  | refl => rwa [List.append_nil]
  | quiet _ move ih => exact ih.quiet move
  | visible _ move ih =>
    rw [← List.append_assoc]
    exact ih.visible move

theorem of_quiet (move : Quiet S p f q g) : Chain S p f [] q g := refl.quiet move

theorem of_visible {c : Change} (move : Visible p f c q g) : Chain S p f [c] q g :=
  refl.visible move

/-- Less may be said of the files that pages are loaded from. -/
theorem mono {cs : List Change} (hST : ∀ files, S files → T files) (h : Chain S p f cs q g) :
    Chain T p f cs q g := by
  induction h with
  | refl => exact refl
  | quiet _ move ih =>
    refine ih.quiet ?_
    cases move with
    | swept h hhand => exact .swept h hhand
    | took hid haligned huser hnone h => exact .took hid haligned huser hnone h
    | evicted hid haligned huser hnone hvictim hpins hd hkeeps =>
      exact .evicted hid haligned huser hnone hvictim hpins hd hkeeps
    | scribbled => exact .scribbled
    | returned => exact .returned
    | settled hi hd hloaded hpage hsource hmap hread =>
      exact .settled hi hd hloaded hpage (hST _ hsource) hmap hread
    | pinned hi => exact .pinned hi
    | accessed => exact .accessed
  | visible _ move ih => exact ih.visible move

/-- No move changes what was set when the system started. -/
theorem config_eq {cs : List Change} (h : Chain S p e cs q f) : q.config = p.config := by
  induction h with
  | refl => rfl
  | quiet _ move ih =>
    refine Eq.trans ?_ ih
    cases move <;> rfl
  | visible _ move ih =>
    refine Eq.trans ?_ ih
    cases move <;> rfl

/-- The hand of the clock stays on the frames. -/
theorem hand_lt {cs : List Change} (h : Chain S p e cs q f) (hhand : p.frames.hand < n) :
    q.frames.hand < n := by
  induction h with
  | refl => exact hhand
  | quiet _ move ih =>
    cases move with
    | swept _ hnext => exact hnext ih
    | took _ _ _ _ htake => exact FrameTable.hand_of_takeFree htake ▸ ih
    | evicted | scribbled | returned | settled | pinned | accessed => exact ih
  | visible _ move ih =>
    cases move with
    | vacated => exact (FrameTable.hand_foldl_without _ _).symm ▸ ih
    | grown | stored | dirtied | described | mapped | unlisted | droppedAbsent | droppedPresent
      | closed | rewritten => exact ih

/-- The last change of a sequence of moves, with what came before and after it. -/
theorem split_last {cs : List Change} {c : Change}
    (h : Chain S p f (cs ++ [c]) q g) :
    ∃ r t f' g', Chain S p f cs r f' ∧ Visible r f' c t g' ∧ Chain S t g' [] q g := by
  generalize hds : cs ++ [c] = ds at h
  induction h with
  | refl => exact absurd hds (by simp)
  | quiet _ move ih =>
    obtain ⟨r, t, f', g', hfront, hmove, hback⟩ := ih hds
    exact ⟨r, t, f', g', hfront, hmove, hback.quiet move⟩
  | visible h move =>
    obtain ⟨rfl, hc⟩ := List.append_inj' hds rfl
    cases hc
    exact ⟨_, _, _, _, h, move, .refl⟩

end Chain

/-- A sequence of visible moves without a quiet one between them, and with no frame in flight. -/
inductive Visibly (p : Pager n) : List Change → Pager n → Prop where
  | refl : Visibly p [] p
  | step {changes : List Change} {change : Change} {q r : Pager n}
      (h : Visibly p changes q) (move : Visible q none change r none) :
      Visibly p (changes ++ [change]) r

namespace Visibly

variable {p q r : Pager n}

theorem of_visible {c : Change} (move : Visible p none c q none) : Visibly p [c] q :=
  refl.step move

theorem trans {cs ds : List Change} (h : Visibly p cs q) (h' : Visibly q ds r) :
    Visibly p (cs ++ ds) r := by
  induction h' with
  | refl => rwa [List.append_nil]
  | step _ move ih =>
    rw [← List.append_assoc]
    exact ih.step move

theorem chain {S : Array OpenFile → Prop} {cs : List Change} (h : Visibly p cs q) :
    Chain S p none cs q none := by
  induction h with
  | refl => exact .refl
  | step _ move ih => exact ih.visible move

end Visibly

end DemandPaging

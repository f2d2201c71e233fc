import DemandPaging.Proofs.MappedFiles
import DemandPaging.Proofs.Pins
import DemandPaging.Proofs.RetriedLoads
import DemandPaging.Proofs.StayingPages
/-!
# A load that failed loses nothing

A page cannot be loaded when its file is too short or the swap device refuses. Then its frame goes
back, and the page is where it was. A request that fails so names the page in which it did, and
the state in which it asked for a frame (`Operation.Fails.blames`). `Visited.failed_load` says what
is as before, and that the page can be loaded when its file is long enough.
-/

namespace DemandPaging

open Pager PagerAction Outcome

variable {n : Nat} {p q r : Pager n} {id : SpaceId} {upage : Nat} {d : Descriptor}
  {e : PagingError}

/-- The error of a page that could not be read: its file was too short, or the device refused. -/
def PagingError.IsUnread : PagingError → Prop
  | .shortRead .. | .device _ => True
  | _ => False

/-! ## Which page was not read -/

/-- If the outcome is the error of a page that could not be read, it is the page `upage`. -/
def Outcome.Blames {α : Type} (o : Outcome n α) (p : Pager n) (id : SpaceId) (upage : Nat) : Prop :=
  o.Meets (fun _ _ => True) (fun e q => e.IsUnread → Unread p id upage e q) (fun _ => True)

theorem ensureLoaded_blames (hp : p.Agrees none) (id : SpaceId) (upage : Nat) :
    ((ensureLoaded id upage).run p).Blames p id upage := by
  refine (ensureLoaded_serves hp id upage).mono (fun _ _ _ => trivial) ?_ fun _ _ => trivial
  intro e q h he
  obtain ⟨_, ⟨rfl, _⟩ | hunread⟩ := h
  · exact he.elim
  · exact hunread

theorem handleFault_blames (hp : p.Agrees none) (hid : id < p.spaces.size)
    (address stackPointer : Nat) :
    ((handleFault id address stackPointer).run p).Blames p id (pageBase address) := by
  refine (handleFault_serves hp hid address stackPointer).mono (fun _ _ _ => trivial) ?_
    fun _ _ => trivial
  intro e q h he
  rcases h with ⟨rfl, _⟩ | h
  · exact he.elim
  · exact h

/-- A pin that cannot be taken back is not the fault of a file or a device. -/
theorem unpin_blames (id : SpaceId) (upage : Nat) (q p : Pager n) :
    ((unpin id upage).run q).Blames p id upage := by
  unfold unpin
  simp only [run_bind, run_read]
  split
  next => exact False.elim
  next =>
    split
    next => exact False.elim
    next => trivial

theorem pinForCopy_blames (hp : p.Agrees none) (id : SpaceId) (upage : Nat) :
    ((pinForCopy id upage).run p).Blames p id upage := by
  refine (pinForCopy_lands hp id upage).mono (fun _ _ _ => trivial) ?_ fun _ _ => trivial
  intro e q h he
  obtain ⟨_, ⟨rfl, _⟩ | hunread⟩ := h
  · exact he.elim
  · exact hunread

theorem readChunk_blames (hp : p.Agrees none) (id : SpaceId) (c : Chunk) :
    ((readChunk id c).run p).Blames p id c.upage := by
  rw [readChunk_eq]
  refine (pinForCopy_blames hp id c.upage).bind ?_ (fun _ _ h => h) fun _ h => h
  intro i q _
  exact (unpin_blames id c.upage _ p).bind (fun _ _ _ => trivial) (fun _ _ h => h) fun _ h => h

theorem writeChunk_blames (hp : p.Agrees none) (id : SpaceId) (c : Chunk) {bytes : Bytes}
    (hfits : c.start + bytes.length ≤ pageSize) :
    ((writeChunk id c bytes).run p).Blames p id c.upage := by
  rw [writeChunk_of_fits hfits]
  refine (pinForCopy_blames hp id c.upage).bind ?_ (fun _ _ h => h) fun _ h => h
  intro i q _
  simp only [run_bind, run_read]
  split
  next =>
    simp only [run_bind, run_update]
    exact unpin_blames id c.upage _ p
  next =>
    refine (unpin_blames id c.upage q p).bind ?_ (fun _ _ h => h) fun _ h => h
    exact fun _ _ _ => False.elim

/-- A copy out of user memory ends at a page that could not be read, after the pages before it. -/
theorem readChunks_unread (hp : p.Agrees none) (id : SpaceId) (cs : List Chunk) (bytes : Bytes) :
    ((readChunks id cs bytes).run p).Meets
      (fun copied q => ∀ e, copied.result = .error e → e.IsUnread → ∃ front c rest more r,
        cs = front ++ c :: rest ∧ (readChunks id front bytes).run p = .done ⟨more, .ok ()⟩ r
          ∧ Unread r id c.upage e q)
      (fun _ _ => False) (fun _ => True) := by
  have hspec := readChunks_spec hp id cs bytes
  cases hrun : (readChunks id cs bytes).run p with
  | done copied q =>
    intro e hcopied he
    obtain ⟨more, result⟩ := copied
    cases hcopied
    obtain ⟨front, c, rest, r, rfl, hfront, hfails⟩ := readChunks_stops hrun
    have hreached := readChunks_spec hp id front bytes
    rw [hfront] at hreached
    have hblames := readChunk_blames (hreached.agrees hp) id c
    rw [hfails] at hblames
    exact ⟨front, c, rest, more, r, rfl, hfront, hblames he⟩
  | failed e q =>
    rw [hrun] at hspec
    exact hspec
  | fatal reason => trivial

/-- So does a copy to user memory. -/
theorem writeChunks_unread (hp : p.Agrees none) (id : SpaceId) (cs : List Chunk) (bytes : Bytes) :
    ((writeChunks id cs bytes).run p).Meets (fun _ _ => True)
      (fun e q => e.IsUnread → ∃ front c rest r, cs = front ++ c :: rest
        ∧ (writeChunks id front bytes).run p = .done () r ∧ Unread r id c.upage e q)
      (fun _ => True) := by
  cases hrun : (writeChunks id cs bytes).run p with
  | failed e q =>
    intro he
    obtain ⟨front, c, rest, r, rfl, hfront, hfails, _⟩ := writeChunks_stops hrun
    have hspec := writeChunks_spec hp id front bytes
    rw [hfront] at hspec
    have hblames := writeChunk_blames (hspec.1.agrees hp) id c
      (c.fits_take (bytes.drop (totalCount front)))
    rw [hfails] at hblames
    exact ⟨front, c, rest, r, rfl, hfront, hblames he⟩
  | done u q => trivial
  | fatal reason => trivial

/-! ## What a copy does before it fails -/

/-- A step for another page leaves a page alone that is in no frame. -/
theorem samePage_of_leads {o : SpaceId} {v : Nat} {cs : List Change} {t : Pager n}
    (hleads : Leads id upage r cs t)
    (hcs : ∀ c ∈ cs, ∃ o u start bytes, c = .stored o u start bytes)
    (hv : PageAligned v) (hours : ¬(o = id ∧ v = upage))
    (hr : r.Agrees none ∧ (p.framed? o v = none → SamePage p r o v)) :
    t.Agrees none ∧ (p.framed? o v = none → SamePage p t o v) := by
  obtain ⟨hagrees, hsame⟩ := hr
  refine ⟨hleads.agrees hagrees, fun hnone => ?_⟩
  have hbefore := hsame hnone
  exact hbefore.trans (hleads.steady.untouched hcs o v hv hours (hbefore.framed?.trans hnone))

/-- A copy leaves a page alone that it does not get to and that is in no frame. -/
theorem samePage_of_readChunks {o : SpaceId} {v : Nat} {front : List Chunk} {bytes more : Bytes}
    (hp : p.Agrees none) (hv : PageAligned v) (hours : ∀ c ∈ front, ¬(o = id ∧ v = c.upage))
    (h : (readChunks id front bytes).run p = .done ⟨more, .ok ()⟩ q) :
    q.Agrees none ∧ (p.framed? o v = none → SamePage p q o v) := by
  have hstep : ∀ c ∈ front, ∀ r, r.Agrees none ∧ (p.framed? o v = none → SamePage p r o v) →
      ((readChunk id c).run r).Meets
        (fun _ t => t.Agrees none ∧ (p.framed? o v = none → SamePage p t o v)) (fun _ _ => True)
        (fun _ => True) := by
    intro c hc r hr
    refine (readChunk_spec hr.1 id c).mono ?_ (fun _ _ _ => trivial) fun _ _ => trivial
    intro _ t h
    exact samePage_of_leads h.1 (List.forall_mem_nil _) hv (hours c hc) hr
  have hspec := readChunks_meets hstep ⟨hp, fun _ => .refl⟩ bytes
  rw [h] at hspec
  obtain ⟨_, hq⟩ | ⟨_, herror, _⟩ := hspec
  · exact hq
  · cases herror

theorem samePage_of_writeChunks {o : SpaceId} {v : Nat} {front : List Chunk} {bytes : Bytes}
    (hp : p.Agrees none) (hv : PageAligned v) (hours : ∀ c ∈ front, ¬(o = id ∧ v = c.upage))
    (h : (writeChunks id front bytes).run p = .done () q) :
    q.Agrees none ∧ (p.framed? o v = none → SamePage p q o v) := by
  have hstep : ∀ c ∈ front, ∀ (bytes : Bytes) r,
      r.Agrees none ∧ (p.framed? o v = none → SamePage p r o v) →
      ((writeChunk id c (bytes.take c.count)).run r).Meets
        (fun _ t => t.Agrees none ∧ (p.framed? o v = none → SamePage p t o v)) (fun _ _ => True)
        (fun _ => True) := by
    intro c hc bytes r hr
    refine (writeChunk_spec hr.1 id c (c.fits_take bytes)).mono ?_
      (fun _ _ _ => trivial) fun _ _ => trivial
    intro _ t h
    exact samePage_of_leads h.1 (by simp) hv (hours c hc) hr
  have hspec := writeChunks_meets hstep ⟨hp, fun _ => .refl⟩ bytes
  rw [h] at hspec
  exact hspec

/-- The chunks before one of a range lie in other pages. -/
theorem apart_of_chunks {address length : Nat} {front rest : List Chunk} {c : Chunk}
    (h : chunks address length = front ++ c :: rest) (id : SpaceId) :
    ∀ d ∈ front, ¬(id = id ∧ c.upage = d.upage) := by
  intro d hd hc
  have hpairs := pairwise_chunks address length
  rw [h, List.pairwise_append] at hpairs
  exact Nat.ne_of_gt (hpairs.2.2 d hd c (List.mem_cons_self ..)) hc.2

/-- Up to where a request asks for a frame for a page it has left the page alone, if the page was in
no frame. -/
theorem Operation.Asks.samePage {op : Operation} (h : op.Asks p r id upage) (hp : p.Agrees none) :
    r.Agrees none ∧ (p.framed? id upage = none → SamePage p r id upage) := by
  have haligned : ∀ {address length front rest} {c : Chunk},
      chunks address length = front ++ c :: rest → PageAligned c.upage := fun h =>
    (bounds_of_mem_chunks (h ▸ List.mem_append_right _ (List.mem_cons_self ..))).1
  cases h with
  | fault | load => exact ⟨hp, fun _ => .refl⟩
  | read hchunks hfront | fetch hchunks hfront =>
    exact samePage_of_readChunks hp (haligned hchunks) (apart_of_chunks hchunks id) hfront
  | write hchunks hfront =>
    exact samePage_of_writeChunks hp (haligned hchunks) (apart_of_chunks hchunks id) hfront

/-! ## Requests -/

/-- A copy out of user memory that ends at a page that could not be read. -/
theorem readUser_unread (hp : p.Agrees none) (id : SpaceId) (address length : Nat) :
    ((readUser id address length).run p).Meets
      (fun copied q => ∀ e, copied.result = .error e → e.IsUnread → ∃ front c rest more r,
        chunks address length = front ++ c :: rest
          ∧ (readChunks id front []).run p = .done ⟨more, .ok ()⟩ r ∧ Unread r id c.upage e q)
      (fun _ _ => False) (fun _ => True) := by
  unfold readUser
  split
  next => exact readChunks_unread hp id _ _
  next =>
    intro e hcopied he
    cases hcopied
    exact he.elim

namespace Operation

/-- Whether a request is one that loads the pages that it is about. -/
def Loads : Operation → Prop
  | .fault .. | .load .. | .read .. | .fetch .. | .write .. => True
  | _ => False

/-- A request ends with an error. One that brings what it can tells of it in its answer. -/
def Fails (op : Operation) (p : Pager n) (e : PagingError) (q : Pager n) : Prop :=
  op.perform.run p = .failed e q ∨ ∃ bytes, op.perform.run p = .done (.copied ⟨bytes, .error e⟩) q

/-- The page that could not be read is the one that a request last asked for a frame for. -/
def Blames (op : Operation) (p : Pager n) (e : PagingError) (q : Pager n) : Prop :=
  e.IsUnread → ∃ r u, op.Asks p r op.space u ∧ Unread r op.space u e q

theorem perform_blames {op : Operation} (hp : p.Agrees none) (hop : op.Permitted p)
    (hloads : op.Loads) :
    (op.perform.run p).Meets
      (fun answer q => ∀ bytes e, answer = .copied ⟨bytes, .error e⟩ → op.Blames p e q)
      (fun e q => op.Blames p e q) (fun _ => True) := by
  have hid := hop.1
  cases op with
  | fault id address stackPointer =>
    exact (handleFault_blames hp hid address stackPointer).bind (fun _ _ _ => nofun)
      (fun _ _ h he => ⟨p, _, .fault, h he⟩) fun _ h => h
  | load id address =>
    exact (ensureLoaded_blames hp id (pageBase address)).bind (fun _ _ _ => nofun)
      (fun _ _ h he => ⟨p, _, .load, h he⟩) fun _ h => h
  | read id address length =>
    refine (readUser_unread hp id address length).bind ?_ (fun _ _ h => h.elim) fun _ h => h
    intro copied q h bytes e hcopied he
    cases hcopied
    obtain ⟨front, c, rest, more, r, hchunks, hfront, hunread⟩ := h e rfl he
    exact ⟨r, c.upage, .read hchunks hfront, hunread⟩
  | fetch id address length =>
    have hfetch : ((fetchUser id address length).run p).Meets (fun _ _ => True)
        (fun e q => (Operation.fetch id address length).Blames p e q) (fun _ => True) := by
      refine fetchUser_meets ((readUser_unread hp id address length).mono ?_ (fun _ _ h => h.elim)
        fun _ h => h)
      refine fun copied q h => ⟨fun _ => trivial, fun e hcopied he => ?_⟩
      obtain ⟨front, c, rest, more, r, hchunks, hfront, hunread⟩ := h e hcopied he
      exact ⟨r, c.upage, .fetch hchunks hfront, hunread⟩
    exact hfetch.bind (fun _ _ _ => nofun) (fun _ _ h => h) fun _ h => h
  | write id address bytes =>
    have hwrite : ((writeUser id address bytes).run p).Meets (fun _ _ => True)
        (fun e q => (Operation.write id address bytes).Blames p e q) (fun _ => True) := by
      unfold writeUser
      split
      next =>
        refine (writeChunks_unread hp id _ bytes).mono (fun _ _ h => h) ?_ fun _ h => h
        intro e q h he
        obtain ⟨front, c, rest, r, hchunks, hfront, hunread⟩ := h he
        exact ⟨r, c.upage, .write hchunks hfront, hunread⟩
      next => exact False.elim
    exact hwrite.bind (fun _ _ _ => nofun) (fun _ _ h => h) fun _ h => h
  | mapFile | unmapFile | addSegment | pin | unpin | setAccessed | setDirty | exit =>
    exact hloads.elim

/-- A request that fails because a page could not be read has asked for a frame for this page. -/
theorem Fails.blames {op : Operation} (h : op.Fails p e q) (hp : p.Agrees none)
    (hop : op.Permitted p) (hloads : op.Loads) : op.Blames p e q := by
  have hspec := perform_blames hp hop hloads
  rcases h with hrun | ⟨bytes, hrun⟩
  · rw [hrun] at hspec
    exact hspec
  · rw [hrun] at hspec
    exact hspec bytes e rfl

end Operation

/-! ## What is kept -/

namespace Pager

/-- The page of the descriptor `d` is where it was, and in no frame. -/
structure KeptOut (p : Pager n) (id : SpaceId) (upage : Nat) (d : Descriptor) (q : Pager n) :
    Prop where
  before : p.descriptor? id upage = some d
  after : q.descriptor? id upage = some d
  loaded : d.loaded = false
  slot : ∀ slot, d.backing.slot? = some slot →
    q.swap.Claimed slot ∧ q.swap.pageIn slot = p.swap.pageIn slot
  unmapped : q.address? id upage = none
  unassigned : ∀ j a, q.assignment? j = some a → ¬(a.owner = id ∧ a.upage = upage)

theorem SamePage.keptOut (h : SamePage p q id upage) (hq : q.Agrees none)
    (hd : p.descriptor? id upage = some d) (hloaded : d.loaded = false) :
    p.KeptOut id upage d q := by
  have hafter := h.descriptor?.trans hd
  have hnone := hq.descriptors.address?_of_not_loaded hafter hloaded
  refine ⟨hd, hafter, hloaded, ?_, hnone, ?_⟩
  · intro slot hslot
    exact ⟨(hq.slots.claimed_iff slot).mpr ⟨id, upage, slot?_eq_some_iff.mpr ⟨d, hafter, hslot⟩⟩,
      h.pageIn slot (slot?_eq_some_iff.mpr ⟨d, hd, hslot⟩)⟩
  · intro j a hj howner
    rw [← howner.1, ← howner.2, hq.frames.mapped j a hj (by simp)] at hnone
    cases hnone

end Pager

/-- **A load that failed loses nothing.** If a request fails because a page could not be read, the
page has the descriptor that it had, and its slot if it had one, with the same bytes; it is not
mapped and no frame is assigned to it. This is so compared with the state in which the page was
asked for and, if the page was not mapped then, with the one in which the request was made. The
frame that was obtained is free again, nothing was done to any page since it was, and no pin is
left. Whenever the file of the page is long enough, a load of the page, a fault in it and a copy
that gets to it bring it into a frame, with the bytes of the file and zeros, or there is no frame
to be had. -/
theorem Pager.Visited.failed_load {p : Pager n} (hp : p.Visited) {op : Operation}
    (hop : op.Permitted p) (hloads : op.Loads) {e : PagingError} (he : e.IsUnread) {q : Pager n}
    (h : op.Fails p e q) :
    ∃ r u d i, op.Asks p r op.space u
      ∧ r.KeptOut op.space u d q
      ∧ (p.address? op.space u = none → p.KeptOut op.space u d q)
      ∧ (∃ t, (obtainFrame op.space u false).run r = .done i t ∧ q.files = t.files
          ∧ ∀ o v, SamePage t q o v)
      ∧ q.assignment? i = none ∧ q.frames.pool.inUse.get i = false
      ∧ p.SamePins q
      ∧ ∀ (t : Pager n) w, t.Visited → t.Waits op.space u d w →
          (∀ address, pageBase address = u →
              ((loadAt op.space address).run t).Meets (fun _ s => s.HoldsWindow op.space u w)
                (fun _ _ => False) (OutOfFrames t op.space u)
              ∧ (address ≠ 0 → ∀ stackPointer,
                ((handleFault op.space address stackPointer).run t).Meets
                  (fun _ s => s.HoldsWindow op.space u w) (fun _ _ => False)
                  (OutOfFrames t op.space u)))
            ∧ ((pinForCopy op.space u).run t).Meets (fun _ s => s.HoldsWindow op.space u w)
                (fun _ _ => False) (OutOfFrames t op.space u) := by
  have hagrees := hp.agrees
  obtain ⟨r, u, hasks, hunread⟩ := h.blames hagrees hop hloads he
  obtain ⟨hr, hbefore⟩ := hasks.samePage hagrees
  have hends : (op.perform.run p).state? = some q := by
    rcases h with hrun | ⟨_, hrun⟩
    · rw [hrun]
      rfl
    · rw [hrun]
      rfl
  have hq : q.Agrees none := Event.agrees (e := .request op) hagrees hop hends
  have hpins : p.SamePins q := by
    refine (perform_pins hagrees hop ?_).of_state? hends
    cases op <;> first | exact trivial | exact hloads.elim
  cases hunread with
  | @intro d i hd hloaded hfails hgave =>
    refine ⟨r, u, d, i, hasks, hgave.kept.keptOut hq hd hloaded, ?_, hgave.obtained, hgave.freed,
      ?_, hpins, ?_⟩
    · intro hnone
      have hsame := hbefore (framed?_of_unmapped hnone)
      exact (hsame.trans hgave.kept).keptOut hq (hsame.descriptor?.symm.trans hd) hloaded
    · rw [hq.frames.inUse, hgave.freed]
      rfl
    · intro t w ht hwaits
      refine ⟨?_, hwaits.pinForCopy ht.agrees ht.windowsFit⟩
      rintro address rfl
      exact ⟨hwaits.loadAt ht.agrees ht.windowsFit,
        hwaits.handleFault ht.agrees ht.windowsFit⟩

/-- A file of three bytes is mapped, and then somebody takes its bytes away. -/
def emptiedMapping : Pager 1 :=
  (oneFrame #[.ofBytes [1, 2, 3]]).ran [.request (.mapFile 0 0 pageSize), .rewrite 0 [] none]

/-- The window of the page of the mapping. -/
def emptiedWindow : FileWindow := ⟨⟨0, 1⟩, 0, 3, pageSize - 3⟩

/-- With one frame, a page of a mapping is not loaded while the file has no bytes. Its descriptor is
kept and the frame is free, and it is loaded when the file has got three bytes again. -/
theorem Pager.Visited.failed_load_oneFrame :
    ∃ d q, (Operation.load 0 pageSize).Fails emptiedMapping (.shortRead 3 0) q
      ∧ emptiedMapping.KeptOut 0 pageSize d q ∧ q.frames.pool.inUse.get 0 = false
      ∧ ((loadAt 0 pageSize).run (q.updateFile 0 (·.rewrite [7, 8, 9] none))).Meets
          (fun _ s => s.HoldsWindow 0 pageSize emptiedWindow) (fun _ _ => False)
          (OutOfFrames (q.updateFile 0 (·.rewrite [7, 8, 9] none)) 0 pageSize) := by
  have hmap : Run (oneFrame #[.ofBytes [1, 2, 3]]) _ emptiedMapping := run_ran (by decide +kernel)
  have hop : (Operation.load 0 pageSize).Permitted emptiedMapping := by decide +kernel
  have hbacking : (emptiedMapping.descriptor? 0 pageSize).map (·.backing)
      = some (.mappedFile emptiedWindow) := by decide +kernel
  have hlong : ((Operation.load 0 pageSize).perform.run emptiedMapping).state?.map
      (fun q => (((q.updateFile 0 (·.rewrite [7, 8, 9] none)).file 0).read 0 3).length)
      = some 3 := by decide +kernel
  have hshort : ((Operation.load 0 pageSize).perform.run emptiedMapping).error?
      = some (.shortRead 3 0) := by decide +kernel
  obtain ⟨q, hq⟩ := eq_failed hshort
  rw [hq] at hlong
  have hp : emptiedMapping.Visited := ⟨_, _, isStart_oneFrame _, hmap.passed⟩
  have ht : (q.updateFile 0 (·.rewrite [7, 8, 9] none)).Visited := by
    have hlater : Run emptiedMapping [.request (.load 0 pageSize), .rewrite 0 [7, 8, 9] none] _ :=
      .step hop (congrArg Outcome.state? hq) (.step trivial rfl .refl)
    exact ⟨_, _, isStart_oneFrame _, (hmap.append hlater).passed⟩
  obtain ⟨r, u, d, i, hasks, _, hkept, _, _, hfree, _, hagain⟩ :=
    hp.failed_load hop (by trivial) (by trivial) (Or.inl hq)
  cases hasks
  have hkept : emptiedMapping.KeptOut 0 pageSize d q := hkept (by decide +kernel)
  have hd : d.backing = .mappedFile emptiedWindow := by
    rw [hkept.before] at hbacking
    exact Option.some.inj hbacking
  refine ⟨d, q, Or.inl hq, hkept, ?_, ?_⟩
  · rwa [Subsingleton.elim i 0] at hfree
  · exact ((hagain _ emptiedWindow ht ⟨hkept.after, hkept.loaded, by rw [hd]; rfl,
      Option.some.inj hlong⟩).1 pageSize rfl).1

end DemandPaging

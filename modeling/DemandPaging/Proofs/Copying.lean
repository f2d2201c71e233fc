import DemandPaging.Pager.UserCopy
import DemandPaging.Proofs.ServedPages
/-!
# Copying to and from user memory

Each chunk of a copy is one page that is loaded if need be, and then read or written. A copy
of many chunks takes a step for each of them; `readChunks_spec` and `writeChunks_spec` say so,
and which states it passes. What every chunk keeps the copy keeps (`readChunks_meets`,
`writeChunks_meets`).

`storedCount` counts the bytes that a copy stores before it fails.
-/

namespace DemandPaging

open Pager PagerAction Outcome

variable {n : Nat}

/-- The state that an action leaves behind, unless it was fatal. -/
def Outcome.state? {α : Type} : Outcome n α → Option (Pager n)
  | .done _ q => some q
  | .failed _ q => some q
  | .fatal _ => none

/-- What is known of an outcome, done or failed, is known of the state that it leaves. -/
theorem Outcome.Meets.of_state? {α : Type} {o : Outcome n α} {P : Pager n → Prop}
    {X : Fatal → Prop} {q : Pager n} (h : o.Meets (fun _ q => P q) (fun _ q => P q) X)
    (hq : o.state? = some q) : P q := by
  cases o with
  | done a r =>
    cases hq
    exact h
  | failed e r =>
    cases hq
    exact h
  | fatal reason => cases hq

/-- How a copy of a page fails before anything is copied: there is no page, or it cannot be
loaded. -/
inductive CopyFails (p q : Pager n) (id : SpaceId) (upage : Nat) : PagingError → Prop where
  | absent (hd : p.descriptor? id upage = none) (hresident : p.resident? id upage = none) :
      CopyFails p q id upage .badAddress
  | unread {d : Descriptor} {e : PagingError} (hd : p.descriptor? id upage = some d)
      (hnone : p.address? id upage = none) (h : LoadFails q.files q.swap d.backing e) :
      CopyFails p q id upage e

theorem pinForCopy_lands {p : Pager n} (hp : p.Agrees none) (id : SpaceId) (upage : Nat) :
    ((pinForCopy id upage).run p).Meets
      (fun i q => Leads id upage p [] q
        ∧ (∃ a, q.assignment? i = some a ∧ a.owner = id ∧ a.upage = upage ∧ a.pins ≠ 0)
        ∧ ∀ d, p.descriptor? id upage = some d → d.loaded = false → p.Landed id upage d i 1 q)
      (fun e q => Leads id upage p [] q ∧ (e = .badAddress ∧ p.descriptor? id upage = none
        ∧ p.resident? id upage = none ∨ Unread p id upage e q))
      (OutOfFrames p id upage) := by
  unfold pinForCopy
  refine (pinResident_lands hp id upage).attempt.bind ?_ (fun _ _ h => h.elim) fun _ h => h
  intro pinned q h
  rcases pinned with e | i
  · obtain ⟨hleads, hresident, ⟨rfl, hd, _⟩ | hunread⟩ := h
    · exact ⟨hleads, Or.inl ⟨rfl, hd, hresident⟩⟩
    · cases hunread with
      | intro hd hloaded hfails hgave =>
        -- loading fails with other errors than the one that is translated
        cases hfails with
        | short hb hactual hne =>
          exact ⟨hleads, Or.inr ⟨hd, hloaded, .short hb hactual hne, hgave⟩⟩
        | refused hb hshort hswap =>
          exact ⟨hleads, Or.inr ⟨hd, hloaded, .refused hb hshort hswap, hgave⟩⟩
  · exact h

theorem pinForCopy_spec {p : Pager n} (hp : p.Agrees none) (id : SpaceId) (upage : Nat) :
    ((pinForCopy id upage).run p).Meets
      (fun i q => Leads id upage p [] q
        ∧ ∃ a, q.assignment? i = some a ∧ a.owner = id ∧ a.upage = upage ∧ a.pins ≠ 0)
      (fun e q => Leads id upage p [] q ∧ CopyFails p q id upage e)
      (OutOfFrames p id upage) := by
  refine (pinForCopy_lands hp id upage).mono (fun _ _ h => ⟨h.1, h.2.1⟩) ?_ fun _ h => h
  intro e q h
  obtain ⟨hleads, ⟨rfl, hd, hresident⟩ | hunread⟩ := h
  · exact ⟨hleads, .absent hd hresident⟩
  · cases hunread with
    | intro hd hloaded hfails =>
      exact ⟨hleads, .unread hd (hp.descriptors.address?_of_not_loaded hd hloaded) hfails⟩

theorem readChunk_spec {p : Pager n} (hp : p.Agrees none) (id : SpaceId) (c : Chunk) :
    ((readChunk id c).run p).Meets
      (fun bytes q => Leads id c.upage p [] q
        ∧ ∃ page, q.framed? id c.upage = some page ∧ bytes = page.slice c.start c.count)
      (fun e q => Leads id c.upage p [] q ∧ CopyFails p q id c.upage e)
      (OutOfFrames p id c.upage) := by
  rw [readChunk_eq]
  refine (pinForCopy_spec hp id c.upage).bind ?_ (fun _ _ h => h) fun _ h => h
  intro i q h
  obtain ⟨hleads, a, hi, rfl, hupage, hpins⟩ := h
  simp only [run_bind, run_read, run_update]
  have haccessed : ∀ S, Quiet S q none
      (q.updateDirectory a.owner (·.setFlag .accessed c.upage true)) none := fun S => .accessed
  have hq := hleads.agrees hp
  have hr := (haccessed fun _ => True).agrees hq
  have hi' : (q.updateDirectory a.owner
      (·.setFlag .accessed c.upage true)).assignment? i = some a := hi
  rw [run_unpin hr.frames hi' rfl hupage hpins]
  have hleads' := (hleads.quiet hp haccessed rfl).quiet hp
    (fun _ => @Quiet.pinned _ _ _ _ _ (a.pins - 1) hi') rfl
  refine ⟨hleads', q.page i, ?_, rfl⟩
  -- the pin is given back, and what the frame holds is what the page holds after it
  have hend := hleads'.agrees hp
  have hi'' := (FrameTable.assignments_assign q.frames i i
    (some { a with pins := a.pins - 1 })).trans (if_pos rfl)
  have hframed := hend.frames.framed?_of_assigned hi'' (by simp)
  rwa [show ({ a with pins := a.pins - 1 } : Assignment).upage = c.upage from hupage] at hframed

/-- Bytes are copied only into a page that may be written, which then is dirty and holds them. -/
theorem writeChunk_spec {p : Pager n} (hp : p.Agrees none) (id : SpaceId) (c : Chunk)
    {bytes : Bytes} (hfits : c.start + bytes.length ≤ pageSize) :
    ((writeChunk id c bytes).run p).Meets
      (fun _ q => Leads id c.upage p [.stored id c.upage c.start bytes] q
        ∧ q.has .dirty id c.upage = true ∧ q.has .writable id c.upage = true
        ∧ ∃ page : Page, q.framed? id c.upage = some (page.overwrite c.start bytes))
      (fun e q => Leads id c.upage p [] q ∧ (CopyFails p q id c.upage e ∨ e = .readOnly
        ∧ (q.framed? id c.upage).isSome = true ∧ q.has .writable id c.upage = false))
      (OutOfFrames p id c.upage) := by
  rw [writeChunk_of_fits hfits]
  refine (pinForCopy_spec hp id c.upage).bind ?_ (fun _ _ h => ⟨h.1, Or.inl h.2⟩) fun _ h => h
  intro i q h
  obtain ⟨hleads, a, hi, rfl, hupage, hpins⟩ := h
  have hq := hleads.agrees hp
  have hmapped : (q.address? a.owner c.upage).isSome = true := by
    rw [← hupage, hq.frames.mapped i a hi (by simp)]
    rfl
  simp only [run_bind, run_read]
  split
  next hwritable =>
    simp only [run_bind, run_update]
    have hstored : Visible q none (.stored a.owner c.upage c.start bytes)
        ((q.writePage i ((q.page i).overwrite c.start bytes)).updateDirectory a.owner fun d =>
          (d.setFlag .accessed c.upage true).setFlag .dirty c.upage true) none :=
      .stored hi rfl hupage hwritable hfits
    have hr := hstored.agrees hq
    have hi' : ((q.writePage i ((q.page i).overwrite c.start bytes)).updateDirectory a.owner
        fun d => (d.setFlag .accessed c.upage true).setFlag .dirty c.upage true).assignment? i
          = some a := hi
    rw [run_unpin hr.frames hi' rfl hupage hpins]
    have hleads' := (hleads.visible hp hstored rfl (by simp)).quiet hp
      (fun _ => @Quiet.pinned _ _ _ _ _ (a.pins - 1) hi') rfl
    refine ⟨hleads', ?_, ?_, q.page i, ?_⟩
    · show ((q.spaces.update a.owner _).lookup a.owner).directory.has .dirty c.upage = true
      rw [Spaces.lookup_update, if_pos ⟨rfl, hq.frames.owner i a hi⟩, PageDirectory.has_setFlag,
        if_pos ⟨rfl, rfl⟩, PageDirectory.isMapped_eq, PageDirectory.frameAddress?_setFlag]
      show (true && (q.address? a.owner c.upage).isSome) = true
      rw [hmapped]
      rfl
    · show ((q.spaces.update a.owner _).lookup a.owner).directory.has .writable c.upage = true
      rw [Spaces.lookup_update, if_pos ⟨rfl, hq.frames.owner i a hi⟩, PageDirectory.has_setFlag,
        if_neg (by simp), PageDirectory.has_setFlag, if_neg (by simp)]
      exact hwritable
    · have hend := hleads'.agrees hp
      have hi'' := (FrameTable.assignments_assign q.frames i i
        (some { a with pins := a.pins - 1 })).trans (if_pos rfl)
      have hframed := hend.frames.framed?_of_assigned hi'' (by simp)
      rw [show ({ a with pins := a.pins - 1 } : Assignment).upage = c.upage from hupage] at hframed
      exact hframed.trans (congrArg some ((FramePool.contents_write ..).trans (if_pos rfl)))
  next hreadOnly =>
    -- a page that may not be written is let go as it is
    simp only [run_bind, run_unpin hq.frames hi rfl hupage hpins]
    have hpinned : ∀ S, Quiet S q none (q.assign i (some { a with pins := a.pins - 1 })) none :=
      fun _ => .pinned hi
    refine ⟨hleads.quiet hp hpinned rfl, Or.inr ⟨rfl, ?_, Bool.eq_false_iff.mpr hreadOnly⟩⟩
    rw [((hpinned fun _ => True).agrees hq).frames.isSome_framed?]
    exact hmapped

/-! ## Copies out of user memory -/

theorem run_readChunks_cons (id : SpaceId) (c : Chunk) (rest : List Chunk) (bytes : Bytes)
    (p : Pager n) :
    (readChunks id (c :: rest) bytes).run p = match (readChunk id c).run p with
      | .done more q => (readChunks id rest (bytes ++ more)).run q
      | .failed e q => .done ⟨bytes, .error e⟩ q
      | .fatal reason => .fatal reason := by
  show (attempt (readChunk id c) >>= _).run p = _
  rw [run_bind, run_attempt]
  cases (readChunk id c).run p with
  | done more q => rfl
  | failed e q => rfl
  | fatal reason => rfl

/-- What the copy of each chunk keeps, the copy of all of them keeps. It does not fail: the answer
tells of the chunk that did. -/
theorem readChunks_meets {I : Pager n → Prop} {E : PagingError → Pager n → Prop}
    {X : Fatal → Prop} {id : SpaceId} {cs : List Chunk}
    (hstep : ∀ c ∈ cs, ∀ r, I r → ((readChunk id c).run r).Meets (fun _ q => I q) E X)
    {p : Pager n} (hp : I p) (bytes : Bytes) :
    ((readChunks id cs bytes).run p).Meets
      (fun copied q => copied.result = .ok () ∧ I q ∨ ∃ e, copied.result = .error e ∧ E e q)
      (fun _ _ => False) X := by
  induction cs generalizing p bytes with
  | nil => exact Or.inl ⟨rfl, hp⟩
  | cons c rest ih =>
    have hchunk := hstep c (List.mem_cons_self ..) p hp
    have hrest := fun d hd => hstep d (List.mem_cons_of_mem _ hd)
    rw [run_readChunks_cons]
    revert hchunk
    cases (readChunk id c).run p with
    | done more q => exact fun hq => ih hrest hq (bytes ++ more)
    | failed e q => exact fun hfailed => Or.inr ⟨e, rfl, hfailed⟩
    | fatal reason => exact fun hstop => hstop

/-- What holds of a copy whose bytes are handed out, and of one that ended with an error, holds of
the copy that is all or nothing. -/
theorem fetchUser_meets {p : Pager n} {id : SpaceId} {address length : Nat}
    {D : Bytes → Pager n → Prop} {F : PagingError → Pager n → Prop} {X : Fatal → Prop}
    (h : ((readUser id address length).run p).Meets
      (fun copied q => (copied.result = .ok () → D copied.bytes q)
        ∧ ∀ e, copied.result = .error e → F e q) F X) :
    ((fetchUser id address length).run p).Meets D F X := by
  unfold fetchUser
  refine h.bind ?_ (fun _ _ h => h) fun _ h => h
  intro copied q h
  obtain ⟨bytes, result⟩ := copied
  obtain ⟨hok, herror⟩ := h
  cases result with
  | ok u => exact hok rfl
  | error e => exact herror e rfl

/-- The chunks before the one at which a copy stops. -/
def StopsAt (cs : List Chunk) (reach : List Chunk → Pager n → Prop) (id : SpaceId)
    (reason : Fatal) : Prop :=
  ∃ front c rest q, cs = front ++ c :: rest ∧ reach front q ∧ OutOfFrames q id c.upage reason

/-- A copy out of user memory takes a step for each page, up to the first page that cannot be
read. -/
theorem readChunks_spec {p : Pager n} (hp : p.Agrees none) (id : SpaceId) (cs : List Chunk)
    (bytes : Bytes) :
    ((readChunks id cs bytes).run p).Meets
      (fun _ q => Through (fun r => ∃ m, ((readChunks id (cs.take m) bytes).run p).state? = some r)
        p [] q)
      (fun _ _ => False)
      (StopsAt cs (fun front q =>
        ∃ more, (readChunks id front bytes).run p = .done ⟨more, .ok ()⟩ q) id) := by
  induction cs generalizing p bytes with
  | nil => exact .refl
  | cons c rest ih =>
    have hchunk := readChunk_spec hp id c
    rw [run_readChunks_cons]
    cases hrun : (readChunk id c).run p with
    | done more q =>
      rw [hrun] at hchunk
      obtain ⟨hleads, -⟩ := hchunk
      -- a longer copy passes the states that the rest passes from the first page on
      have hstep : ∀ cs, (readChunks id (c :: cs) bytes).run p
          = (readChunks id cs (bytes ++ more)).run q := fun cs => by
        rw [run_readChunks_cons, hrun]
      have hfirst : ((readChunks id ((c :: rest).take 1) bytes).run p).state? = some q := by
        rw [List.take_succ_cons, hstep]
        rfl
      refine (ih (hleads.agrees hp) (bytes ++ more)).mono
        (fun _ r h => (Through.of_leads hleads ⟨1, hfirst⟩).trans (h.mono ?_)) (fun _ _ h => h) ?_
      · intro t ht
        obtain ⟨m, ht⟩ := ht
        refine ⟨m + 1, ?_⟩
        rw [List.take_succ_cons, hstep]
        exact ht
      · intro reason h
        obtain ⟨front, d, rest', r, rfl, ⟨more', hfront⟩, hstop⟩ := h
        exact ⟨c :: front, d, rest', r, rfl, ⟨more', (hstep front).trans hfront⟩, hstop⟩
    | failed e q =>
      rw [hrun] at hchunk
      refine .of_leads hchunk.1 ⟨1, ?_⟩
      rw [List.take_succ_cons, run_readChunks_cons, hrun]
      rfl
    | fatal reason =>
      rw [hrun] at hchunk
      exact ⟨[], c, rest, p, rfl, ⟨bytes, rfl⟩, hchunk⟩

/-! ## Copies to user memory -/

theorem run_writeChunks_cons (id : SpaceId) (c : Chunk) (rest : List Chunk) (bytes : Bytes)
    (p : Pager n) :
    (writeChunks id (c :: rest) bytes).run p
      = match (writeChunk id c (bytes.take c.count)).run p with
        | .done _ q => (writeChunks id rest (bytes.drop c.count)).run q
        | .failed e q => .failed e q
        | .fatal reason => .fatal reason := by
  show (writeChunk id c (bytes.take c.count) >>= fun _ =>
    writeChunks id rest (bytes.drop c.count)).run p = _
  rw [run_bind]
  cases (writeChunk id c (bytes.take c.count)).run p with
  | done u q => rfl
  | failed e q => rfl
  | fatal reason => rfl

/-- What storing each chunk keeps, storing all of them keeps. -/
theorem writeChunks_meets {I : Pager n → Prop} {E : PagingError → Pager n → Prop}
    {X : Fatal → Prop} {id : SpaceId} {cs : List Chunk}
    (hstep : ∀ c ∈ cs, ∀ (bytes : Bytes) r, I r →
      ((writeChunk id c (bytes.take c.count)).run r).Meets (fun _ q => I q) E X)
    {p : Pager n} (hp : I p) (bytes : Bytes) :
    ((writeChunks id cs bytes).run p).Meets (fun _ q => I q) E X := by
  induction cs generalizing p bytes with
  | nil => exact hp
  | cons c rest ih =>
    have hchunk := hstep c (List.mem_cons_self ..) bytes p hp
    have hrest := fun d hd => hstep d (List.mem_cons_of_mem _ hd)
    rw [run_writeChunks_cons]
    revert hchunk
    cases (writeChunk id c (bytes.take c.count)).run p with
    | done u q => exact fun hq => ih hrest hq (bytes.drop c.count)
    | failed e q => exact fun hfailed => hfailed
    | fatal reason => exact fun hstop => hstop

/-- How many bytes a copy into chunks stores before it fails. -/
def storedCount (id : SpaceId) : List Chunk → Bytes → Pager n → Nat
  | [], _, _ => 0
  | c :: rest, bytes, p =>
    match (writeChunk id c (bytes.take c.count)).run p with
    | .done _ q => c.count + storedCount id rest (bytes.drop c.count) q
    | _ => 0

theorem storedCount_cons (id : SpaceId) (c : Chunk) (rest : List Chunk) (bytes : Bytes)
    (p : Pager n) :
    storedCount id (c :: rest) bytes p
      = match (writeChunk id c (bytes.take c.count)).run p with
        | .done _ q => c.count + storedCount id rest (bytes.drop c.count) q
        | _ => 0 := (rfl)

/-- The changes that a copy into chunks makes. -/
def storesOf (id : SpaceId) : List Chunk → Bytes → List Change
  | [], _ => []
  | c :: rest, bytes =>
    .stored id c.upage c.start (bytes.take c.count) :: storesOf id rest (bytes.drop c.count)

theorem of_mem_storesOf {id : SpaceId} {cs : List Chunk} {bytes : Bytes} {c : Change}
    (h : c ∈ storesOf id cs bytes) :
    ∃ d ∈ cs, ∃ part, part.length ≤ d.count ∧ c = .stored id d.upage d.start part := by
  induction cs generalizing bytes with
  | nil => cases h
  | cons d rest ih =>
    rcases List.mem_cons.mp h with rfl | h
    · exact ⟨d, List.mem_cons_self .., _, List.length_take_le .., rfl⟩
    · obtain ⟨e, he, part, hlen, rfl⟩ := ih h
      exact ⟨e, List.mem_cons_of_mem _ he, part, hlen, rfl⟩

/-- A copy to user memory takes a step for each page. It stores all chunks, or those before the
first that it cannot. -/
theorem writeChunks_spec {p : Pager n} (hp : p.Agrees none) (id : SpaceId) (cs : List Chunk)
    (bytes : Bytes) :
    ((writeChunks id cs bytes).run p).Meets
      (fun _ q => Through (fun r => ∃ m, ((writeChunks id (cs.take m) bytes).run p).state? = some r)
          p (storesOf id cs bytes) q
        ∧ storedCount id cs bytes p = totalCount cs)
      (fun _ q => ∃ front rest, cs = front ++ rest
        ∧ Through (fun r => ∃ m, ((writeChunks id (cs.take m) bytes).run p).state? = some r)
          p (storesOf id front bytes) q
        ∧ storedCount id cs bytes p = totalCount front)
      (StopsAt cs (fun front q => (writeChunks id front bytes).run p = .done () q) id) := by
  induction cs generalizing p bytes with
  | nil => exact ⟨.refl, rfl⟩
  | cons c rest ih =>
    have hchunk := writeChunk_spec hp id c (c.fits_take bytes)
    rw [run_writeChunks_cons, storedCount_cons]
    cases hrun : (writeChunk id c (bytes.take c.count)).run p with
    | done u q =>
      rw [hrun] at hchunk
      have hstep : ∀ cs, (writeChunks id (c :: cs) bytes).run p
          = (writeChunks id cs (bytes.drop c.count)).run q := fun cs => by
        rw [run_writeChunks_cons, hrun]
      have hfirst : ((writeChunks id ((c :: rest).take 1) bytes).run p).state? = some q := by
        rw [List.take_succ_cons, hstep]
        rfl
      -- the steps of the rest are steps of the whole copy
      have hthrough : ∀ {ds r},
          Through (fun r => ∃ m,
            ((writeChunks id (rest.take m) (bytes.drop c.count)).run q).state? = some r) q ds r →
          Through (fun r => ∃ m,
            ((writeChunks id ((c :: rest).take m) bytes).run p).state? = some r) p
            (.stored id c.upage c.start (bytes.take c.count) :: ds) r := by
        intro ds r h
        refine (Through.of_leads hchunk.1 ⟨1, hfirst⟩).trans (h.mono ?_)
        intro t ht
        obtain ⟨m, ht⟩ := ht
        refine ⟨m + 1, ?_⟩
        rw [List.take_succ_cons, hstep]
        exact ht
      refine (ih (hchunk.1.agrees hp) (bytes.drop c.count)).mono ?_ ?_ ?_
      · intro _ r h
        obtain ⟨h, hcount⟩ := h
        exact ⟨hthrough h, congrArg (c.count + ·) hcount⟩
      -- on failure the pages before the failing one are stored, and the count says exactly those
      · intro _ r h
        obtain ⟨front, rest', hrest, h, hcount⟩ := h
        exact ⟨c :: front, rest', congrArg (c :: ·) hrest, hthrough h,
          congrArg (c.count + ·) hcount⟩
      · intro reason h
        obtain ⟨front, d, rest', r, rfl, hfront, hstop⟩ := h
        exact ⟨c :: front, d, rest', r, rfl, (hstep front).trans hfront, hstop⟩
    | failed e q =>
      rw [hrun] at hchunk
      refine ⟨[], c :: rest, rfl, .of_leads hchunk.1 ⟨1, ?_⟩, rfl⟩
      rw [List.take_succ_cons, run_writeChunks_cons, hrun]
      rfl
    | fatal reason =>
      rw [hrun] at hchunk
      exact ⟨[], c, rest, p, rfl, rfl, hchunk⟩

end DemandPaging

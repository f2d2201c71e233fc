import DemandPaging.Proofs.Runs
/-!
# Loops without a counter

Pinning a page, or loading it and looking again, is a loop that would go on for ever if a page
could be neither resident nor absent. `PinLoop` is this loop with the number of its loads, and
`UserLoop` a copy that goes through a range from chunk to chunk with it; its trace is the list of
how many bytes were done when each turn began. Both are relations, so they hold only of loops that
end.

In a state of a run they end, and in one way only (`Pager.Visited.loops_end`). A page that is not
resident is not mapped, since the frame table and the page directories agree; and a descriptor that
says that its page is loaded has a mapped page. So the pin loop turns at most once, and what it
comes to is what `pinResident` does.
-/

namespace DemandPaging

open Pager PagerAction Outcome

variable {n : Nat} {β : Type} {p q r : Pager n} {id : SpaceId} {upage : Nat}

/-! ## Pinning a page -/

/-- Pin the page, or else load it and begin again: after so many loads the loop ends with this
outcome. -/
inductive PinLoop (id : SpaceId) (upage : Nat) : Pager n → Nat → Outcome n (Fin n) → Prop
  | pinned {p q : Pager n} {i : Fin n} (hpin : (pin id upage).run p = .done i q) :
      PinLoop id upage p 0 (.done i q)
  | refused {p q : Pager n} {e : PagingError} (hpin : (pin id upage).run p = .failed e q)
      (he : e ≠ .notResident) : PinLoop id upage p 0 (.failed e q)
  | loaded {p q r : Pager n} {i : Fin n} (hpin : (pin id upage).run p = .failed .notResident q)
      (hload : (bringIn id upage).run q = .done (some i) r) : PinLoop id upage p 1 (.done i r)
  | failed {p q r : Pager n} {e : PagingError}
      (hpin : (pin id upage).run p = .failed .notResident q)
      (hload : (bringIn id upage).run q = .failed e r) : PinLoop id upage p 1 (.failed e r)
  | stopped {p q : Pager n} {reason : Fatal}
      (hpin : (pin id upage).run p = .failed .notResident q)
      (hload : (bringIn id upage).run q = .fatal reason) : PinLoop id upage p 1 (.fatal reason)
  | again {p q r : Pager n} {loads : Nat} {outcome : Outcome n (Fin n)}
      (hpin : (pin id upage).run p = .failed .notResident q)
      (hload : (bringIn id upage).run q = .done none r)
      (hagain : PinLoop id upage r loads outcome) : PinLoop id upage p (loads + 1) outcome

/-- A page that is resident needs no load, and any other needs one. -/
def Pager.loadsToPin (p : Pager n) (id : SpaceId) (upage : Nat) : Nat :=
  if (p.resident? id upage).isSome then 0 else 1

/-- Loading a page that is not resident brings a frame or an error. -/
theorem run_bringIn_ne_none (hp : p.Agrees none) (h : p.resident? id upage = none) :
    (bringIn id upage).run p ≠ .done none r := by
  intro hrun
  have hspec := bringIn_lands hp id upage
  rw [hrun] at hspec
  obtain ⟨_, d, hd, hloaded, _⟩ := hspec
  have hmapped := (hp.descriptors.loaded_iff id upage d hd).mp hloaded
  rw [address?_of_not_resident hp.frames (hp.descriptors.upage id upage d hd).1 h] at hmapped
  cases hmapped

/-- Pinning fails in one way only, and then the page is not resident. -/
theorem of_run_pin_eq_failed {e : PagingError} (h : (pin id upage).run p = .failed e q) :
    e = .notResident ∧ q = p ∧ p.resident? id upage = none := by
  have hspec := pin_spec p id upage
  rw [h] at hspec
  exact hspec

theorem run_pin_ne_fatal (p : Pager n) (reason : Fatal) : (pin id upage).run p ≠ .fatal reason := by
  intro h
  have hspec := pin_spec p id upage
  rw [h] at hspec
  exact hspec

theorem resident?_of_run_pin {i : Fin n} (hp : p.FramesAgree none)
    (h : (pin id upage).run p = .done i q) : (p.resident? id upage).isSome = true := by
  have hspec := pin_spec p id upage
  rw [h] at hspec
  obtain ⟨a, hi, rfl, rfl, _⟩ := hspec
  rw [resident?_of_assigned hp hi]
  rfl

/-- What `pinResident` does after its only try to pin the page. -/
theorem run_pinResident (id : SpaceId) (upage : Nat) (p : Pager n) :
    (pinResident id upage).run p = match (pin id upage).run p with
      | .done i q => .done i q
      | .failed .notResident q => match (bringIn id upage).run q with
        | .done (some i) r => .done i r
        | .done none r => .fatal (.neverResident upage (r.space id).pid.toNat)
        | .failed e r => .failed e r
        | .fatal reason => .fatal reason
      | .failed e q => .failed e q
      | .fatal reason => .fatal reason := by
  unfold pinResident
  rw [run_bind, run_attempt]
  cases (pin id upage).run p with
  | done i q => rfl
  | failed e q =>
    cases e with
    | notResident =>
      simp only [run_bind]
      cases (bringIn id upage).run q with
      | done found r => cases found <;> rfl
      | failed e r => rfl
      | fatal reason => rfl
    | _ => rfl
  | fatal reason => rfl

theorem loadsToPin_of_failed {e : PagingError} (h : (pin id upage).run p = .failed e q) :
    p.loadsToPin id upage = 1 := by
  unfold loadsToPin
  rw [(of_run_pin_eq_failed h).2.2]
  rfl

/-- A loop that ends has made no more than one load, and does what `pinResident` does. -/
theorem PinLoop.eq {loads : Nat} {outcome : Outcome n (Fin n)} (hp : p.Agrees none)
    (h : PinLoop id upage p loads outcome) :
    loads = p.loadsToPin id upage ∧ outcome = (pinResident id upage).run p := by
  rw [run_pinResident]
  cases h with
  | pinned hpin =>
    rw [hpin]
    exact ⟨(if_pos (resident?_of_run_pin hp.frames hpin)).symm, rfl⟩
  | refused hpin he => exact absurd (of_run_pin_eq_failed hpin).1 he
  | loaded hpin hload | failed hpin hload | stopped hpin hload =>
    simp only [hpin, hload]
    exact ⟨(loadsToPin_of_failed hpin).symm, trivial⟩
  | again hpin hload _ =>
    obtain ⟨_, rfl, hnone⟩ := of_run_pin_eq_failed hpin
    exact absurd hload (run_bringIn_ne_none hp hnone)

/-- The loop ends. -/
theorem PinLoop.ends (hp : p.Agrees none) (id : SpaceId) (upage : Nat) :
    PinLoop id upage p (p.loadsToPin id upage) ((pinResident id upage).run p) := by
  rw [run_pinResident]
  cases hpin : (pin id upage).run p with
  | done i q =>
    have hresident := resident?_of_run_pin hp.frames hpin
    rw [show p.loadsToPin id upage = 0 from if_pos hresident]
    exact .pinned hpin
  | failed e q =>
    rw [loadsToPin_of_failed hpin]
    obtain ⟨rfl, rfl, hnone⟩ := of_run_pin_eq_failed hpin
    cases hload : (bringIn id upage).run q with
    | done found r =>
      cases found with
      | none => exact absurd hload (run_bringIn_ne_none hp hnone)
      | some i => simpa only [hload] using PinLoop.loaded hpin hload
    | failed e r => simpa only [hload] using PinLoop.failed hpin hload
    | fatal reason => simpa only [hload] using PinLoop.stopped hpin hload
  | fatal reason => exact absurd hpin (run_pin_ne_fatal p reason)

/-- The system stops in the loop only where it finds no frame for the page. -/
theorem run_obtainFrame_of_pinResident (hp : p.Agrees none) {reason : Fatal}
    (h : (pinResident id upage).run p = .fatal reason) :
    (obtainFrame id upage false).run p = .fatal reason := by
  have hspec := pinResident_lands hp id upage
  rw [h] at hspec
  obtain ⟨zero, hstops⟩ := hspec.stops
  -- whether the frame would be cleared makes no difference when there is none
  unfold obtainFrame at hstops ⊢
  simp only [run_bind, run_read] at hstops ⊢
  cases htake : p.frames.takeFree id upage with
  | some taken =>
    rw [htake] at hstops
    cases zero <;> cases hstops
  | none =>
    rw [htake] at hstops
    exact hstops

/-! ## Copying chunk by chunk -/

/-- In a copy an address without a page is a bad one. -/
def asCopyError : PagingError → PagingError
  | .notFound => .badAddress
  | e => e

/-- What a copy does when it has pinned a page, or has failed to. -/
def afterPin (visit : Fin n → PagerAction n β) : Outcome n (Fin n) → Outcome n β
  | .done i q => (visit i).run q
  | .failed e q => .failed (asCopyError e) q
  | .fatal reason => .fatal reason

/-- The next chunk of a range when so many bytes are done. -/
def chunkAt (address length done : Nat) : Chunk := .first (address + done) (length - done)

/-- Visit the chunks of a range from the byte `done` on, each in its pinned page, until all bytes
are done or a visit fails. The list of numbers says how many bytes were done at each turn. -/
inductive CopyLoop (id : SpaceId) (address length : Nat)
    (visit : Nat → Chunk → Fin n → PagerAction n β) :
    Nat → Pager n → List Nat → List β → Outcome n Unit → Prop
  | finished {done : Nat} {p : Pager n} (h : length ≤ done) :
      CopyLoop id address length visit done p [] [] (.done () p)
  | failed {done loads : Nat} {p q : Pager n} {pinned : Outcome n (Fin n)} {e : PagingError}
      (h : done < length) (hpin : PinLoop id (chunkAt address length done).upage p loads pinned)
      (hvisit : afterPin (visit done (chunkAt address length done)) pinned = .failed e q) :
      CopyLoop id address length visit done p [done] [] (.failed e q)
  | stopped {done loads : Nat} {p : Pager n} {pinned : Outcome n (Fin n)} {reason : Fatal}
      (h : done < length) (hpin : PinLoop id (chunkAt address length done).upage p loads pinned)
      (hvisit : afterPin (visit done (chunkAt address length done)) pinned = .fatal reason) :
      CopyLoop id address length visit done p [done] [] (.fatal reason)
  | next {done loads : Nat} {p q : Pager n} {pinned : Outcome n (Fin n)} {b : β}
      {trace : List Nat} {results : List β} {outcome : Outcome n Unit}
      (h : done < length) (hpin : PinLoop id (chunkAt address length done).upage p loads pinned)
      (hvisit : afterPin (visit done (chunkAt address length done)) pinned = .done b q)
      (hrest : CopyLoop id address length visit (done + (chunkAt address length done).count) q
        trace results outcome) :
      CopyLoop id address length visit done p (done :: trace) (b :: results) outcome

/-- Visit all chunks of a range of user memory. Any other range is a bad address. -/
def UserLoop (id : SpaceId) (address length : Nat) (visit : Nat → Chunk → Fin n → PagerAction n β)
    (p : Pager n) (trace : List Nat) (results : List β) (outcome : Outcome n Unit) : Prop :=
  if IsUserRange address length then CopyLoop id address length visit 0 p trace results outcome
  else trace = [] ∧ results = [] ∧ outcome = .failed .badAddress p

/-- A turn of the copy: pin the page of the next chunk, and visit it. -/
def copyTurn (id : SpaceId) (address length : Nat) (visit : Nat → Chunk → Fin n → PagerAction n β)
    (done : Nat) : PagerAction n β :=
  pinForCopy id (chunkAt address length done).upage >>= visit done (chunkAt address length done)

theorem run_pinForCopy_bind (visit : Fin n → PagerAction n β) (p : Pager n) :
    (pinForCopy id upage >>= visit).run p = afterPin visit ((pinResident id upage).run p) := by
  unfold pinForCopy
  rw [run_bind, run_bind, run_attempt]
  cases (pinResident id upage).run p with
  | done i q => rfl
  | failed e q => cases e <;> rfl
  | fatal reason => rfl

/-- What a copy does after the pin loop is what it does after `pinResident`. -/
theorem PinLoop.afterPin_eq {loads : Nat} {pinned : Outcome n (Fin n)} (hp : p.Agrees none)
    (h : PinLoop id upage p loads pinned) (visit : Fin n → PagerAction n β) :
    afterPin visit pinned = (pinForCopy id upage >>= visit).run p := by
  rw [(h.eq hp).2, run_pinForCopy_bind]

section Turns

variable {address length done : Nat} {visit : Nat → Chunk → Fin n → PagerAction n β}
  {trace : List Nat} {results : List β} {outcome : Outcome n Unit}

/-- The tables agree after each turn of the copy if they do before. -/
def TurnsAgree (id : SpaceId) (address length : Nat)
    (visit : Nat → Chunk → Fin n → PagerAction n β) : Prop :=
  ∀ done p b q, p.Agrees none → (copyTurn id address length visit done).run p = .done b q →
    q.Agrees none

/-- The copy ends, and more bytes are done at each turn than at the one before. -/
theorem CopyLoop.ends (hvisit : TurnsAgree id address length visit) (hp : p.Agrees none)
    (done : Nat) :
    ∃ trace results outcome, CopyLoop id address length visit done p trace results outcome
      ∧ trace.Pairwise (· < ·) ∧ ∀ d ∈ trace, done ≤ d ∧ d < length := by
  induction hrest : length - done using Nat.strongRecOn generalizing done p with
  | ind k ih =>
    by_cases hdone : length ≤ done
    · exact ⟨[], [], _, .finished hdone, .nil, fun _ h => nomatch h⟩
    have hless : done < length := Nat.lt_of_not_le hdone
    have hpin := PinLoop.ends hp id (chunkAt address length done).upage
    have hturn : _ = (copyTurn id address length visit done).run p := hpin.afterPin_eq hp _
    have hone : [done].Pairwise (· < ·) ∧ ∀ d ∈ [done], done ≤ d ∧ d < length :=
      ⟨List.pairwise_singleton _ _, fun d hd => by cases List.mem_singleton.mp hd; omega⟩
    cases hrun : (copyTurn id address length visit done).run p with
    | failed e q => exact ⟨_, _, _, .failed hless hpin (hturn.trans hrun), hone⟩
    | fatal reason => exact ⟨_, _, _, .stopped hless hpin (hturn.trans hrun), hone⟩
    | done b q =>
      have hcount : 0 < (chunkAt address length done).count := firstCount_pos _ (by omega)
      obtain ⟨trace, results, outcome, hloop, hpairwise, hbounds⟩ :=
        ih _ (by omega) (hvisit done p b q hp hrun) (done + (chunkAt address length done).count) rfl
      refine ⟨done :: trace, b :: results, outcome, .next hless hpin (hturn.trans hrun) hloop,
        List.pairwise_cons.mpr ⟨fun d hd => ?_, hpairwise⟩, fun d hd => ?_⟩
      · have hd := hbounds d hd
        omega
      · rcases List.mem_cons.mp hd with rfl | hd
        · omega
        · have hd := hbounds d hd
          omega

/-- There is one way only in which it ends. -/
theorem CopyLoop.unique (hvisit : TurnsAgree id address length visit) (hp : p.Agrees none)
    {trace' : List Nat} {results' : List β} {outcome' : Outcome n Unit}
    (h : CopyLoop id address length visit done p trace results outcome)
    (h' : CopyLoop id address length visit done p trace' results' outcome') :
    trace' = trace ∧ results' = results ∧ outcome' = outcome := by
  induction h generalizing trace' results' with
  | finished h =>
    cases h' with
    | finished => exact ⟨rfl, rfl, rfl⟩
    | failed h' | stopped h' | next h' => omega
  | failed h hpin hturn =>
    rw [hpin.afterPin_eq hp] at hturn
    cases h' with
    | finished h' => omega
    | failed _ hpin' hturn' =>
      rw [hpin'.afterPin_eq hp, hturn] at hturn'
      cases hturn'
      exact ⟨rfl, rfl, rfl⟩
    | stopped _ hpin' hturn' | next _ hpin' hturn' =>
      rw [hpin'.afterPin_eq hp, hturn] at hturn'
      cases hturn'
  | stopped h hpin hturn =>
    rw [hpin.afterPin_eq hp] at hturn
    cases h' with
    | finished h' => omega
    | stopped _ hpin' hturn' =>
      rw [hpin'.afterPin_eq hp, hturn] at hturn'
      cases hturn'
      exact ⟨rfl, rfl, rfl⟩
    | failed _ hpin' hturn' | next _ hpin' hturn' =>
      rw [hpin'.afterPin_eq hp, hturn] at hturn'
      cases hturn'
  | next h hpin hturn _ ih =>
    rw [hpin.afterPin_eq hp] at hturn
    cases h' with
    | finished h' => omega
    | failed _ hpin' hturn' | stopped _ hpin' hturn' =>
      rw [hpin'.afterPin_eq hp, hturn] at hturn'
      cases hturn'
    | next _ hpin' hturn' hrest =>
      rw [hpin'.afterPin_eq hp, hturn] at hturn'
      cases hturn'
      obtain ⟨rfl, rfl, rfl⟩ := ih (hvisit _ _ _ _ hp hturn) hrest
      exact ⟨rfl, rfl, rfl⟩

end Turns

/-! ## The copies of the pager -/

/-- Read a chunk of a pinned page. -/
def readPinned (id : SpaceId) (c : Chunk) (i : Fin n) : PagerAction n Bytes := do
  let page ← read (·.page i)
  let bytes ← ofFatal (page.part c.start c.count)
  update fun p => p.updateDirectory id (·.setFlag .accessed c.upage true)
  unpin id c.upage
  return bytes

/-- Write the bytes from `done` on into a chunk of a pinned page. -/
def writePinned (id : SpaceId) (bytes : Bytes) (done : Nat) (c : Chunk) (i : Fin n) :
    PagerAction n Unit := do
  if ← read fun p => (p.space id).directory.writable c.upage then
    let page ← read (·.page i)
    let written ← ofFatal (page.patch c.start ((bytes.drop done).take c.count))
    update fun p => p.writePage i written
    update fun p => p.updateDirectory id fun d =>
      (d.setFlag .accessed c.upage true).setFlag .dirty c.upage true
    unpin id c.upage
  else
    unpin id c.upage
    fail .readOnly

/-- How a copy out of user memory ends, with the bytes of its turns. -/
def Outcome.copied (bytes : Bytes) : Outcome n Unit → Outcome n Copied
  | .done _ q => .done ⟨bytes, .ok ()⟩ q
  | .failed e q => .done ⟨bytes, .error e⟩ q
  | .fatal reason => .fatal reason

section Copies

variable {address length done : Nat} {trace : List Nat} {outcome : Outcome n Unit}

theorem turnsAgree_readPinned (id : SpaceId) (address length : Nat) :
    TurnsAgree (n := n) id address length fun _ => readPinned id := by
  intro done p b q hp hrun
  have hspec := readChunk_spec hp id (chunkAt address length done)
  rw [show (readChunk id (chunkAt address length done)).run p = .done b q from hrun] at hspec
  exact hspec.1.agrees hp

theorem turnsAgree_writePinned (id : SpaceId) (address : Nat) (bytes : Bytes) :
    TurnsAgree (n := n) id address bytes.length (writePinned id bytes) := by
  intro done p b q hp hrun
  have hspec := writeChunk_spec hp id (chunkAt address bytes.length done)
    (Chunk.fits_take _ (bytes.drop done))
  rw [show (writeChunk id (chunkAt address bytes.length done) _).run p = .done b q from hrun]
    at hspec
  exact hspec.1.agrees hp

/-- What is left of a range is its next chunk and what is left after that. -/
theorem chunks_of_lt (h : done < length) :
    chunks (address + done) (length - done)
      = chunkAt address length done :: chunks (address + (done + (chunkAt address length done).count))
        (length - (done + (chunkAt address length done).count)) := by
  rw [chunks_of_ne_zero (by omega : length - done ≠ 0), ← Nat.add_assoc, ← Nat.sub_sub]
  rfl

theorem CopyLoop.run_readChunks {results : List Bytes} (hp : p.Agrees none)
    (h : CopyLoop id address length (fun _ => readPinned id) done p trace results outcome)
    (bytes : Bytes) :
    (readChunks id (chunks (address + done) (length - done)) bytes).run p
      = outcome.copied (bytes ++ results.flatten) := by
  induction h generalizing bytes with
  | finished h =>
    rw [Nat.sub_eq_zero_of_le h, chunks_zero, List.flatten_nil, List.append_nil]
    rfl
  | failed h hpin hturn | stopped h hpin hturn =>
    have hturn : (readChunk id _).run _ = _ := (hpin.afterPin_eq hp _).symm.trans hturn
    rw [chunks_of_lt h, run_readChunks_cons, hturn, List.flatten_nil, List.append_nil]
    rfl
  | next h hpin hturn _ ih =>
    have hturn : (readChunk id _).run _ = _ := (hpin.afterPin_eq hp _).symm.trans hturn
    have hq := turnsAgree_readPinned id address length _ _ _ _ hp hturn
    rw [chunks_of_lt h, run_readChunks_cons, hturn]
    simp only
    rw [ih hq, List.flatten_cons, List.append_assoc]

theorem CopyLoop.run_writeChunks {bytes : Bytes} {results : List Unit} (hp : p.Agrees none)
    (h : CopyLoop id address bytes.length (writePinned id bytes) done p trace results outcome) :
    (writeChunks id (chunks (address + done) (bytes.length - done)) (bytes.drop done)).run p
      = outcome := by
  induction h with
  | finished h =>
    rw [Nat.sub_eq_zero_of_le h, chunks_zero]
    rfl
  | failed h hpin hturn | stopped h hpin hturn =>
    have hturn : (writeChunk id _ _).run _ = _ := (hpin.afterPin_eq hp _).symm.trans hturn
    rw [chunks_of_lt h, run_writeChunks_cons, hturn]
  | next h hpin hturn _ ih =>
    have hturn : (writeChunk id _ _).run _ = _ := (hpin.afterPin_eq hp _).symm.trans hturn
    have hq := turnsAgree_writePinned id address bytes _ _ _ _ hp hturn
    rw [chunks_of_lt h, run_writeChunks_cons, hturn]
    simp only
    rw [List.drop_drop, ih hq]

end Copies

/-! ## They end -/

/-- A copy of any range ends, in one way only, and more bytes are done at each turn. -/
theorem userLoop_ends {visit : Nat → Chunk → Fin n → PagerAction n β} {address length : Nat}
    (hvisit : TurnsAgree id address length visit) (hp : p.Agrees none) :
    ∃ trace results outcome,
      (∀ t r o, UserLoop id address length visit p t r o
        ↔ t = trace ∧ r = results ∧ o = outcome)
      ∧ trace.Pairwise (· < ·) ∧ ∀ done ∈ trace, done < length := by
  unfold UserLoop
  by_cases hrange : IsUserRange address length
  · obtain ⟨trace, results, outcome, hloop, hpairwise, hbounds⟩ := CopyLoop.ends hvisit hp 0
    refine ⟨trace, results, outcome, fun t r o => ?_, hpairwise, fun d hd => (hbounds d hd).2⟩
    rw [if_pos hrange]
    refine ⟨fun h => hloop.unique hvisit hp h, fun h => ?_⟩
    obtain ⟨rfl, rfl, rfl⟩ := h
    exact hloop
  · refine ⟨[], [], .failed .badAddress p, fun t r o => ?_, .nil, fun d hd => nomatch hd⟩
    rw [if_neg hrange]

theorem UserLoop.run_readUser {address length : Nat} {trace : List Nat} {results : List Bytes}
    {outcome : Outcome n Unit} (hp : p.Agrees none)
    (h : UserLoop id address length (fun _ => readPinned id) p trace results outcome) :
    (readUser id address length).run p = outcome.copied results.flatten := by
  unfold UserLoop at h
  unfold readUser
  split at h
  next hrange =>
    rw [if_pos hrange]
    exact h.run_readChunks hp []
  next hrange =>
    obtain ⟨rfl, rfl, rfl⟩ := h
    rw [if_neg hrange]
    rfl

theorem UserLoop.run_writeUser {address : Nat} {bytes : Bytes} {trace : List Nat}
    {results : List Unit} {outcome : Outcome n Unit} (hp : p.Agrees none)
    (h : UserLoop id address bytes.length (writePinned id bytes) p trace results outcome) :
    (writeUser id address bytes).run p = outcome := by
  unfold UserLoop at h
  unfold writeUser
  split at h
  next hrange =>
    rw [if_pos hrange]
    exact h.run_writeChunks hp
  next hrange =>
    obtain ⟨rfl, rfl, rfl⟩ := h
    rw [if_neg hrange]
    rfl

/-- **The loops end.** In every state that a run passes, for every space: if an aligned page cannot
be pinned, it is not mapped, its descriptor if it has one says that it is not loaded, and loading it
brings a frame or an error. So the pin loop ends in one way only, after no load if the page is
resident and after one if it is not; and the system stops in it only where there is no frame for
the page. A copy from or to any address ends in one way only as well, and more bytes are done at
each of its turns than at the one before. Both are the copies of the pager. -/
theorem Pager.Visited.loops_end (hp : p.Visited) (id : SpaceId) :
    (∀ upage, PageAligned upage →
      (∀ e q, (pin id upage).run p = .failed e q →
        e = .notResident ∧ q = p ∧ p.address? id upage = none
          ∧ (∀ d, p.descriptor? id upage = some d → d.loaded = false)
          ∧ ∀ r, (bringIn id upage).run p ≠ .done none r)
      ∧ (∀ loads outcome, PinLoop id upage p loads outcome
        ↔ loads = (if (p.resident? id upage).isSome then 0 else 1)
          ∧ outcome = (pinResident id upage).run p)
      ∧ ∀ reason, (pinResident id upage).run p = .fatal reason →
        (obtainFrame id upage false).run p = .fatal reason)
    ∧ (∀ address length, ∃ trace results outcome,
      (∀ t r o, UserLoop id address length (fun _ => readPinned id) p t r o
        ↔ t = trace ∧ r = results ∧ o = outcome)
      ∧ trace.Pairwise (· < ·) ∧ (∀ done ∈ trace, done < length)
      ∧ (readUser id address length).run p = outcome.copied results.flatten)
    ∧ ∀ address bytes, ∃ trace results outcome,
      (∀ t r o, UserLoop id address bytes.length (writePinned id bytes) p t r o
        ↔ t = trace ∧ r = results ∧ o = outcome)
      ∧ trace.Pairwise (· < ·) ∧ (∀ done ∈ trace, done < bytes.length)
      ∧ (writeUser id address bytes).run p = outcome := by
  have hagrees := hp.agrees
  refine ⟨fun upage haligned => ⟨?_, ?_, ?_⟩, ?_, ?_⟩
  · intro e q hfailed
    obtain ⟨he, hq, hnone⟩ := of_run_pin_eq_failed hfailed
    have hunmapped := address?_of_not_resident hagrees.frames haligned hnone
    refine ⟨he, hq, hunmapped, fun d hd => Bool.eq_false_iff.mpr fun hloaded => ?_,
      fun r => run_bringIn_ne_none hagrees hnone⟩
    have hmapped := (hagrees.descriptors.loaded_iff id upage d hd).mp hloaded
    rw [hunmapped] at hmapped
    cases hmapped
  · intro loads outcome
    refine ⟨fun h => h.eq hagrees, fun h => ?_⟩
    obtain ⟨rfl, rfl⟩ := h
    exact PinLoop.ends hagrees id upage
  · exact fun reason => run_obtainFrame_of_pinResident hagrees
  · intro address length
    obtain ⟨trace, results, outcome, hends, hpairwise, hbounds⟩ :=
      userLoop_ends (turnsAgree_readPinned id address length) hagrees
    have hloop := (hends trace results outcome).mpr ⟨rfl, rfl, rfl⟩
    exact ⟨trace, results, outcome, hends, hpairwise, hbounds, hloop.run_readUser hagrees⟩
  · intro address bytes
    obtain ⟨trace, results, outcome, hends, hpairwise, hbounds⟩ :=
      userLoop_ends (turnsAgree_writePinned id address bytes) hagrees
    have hloop := (hends trace results outcome).mpr ⟨rfl, rfl, rfl⟩
    exact ⟨trace, results, outcome, hends, hpairwise, hbounds, hloop.run_writeUser hagrees⟩

/-- With one frame, the page of a stack that was touched last has it. The page above needs a load
to be pinned, and a copy over both of them ends. -/
theorem Pager.Visited.loops_end_oneFrame :
    ((oneFrame #[]).ran twoStackPages).Visited ∧ PageAligned topPage
      ∧ PinLoop 0 topPage ((oneFrame #[]).ran twoStackPages) 1
        ((pinResident 0 topPage).run ((oneFrame #[]).ran twoStackPages))
      ∧ ∃ trace results outcome,
        UserLoop 0 (topPage - 1) 2 (fun _ => readPinned 0) ((oneFrame #[]).ran twoStackPages)
          trace results outcome ∧ trace.Pairwise (· < ·) := by
  have hrun : Run (oneFrame #[]) twoStackPages _ := run_ran (by decide +kernel)
  have hvisited : ((oneFrame #[]).ran twoStackPages).Visited :=
    ⟨_, _, isStart_oneFrame #[], hrun.passed⟩
  have haligned : PageAligned topPage := by decide
  have haway : (((oneFrame #[]).ran twoStackPages).resident? 0 topPage).isSome = false := by
    decide +kernel
  obtain ⟨hpins, hreads, -⟩ := hvisited.loops_end 0
  obtain ⟨-, hloop, -⟩ := hpins topPage haligned
  obtain ⟨trace, results, outcome, hends, hpairwise, -⟩ := hreads (topPage - 1) 2
  refine ⟨hvisited, haligned, (hloop _ _).mpr ⟨?_, rfl⟩, trace, results, outcome,
    (hends _ _ _).mpr ⟨rfl, rfl, rfl⟩, hpairwise⟩
  rw [haway]
  rfl

end DemandPaging

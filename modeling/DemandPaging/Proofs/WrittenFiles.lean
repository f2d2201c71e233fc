import DemandPaging.Proofs.MappedBytes
import DemandPaging.Proofs.MappingNumbers
import DemandPaging.Proofs.RequestedWrites
/-!
# Files are written only where a mapped page is dirty

In a run of requests over files without limits, the files change in one way: a page of a live
mapping that is dirty in its frame is written to its window when the frame is taken away or the
mapping is taken down (`Run.writesBack`). So of each byte of a file it can be said who wrote it
last, if anybody did (`Run.files_written`), and a file of which no mapping is dirty is as it was.

A window starts before the end of its file, which never gets shorter (`Pager.FilesReach`). Hence no
write leaves a gap.
-/

namespace DemandPaging

open Pager PagerAction Outcome

variable {n : Nat}

/-! ## Steps that write -/

/-- Write-backs on the way from one state to another, step by step. `P` says of each state in
which a step begins what it is. -/
inductive WritesBack (P : Pager n → Prop) (p : Pager n) : List WriteBack → Pager n → Prop where
  | refl : WritesBack P p [] p
  | step {ws vs : List WriteBack} {q r : Pager n} (h : WritesBack P p ws q) (hq : P q)
      (flushes : q.Flushes vs r) : WritesBack P p (ws ++ vs) r

namespace WritesBack

variable {P Q : Pager n → Prop} {p q r : Pager n} {vs ws : List WriteBack}

theorem of_flushes (hp : P p) (h : p.Flushes ws q) : WritesBack P p ws q := refl.step hp h

theorem trans (h : WritesBack P p vs q) (h' : WritesBack P q ws r) :
    WritesBack P p (vs ++ ws) r := by
  induction h' with
  | refl => rwa [List.append_nil]
  | step _ hq flushes ih =>
    rw [← List.append_assoc]
    exact ih.step hq flushes

theorem mono (h : WritesBack P p ws q) (hPQ : ∀ t, P t → Q t) : WritesBack Q p ws q := by
  induction h with
  | refl => exact .refl
  | step _ hq flushes ih => exact ih.step (hPQ _ hq) flushes

theorem wrote (h : WritesBack P p ws q) : p.Wrote ws q := by
  induction h with
  | refl => exact (SameContents.of_files rfl).wrote
  | step _ _ flushes ih => exact ih.trans flushes.toWrote

/-- What is written was due. -/
theorem due (h : WritesBack P p ws q) {w : WriteBack} (hw : w ∈ ws) : ∃ t, P t ∧ t.Due w := by
  induction h with
  | refl => cases hw
  | @step _ _ t _ _ ht flushes ih =>
    rcases List.mem_append.mp hw with hw | hw
    · exact ih hw
    · exact ⟨t, ht, ((flushes.mem_iff w).mp hw).1⟩

end WritesBack

/-! ## Copies -/

section Copies

variable {p q : Pager n}

theorem readChunks_writesBack (hp : p.Ready) (id : SpaceId) (cs : List Chunk) (bytes : Bytes)
    (h : ((readChunks id cs bytes).run p).state? = some q) :
    ∃ ws, WritesBack (fun t => ∃ m, ((readChunks id (cs.take m) bytes).run p).state? = some t)
      p ws q := by
  induction cs generalizing p bytes with
  | nil =>
    cases h
    exact ⟨[], .refl⟩
  | cons c rest ih =>
    have hchunk := readChunk_flushes hp id c
    rw [run_readChunks_cons] at h
    cases hrun : (readChunk id c).run p with
    | done more r =>
      rw [hrun] at hchunk h
      obtain ⟨hr, vs, hvs⟩ := hchunk
      obtain ⟨ws, hws⟩ := ih hr (bytes ++ more) h
      refine ⟨vs ++ ws, (WritesBack.of_flushes ⟨0, rfl⟩ hvs).trans (hws.mono ?_)⟩
      rintro t ⟨m, ht⟩
      refine ⟨m + 1, ?_⟩
      rw [List.take_succ_cons, run_readChunks_cons, hrun]
      exact ht
    | failed e r =>
      rw [hrun] at hchunk h
      cases h
      obtain ⟨_, vs, hvs⟩ := hchunk
      exact ⟨vs, .of_flushes ⟨0, rfl⟩ hvs⟩
    | fatal reason =>
      rw [hrun] at h
      cases h

theorem writeChunks_writesBack (hp : p.Ready) (id : SpaceId) (cs : List Chunk) (bytes : Bytes)
    (h : ((writeChunks id cs bytes).run p).state? = some q) :
    ∃ ws, WritesBack (fun t => ∃ m, ((writeChunks id (cs.take m) bytes).run p).state? = some t)
      p ws q := by
  induction cs generalizing p bytes with
  | nil =>
    cases h
    exact ⟨[], .refl⟩
  | cons c rest ih =>
    have hchunk := writeChunk_flushes hp id c (c.fits_take bytes)
    rw [run_writeChunks_cons] at h
    cases hrun : (writeChunk id c (bytes.take c.count)).run p with
    | done _ r =>
      rw [hrun] at hchunk h
      obtain ⟨hr, vs, hvs⟩ := hchunk
      obtain ⟨ws, hws⟩ := ih hr (bytes.drop c.count) h
      refine ⟨vs ++ ws, (WritesBack.of_flushes ⟨0, rfl⟩ hvs).trans (hws.mono ?_)⟩
      rintro t ⟨m, ht⟩
      refine ⟨m + 1, ?_⟩
      rw [List.take_succ_cons, run_writeChunks_cons, hrun]
      exact ht
    | failed e r =>
      rw [hrun] at hchunk h
      cases h
      obtain ⟨_, vs, hvs⟩ := hchunk
      exact ⟨vs, .of_flushes ⟨0, rfl⟩ hvs⟩
    | fatal reason =>
      rw [hrun] at h
      cases h

/-- A copy out of user memory maps nothing, and in all states on the way the mappings are the
same. -/
theorem readUser_writesBack (hp : p.Ready) {id : SpaceId} {address length : Nat}
    (h : ((readUser id address length).run p).state? = some q) :
    ∃ ws, WritesBack (fun t => ReadPasses p id address length t
      ∧ ∀ o m, t.mapping? o m = p.mapping? o m) p ws q := by
  unfold readUser at h
  split at h
  next hrange =>
    obtain ⟨ws, hws⟩ := readChunks_writesBack hp id _ _ h
    refine ⟨ws, hws.mono fun t ht => ⟨⟨hrange, ht⟩, ?_⟩⟩
    obtain ⟨m, ht⟩ := ht
    have hthrough := through_of_readChunks hp.agrees ht
    exact (hthrough.chain (S := fun _ => True) fun _ _ => trivial).mapping?_eq hp.agrees
      (List.forall_mem_nil _)
  next =>
    cases h
    exact ⟨[], .refl⟩

theorem writeUser_writesBack (hp : p.Ready) {id : SpaceId} {address : Nat} {bytes : Bytes}
    (h : ((writeUser id address bytes).run p).state? = some q) :
    ∃ ws, WritesBack (fun t => WritePasses p id address bytes t
      ∧ ∀ o m, t.mapping? o m = p.mapping? o m) p ws q := by
  unfold writeUser at h
  split at h
  next hrange =>
    obtain ⟨ws, hws⟩ := writeChunks_writesBack hp id _ _ h
    refine ⟨ws, hws.mono fun t ht => ⟨⟨hrange, ht⟩, ?_⟩⟩
    obtain ⟨m, ht⟩ := ht
    obtain ⟨front, _, _, hthrough, _⟩ := through_of_writeChunks hp.agrees ht
    have hchain := hthrough.chain (S := fun _ => True) fun _ _ => trivial
    refine hchain.mapping?_eq hp.agrees fun c hc => ?_
    obtain ⟨_, _, _, _, rfl⟩ := of_mem_storesOf hc
    trivial
  next =>
    cases h
    exact ⟨[], .refl⟩

end Copies

/-! ## Requests -/

/-- Whatever a request writes, it writes it before it maps a file or takes a mapping down. -/
theorem Operation.writesBack {p q : Pager n} {op : Operation} (hp : p.Ready)
    (hop : op.Permitted p) (h : (op.perform.run p).state? = some q) :
    ∃ ws, WritesBack (fun t => (t = p ∨ op.Passes p t) ∧ ∀ o m, t.mapping? o m = p.mapping? o m)
      p ws q := by
  have hid : op.space < p.spaces.size := hop.1
  have hq : q.Agrees none := Event.agrees (e := .request op) hp.agrees hop h
  have hone : (∃ ws, p.Flushes ws q) → ∃ ws, WritesBack
      (fun t => (t = p ∨ op.Passes p t) ∧ ∀ o m, t.mapping? o m = p.mapping? o m) p ws q :=
    fun ⟨ws, hws⟩ => ⟨ws, .of_flushes ⟨Or.inl rfl, fun _ _ => rfl⟩ hws⟩
  have hkeeps : p.SameFrames q → ∃ ws, WritesBack
      (fun t => (t = p ∨ op.Passes p t) ∧ ∀ o m, t.mapping? o m = p.mapping? o m) p ws q :=
    fun hsame => hone ⟨[], hsame.flushes hp.agrees hq⟩
  cases op with
  | fault id address stackPointer =>
    exact hone (((handleFault_flushes hp hid address stackPointer).map _).of_state? h)
  | load id address =>
    exact hone (((ensureLoaded_flushes hp id (pageBase address)).map _).of_state? h)
  | read id address length =>
    obtain ⟨ws, hws⟩ := readUser_writesBack hp ((state?_map ..).symm.trans h)
    exact ⟨ws, hws.mono fun t ⟨⟨hrange, _, ht⟩, hsame⟩ => ⟨Or.inr (.read hrange ht), hsame⟩⟩
  | fetch id address length =>
    have h : ((fetchUser id address length).run p).state? = some q := (state?_map ..).symm.trans h
    rw [state?_fetchUser] at h
    obtain ⟨ws, hws⟩ := readUser_writesBack hp h
    exact ⟨ws, hws.mono fun t ⟨⟨hrange, _, ht⟩, hsame⟩ => ⟨Or.inr (.fetch hrange ht), hsame⟩⟩
  | write id address bytes =>
    obtain ⟨ws, hws⟩ := writeUser_writesBack hp
      ((state?_map (fun _ => Answer.nothing) _ p).symm.trans h)
    exact ⟨ws, hws.mono fun t ⟨⟨hrange, _, ht⟩, hsame⟩ => ⟨Or.inr (.write hrange ht), hsame⟩⟩
  | mapFile id index base =>
    exact hkeeps (((mapFile_sameFrames hp.agrees hid index base).map _).of_state? h)
  | unmapFile id m =>
    exact hone (((hp.unmapFile_flushes hid m).map _).of_state? h)
  | addSegment id source offset upage readBytes zeroBytes writable =>
    exact hkeeps (((sameFrames_addSegment id source offset upage readBytes zeroBytes writable
      p).map _).of_state? h)
  | pin id upage =>
    have hpin : (Operation.pin id upage : Operation).perform.EndsIn (SameFrames (n := n)) :=
      (sameFrames_pin id upage).bind fun _ => .bind (.read _) fun _ => .pure _
    exact hkeeps ((hpin p).of_state? h)
  | unpin id upage => exact hkeeps (((sameFrames_unpin id upage p).map _).of_state? h)
  | setAccessed id upage value =>
    exact hkeeps (((sameFrames_setFlag id .accessed upage value p).map _).of_state? h)
  | setDirty id upage value =>
    exact hkeeps (((sameFrames_setFlag id .dirty upage value p).map _).of_state? h)
  | exit id => exact hone (((hp.exitSpace_flushes hid).map _).of_state? h)

/-! ## Who wrote a byte last -/

namespace FileContents

variable {c : FileContents} {offset : Nat} {patch : Bytes}

theorem length_data_le_overwrite (c : FileContents) (offset : Nat) (patch : Bytes) :
    c.data.length ≤ (c.overwrite offset patch).data.length := by
  cases c with
  | console => exact Nat.le_refl _
  | bytes data =>
    show data.length ≤ (Bytes.overwrite data offset patch).length
    rw [Bytes.length_overwrite]
    exact Nat.le_max_left ..

/-- A write that begins before the end of the file leaves no gap. -/
theorem getElem?_data_overwrite (h : offset < c.data.length) (i : Nat) :
    (c.overwrite offset patch).data[i]?
      = if offset ≤ i ∧ i < offset + patch.length then patch[i - offset]? else c.data[i]? := by
  cases c with
  | console => cases h
  | bytes data =>
    have hgap : ¬(data.length ≤ i ∧ i < offset) := fun hc =>
      absurd (Nat.lt_of_le_of_lt hc.1 hc.2) (Nat.lt_asymm h)
    show (Bytes.overwrite data offset patch)[i]? = _
    rw [Bytes.getElem?_overwrite, if_neg hgap]
    rfl

end FileContents

/-- The byte that a write-back puts at the place `i` of the file `x`, if it writes there. -/
def WriteBack.byteAt? (x i : Nat) (w : WriteBack) : Option UInt8 :=
  if w.file = x ∧ w.number = i / pageSize then w.page.bytes[i % pageSize]? else none

/-- The byte that was written last at the place `i` of the file `x`, if any was. -/
def lastWritten? (x i : Nat) (ws : List WriteBack) : Option UInt8 :=
  ws.reverse.findSome? (WriteBack.byteAt? x i)

section LastWritten

variable {p q : Pager n} {vs ws : List WriteBack} {x : Nat}

theorem lastWritten?_append (x i : Nat) (vs ws : List WriteBack) :
    lastWritten? x i (vs ++ ws) = (lastWritten? x i ws).or (lastWritten? x i vs) := by
  unfold lastWritten?
  rw [List.reverse_append, List.findSome?_append]

theorem WriteBack.length_data_le_on (x : Nat) (c : FileContents) (w : WriteBack) :
    c.data.length ≤ (WriteBack.on x c w).data.length := by
  unfold WriteBack.on
  split
  · exact c.length_data_le_overwrite ..
  · exact Nat.le_refl _

theorem WriteBack.getElem?_data_on {c : FileContents} {w : WriteBack}
    (h : w.file = x → w.number * pageSize < c.data.length) (i : Nat) :
    (WriteBack.on x c w).data[i]? = (w.byteAt? x i).or c.data[i]? := by
  unfold WriteBack.on byteAt?
  split
  next hx =>
    have hlength := w.page.length_bytes
    have hpos := pageSize_pos
    have hsplit := Nat.div_add_mod i pageSize
    have hlt := Nat.mod_lt i hpos
    rw [FileContents.getElem?_data_overwrite (h hx), hlength]
    by_cases hpage : w.number = i / pageSize
    · rw [Nat.mul_comm, ← hpage] at hsplit
      rw [if_pos ⟨by omega, by omega⟩, if_pos ⟨hx, hpage⟩, show i - w.number * pageSize
        = i % pageSize by omega, List.getElem?_eq_getElem (by omega), Option.some_or]
    · rw [if_neg ?_, if_neg fun hc => hpage hc.2, Option.none_or]
      rintro ⟨hlow, hhigh⟩
      exact hpage (Nat.div_eq_of_lt_le hlow (by rwa [Nat.succ_mul])).symm
  next hx => rw [if_neg fun hc => hx hc.1, Option.none_or]

theorem getElem?_data_foldl_on {c : FileContents}
    (h : ∀ w ∈ ws, w.file = x → w.number * pageSize < c.data.length) (i : Nat) :
    (ws.foldl (WriteBack.on x) c).data[i]? = (lastWritten? x i ws).or c.data[i]? := by
  induction ws generalizing c with
  | nil => rfl
  | cons w rest ih =>
    have hrest : ∀ v ∈ rest, v.file = x →
        v.number * pageSize < (WriteBack.on x c w).data.length := fun v hv hx =>
      Nat.lt_of_lt_of_le (h v (List.mem_cons_of_mem _ hv) hx) (WriteBack.length_data_le_on ..)
    have hfirst : lastWritten? x i [w] = w.byteAt? x i := List.findSome?_singleton
    rw [List.foldl_cons, ih hrest, WriteBack.getElem?_data_on (h w (List.mem_cons_self ..)),
      ← List.singleton_append, lastWritten?_append, hfirst, Option.or_assoc]

namespace Pager.Wrote

theorem length_data_le (h : p.Wrote ws q) (x : Nat) :
    (p.file x).data.length ≤ (q.file x).data.length := by
  show (p.file x).contents.data.length ≤ (q.file x).contents.data.length
  rw [h.contents]
  refine List.foldlRecOn (motive := fun c : FileContents =>
    (p.file x).contents.data.length ≤ c.data.length) ws _ (Nat.le_refl _) ?_
  exact fun c hc w _ => Nat.le_trans hc (w.length_data_le_on x c)

/-- A file that no page was written to holds what it held. -/
theorem contents_eq (h : p.Wrote ws q) (hnone : ∀ w ∈ ws, w.file ≠ x) :
    (q.file x).contents = (p.file x).contents := by
  rw [h.contents]
  refine List.foldlRecOn (motive := (· = (p.file x).contents)) ws _ rfl ?_
  rintro _ rfl w hw
  exact if_neg (hnone w hw)

theorem getElem?_data (h : p.Wrote ws q)
    (hbegin : ∀ w ∈ ws, w.number * pageSize < (p.file w.file).data.length) (x i : Nat) :
    (q.file x).data[i]? = (lastWritten? x i ws).or (p.file x).data[i]? := by
  show (q.file x).contents.data[i]? = _
  rw [h.contents]
  exact getElem?_data_foldl_on (fun w hw hx => hx ▸ hbegin w hw) i

end Pager.Wrote

end LastWritten

/-! ## Runs -/

/-- The event is a request, and not something that somebody else does to a file. -/
def Event.IsRequest : Event → Prop
  | .request _ => True
  | .rewrite .. => False

/-- Each page of a live mapping begins before the end of its file. -/
def Pager.FilesReach (p : Pager n) : Prop :=
  ∀ o m fm k, p.mapping? o m = some fm → k < fm.pageCount →
    k * pageSize < (p.file fm.source.file).data.length

section Runs

variable {p q : Pager n} {e : Event} {es : List Event}

/-- What an event writes, and what its states are in which it does. -/
theorem Event.writesBack (hp : p.Ready) (he : e.Permitted p) (hrequest : e.IsRequest)
    (hreach : p.FilesReach) (h : e.apply p = some q) :
    ∃ ws, WritesBack (fun t => Passed p [e] t ∧ ∀ o m, t.mapping? o m = p.mapping? o m) p ws q
      ∧ ∀ x i, (q.file x).data[i]? = (lastWritten? x i ws).or (p.file x).data[i]? := by
  cases e with
  | rewrite => exact hrequest.elim
  | request op =>
    obtain ⟨ws, hws⟩ := op.writesBack hp he h
    refine ⟨ws, hws.mono ?_, hws.wrote.getElem?_data fun w hw => ?_⟩
    · rintro t ⟨rfl | ht, hsame⟩
      · exact ⟨.start, hsame⟩
      · exact ⟨.within he ht, hsame⟩
    -- a page that is written belongs to a mapping that was there before
    · obtain ⟨t, ⟨_, hsame⟩, hdue⟩ := hws.due hw
      exact hreach _ _ _ _ ((hsame _ _).symm.trans hdue.live) hdue.lt

/-- A file that is mapped has its length, and none gets shorter. -/
theorem Event.filesReach (hp : p.Ready) (he : e.Permitted p) (hrequest : e.IsRequest)
    (hreach : p.FilesReach) (h : e.apply p = some q) : q.Ready ∧ q.FilesReach := by
  obtain ⟨ws, hws, _⟩ := Event.writesBack hp he hrequest hreach h
  obtain ⟨cs, hmakes, hchain⟩ :=
    Event.chain (S := fun _ => True) hp.agrees he h fun _ _ => trivial
  refine ⟨⟨Event.agrees hp.agrees he h, Event.listed hp.agrees he h hp.listed,
    fun x => (hws.wrote.medium? x).trans (hp.medium? x)⟩, fun o m fm k hm hk => ?_⟩
  refine Nat.lt_of_lt_of_le ?_ (hws.wrote.length_data_le _)
  rcases hchain.mapping?_before hm with hm | hmem
  · exact hreach o m fm k hm hk
  · cases Event.HasMade.causes (Or.inl hmakes) hmem with
    | @mapped _ index =>
      have hlength : (p.file index).length = (p.file index).data.length := by
        unfold OpenFile.length
        rw [hp.medium?]
        rfl
      exact hlength ▸ mul_lt_of_lt_pagesFor hk

theorem Run.filesReach (hrun : Run p es q) (hp : p.Ready) (hes : ∀ e ∈ es, e.IsRequest)
    (hreach : p.FilesReach) : q.Ready ∧ q.FilesReach := by
  induction hrun with
  | refl => exact ⟨hp, hreach⟩
  | step he happly _ ih =>
    obtain ⟨hr, hrreach⟩ := Event.filesReach hp he (hes _ (List.mem_cons_self ..)) hreach happly
    exact ih hr (fun e he => hes e (List.mem_cons_of_mem _ he)) hrreach

theorem Run.writesBack (hrun : Run p es q) (hp : p.Ready) (hes : ∀ e ∈ es, e.IsRequest)
    (hreach : p.FilesReach) :
    ∃ ws, WritesBack (Passed p es) p ws q
      ∧ ∀ x i, (q.file x).data[i]? = (lastWritten? x i ws).or (p.file x).data[i]? := by
  induction hrun with
  | refl => exact ⟨[], .refl, fun _ _ => rfl⟩
  | @step p r q e es he happly _ ih =>
    have hrequest := hes _ (List.mem_cons_self ..)
    obtain ⟨hr, hrreach⟩ := Event.filesReach hp he hrequest hreach happly
    obtain ⟨vs, hvs, hfirst⟩ := Event.writesBack hp he hrequest hreach happly
    obtain ⟨ws, hws, hrest⟩ := ih hr (fun e he => hes e (List.mem_cons_of_mem _ he)) hrreach
    refine ⟨vs ++ ws, (hvs.mono fun t ht => ht.1.append_right).trans
      (hws.mono fun t ht => .later he happly ht), fun x i => ?_⟩
    rw [hrest, hfirst, lastWritten?_append, Option.or_assoc]

end Runs

/-- The mapping is live, and one of its pages is dirty. -/
def Pager.DirtyIn (p : Pager n) (o : SpaceId) (m : Nat) (fm : FileMapping) : Prop :=
  p.mapping? o m = some fm ∧ ∃ k, k < fm.pageCount ∧ p.has .dirty o (fm.base + k * pageSize) = true

theorem Pager.Due.dirtyIn {p : Pager n} {w : WriteBack} (h : p.Due w) :
    p.DirtyIn w.space w.mapping w.shown := ⟨h.live, w.number, h.lt, h.dirty⟩

/-- **Files are written only where a mapped page is dirty.** Let a pager start with files that
have no limits, and let it run through any requests. On the way from any state between two
requests to any later one the files change by write-backs only: at each step of a request, those
pages of live mappings are written that are dirty in a frame and lose it, each whole, as it was
in its frame, and to its own window. So each byte of a file is the one that was written there
last, or as it was. A mapping of which no page is ever dirty is not written back, a file of which
no live mapping has a dirty page holds what it held, and a single request changes no file of
which there is no live mapping. -/
theorem Run.files_written {s p q : Pager n} {front es : List Event} (hs : s.IsStart)
    (hplain : ∀ x, (s.file x).medium? = none) (hfront : Run s front p) (hrun : Run p es q)
    (hrequests : ∀ e ∈ front ++ es, e.IsRequest) :
    ∃ ws, WritesBack (Passed p es) p ws q
      ∧ (∀ x i, (q.file x).data[i]? = (lastWritten? x i ws).or (p.file x).data[i]?)
      ∧ (∀ o m, (∀ t, Passed p es t → ∀ fm, ¬ t.DirtyIn o m fm) →
          ∀ w ∈ ws, ¬(w.space = o ∧ w.mapping = m))
      ∧ (∀ x, (∀ t, Passed p es t → ∀ o m fm, t.DirtyIn o m fm → fm.source.file ≠ x) →
          (q.file x).contents = (p.file x).contents)
      ∧ ∀ e x, es = [e] → (∀ o m fm, p.mapping? o m = some fm → fm.source.file ≠ x) →
          (q.file x).contents = (p.file x).contents := by
  have hstart : s.FilesReach := by
    intro o m fm k hm
    rw [hs.mapping?_eq_none] at hm
    cases hm
  have hrequests' : ∀ e ∈ front, e.IsRequest := fun e he => hrequests e (List.mem_append_left _ he)
  have hes : ∀ e ∈ es, e.IsRequest := fun e he => hrequests e (List.mem_append_right _ he)
  obtain ⟨hp, hreach⟩ := hfront.filesReach ⟨hs.agrees, hs.listed, hplain⟩ hrequests' hstart
  obtain ⟨ws, hws, hbytes⟩ := hrun.writesBack hp hes hreach
  refine ⟨ws, hws, hbytes, ?_, ?_, ?_⟩
  · rintro o m hclean w hw ⟨rfl, rfl⟩
    obtain ⟨t, ht, hdue⟩ := hws.due hw
    exact hclean t ht _ hdue.dirtyIn
  · intro x hclean
    refine hws.wrote.contents_eq fun w hw => ?_
    obtain ⟨t, ht, hdue⟩ := hws.due hw
    exact hclean t ht _ _ _ hdue.dirtyIn
  · rintro e x rfl hnone
    obtain ⟨he, happly⟩ := hrun.apply_eq
    obtain ⟨vs, hvs, _⟩ :=
      Event.writesBack hp he (hes e (List.mem_singleton_self _)) hreach happly
    refine hvs.wrote.contents_eq fun w hw => ?_
    obtain ⟨t, ⟨_, hsame⟩, hdue⟩ := hvs.due hw
    exact hnone _ _ _ ((hsame _ _).symm.trans hdue.live)

/-- A process maps a file of one byte and changes the byte in memory. -/
def byteStored : List Event :=
  [.request (.mapFile 0 0 pageSize), .request (.write 0 pageSize [9])]

/-- Then it touches its stack, for which the only frame is taken from the mapping. -/
def pageEvicted : List Event := [.request (.fault 0 topPage topPage)]

/-- The page is written back with the byte, and fills the file up to its size. -/
theorem Run.files_written_oneFrame :
    ∃ p q : Pager 1, Run (oneFrame #[.ofBytes [7]]) byteStored p ∧ Run p pageEvicted q
      ∧ (p.file 0).data = [7] ∧ (q.file 0).data.length = pageSize
      ∧ ∃ ws, WritesBack (Passed p pageEvicted) p ws q ∧ lastWritten? 0 0 ws = some 9 := by
  have hfront : Run (oneFrame #[.ofBytes [7]]) byteStored _ := run_ran (by decide +kernel)
  have hrun : Run ((oneFrame #[.ofBytes [7]]).ran byteStored) pageEvicted _ :=
    run_ran (by decide +kernel)
  have hplain : ∀ x, ((oneFrame #[.ofBytes [7]]).file x).medium? = none := by
    intro x
    cases x with
    | zero => rfl
    | succ x => rfl
  have hrequests : ∀ e ∈ byteStored ++ pageEvicted, e.IsRequest := by
    simp [byteStored, pageEvicted, Event.IsRequest]
  have hbefore : (((oneFrame #[.ofBytes [7]]).ran byteStored).file 0).data = [7] := by
    decide +kernel
  have hafter : ((((oneFrame #[.ofBytes [7]]).ran byteStored).ran pageEvicted).file 0).data.length
        = pageSize
      ∧ ((((oneFrame #[.ofBytes [7]]).ran byteStored).ran pageEvicted).file 0).data[0]?
        = some 9 := by decide +kernel
  obtain ⟨ws, hws, hbytes, _⟩ :=
    files_written (isStart_oneFrame _) hplain hfront hrun hrequests
  refine ⟨_, _, hfront, hrun, hbefore, hafter.1, ws, hws, ?_⟩
  have hbyte := (hbytes 0 0).symm.trans hafter.2
  rw [hbefore] at hbyte
  cases hlast : lastWritten? 0 0 ws with
  | none =>
    rw [hlast] at hbyte
    cases hbyte
  | some b =>
    rw [hlast] at hbyte
    exact hbyte

end DemandPaging

import DemandPaging.Proofs.Requests
/-!
# Runs

A run starts from a pager that was just set up, with any files and any address spaces, and
goes through any events: requests that are permitted where they are made, and changes that
somebody else makes to a file. No event of a run is fatal.

`Visited` are the states of runs, those between the pages of a copy included. The tables
agree in all of them (`Visited.agrees`).
-/

namespace DemandPaging

variable {n : Nat}

/-! ## The start -/

/-- A pager at start, with its files and with a space for each process number. -/
def Pager.boot (base : Nat) (device : BlockDevice) (config : PagerConfig)
    (files : Array OpenFile) (pids : Array UInt16) : Except Fatal (Pager n) :=
  match FramePool.create base n with
  | .error fatal => .error fatal
  | .ok pool => match Pager.create pool device config with
    | .error fatal => .error fatal
    | .ok p => .ok { p with files := files, spaces := pids.map fun pid => { pid := pid } }

/-- A pager that was just set up, over a pool that ends where 32-bit addresses end or before. -/
def Pager.IsStart (p : Pager n) : Prop :=
  ∃ base device config files pids, base + n * pageSize ≤ 0x100000000
    ∧ Pager.boot base device config files pids = .ok p

/-- What is known of a pager that was just set up. -/
theorem Pager.IsStart.fields {p : Pager n} (h : p.IsStart) :
    p.frames.pool.base + n * pageSize ≤ 0x100000000
      ∧ (∀ i, p.frames.pool.inUse.get i = false) ∧ (∀ i, p.assignment? i = none)
      ∧ p.swap.slots = Bitmap.clear (p.swap.device.sectors.toNat / sectorsPerPage)
      ∧ ∀ id, (p.space id).directory = {} ∧ (p.space id).descriptors = .empty
          ∧ (p.space id).mappings = {} := by
  obtain ⟨base, device, config, files, pids, hlow, hboot⟩ := h
  unfold Pager.boot Pager.create SwapArea.create FramePool.create at hboot
  split at hboot
  next => cases hboot
  next pool hpool =>
    split at hpool
    next haligned =>
      cases hpool
      split at hboot
      next => cases hboot
      next q hq =>
        cases hboot
        split at hq
        next swap hswap =>
          cases hq
          split at hswap
          next =>
            cases hswap
            refine ⟨hlow, fun i => get_replicate _ _, fun i => get_replicate _ _, rfl, ?_⟩
            intro id
            unfold Pager.space Spaces.lookup
            simp only [Array.getD_eq_getD_getElem?, Array.getElem?_map]
            cases pids[id]? with
            | none => exact ⟨rfl, rfl, rfl⟩
            | some pid => exact ⟨rfl, rfl, rfl⟩
          next => cases hswap
        next => cases hq
    next => cases hpool

/-- At the start there is nothing to agree on. -/
theorem Pager.IsStart.agrees {p : Pager n} (h : p.IsStart) : p.Agrees none := by
  obtain ⟨hlow, huse, hassign, hslots, hspace⟩ := h.fields
  have haddr : ∀ id u, p.address? id u = none := by
    intro id u
    unfold Pager.address?
    rw [(hspace id).1]
    rfl
  have hdesc : ∀ id u, p.descriptor? id u = none := by
    intro id u
    unfold Pager.descriptor?
    rw [(hspace id).2.1]
    rfl
  have hmap : ∀ id m, p.mapping? id m = none := by
    intro id m
    unfold Pager.mapping?
    rw [(hspace id).2.2]
    rfl
  have hslot : ∀ id u, p.slot? id u = none := fun id u => by simp [Pager.slot?, hdesc]
  refine ⟨?_, ?_, ?_, ?_⟩
  · refine ⟨hlow, fun id => by rw [(hspace id).1], fun i => by rw [huse, hassign]; rfl, ?_, ?_, ?_,
      ?_, ?_, ?_⟩
    all_goals simp [hassign, haddr]
  · constructor <;> simp [hdesc]
  · refine ⟨by simp [SwapArea.Fitted, hslots, Bitmap.clear], hslots ▸ Bitmap.tidy_clear _,
      ?_, by simp [hslot]⟩
    intro slot
    simp [SwapArea.Claimed, hslots, Bitmap.isSet_clear, hslot]
  · constructor <;> simp [hmap]

/-- A pager with `n` frames and two swap slots, at the start. -/
def Pager.small (n : Nat) (files : Array OpenFile) (pids : Array UInt16) : Pager n :=
  { frames := FrameTable.create
      { base := 0, base_aligned := by decide, contents := Vector.replicate n Page.zero
        inUse := Vector.replicate n false, start := 0, handedOut := 0 } 3
    swap := ⟨{ name := "swap", role := .swap, sectors := 16, disk := .blank 16 }, Bitmap.clear 2⟩
    config := {}
    files := files
    spaces := pids.map fun pid => { pid := pid } }

theorem Pager.isStart_small {n : Nat} (hn : n * pageSize ≤ 0x100000000) (files : Array OpenFile)
    (pids : Array UInt16) : (small n files pids).IsStart := by
  refine ⟨0, { name := "swap", role := .swap, sectors := 16, disk := .blank 16 }, {}, files, pids,
    by omega, ?_⟩
  unfold boot FramePool.create
  rw [dif_pos (by decide)]
  simp only
  unfold Pager.create SwapArea.create
  rw [if_pos rfl]
  simp [small]
  rfl

/-- A pager with one frame, two swap slots and one process, at the start. -/
def Pager.oneFrame (files : Array OpenFile) : Pager 1 :=
  { frames := FrameTable.create
      { base := 0, base_aligned := by decide, contents := Vector.replicate 1 Page.zero
        inUse := Vector.replicate 1 false, start := 0, handedOut := 0 } 3
    swap := ⟨{ name := "swap", role := .swap, sectors := 16, disk := .blank 16 }, Bitmap.clear 2⟩
    config := {}
    files := files
    spaces := #[{ pid := 1 }] }

theorem Pager.isStart_oneFrame (files : Array OpenFile) : (oneFrame files).IsStart := by
  have hsame : small 1 files #[1] = oneFrame files := by simp [small, oneFrame]
  exact hsame ▸ isStart_small (by decide) files #[1]

/-- The highest page of a stack. -/
def topPage : Nat := userTop - pageSize

/-- The page below it. -/
def nextPage : Nat := topPage - pageSize

/-! ## Events -/

/-- What can happen to a pager: a request, or somebody else changes a file. -/
inductive Event where
  | request (op : Operation)
  | rewrite (file : Nat) (data : Bytes) (medium? : Option Medium)

namespace Event

variable {p q r : Pager n} {e : Event}

/-- Whether the event can happen in a state. -/
def Permitted (p : Pager n) : Event → Prop
  | .request op => op.Permitted p
  | .rewrite .. => True

instance (p : Pager n) : (e : Event) → Decidable (e.Permitted p)
  | .request op => op.decidablePermitted p
  | .rewrite .. => .isTrue trivial

/-- The state after an event, unless it is fatal. -/
def apply (p : Pager n) : Event → Option (Pager n)
  | .request op => (op.perform.run p).state?
  | .rewrite file data medium? => some (p.updateFile file (·.rewrite data medium?))

/-- The states that an event goes through. -/
def Passes (p : Pager n) : Event → Pager n → Prop
  | .request op, r => op.Passes p r
  | .rewrite file data medium?, r => r = p.updateFile file (·.rewrite data medium?)

/-- The changes that an event may make. -/
def Makes (p : Pager n) : Event → List Change → Prop
  | .request op, cs => op.Makes p cs
  | .rewrite file _ _, cs => cs = [.rewritten file]

/-- Whether an event clears no dirty flag. The hardware never does. -/
def KeepsDirty : Event → Prop
  | .request (.setDirty _ _ value) => value = true
  | _ => True

theorem passes_of_apply (h : e.apply p = some q) : e.Passes p q := by
  cases e with
  | request op => exact .ended h
  | rewrite file data medium? => exact (Option.some.inj h).symm

/-- Every event takes steps through the states that it passes. -/
theorem through (hp : p.Agrees none) (he : e.Permitted p) (h : e.apply p = some q) :
    ∃ cs, e.Makes p cs ∧ Through (e.Passes p) p cs q := by
  cases e with
  | request op => exact (perform_spec hp he).of_state? h
  | rewrite file data medium? =>
    cases h
    have hleads : Leads 0 0 p [.rewritten file] (p.updateFile file (·.rewrite data medium?)) :=
      .of_chain (fun _ => .of_visible .rewritten) hp (by simp)
    exact ⟨_, rfl, .of_leads hleads rfl⟩

/-- Every event is a sequence of moves. -/
theorem chain {S : Array OpenFile → Prop} (hp : p.Agrees none) (he : e.Permitted p)
    (h : e.apply p = some q) (hS : ∀ r, e.Passes p r → S r.files) :
    ∃ cs, e.Makes p cs ∧ Chain S p none cs q none := by
  obtain ⟨cs, hmakes, hthrough⟩ := through hp he h
  exact ⟨cs, hmakes, hthrough.chain hS⟩

theorem agrees (hp : p.Agrees none) (he : e.Permitted p) (h : e.apply p = some q) :
    q.Agrees none := by
  obtain ⟨cs, _, hchain⟩ := chain (S := fun _ => True) hp he h fun _ _ => trivial
  exact hchain.agrees hp

end Event

/-- The changes made by the time that an event passes a state: all that it makes, or those of
the first pages of a copy. -/
def Event.HasMade (p : Pager n) (e : Event) (cs : List Change) : Prop :=
  e.Makes p cs ∨ ∃ id address bytes front rest, e = .request (.write id address bytes)
    ∧ IsUserRange address bytes.length ∧ chunks address bytes.length = front ++ rest
    ∧ cs = storesOf id front bytes

/-- Whether an event takes the mapping `m` of the space `id` down. -/
def Event.TakesDown (id : SpaceId) (m : Nat) (e : Event) : Prop :=
  e = .request (.unmapFile id m) ∨ e = .request (.exit id)

/-- Which events make a change, and where. -/
inductive Event.Causes (p : Pager n) : Event → Change → Prop where
  | grown {id : SpaceId} {address stackPointer : Nat}
      (hd : p.descriptor? id (pageBase address) = none)
      (hnone : p.address? id (pageBase address) = none) :
      Causes p (.request (.fault id address stackPointer)) (.grown id (pageBase address))
  | stored {id : SpaceId} {address : Nat} {bytes part : Bytes} {c : Chunk}
      (hrange : IsUserRange address bytes.length) (hc : c ∈ chunks address bytes.length)
      (hpart : part.length ≤ c.count) :
      Causes p (.request (.write id address bytes)) (.stored id c.upage c.start part)
  | mapped {id : SpaceId} {index base handle : Nat}
      (hvacant : (p.space id).isVacantRange (pagesFor (p.file index).length) base = true) :
      Causes p (.request (.mapFile id index base))
        (.mapped id ⟨⟨index, handle⟩, base, pagesFor (p.file index).length⟩)
  | unlisted {e : Event} {id : SpaceId} {m : Nat} {fm : FileMapping} (he : e.TakesDown id m)
      (hm : p.mapping? id m = some fm) : Causes p e (.unlisted id m)
  | dropped {e : Event} {id : SpaceId} {m u : Nat} {fm : FileMapping} (he : e.TakesDown id m)
      (hm : p.mapping? id m = some fm) (hu : u ∈ fm.pages) : Causes p e (.dropped id u)
  | closed {e : Event} {id : SpaceId} {m : Nat} {fm : FileMapping} (he : e.TakesDown id m)
      (hm : p.mapping? id m = some fm) : Causes p e (.closed fm.source.file fm.source.handle)
  | described {id : SpaceId} {source : FileRef} {offset upage readBytes zeroBytes i : Nat}
      {writable : Bool} (hi : i < (readBytes + zeroBytes) / pageSize)
      (hd : p.descriptor? id (upage + i * pageSize) = none) :
      Causes p (.request (.addSegment id source offset upage readBytes zeroBytes writable))
        (.described id (DescriptorTable.segmentPage source offset upage readBytes writable i))
  | dirtied {id : SpaceId} {upage : Nat} {value : Bool} :
      Causes p (.request (.setDirty id upage value)) (.dirtied id upage value)
  | vacated {id : SpaceId} : Causes p (.request (.exit id)) (.vacated id)
  | rewritten {file : Nat} {data : Bytes} {medium? : Option Medium} :
      Causes p (.rewrite file data medium?) (.rewritten file)

theorem Event.causes_of_mem_unmapChanges {p : Pager n} {e : Event} {id : SpaceId} {m : Nat}
    (he : e.TakesDown id m) {c : Change} (hc : c ∈ unmapChanges p id m) : e.Causes p c := by
  unfold unmapChanges at hc
  split at hc
  next => cases hc
  next fm hm =>
    simp only [List.mem_append, List.mem_cons, List.mem_map, List.not_mem_nil, or_false] at hc
    rcases hc with (rfl | ⟨u, hu, rfl⟩) | rfl
    · exact .unlisted he hm
    · exact .dropped he hm hu
    · exact .closed he hm

/-- Every change that an event has made is one that the event causes. -/
theorem Event.HasMade.causes {p : Pager n} {e : Event} {cs : List Change} (h : e.HasMade p cs)
    {c : Change} (hc : c ∈ cs) : e.Causes p c := by
  -- a finished and a stopped copy store pages of the same range, a whole one or a front of it
  have hstored : ∀ {id address bytes front rest}, IsUserRange address bytes.length →
      chunks address bytes.length = front ++ rest → c ∈ storesOf id front bytes →
      Event.Causes p (.request (.write id address bytes)) c := by
    intro id address bytes front rest hrange hchunks hmem
    obtain ⟨d, hd, part, hpart, rfl⟩ := of_mem_storesOf hmem
    exact .stored hrange (hchunks ▸ List.mem_append_left rest hd) hpart
  rcases h with h | ⟨_, _, _, _, _, rfl, hrange, hchunks, rfl⟩
  · cases e with
    | rewrite file data medium? =>
      have h : cs = [.rewritten file] := h
      rw [h, List.mem_singleton] at hc
      exact hc ▸ .rewritten
    | request op =>
      cases h with
      | nothing => cases hc
      | grown hd hnone => exact List.mem_singleton.mp hc ▸ .grown hd hnone
      | stored hrange hchunks => exact hstored hrange hchunks hc
      | mapped hvacant => exact List.mem_singleton.mp hc ▸ .mapped hvacant
      | unmapped => exact causes_of_mem_unmapChanges (Or.inl rfl) hc
      | described hk hvacant =>
        obtain ⟨i, hi, rfl⟩ := List.mem_map.mp hc
        have hi := List.mem_range.mp hi
        exact .described (Nat.lt_of_lt_of_le hi hk) (hvacant i hi)
      | dirtied => exact List.mem_singleton.mp hc ▸ .dirtied
      | exited =>
        rcases List.mem_append.mp hc with hc | hc
        · obtain ⟨m, _, hm⟩ := List.mem_flatMap.mp hc
          exact causes_of_mem_unmapChanges (Or.inr rfl) hm
        · exact List.mem_singleton.mp hc ▸ .vacated
  · exact hstored hrange hchunks hc

/-- The beginning of a copy out of user memory takes steps. -/
theorem through_of_readChunks {p r : Pager n} (hp : p.Agrees none) {id : SpaceId} {cs : List Chunk}
    {bytes : Bytes} {m : Nat}
    (h : ((readChunks id (cs.take m) bytes).run p).state? = some r) :
    Through (fun r => ∃ m, ((readChunks id (cs.take m) bytes).run p).state? = some r) p [] r := by
  refine Outcome.Meets.of_state? (q := r) ((readChunks_spec hp id (cs.take m) bytes).mono ?_
    (fun _ _ h => h.elim) fun _ h => h) h
  intro _ q hthrough
  simp only [List.take_take] at hthrough
  exact hthrough.mono fun _ ⟨k, hk⟩ => ⟨min k m, hk⟩

/-- A copy to user memory takes steps, and stores the chunks that it counts. -/
theorem through_of_writeChunks {p r : Pager n} (hp : p.Agrees none) {id : SpaceId}
    {cs : List Chunk} {bytes : Bytes}
    (h : ((writeChunks id cs bytes).run p).state? = some r) :
    ∃ front rest, cs = front ++ rest
      ∧ Through (fun r => ∃ m, ((writeChunks id (cs.take m) bytes).run p).state? = some r) p
        (storesOf id front bytes) r
      ∧ storedCount id cs bytes p = totalCount front := by
  refine Outcome.Meets.of_state? (q := r) ((writeChunks_spec hp id cs bytes).mono ?_
    (fun _ _ h => h) fun _ h => h) h
  exact fun _ q hstored => ⟨cs, [], (List.append_nil cs).symm, hstored⟩

/-- What leads to a state that an event passes is a sequence of steps. -/
theorem Event.Passes.through {p r : Pager n} {e : Event} (hp : p.Agrees none) (he : e.Permitted p)
    (h : e.Passes p r) : ∃ cs, e.HasMade p cs ∧ Through (e.Passes p) p cs r := by
  -- only a copy passes states other than its end
  have hended : e.apply p = some r → ∃ cs, e.HasMade p cs ∧ Through (e.Passes p) p cs r := by
    intro happly
    obtain ⟨cs, hmakes, hthrough⟩ := Event.through hp he happly
    exact ⟨cs, Or.inl hmakes, hthrough⟩
  cases e with
  | rewrite file data medium? => exact hended (congrArg some h.symm)
  | request op =>
    cases h with
    | ended h => exact hended h
    | read hrange h =>
      exact ⟨[], Or.inl (.nothing trivial),
        (through_of_readChunks hp h).mono fun _ ⟨_, hr⟩ => .read hrange hr⟩
    | fetch hrange h =>
      exact ⟨[], Or.inl (.nothing trivial),
        (through_of_readChunks hp h).mono fun _ ⟨_, hr⟩ => .fetch hrange hr⟩
    | @write id address m bytes _ hrange h =>
      obtain ⟨front, rest, htake, hthrough, _⟩ := through_of_writeChunks hp h
      refine ⟨_, Or.inr ⟨id, address, bytes, front, rest ++ (chunks address bytes.length).drop m,
        rfl, hrange, ?_, rfl⟩, hthrough.mono ?_⟩
      · rw [← List.append_assoc, ← htake, List.take_append_drop]
      · intro s hs
        obtain ⟨k, hs⟩ := hs
        rw [List.take_take] at hs
        exact .write hrange hs

/-- What leads to a state that an event passes is a sequence of moves. -/
theorem Event.Passes.chain {p r : Pager n} {e : Event} {S : Array OpenFile → Prop}
    (hp : p.Agrees none) (he : e.Permitted p) (hS : ∀ r, e.Passes p r → S r.files)
    (h : e.Passes p r) : ∃ cs, e.HasMade p cs ∧ Chain S p none cs r none := by
  obtain ⟨cs, hmade, hthrough⟩ := h.through hp he
  exact ⟨cs, hmade, hthrough.chain hS⟩

/-- The tables agree in each state that an event passes. -/
theorem Event.Passes.agrees {p r : Pager n} {e : Event} (hp : p.Agrees none) (he : e.Permitted p)
    (h : e.Passes p r) : r.Agrees none := by
  obtain ⟨cs, _, hchain⟩ := h.chain (S := fun _ => True) hp he fun _ _ => trivial
  exact hchain.agrees hp

/-! ## Runs -/

/-- A run of events, none of them fatal. -/
inductive Run : Pager n → List Event → Pager n → Prop where
  | refl {p : Pager n} : Run p [] p
  | step {p q r : Pager n} {e : Event} {es : List Event} (he : e.Permitted p)
      (happly : e.apply p = some q) (rest : Run q es r) : Run p (e :: es) r

/-- The states that events pass, each from where the ones before it led. -/
inductive Passed : Pager n → List Event → Pager n → Prop where
  | start {p : Pager n} {es : List Event} : Passed p es p
  | within {p r : Pager n} {e : Event} {es : List Event} (he : e.Permitted p) (h : e.Passes p r) :
      Passed p (e :: es) r
  | later {p q r : Pager n} {e : Event} {es : List Event} (he : e.Permitted p)
      (happly : e.apply p = some q) (h : Passed q es r) : Passed p (e :: es) r

namespace Run

variable {p q r : Pager n} {es : List Event}

theorem passed (h : Run p es q) : Passed p es q := by
  induction h with
  | refl => exact .start
  | step he happly _ ih => exact .later he happly ih

theorem append {es' : List Event} (h : Run p es q) (h' : Run q es' r) : Run p (es ++ es') r := by
  induction h with
  | refl => exact h'
  | step he happly _ ih => exact .step he happly (ih h')

theorem apply_eq {e : Event} (h : Run p [e] q) : e.Permitted p ∧ e.apply p = some q := by
  cases h with
  | step he happly rest =>
    cases rest
    exact ⟨he, happly⟩

/-- What is known of every event of a run is known of those after the first. -/
theorem forall_tail {e : Event} {P : Event → Pager n → Prop} (he : e.Permitted p)
    (happly : e.apply p = some q)
    (h : ∀ front e' rest r, e :: es = front ++ e' :: rest → Run p front r → P e' r)
    (front : List Event) (e' : Event) (rest : List Event) (r : Pager n)
    (hsplit : es = front ++ e' :: rest) (hrun : Run q front r) : P e' r :=
  h (e :: front) e' rest r (congrArg (e :: ·) hsplit) (.step he happly hrun)

theorem agrees (h : Run p es q) (hp : p.Agrees none) : q.Agrees none := by
  induction h with
  | refl => exact hp
  | step he happly _ ih => exact ih (Event.agrees hp he happly)

end Run

theorem Passed.agrees {p r : Pager n} {es : List Event} (h : Passed p es r) (hp : p.Agrees none) :
    r.Agrees none := by
  induction h with
  | start => exact hp
  | within he h => exact h.agrees hp he
  | later he happly _ ih => exact ih (Event.agrees hp he happly)

/-- What a run passes it passes with more events to come. -/
theorem Passed.append_right {p r : Pager n} {es es' : List Event} (h : Passed p es r) :
    Passed p (es ++ es') r := by
  induction h with
  | start => exact .start
  | within he h => exact .within he h
  | later he happly _ ih => exact .later he happly ih

/-- What the rest of a run passes the whole run passes. -/
theorem Passed.append_left {p q r : Pager n} {es es' : List Event} (hrun : Run p es q)
    (h : Passed q es' r) : Passed p (es ++ es') r := by
  induction hrun with
  | refl => exact h
  | step he happly _ ih => exact .later he happly (ih h)

/-- What a run passes it passes in its first events or in the rest. -/
theorem Passed.of_append {p q r : Pager n} {es es' : List Event} (hrun : Run p es q)
    (h : Passed p (es ++ es') r) : Passed p es r ∨ Passed q es' r := by
  induction hrun with
  | refl => exact Or.inr h
  | step he happly _ ih =>
    cases h with
    | start => exact Or.inl .start
    | within he' hpasses => exact Or.inl (.within he' hpasses)
    | later he' happly' h =>
      cases happly.symm.trans happly'
      exact (ih h).imp_left (.later he happly)

/-- The state after a run, if the events make one. -/
def Pager.run? : Pager n → List Event → Option (Pager n)
  | p, [] => some p
  | p, e :: rest =>
    if e.Permitted p then
      match e.apply p with
      | some q => q.run? rest
      | none => none
    else none

/-- Runs can be computed. -/
theorem Pager.run?_eq_some_iff {p q : Pager n} {es : List Event} :
    p.run? es = some q ↔ Run p es q := by
  constructor
  · intro h
    induction es generalizing p with
    | nil =>
      cases h
      exact .refl
    | cons e rest ih =>
      unfold run? at h
      split at h
      next he =>
        split at h
        next r happly => exact .step he happly (ih h)
        next => cases h
      next => cases h
  · intro h
    induction h with
    | refl => rfl
    | step he happly _ ih =>
      unfold run?
      rw [if_pos he, happly]
      exact ih

/-- The state after a run; where the events make none, the one before it. -/
def Pager.ran (p : Pager n) (es : List Event) : Pager n := (p.run? es).getD p

theorem Pager.run_ran {p : Pager n} {es : List Event} (h : (p.run? es).isSome = true) :
    Run p es (p.ran es) := by
  obtain ⟨q, hq⟩ := Option.isSome_iff_exists.mp h
  unfold ran
  rw [hq, Option.getD_some]
  exact run?_eq_some_iff.mp hq

/-- A process touches the highest page of its stack. -/
def topTouched : List Event := [.request (.fault 0 topPage topPage)]

/-- Two pages of a stack are touched, one after the other. -/
def twoStackPages : List Event :=
  [.request (.fault 0 topPage topPage), .request (.fault 0 nextPage nextPage)]

/-- What every event preserves holds in each state that a run passes. `P` is what is known of
the events, and `H` what is known of all states on the way. -/
theorem Passed.preserves {I H : Pager n → Prop} {P : Event → Prop} {p r : Pager n}
    {es : List Event}
    (hstep : ∀ {p r : Pager n} {e : Event}, p.Agrees none → e.Permitted p → P e →
      (∀ s, e.Passes p s → H s) → e.Passes p r → I p → I r)
    (h : Passed p es r) (hp : p.Agrees none) (hes : ∀ e ∈ es, P e)
    (hH : ∀ s, Passed p es s → H s) (hI : I p) : I r := by
  induction h with
  | start => exact hI
  | @within p r e es he h =>
    exact hstep hp he (hes e (List.mem_cons_self ..)) (fun s hs => hH s (.within he hs)) h hI
  | @later p q r e es he happly _ ih =>
    refine ih (Event.agrees hp he happly) (fun e' he' => hes e' (List.mem_cons_of_mem _ he'))
      (fun s hs => hH s (.later he happly hs)) ?_
    exact hstep hp he (hes e (List.mem_cons_self ..)) (fun s hs => hH s (.within he hs))
      (Event.passes_of_apply happly) hI

/-- A state in which a run can end. -/
def Pager.Reachable (p : Pager n) : Prop := ∃ s es, Pager.IsStart s ∧ Run s es p

/-- A state that a run passes. -/
def Pager.Visited (p : Pager n) : Prop := ∃ s es, Pager.IsStart s ∧ Passed s es p

theorem Pager.Reachable.visited {p : Pager n} (h : p.Reachable) : p.Visited := by
  obtain ⟨s, es, hs, hrun⟩ := h
  exact ⟨s, es, hs, hrun.passed⟩

theorem Pager.Visited.agrees {p : Pager n} (h : p.Visited) : p.Agrees none := by
  obtain ⟨s, es, hs, hpassed⟩ := h
  exact hpassed.agrees hs.agrees

/-- The clock starts on the first frame, if there is one. -/
theorem Pager.IsStart.hand_eq_zero {p : Pager n} (h : p.IsStart) : p.frames.hand = 0 := by
  obtain ⟨base, device, config, files, pids, _, hboot⟩ := h
  unfold Pager.boot at hboot
  split at hboot
  next => cases hboot
  next =>
    split at hboot
    next => cases hboot
    next q hq =>
      cases hboot
      unfold Pager.create at hq
      split at hq
      next =>
        cases hq
        rfl
      next => cases hq

/-- Where there are frames, the hand of the clock is on one of them. -/
theorem Pager.Visited.hand_lt {p : Pager n} (h : p.Visited) (hn : 0 < n) : p.frames.hand < n := by
  obtain ⟨s, es, hs, hpassed⟩ := h
  refine hpassed.preserves (I := fun p => p.frames.hand < n) (P := fun _ => True)
    (H := fun _ => True) ?_ hs.agrees (fun _ _ => trivial) (fun _ _ => trivial)
    (hs.hand_eq_zero ▸ hn)
  intro p r e hp he _ _ hpasses hlt
  obtain ⟨cs, _, hchain⟩ := hpasses.chain (S := fun _ => True) hp he fun _ _ => trivial
  exact hchain.hand_lt hlt

end DemandPaging

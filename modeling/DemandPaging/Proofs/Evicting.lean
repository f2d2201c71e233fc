import DemandPaging.Pager.Eviction
import DemandPaging.Proofs.Outcomes
import DemandPaging.Proofs.VisibleMoves
/-!
# Obtaining a frame

`obtainFrame_spec`: a page that is not mapped gets a frame by quiet moves, or the system
stops because every frame is in use and none can be taken away. What else is to be known of
the frame is known of a free one and of one that is taken from another page
(`obtainFrame_meets`).
-/

namespace DemandPaging

open Pager PagerAction Outcome

variable {n : Nat}

theorem run_saveToFile (w : FileWindow) (i : Fin n) (p : Pager n) :
    (saveToFile w i).run p = match w.save (p.file w.source.file) (p.page i) with
      | (.ok (), file) => .done () (p.updateFile w.source.file fun _ => file)
      | (.error e, file) => .failed e (p.updateFile w.source.file fun _ => file) := by
  unfold saveToFile
  simp only [run_bind, run_read, run_update]
  cases w.save (p.file w.source.file) (p.page i) with
  | mk result file =>
    cases result with
    | ok u => rfl
    | error e => rfl

theorem run_storeFrame (i : Fin n) (p : Pager n) :
    (storeFrame i).run p = match p.swap.store (p.page i) with
      | .ok (.ok slot, swap) => .done slot { p with swap := swap }
      | .ok (.error e, swap) => .failed e { p with swap := swap }
      | .error reason => .fatal reason := by
  unfold storeFrame
  simp only [run_bind, run_read]
  cases p.swap.store (p.page i) with
  | error reason => rfl
  | ok stored =>
    obtain ⟨result, swap⟩ := stored
    cases result with
    | ok slot => rfl
    | error e => rfl

/-- A page that held no slot gives none up when it is moved to one. -/
theorem run_moveToSwap {b : Backing} (hb : b.slot? = none) (o : SpaceId) (v : Nat) (i : Fin n)
    (p : Pager n) :
    (moveToSwap o v b i).run p = match p.swap.store (p.page i) with
      | .ok (.ok slot, swap) => .done () (Pager.updateDescriptors { p with swap := swap } o
          (·.modify v fun d => { d with backing := (b.movedTo slot).1 }))
      | .ok (.error e, swap) => .failed e { p with swap := swap }
      | .error reason => .fatal reason := by
  unfold moveToSwap
  rw [run_bind, run_storeFrame]
  cases p.swap.store (p.page i) with
  | error reason => rfl
  | ok stored =>
    obtain ⟨result, swap⟩ := stored
    cases result with
    | ok slot =>
      simp only [run_bind, run_update, (Backing.slot?_movedTo b slot).2, hb]
      rfl
    | error e => rfl

theorem getOrAdd_snd (t : DescriptorTable) (upage : Nat) (b : Backing) (writable : Bool) :
    (t.getOrAdd upage b writable).2 = t.insert upage (t.getOrAdd upage b writable).1 := by
  unfold DescriptorTable.getOrAdd
  split
  next d hd => exact (KeyedTable.insert_of_find?_eq_some hd).symm
  next => rfl

/-- An error that says that there is no memory left to turn to. -/
def PagingError.IsExhaustion : PagingError → Prop
  | .noVictim | .swapExhausted => True
  | .shortWrite expected _ => expected = pageSize
  | .device _ => True
  | _ => False

theorem space_kept {p : Pager n} {o : SpaceId} (ho : o < p.spaces.size) (v : Nat)
    (d : Descriptor) (swap : SwapArea) (files : Array OpenFile) :
    (p.kept o v d swap files).space o
      = { p.space o with
          directory := (p.space o).directory.unmap v
          descriptors := (p.space o).descriptors.insert v d } := space_putSpace ho _

theorem pid_kept (p : Pager n) (o : SpaceId) (v : Nat) (d : Descriptor) (swap : SwapArea)
    (files : Array OpenFile) (id : SpaceId) :
    ((p.kept o v d swap files).space id).pid = (p.space id).pid := by
  have hpid : ({ p.space o with
        directory := (p.space o).directory.unmap v
        descriptors := (p.space o).descriptors.insert v d } : AddressSpace).pid
      = (p.space o).pid := rfl
  exact pid_putSpace hpid id

/-- Changing the descriptor of the page that is being kept. -/
theorem updateDescriptors_kept {p : Pager n} {o : SpaceId} (ho : o < p.spaces.size) (v : Nat)
    (d : Descriptor) (swap : SwapArea) (files : Array OpenFile) (g : Descriptor → Descriptor) :
    (p.kept o v d swap files).updateDescriptors o (·.modify v g)
      = p.kept o v (g d) swap files := by
  rw [updateDescriptors, updateSpace_eq, space_kept ho, KeyedTable.modify_insert]
  unfold Pager.kept putSpace
  simp only [Spaces.put_put]

/-- A dirty page of a mapping is written to its file, or the file takes too little of it. -/
theorem saveToFile_kept (p : Pager n) (o : SpaceId) (v : Nat) (i : Fin n) (d : Descriptor)
    (w : FileWindow) :
    ((saveToFile w i).run (p.kept o v d p.swap p.files)).Meets
      (fun _ q => ∃ file, w.save (p.file w.source.file) (p.page i) = (.ok (), file)
        ∧ q = p.kept o v d p.swap (p.files.modify w.source.file fun _ => file))
      (fun e q => e.IsExhaustion ∧ ∀ id, (q.space id).pid = (p.space id).pid)
      (fun _ => False) := by
  rw [run_saveToFile]
  change (match w.save (p.file w.source.file) (p.page i) with
    | (.ok (), file) => _ | (.error e, file) => _ : Outcome n Unit).Meets _ _ _
  cases hsave : w.save (p.file w.source.file) (p.page i) with
  | mk result file =>
    cases result with
    | ok u => exact ⟨file, rfl, rfl⟩
    | error e =>
      obtain ⟨actual, rfl⟩ := FileWindow.save_eq_error hsave
      exact ⟨rfl, pid_kept p o v d p.swap p.files⟩

/-- Any other page is written to a slot, or there is no slot to be had. -/
theorem moveToSwap_kept {p : Pager n} {o : SpaceId} {v : Nat} {d : Descriptor}
    (ho : o < p.spaces.size) (hslot : d.backing.slot? = none) (i : Fin n) :
    ((moveToSwap o v d.backing i).run (p.kept o v d p.swap p.files)).Meets
      (fun _ q => ∃ slot swap, p.swap.store (p.page i) = .ok (.ok slot, swap)
        ∧ q = p.kept o v { d with backing := (d.backing.movedTo slot).1 } swap p.files)
      (fun e q => e.IsExhaustion ∧ ∀ id, (q.space id).pid = (p.space id).pid)
      (fun _ => False) := by
  rw [run_moveToSwap hslot]
  change (match p.swap.store (p.page i) with
    | .ok (.ok slot, swap) => _ | .ok (.error e, swap) => _ | .error reason => _ :
      Outcome n Unit).Meets _ _ _
  cases hstore : p.swap.store (p.page i) with
  | error reason =>
    rw [SwapArea.store_eq] at hstore
    cases hstore
  | ok stored =>
    obtain ⟨result, swap⟩ := stored
    cases result with
    | ok slot => exact ⟨slot, swap, rfl, updateDescriptors_kept ho v d swap p.files _⟩
    | error e =>
      refine ⟨?_, pid_kept p o v d p.swap p.files⟩
      rcases SwapArea.store_eq_error hstore with rfl | ⟨cause, rfl⟩
      · trivial
      · trivial

/-- Clearing the frame and marking the page comes last, however the page was kept. -/
theorem run_clearVictim {p : Pager n} {o : SpaceId} (ho : o < p.spaces.size) (v : Nat) (i : Fin n)
    (d : Descriptor) (swap : SwapArea) (files : Array OpenFile) :
    ((update fun q => Pager.writePage q i .zero) >>= fun _ =>
      update fun q => q.updateDescriptors o (·.modify v fun d => { d with loaded := false })).run
        (p.kept o v d swap files)
      = .done () ((p.kept o v { d with loaded := false } swap files).writePage i .zero) := by
  rw [run_bind, run_update]
  exact congrArg (fun q => done () (Pager.writePage q i .zero))
    (updateDescriptors_kept ho v d swap files _)

theorem saveVictim_spec {p : Pager n} {o : SpaceId} {v : Nat} {i : Fin n} {d : Descriptor}
    (ho : o < p.spaces.size)
    (hd : d = ((p.space o).descriptors.getOrAdd v .anonymous (p.has .writable o v)).1)
    (hslot : d.backing.slot? = none) :
    ((saveVictim o v i).run p).Meets
      (fun _ q => ∃ b swap files,
        Keeps p.swap p.files (p.page i) d.backing (p.has .dirty o v) b swap files
        ∧ q = (p.kept o v { d with backing := b, loaded := false } swap files).writePage i .zero)
      (fun e q => e.IsExhaustion ∧ ∀ id, (q.space id).pid = (p.space id).pid)
      (fun _ => False) := by
  change d = ((p.space o).descriptors.getOrAdd v .anonymous ((p.space o).directory.writable v)).1
    at hd
  have hstart : (p.updateDirectory o (·.unmap v)).updateDescriptors o
      (fun _ => ((p.space o).descriptors.getOrAdd v .anonymous
        ((p.space o).directory.writable v)).2) = p.kept o v d p.swap p.files := by
    rw [getOrAdd_snd, ← hd, updateDescriptors, updateSpace_eq, updateDirectory, updateSpace_eq,
      putSpace_putSpace, space_putSpace ho]
    rfl
  have hdesc : ((p.updateDirectory o (·.unmap v)).space o).descriptors
      = (p.space o).descriptors := by
    rw [updateDirectory, updateSpace_eq, space_putSpace ho]
  unfold saveVictim unmapFrame
  simp only [run_bind, run_read, run_update]
  rw [hdesc, ← hd, hstart]
  split
  next w hb hdirty =>
    refine (saveToFile_kept p o v i d w).bind ?_ (fun _ _ h => h) fun _ h => h
    intro u q h
    obtain ⟨file, hsave, rfl⟩ := h
    have hsame : ({ d with backing := .mappedFile w } : Descriptor) = d := by rw [← hb]
    rw [run_clearVictim ho]
    refine ⟨.mappedFile w, _, _, ?_, by rw [← hsame]⟩
    rw [hb, show p.has .dirty o v = true from hdirty]
    exact .written hsave
  next w hb hclean =>
    have hsame : ({ d with backing := .privateFile w } : Descriptor) = d := by rw [← hb]
    have hrun := run_clearVictim ho v i d p.swap p.files
    rw [hrun]
    refine ⟨.privateFile w, _, _, ?_, by rw [← hsame]⟩
    rw [hb, show p.has .dirty o v = false from hclean]
    exact .dropped
  next b _ hnotdirty hnotclean =>
    refine (moveToSwap_kept ho hslot i).bind ?_ (fun _ _ h => h) fun _ h => h
    intro u q h
    obtain ⟨slot, swap, hstore, rfl⟩ := h
    rw [run_clearVictim ho]
    refine ⟨_, _, _, .stored ?_ hstore, rfl⟩
    -- what was not handled before is neither a dirty page of a mapping nor a clean page
    cases hb : d.backing with
    | anonymous => exact Or.inl rfl
    | privateFile w =>
      exact Or.inr (Or.inl ⟨w, rfl, eq_true_of_ne_false fun hc => hnotclean w hb hc⟩)
    | mappedFile w =>
      exact Or.inr (Or.inr ⟨w, rfl, eq_false_of_ne_true fun hc => hnotdirty w hb hc⟩)
    | swapped slot => simp [hb, Backing.slot?] at hslot
    | privateParked w slot => simp [hb, Backing.slot?] at hslot
    | mappedParked w slot => simp [hb, Backing.slot?] at hslot

/-- A state that differs from another in where the clock stands and in accessed flags. -/
structure SweptFrom (p q : Pager n) : Prop where
  spaces : Spaces.Reflagged [.accessed] p.spaces q.spaces
  pool : q.frames.pool = p.frames.pool
  assignments : q.frames.assignments = p.frames.assignments
  files : q.files = p.files
  swap : q.swap = p.swap

/-- The state after the hand passed over the frames of some pages and stopped. -/
def Pager.swept (p : Pager n) (passed : List Assignment) (hand : Nat) : Pager n :=
  { p with frames := { p.frames with hand := hand }, spaces := p.spaces.notAccessed passed }

theorem sweptFrom_swept (p : Pager n) (passed : List Assignment) (hand : Nat) :
    SweptFrom p (p.swept passed hand) :=
  ⟨.notAccessed _ _, rfl, rfl, rfl, rfl⟩

/-- Where the search for a victim ends. The hand passed over candidates only. -/
structure Turns (p : Pager n) (victim? : Option (Fin n)) (passed : List Assignment) (hand : Nat) :
    Prop where
  candidates : ∀ a ∈ passed, ∃ i, p.assignment? i = some a ∧ a.isCandidate = true
  search : SecondChance.search p.config.overflow p.frames.assignments p.frames.revolutions
    p.frames.hand p.spaces = .ok (victim?, hand, p.spaces.notAccessed passed)

theorem Turns.quiet {p : Pager n} {victim? : Option (Fin n)} {passed : List Assignment} {hand : Nat}
    (h : Turns p victim? passed hand) (S : Array OpenFile → Prop) :
    Quiet S p none (p.swept passed hand) none :=
  .swept h.candidates (SecondChance.search_hand_lt h.search)

theorem Assignment.pins_of_isCandidate {a : Assignment} (h : a.isCandidate = true) :
    a.pins = 0 := by
  unfold Assignment.isCandidate at h
  exact beq_iff_eq.mp (Bool.and_eq_true_iff.mp h).1

/-- The clock is asked to look at more frames than a word can count, in a build that stops the
system for that. -/
structure Pager.OverflowsClock (p : Pager n) (reason : Fatal) : Prop where
  stops : p.config.overflow = .stops
  steps : wordLimit ≤ n * p.frames.revolutions
  reason_eq : reason = .overflow

/-- The clock stops at a candidate and marks it, or finds none, unless it cannot count its steps. -/
theorem chooseVictim_turns (p : Pager n) :
    (chooseVictim.run p).Meets
      (fun victim q => ∃ passed hand, Turns p (some victim.1) passed hand
        ∧ p.assignment? victim.1 = some victim.2 ∧ victim.2.isCandidate = true
        ∧ q = (p.swept passed hand).assign victim.1 (some { victim.2 with evicting := true }))
      (fun e q => e = .noVictim ∧ ∃ passed hand, Turns p none passed hand ∧ q = p.swept passed hand)
      p.OverflowsClock := by
  unfold chooseVictim
  cases hword : p.config.overflow.word (n * p.frames.revolutions) with
  | error reason =>
    obtain ⟨hstops, hreason, hsteps⟩ := Overflow.word_eq_error hword
    have hsearch : SecondChance.search p.config.overflow p.frames.assignments p.frames.revolutions
        p.frames.hand p.spaces = .error reason := by
      unfold SecondChance.search
      rw [hword]
    simp only [run_bind, run_read, hsearch, ofFatal, run_stop]
    exact ⟨hstops, hsteps, hreason⟩
  | ok steps =>
    obtain ⟨passed, hand, hpassed, hstate, hvictim⟩ :=
      SecondChance.sweep_eq p.frames.assignments steps p.frames.hand p.spaces
    have hsearch : SecondChance.search p.config.overflow p.frames.assignments p.frames.revolutions
          p.frames.hand p.spaces
        = .ok ((SecondChance.sweep p.frames.assignments steps p.frames.hand p.spaces).1, hand,
            p.spaces.notAccessed passed) := by
      unfold SecondChance.search
      rw [hword, ← hstate]
    simp only [run_bind, run_read, run_update, hsearch, ofFatal, run_pure]
    split
    next hnone => exact ⟨rfl, passed, hand, ⟨hpassed, hsearch.trans (by rw [hnone])⟩, rfl⟩
    next i hi =>
      obtain ⟨a, ha, hcandidate⟩ := hvictim i hi
      simp only [run_bind, run_read, run_update, ha]
      exact ⟨passed, hand, ⟨hpassed, hsearch.trans (by rw [hi])⟩, ha, hcandidate, rfl⟩

/-- The clock finds a candidate and marks it, or finds none; either way the tables are as
they were. -/
theorem chooseVictim_spec (p : Pager n) (S : Array OpenFile → Prop) :
    (chooseVictim.run p).Meets
      (fun victim q => ∃ r, Quiet S p none r none ∧ r.assignment? victim.1 = some victim.2
        ∧ victim.2.pins = 0 ∧ SweptFrom p r
        ∧ q = r.assign victim.1 (some { victim.2 with evicting := true }))
      (fun e q => e = .noVictim ∧ SweptFrom p q)
      p.OverflowsClock := by
  refine (chooseVictim_turns p).mono ?_ ?_ fun _ h => h
  · intro victim q h
    obtain ⟨passed, hand, hturns, ha, hcandidate, rfl⟩ := h
    exact ⟨p.swept passed hand, hturns.quiet S, ha, Assignment.pins_of_isCandidate hcandidate,
      sweptFrom_swept p passed hand, rfl⟩
  · intro e q h
    obtain ⟨rfl, passed, hand, _, rfl⟩ := h
    exact ⟨rfl, sweptFrom_swept p passed hand⟩

theorem SweptFrom.address? {p q : Pager n} (h : SweptFrom p q) (id : SpaceId) (u : Nat) :
    q.address? id u = p.address? id u := h.spaces.frameAddress? id u

theorem SweptFrom.descriptor? {p q : Pager n} (h : SweptFrom p q) (id : SpaceId) (u : Nat) :
    q.descriptor? id u = p.descriptor? id u := congrArg (·.find? u) (h.spaces.descriptors id)

/-- Whatever mark the victim had, its frame has a new assignment in the end. -/
theorem assign_kept (p : Pager n) (i : Fin n) (a b : Option Assignment) (o : SpaceId) (v : Nat)
    (d : Descriptor) (swap : SwapArea) (files : Array OpenFile) (page : Page) :
    (((p.assign i a).kept o v d swap files).writePage i page).assign i b
      = ((p.kept o v d swap files).writePage i page).assign i b := by
  simp [Pager.kept, Pager.assign, Pager.writePage, FrameTable.assign, FrameTable.write, space]

/-- The frame `i` was taken from the page that it backed, for a page that asked for one. -/
inductive Evicts (p : Pager n) (id : SpaceId) (upage : Nat) (i : Fin n) : Pager n → Prop where
  | intro {passed : List Assignment} {hand : Nat} {victim : Assignment} {d : Descriptor}
      {b : Backing} {swap : SwapArea} {files : Array OpenFile}
      (hturns : Turns p (some i) passed hand) (hvictim : p.assignment? i = some victim)
      (hcandidate : victim.isCandidate = true)
      (hd : d = (((p.swept passed hand).space victim.owner).descriptors.getOrAdd victim.upage
        .anonymous ((p.swept passed hand).has .writable victim.owner victim.upage)).1)
      (hkeeps : Keeps p.swap p.files (p.page i) d.backing
        ((p.swept passed hand).has .dirty victim.owner victim.upage) b swap files) :
      Evicts p id upage i
        ((((p.swept passed hand).kept victim.owner victim.upage
          { d with backing := b, loaded := false } swap files).writePage i .zero).assign i
            (some (.fresh id upage)))

/-- A frame is taken from another page, or there is no memory left to turn to. -/
theorem takeVictim_evicts {p : Pager n} (hp : p.Agrees none) (id : SpaceId) (upage : Nat) :
    ((takeVictim id upage).run p).Meets (fun i q => Evicts p id upage i q)
      (fun e q => e.IsExhaustion ∧ ∀ o, (q.space o).pid = (p.space o).pid)
      p.OverflowsClock := by
  unfold takeVictim
  refine (chooseVictim_turns p).bind ?_ ?_ fun _ h => h
  · intro victim q h
    obtain ⟨i, a⟩ := victim
    obtain ⟨passed, hand, hturns, ha, hcandidate, rfl⟩ := h
    have hr : (p.swept passed hand).Agrees none := (hturns.quiet fun _ => True).agrees hp
    have howner := hr.frames.owner i a ha
    have hmapped := hr.frames.mapped i a ha (by simp)
    obtain ⟨d, hd⟩ : ∃ d, d = (((p.swept passed hand).space a.owner).descriptors.getOrAdd a.upage
      .anonymous ((p.swept passed hand).has .writable a.owner a.upage)).1 := ⟨_, rfl⟩
    obtain ⟨_, hslot, _⟩ := hr.victim _ (by rw [hmapped]; rfl) hd
    -- the mark on the victim is gone again when the frame is assigned to its new page
    refine (saveVictim_spec (p := (p.swept passed hand).assign i
      (some { a with evicting := true })) howner hd hslot).bind ?_ ?_ fun _ h => h.elim
    · intro u q h
      obtain ⟨b, swap, files, hkeeps, rfl⟩ := h
      refine Meets.of_done (p := ((((p.swept passed hand).assign i _).kept a.owner a.upage _ swap
        files).writePage i .zero).assign i (some (.fresh id upage))) ?_
      rw [assign_kept]
      exact .intro hturns ha hcandidate hd hkeeps
    · intro e q h
      obtain ⟨he, hpid⟩ := h
      exact ⟨he, fun o => (hpid o).trans ((sweptFrom_swept p passed hand).spaces.pid o)⟩
  · intro e q h
    obtain ⟨rfl, passed, hand, _, rfl⟩ := h
    exact ⟨trivial, (sweptFrom_swept p passed hand).spaces.pid⟩

namespace Evicts

variable {p q : Pager n} {id : SpaceId} {upage : Nat} {i : Fin n}

/-- The frame is that of the page that asked for it, and is clear. -/
theorem assigned (h : Evicts p id upage i q) :
    q.assignment? i = some (.fresh id upage) ∧ q.page i = .zero := by
  cases h
  exact ⟨(FrameTable.assignments_assign _ _ _ _).trans (if_pos rfl),
    (FramePool.contents_write _ _ _ _).trans (if_pos rfl)⟩

/-- Only the page of the victim has lost its frame and has another descriptor; of the other pages
only accessed flags are different. -/
theorem views (h : Evicts p id upage i q) (hp : p.Agrees none) :
    ∃ victim r, p.assignment? i = some victim ∧ SweptFrom p r
      ∧ OnlyPage r q victim.owner victim.upage
      ∧ q.address? victim.owner victim.upage = none
      ∧ ∃ d, q.descriptor? victim.owner victim.upage = some d := by
  cases h with
  | @intro passed hand victim d b swap files hturns hvictim _ hd hkeeps =>
    have hr : (p.swept passed hand).Agrees none := (hturns.quiet fun _ => True).agrees hp
    obtain ⟨honly, hgone, hafter⟩ := Quiet.views_evicted (p := p.swept passed hand)
      (q := (((p.swept passed hand).kept victim.owner victim.upage
        { d with backing := b, loaded := false } swap files).writePage i .zero).assign i
          (some (.fresh id upage)))
      (hr.frames.owner i victim hvictim) (hr.frames.upage i victim hvictim).1 rfl
    exact ⟨victim, _, hvictim, sweptFrom_swept p passed hand, honly, hgone, _, hafter⟩

theorem chain (h : Evicts p id upage i q) (hid : id < p.spaces.size) (haligned : PageAligned upage)
    (huser : IsUserAddress upage) (hnone : p.address? id upage = none) (S : Array OpenFile → Prop) :
    Chain S p none [] q (some i) := by
  cases h with
  | @intro passed hand victim d b swap files hturns hvictim hcandidate hd hkeeps =>
    have hswept := sweptFrom_swept p passed hand
    exact (Chain.of_quiet (hturns.quiet S)).quiet (.evicted (hswept.spaces.size ▸ hid) haligned
      huser ((hswept.address? id upage).trans hnone) hvictim
      (Assignment.pins_of_isCandidate hcandidate) hd hkeeps)

end Evicts

theorem takeVictim_spec {p : Pager n} {id : SpaceId} {upage : Nat} (hp : p.Agrees none)
    (hid : id < p.spaces.size) (haligned : PageAligned upage) (huser : IsUserAddress upage)
    (hnone : p.address? id upage = none) (S : Array OpenFile → Prop) :
    ((takeVictim id upage).run p).Meets
      (fun i q => Chain S p none [] q (some i) ∧ q.assignment? i = some (.fresh id upage)
        ∧ q.page i = .zero ∧ q.descriptor? id upage = p.descriptor? id upage)
      (fun e q => e.IsExhaustion ∧ ∀ o, (q.space o).pid = (p.space o).pid)
      p.OverflowsClock := by
  refine (takeVictim_evicts hp id upage).mono ?_ (fun _ _ h => h) fun _ h => h
  intro i q h
  obtain ⟨victim, r, hvictim, hswept, honly, _, _⟩ := h.views hp
  refine ⟨h.chain hid haligned huser hnone S, h.assigned.1, h.assigned.2, ?_⟩
  refine (honly.descriptor? id upage ?_).trans (hswept.descriptor? id upage)
  intro hpage
  -- the page that asked for the frame was not mapped, so it is not the victim
  rw [hpage.1, hpage.2, hp.frames.mapped i victim hvictim (by simp)] at hnone
  cases hnone

/-- When no frame is free by then either, a frame is taken from another page. -/
theorem run_reclaimFrame_of_none {p : Pager n} {id : SpaceId} {upage : Nat}
    (h : p.frames.takeFree id upage = none) :
    (reclaimFrame id upage).run p = (takeVictim id upage).run p := by
  unfold reclaimFrame
  simp only [run_bind, run_read, h]

/-- When a frame is free by then, it is taken and cleared. -/
theorem run_reclaimFrame_of_some {p : Pager n} {id : SpaceId} {upage : Nat} {i : Fin n}
    {frames : FrameTable n} (h : p.frames.takeFree id upage = some (i, frames)) :
    (reclaimFrame id upage).run p
      = .done i (({ p with frames := frames } : Pager n).writePage i .zero) := by
  unfold reclaimFrame
  simp only [run_bind, run_read, h]
  rfl

/-- What is known when the system stops for want of a frame: no frame is free, and either there is no
memory left to turn to, or the clock cannot count its steps. -/
structure OutOfFrames (p : Pager n) (id : SpaceId) (upage : Nat) (reason : Fatal) : Prop where
  inUse : ∀ i, p.frames.pool.inUse.get i = true
  cause : (∃ cause, cause.IsExhaustion ∧ reason = .outOfFrames upage (p.space id).pid.toNat cause)
    ∨ p.OverflowsClock reason
  stops : ∃ zero, (obtainFrame (n := n) id upage zero).run p = .fatal reason

/-- What holds of a free frame that is taken, and of a frame that comes from another page when all
are in use, holds of the frame that is obtained. -/
theorem obtainFrame_meets {p : Pager n} {id : SpaceId} {upage : Nat} {zero : Bool}
    {D : Fin n → Pager n → Prop} {X : Fatal → Prop}
    (htook : ∀ i frames, p.frames.takeFree id upage = some (i, frames) →
      (zero = false → D i { p with frames := frames })
        ∧ (zero = true → D i (({ p with frames := frames } : Pager n).writePage i .zero)))
    (hreclaim : (∀ i, p.frames.pool.inUse.get i = true) →
      ((takeVictim id upage).run p).Meets D
        (fun e q => X (.outOfFrames upage (q.space id).pid.toNat e)) X) :
    ((obtainFrame id upage zero).run p).Meets D (fun _ _ => False) X := by
  unfold obtainFrame
  simp only [run_bind, run_read]
  cases htake : p.frames.takeFree id upage with
  | some taken =>
    obtain ⟨i, frames⟩ := taken
    obtain ⟨hleft, hcleared⟩ := htook i frames htake
    cases zero with
    | false => exact hleft rfl
    | true => exact hcleared rfl
  | none =>
    have hvictim := hreclaim (FrameTable.inUse_of_takeFree_eq_none htake)
    rw [← run_reclaimFrame_of_none htake] at hvictim
    refine hvictim.attempt.bind ?_ (fun _ _ h => h) fun _ h => h
    intro answer q h
    cases answer with
    | error e => exact h
    | ok i => exact h

theorem obtainFrame_spec {p : Pager n} {id : SpaceId} {upage : Nat} {zero : Bool}
    (hp : p.Agrees none) (hid : id < p.spaces.size) (haligned : PageAligned upage)
    (huser : IsUserAddress upage) (hnone : p.address? id upage = none)
    (S : Array OpenFile → Prop) :
    ((obtainFrame id upage zero).run p).Meets
      (fun i q => Chain S p none [] q (some i) ∧ q.assignment? i = some (.fresh id upage)
        ∧ (zero = true → q.page i = .zero) ∧ q.descriptor? id upage = p.descriptor? id upage)
      (fun _ _ => False)
      (OutOfFrames p id upage) := by
  refine Meets.of_stop (X := fun reason => (∀ i, p.frames.pool.inUse.get i = true)
    ∧ ((∃ cause, cause.IsExhaustion ∧ reason = .outOfFrames upage (p.space id).pid.toNat cause)
      ∨ p.OverflowsClock reason)) ?_
    fun reason h hrun => ⟨h.1, h.2, zero, hrun⟩
  refine obtainFrame_meets ?_ ?_
  · intro i frames htake
    obtain ⟨_, _, hassign, _⟩ := FrameTable.takeFree_eq_some htake
    have hi : ({ p with frames := frames } : Pager n).assignment? i = some (.fresh id upage) :=
      (hassign i).trans (if_pos rfl)
    have htook : Quiet S p none { p with frames := frames } (some i) :=
      .took hid haligned huser hnone htake
    refine ⟨fun hzero => ⟨.of_quiet htook, hi, by simp [hzero], rfl⟩, fun _ =>
      ⟨(Chain.of_quiet htook).quiet (@Quiet.scribbled _ _ _ i _ p.swap.device.reads), hi, ?_, rfl⟩⟩
    exact fun _ => (FramePool.contents_write _ _ _ _).trans (if_pos rfl)
  · intro huse
    refine (takeVictim_spec hp hid haligned huser hnone S).mono ?_ ?_ fun _ h => ⟨huse, Or.inr h⟩
    · intro i q h
      obtain ⟨hchain, hi, hzero, hdesc⟩ := h
      exact ⟨hchain, hi, fun _ => hzero, hdesc⟩
    · intro e q h
      obtain ⟨he, hpid⟩ := h
      exact ⟨huse, Or.inl ⟨e, he, by rw [← hpid id]⟩⟩

end DemandPaging

import DemandPaging.Proofs.OpenHandles
/-!
# Unmapping a file takes one mapping down

Unmapping asks the file of a mapping to take its dirty pages, one after the other, and goes on
when the file takes less than a page. What it answers is the first such write
(`firstFault?`, `unmapFile_answer`), which is the first of the calls on record that falls short
(`firstFault?_eq_findSome?`), and what it leaves is the same either way: the pages of the
mapping are gone with all that they held, its handle is closed, its number is never given out
again, and to every other page nothing happens (`Run.unmap_exact`).
-/

namespace DemandPaging

open Pager PagerAction Outcome

variable {n : Nat}

/-! ## The first write that falls short -/

/-- How a write falls short, if it does. -/
def FileAction.fault? (files : Array OpenFile) : FileAction → Option PagingError
  | .write file offset bytes =>
    let count := ((files.getD file default).write offset bytes).1
    if count = bytes.length then none else some (.shortWrite bytes.length count)
  | .close _ _ => none

/-- How the first write that falls short does so, when the files are asked for one thing after
the other. -/
def firstFault? : Array OpenFile → List FileAction → Option PagingError
  | _, [] => none
  | files, action :: rest =>
    match action.fault? files with
    | some e => some e
    | none => firstFault? (action.on files) rest

/-- The answer of a request that goes on after a failure and reports the first one. -/
def answerOf : Option PagingError → Except PagingError Unit
  | none => .ok ()
  | some e => .error e

section Calls

variable {files : Array OpenFile} {k : Nat} {actions : List FileAction}

theorem FileAction.fault?_eq {action : FileAction} (h : action.file = k) :
    action.fault? files = (action.call? files k).bind WriteCall.fault? := by
  cases action with
  | close => rfl
  | write file offset bytes =>
    obtain rfl : file = k := h
    rw [call?, if_pos rfl]
    rfl

/-- When one file is asked for all of it, the first write that falls short is the first of its calls
that does. -/
theorem firstFault?_eq_findSome? (h : ∀ action ∈ actions, action.file = k) :
    firstFault? files actions = (callsTo k files actions).findSome? WriteCall.fault? := by
  induction actions generalizing files with
  | nil => rfl
  | cons action rest ih =>
    rw [firstFault?, callsTo, List.findSome?_append,
      ih fun a ha => h a (List.mem_cons_of_mem _ ha),
      FileAction.fault?_eq (h action (List.mem_cons_self ..))]
    cases action.call? files k with
    | none => rfl
    | some call =>
      simp only [Option.bind_some, Option.toList_some, List.findSome?_cons, List.findSome?_nil]
      cases call.fault? with
      | none => rfl
      | some e => rfl

/-- Closing a handle is not a call. -/
theorem callsTo_append_close (file handle : Nat) :
    callsTo k files (actions ++ [.close file handle]) = callsTo k files actions := by
  induction actions generalizing files with
  | nil => rfl
  | cons action rest ih => exact congrArg (_ ++ ·) ih

end Calls

theorem FileWindow.saveFault?_eq (w : FileWindow) (files : Array OpenFile) (page : Page) :
    w.saveFault? (files.getD w.source.file default) page
      = (FileAction.write w.source.file w.offset page.bytes).fault? files := by
  unfold saveFault? save FileAction.fault?
  simp only [page.length_bytes]
  split
  next h =>
    split at h
    next hcount => rw [if_pos hcount]
    next => cases h
  next e h =>
    split at h
    next => cases h
    next hcount =>
      cases h
      rw [if_neg hcount]

namespace Pager

variable {p q : Pager n} {id : SpaceId}

/-- A page cannot be saved exactly when the write that it asks for falls short. -/
theorem FramesAgree.saveFault?_eq (hp : p.FramesAgree none) {upage : Nat}
    (haligned : PageAligned upage) :
    p.saveFault? id upage = (p.saveAction? id upage).bind (·.fault? p.files) := by
  unfold saveFault? saveAction?
  cases (p.descriptor? id upage).bind (·.backing.window?) with
  | none => rfl
  | some w =>
    cases hresident : p.resident? id upage with
    | none =>
      rw [framed?_of_unmapped (address?_of_not_resident hp haligned hresident)]
      rfl
    | some found =>
      obtain ⟨i, a⟩ := found
      obtain ⟨hi, rfl, rfl⟩ := of_resident? hresident
      rw [hp.framed?_of_assigned hi (by simp)]
      simp only
      split
      · exact w.saveFault?_eq p.files (p.page i)
      · rfl

end Pager

/-- Dropping pages one by one answers the first write that falls short, each of them at the time
when it is made. -/
theorem dropPages_answer {p : Pager n} {id : SpaceId} {pages : List Nat} (hp : p.Agrees none)
    (hpages : p.Droppable id pages) :
    ((dropPages id pages).run p).Meets
      (fun result _ => result
        = answerOf (firstFault? p.files (pages.filterMap (p.saveAction? id))))
      (fun _ _ => False)
      (fun _ => False) := by
  induction pages generalizing p with
  | nil => exact rfl
  | cons u rest ih =>
    obtain ⟨d, hd, hmapped⟩ := hpages.described u (List.mem_cons_self ..)
    have hfault : p.saveFault? id u = (p.saveAction? id u).bind (·.fault? p.files) :=
      hp.frames.saveFault?_eq (hp.descriptors.upage id u d hd).1
    rw [dropPages]
    refine (dropPage_spec hp hd hmapped (hpages.unlisted u (List.mem_cons_self ..))).attempt.bind
      ?_ (fun _ _ h => h.elim) fun _ h => h
    intro first q h
    have h : (Visible p none (.dropped id u) q none ∧ OnlyPage p q id u)
        ∧ first = answerOf (p.saveFault? id u) := by
      cases first with
      | ok _ => exact ⟨h.1, by rw [h.2]; rfl⟩
      | error e => exact ⟨h.1, by rw [h.2]; rfl⟩
    obtain ⟨⟨hmove, honly⟩, hfirst⟩ := h
    obtain ⟨hothers, hrest⟩ := hpages.rest honly
    have hfiles : q.files = (p.saveAction? id u).toList.foldl FileAction.on p.files :=
      hmove.files hp rfl
    have hdown : p.TookDown id (Change.Takes · (.dropped id u)) q := hmove.tookDown hp rfl
    -- what is left asks the same of its file, which by now has been written to
    have hsame : rest.filterMap (q.saveAction? id) = rest.filterMap (p.saveAction? id) := by
      refine List.filterMap_congr fun v hv => ?_
      obtain ⟨e, he, _⟩ := hpages.described v (List.mem_cons_of_mem _ hv)
      exact hdown.saveAction? (hp.descriptors.upage id v e he).1 (hothers v hv).1
    refine (ih (hmove.agrees hp) hrest).bind ?_ (fun _ _ h => h) fun _ h => h
    intro later r h
    rw [hsame, hfiles] at h
    rw [hfirst, hfault, List.filterMap_cons]
    cases haction : p.saveAction? id u with
    | none =>
      rw [haction] at h
      exact h
    | some action =>
      rw [haction] at h
      simp only [Option.bind_some, firstFault?]
      cases action.fault? p.files with
      | none => exact h
      | some e => exact rfl

namespace Pager

variable {p q : Pager n} {id : SpaceId} {m : Nat} {fm : FileMapping}

/-- The writes that are asked of the file of a mapping that is taken down, page by page from the
first one on: each page that is in a frame and dirty, whole and at its place. -/
def unmapWrites (p : Pager n) (id : SpaceId) (fm : FileMapping) : List FileAction :=
  (List.range fm.pageCount).filterMap (p.writeBack? id fm)

/-- All of it is asked of the file that the mapping shows. -/
theorem file_of_mem_unmapWrites {action : FileAction} (h : action ∈ p.unmapWrites id fm) :
    action.file = fm.source.file := by
  obtain ⟨k, _, hk⟩ := List.mem_filterMap.mp h
  unfold writeBack? at hk
  split at hk
  next =>
    obtain ⟨page, _, rfl⟩ := Option.map_eq_some_iff.mp hk
    rfl
  next => cases hk

theorem length_of_mem_pagesDue {asked : Nat × Bytes} (h : asked ∈ p.pagesDue id fm) :
    asked.2.length = pageSize := by
  obtain ⟨k, _, hk⟩ := List.mem_filterMap.mp h
  split at hk
  next =>
    obtain ⟨page, _, rfl⟩ := Option.map_eq_some_iff.mp hk
    exact page.length_bytes
  next => cases hk

theorem Agrees.filterMap_saveAction? (hp : p.Agrees none) (hm : p.mapping? id m = some fm) :
    fm.pages.filterMap (p.saveAction? id) = p.unmapWrites id fm := by
  have hactions := hp.flatMap_unmapChanges id m
  unfold unmapChanges unmapActions at hactions
  rw [hm] at hactions
  simp only [List.cons_append, List.flatMap_cons, List.flatMap_append, List.flatMap_map] at hactions
  rw [List.filterMap_eq_flatMap_toList]
  exact List.append_cancel_right hactions

end Pager

/-- A mapping is taken down whatever its file takes, and the answer is the first write that fell
short. -/
theorem unmapFile_answer {p : Pager n} {id : SpaceId} {m : Nat} {fm : FileMapping}
    (hp : p.Agrees none) (hid : id < p.spaces.size) (hm : p.mapping? id m = some fm) :
    ∃ q, (unmapFile id m).run p
        = (ofResult (answerOf (firstFault? p.files (p.unmapWrites id fm)))).run q
      ∧ p.Unmapped id m q := by
  have hspec := unmapFile_spec hp hid m
  obtain ⟨r, hunlisted, hunmap⟩ := run_unmapFile_of_some hp hid hm
  have hactions : fm.pages.filterMap (r.saveAction? id) = p.unmapWrites id fm := by
    rw [← hp.filterMap_saveAction? hm]
    refine List.filterMap_congr fun u hu => ?_
    obtain ⟨i, hi, rfl⟩ := mem_pageRange.mp hu
    obtain ⟨d, _, hd, _⟩ := hp.mappings.described id m fm i hm hi
    have hdown : p.TookDown id (Change.Takes · (.unlisted id m)) r :=
      hunlisted.visible.tookDown hp rfl
    exact hdown.saveAction? (hp.descriptors.upage id _ d hd).1 fun h => h
  have hanswer := dropPages_answer (hunlisted.visible.agrees hp) hunlisted.droppable
  rw [hactions, hunlisted.files] at hanswer
  rw [hunmap] at hspec ⊢
  cases hrun : (dropPages id fm.pages).run r with
  | failed e q =>
    rw [hrun] at hanswer
    exact hanswer.elim
  | fatal reason =>
    rw [hrun] at hanswer
    exact hanswer.elim
  | done result q =>
    rw [hrun] at hanswer hspec
    have hresult : result = answerOf (firstFault? p.files (p.unmapWrites id fm)) := hanswer
    simp only at hspec ⊢
    rw [hresult] at hspec ⊢
    refine ⟨_, rfl, ?_⟩
    cases hfirst : firstFault? p.files (p.unmapWrites id fm) with
    | none =>
      rw [hfirst] at hspec
      exact hspec
    | some e =>
      rw [hfirst] at hspec
      exact hspec.1

/-! ## What stays -/

namespace Pager

variable {p q : Pager n} {id o : SpaceId} {m u : Nat} {fm : FileMapping}

/-- Nothing happens to the page: it keeps its descriptor, its mapping with all flags, its frame
with pins and contents, and its slot with what is there. -/
structure KeepsPage (p : Pager n) (o : SpaceId) (u : Nat) (q : Pager n) : Prop where
  descriptor? : q.descriptor? o u = p.descriptor? o u
  address? : q.address? o u = p.address? o u
  has : ∀ flag, q.has flag o u = p.has flag o u
  assignment? : ∀ i a, a.owner = o → a.upage = u →
    (q.assignment? i = some a ↔ p.assignment? i = some a)
  page : ∀ i a, p.assignment? i = some a → a.owner = o → a.upage = u → q.page i = p.page i
  slot : ∀ slot, p.slot? o u = some slot →
    q.swap.holds slot = .ok true ∧ q.swap.pageIn slot = p.swap.pageIn slot

/-- A page that is not gone is kept, in the space from which others are taken and in any other. -/
theorem TookDown.keepsPage {gone : Nat → Prop} (h : p.TookDown id gone q) (hq : q.Agrees none)
    (hu : PageAligned u) (hstays : ¬(o = id ∧ gone u)) : p.KeepsPage o u q := by
  have hslot : q.slot? o u = p.slot? o u → ∀ slot, p.slot? o u = some slot →
      q.swap.holds slot = .ok true ∧ q.swap.pageIn slot = p.swap.pageIn slot :=
    fun hsame slot hs =>
      ⟨SwapArea.holds_eq_true_iff.mpr ((hq.slots.claimed_iff slot).mpr ⟨o, u, hsame.trans hs⟩),
        SwapArea.pageIn_congr fun k _ => by rw [h.device]⟩
  have hassign : ∀ i a, a.owner = o → a.upage = u →
      (q.assignment? i = some a ↔ p.assignment? i = some a) := by
    rintro i a rfl rfl
    exact (h.assignment? i a).trans (and_iff_left hstays)
  by_cases ho : o = id
  · subst ho
    have hu' : ¬ gone u := fun hc => hstays ⟨rfl, hc⟩
    have hbase : ¬ gone (pageBase u) := hu.pageBase_eq.symm ▸ hu'
    refine ⟨h.descriptor? u hu', h.address? u hbase, fun flag => h.has flag u hbase, hassign,
      fun i _ _ _ _ => h.page i, hslot ?_⟩
    rw [Pager.slot?, Pager.slot?, h.descriptor? u hu']
  · have hspace := h.space o ho
    refine ⟨?_, ?_, fun flag => ?_, hassign, fun i _ _ _ _ => h.page i, hslot (h.slot? ho u)⟩
    · exact congrArg (·.descriptors.find? u) hspace
    · exact congrArg (·.directory.frameAddress? u) hspace
    · exact congrArg (·.directory.has flag u) hspace

/-- Nothing is left of the page: it has no descriptor, no mapping and no frame, and the slot that
it had is free. -/
structure LeavesNothing (p : Pager n) (o : SpaceId) (u : Nat) (q : Pager n) : Prop where
  descriptor? : q.descriptor? o u = none
  address? : q.address? o u = none
  assignment? : ∀ i a, q.assignment? i = some a → ¬(a.owner = o ∧ a.upage = u)
  slot : ∀ slot, p.slot? o u = some slot → q.swap.holds slot = .ok false

theorem TookDown.leavesNothing {gone : Nat → Prop} (h : p.TookDown id gone q) (hp : p.Agrees none)
    (hq : q.Agrees none) (hu : PageAligned u) (hgone : gone u) : p.LeavesNothing id u q := by
  obtain ⟨hd, hx⟩ := h.vacant u hu hgone
  refine ⟨hd, hx, ?_, fun slot hs => h.holds_eq_false hp.slots hq ?_ hs⟩
  · rintro i a ha ⟨howner, rfl⟩
    exact ((h.assignment? i a).mp ha).2 ⟨howner, hgone⟩
  · rw [Pager.slot?, hd]
    rfl

theorem Unmapped.agrees (h : p.Unmapped id m q) (hp : p.Agrees none) : q.Agrees none :=
  (h.chain fun _ => True).agrees hp

/-- Taking a mapping down takes its pages away and no others. -/
theorem Unmapped.tookDown (h : p.Unmapped id m q) (hp : p.Agrees none)
    (hm : p.mapping? id m = some fm) : p.TookDown id (· ∈ fm.pages) q := by
  refine (h.visibly.tookDown hp fun c => takesDown_of_mem_unmapChanges).congr fun v => ?_
  unfold unmapChanges
  rw [hm]
  constructor
  · rintro ⟨c, hc, hv⟩
    simp only [List.cons_append, List.mem_cons, List.mem_append, List.mem_map,
      List.not_mem_nil, or_false] at hc
    rcases hc with rfl | ⟨u, hu, rfl⟩ | rfl
    · exact hv.elim
    · exact (show v = u from hv) ▸ hu
    · exact hv.elim
  · intro hv
    exact ⟨.dropped id v, List.mem_cons_of_mem _
      (List.mem_append_left _ (List.mem_map_of_mem hv)), rfl⟩

theorem Unmapped.files (h : p.Unmapped id m q) (hp : p.Agrees none)
    (hm : p.mapping? id m = some fm) :
    q.files = (p.unmapWrites id fm ++ [FileAction.close fm.source.file fm.source.handle]).foldl
      FileAction.on p.files := by
  rw [h.visibly.files hp fun c => takesDown_of_mem_unmapChanges, hp.flatMap_unmapChanges]
  unfold unmapActions
  rw [hm]
  rfl

/-- The handle of the mapping is the one that is closed. -/
theorem Unmapped.mem_handles_iff (h : p.Unmapped id m q) (hholds : p.HoldsHandles)
    (hm : p.mapping? id m = some fm) {k handle : Nat} (hk : k < p.files.size)
    (hopen : handle ∈ (p.file k).handles) :
    handle ∈ (q.file k).handles ↔ fm.source ≠ ⟨k, handle⟩ := by
  have hkeeps := (h.chain fun _ => True).keepsHandles hholds.numbered
  rw [hkeeps.open_iff k handle hk ((hholds.numbered k).lt_next handle hopen), and_iff_right hopen]
  refine not_congr ?_
  unfold unmapChanges
  rw [hm]
  obtain ⟨⟨file, closed⟩, base, count⟩ := fm
  simp [eq_comm]

theorem Unmapped.nextId (h : p.Unmapped id m q) :
    (q.space id).mappings.nextId = (p.space id).mappings.nextId := by
  refine (h.chain fun _ => True).nextId_of_not_mapped fun fk hmem => ?_
  exact takesDown_of_mem_unmapChanges hmem

end Pager

/-- A number that was given out and is not live is dead for good. -/
theorem Run.mapping?_of_dead {p q : Pager n} {es : List Event} {id : SpaceId} {m : Nat}
    (h : Run p es q) (hp : p.Agrees none) (hold : m < (p.space id).mappings.nextId)
    (hdead : p.mapping? id m = none) : q.mapping? id m = none := by
  induction h with
  | refl => exact hdead
  | step he happly _ ih =>
    have hnumbers := Event.numbers hp he happly id
    refine ih (Event.agrees hp he happly) ?_ ?_
    · cases hnumbers with
      | added _ hnext => exact hnext ▸ Nat.lt_succ_of_lt hold
      | kept _ hnext => exact hnext ▸ hold
    · refine Option.eq_none_iff_forall_ne_some.mpr fun fm hlive => ?_
      have hlive := Option.isSome_of_mem hlive
      cases hnumbers with
      | added _ _ hlives =>
        rcases (hlives m).mp hlive with rfl | hlive
        · exact Nat.lt_irrefl _ hold
        · simp [hdead] at hlive
      | kept _ _ hlives =>
        have hlive := ((hlives m).mp hlive).1
        simp [hdead] at hlive

/-- **Unmapping takes down exactly one mapping.** Between two requests of a run, and however short
the files fall, a number that is not that of a live mapping is accepted and nothing happens, so
that unmapping twice is the same as unmapping once.

A live mapping goes. Its file is called (`calls`) once for each of its pages that is dirty in a
frame, from the first page on, with the whole page and at its place, and with nothing else; then the
handle that the mapping holds is closed, which was open, and all other handles stay open. No other
file is touched. The answer is that of the first call that falls short, if one does. Either way
nothing is left of the pages of the mapping, its number is dead for good, and every other mapping,
and every page that is not one of this mapping, in this space and in all others, is as it was. -/
theorem Run.unmap_exact {s p : Pager n} {es : List Event} (hs : s.IsStart) (hrun : Run s es p)
    {id : SpaceId} (hid : id < p.spaces.size) (m : Nat) :
    (p.mapping? id m = none → (unmapFile id m).run p = .done () p)
      ∧ ∀ fm, p.mapping? id m = some fm → ∃ q, ∃ calls : List WriteCall,
          (unmapFile id m).run p = (match calls.findSome? WriteCall.fault? with
            | none => .done () q
            | some e => .failed e q)
          ∧ fm.source.file < p.files.size
          ∧ (q.file fm.source.file).writes = (p.file fm.source.file).writes ++ calls
          ∧ calls.map WriteCall.asked = p.pagesDue id fm
          ∧ (∀ call ∈ calls, call.bytes.length = pageSize)
          ∧ (∀ k, k ≠ fm.source.file → q.file k = p.file k)
          ∧ q.files = (p.unmapWrites id fm
              ++ [FileAction.close fm.source.file fm.source.handle]).foldl FileAction.on p.files
          ∧ (s.HandlesNumbered → fm.source.handle ∈ (p.file fm.source.file).handles
              ∧ ∀ k handle, k < p.files.size → handle ∈ (p.file k).handles →
                  (handle ∈ (q.file k).handles ↔ fm.source ≠ ⟨k, handle⟩))
          ∧ (∀ es' r, Run q es' r → r.mapping? id m = none)
          ∧ (unmapFile id m).run q = .done () q
          ∧ (∀ o k, ¬(o = id ∧ k = m) → q.mapping? o k = p.mapping? o k)
          ∧ (∀ u ∈ fm.pages, p.LeavesNothing id u q)
          ∧ ∀ o u, PageAligned u → ¬(o = id ∧ u ∈ fm.pages) → p.KeepsPage o u q := by
  have hp := hrun.agrees hs.agrees
  refine ⟨run_unmapFile_of_none, fun fm hm => ?_⟩
  obtain ⟨q, hanswer, hunmapped⟩ := unmapFile_answer hp hid hm
  have hq := hunmapped.agrees hp
  have hdown := hunmapped.tookDown hp hm
  have hfiles := hunmapped.files hp hm
  have hshows := Pager.Reachable.showsFiles ⟨s, es, hs, hrun⟩ id m fm hm
  have hdead : q.mapping? id m = none := (hunmapped.mapping? id m).trans (if_pos ⟨rfl, rfl⟩)
  have hold : m < (q.space id).mappings.nextId :=
    hunmapped.nextId.symm ▸ hp.mappings.numbered id m fm hm
  have hasked : (callsTo fm.source.file p.files (p.unmapWrites id fm)).map WriteCall.asked
      = p.pagesDue id fm :=
    (map_asked_callsTo _).trans (filterMap_asks?_writeBack?.trans (if_pos rfl))
  refine ⟨q, callsTo fm.source.file p.files (p.unmapWrites id fm), ?_, hshows, ?_, hasked, ?_, ?_,
    hfiles, ?_, fun es' r h => h.mapping?_of_dead hq hold hdead, run_unmapFile_of_none hdead,
    fun o k hne => (hunmapped.mapping? o k).trans (if_neg hne), ?_,
    fun o u hu hstays => hdown.keepsPage hq hu hstays⟩
  · rw [hanswer, firstFault?_eq_findSome? fun _ => file_of_mem_unmapWrites]
    cases (callsTo fm.source.file p.files (p.unmapWrites id fm)).findSome? WriteCall.fault? with
    | none => rfl
    | some e => rfl
  · have hwrites := writes_foldl hshows
      (p.unmapWrites id fm ++ [FileAction.close fm.source.file fm.source.handle])
    rw [callsTo_append_close, ← hfiles] at hwrites
    exact hwrites
  · intro call hcall
    exact length_of_mem_pagesDue (hasked ▸ List.mem_map_of_mem hcall)
  · intro k hk
    rw [file, file, hfiles]
    refine getD_foldl_of_ne fun action haction => ?_
    rcases List.mem_append.mp haction with haction | haction
    · exact file_of_mem_unmapWrites haction ▸ hk.symm
    · exact List.mem_singleton.mp haction ▸ hk.symm
  · intro hnumbered
    have hholds := hrun.holdsHandles hs.agrees (hs.holdsHandles hnumbered)
    exact ⟨(hholds.held id m fm hm).2, fun k handle => hunmapped.mem_handles_iff hholds hm⟩
  · intro u hu
    obtain ⟨haligned, _⟩ := hp.mappings.placed id m fm hm
    obtain ⟨i, _, rfl⟩ := mem_pageRange.mp hu
    exact hdown.leavesNothing hp hq (haligned.add_mul i) hu

/-- The file takes one byte of the first page that the first process has changed, and none of the
second one. It is called with both all the same, and the mapping goes: its second handle is closed,
and the page of the other process stays. -/
theorem Run.unmap_exact_twins :
    Run twins twinsAtWork (twins.ran twinsAtWork) ∧ 0 < (twins.ran twinsAtWork).spaces.size
      ∧ ∃ q, (unmapFile 0 0).run (twins.ran twinsAtWork) = .failed (.shortWrite pageSize 1) q
        ∧ (unmapFile 0 0).run q = .done () q
        ∧ ((q.file 0).writes.map fun call => (call.offset, call.bytes.take 1, call.count))
          = [(0, [9], 1), (pageSize, [8], 0)]
        ∧ (q.file 0).data.take 2 = [9, 7]
        ∧ 1 ∈ ((twins.ran twinsAtWork).file 0).handles ∧ 1 ∉ (q.file 0).handles
        ∧ (twins.ran twinsAtWork).LeavesNothing 0 pageSize q
        ∧ (twins.ran twinsAtWork).KeepsPage 1 topPage q := by
  have hstart : twins.IsStart := isStart_small (by decide) _ _
  have hrun : Run twins twinsAtWork _ := run_ran (by decide +kernel)
  have hnumbered : twins.HandlesNumbered := by
    intro k
    cases k with
    | zero => exact ⟨by decide, by decide⟩
    | succ k =>
      have hnone : twins.file (k + 1) = OpenFile.console := by
        rw [file, Array.getD_eq_getD_getElem?, Array.getElem?_eq_none (Nat.le_add_left 1 k)]
        rfl
      rw [hnone]
      exact ⟨by decide, by decide⟩
  obtain ⟨hsize, hm, hwrites, hdata, hfiles, hanswered⟩ :
      0 < (twins.ran twinsAtWork).spaces.size
      ∧ (twins.ran twinsAtWork).mapping? 0 0 = some ⟨⟨0, 1⟩, pageSize, 2⟩
      ∧ (((((twins.ran twinsAtWork).unmapWrites 0 ⟨⟨0, 1⟩, pageSize, 2⟩)
          ++ [FileAction.close 0 1]).foldl FileAction.on
        (twins.ran twinsAtWork).files).getD 0 default).writes.map
          (fun call => (call.offset, call.bytes.take 1, call.count))
        = [(0, [9], 1), (pageSize, [8], 0)]
      ∧ (((((twins.ran twinsAtWork).unmapWrites 0 ⟨⟨0, 1⟩, pageSize, 2⟩)
          ++ [FileAction.close 0 1]).foldl FileAction.on
        (twins.ran twinsAtWork).files).getD 0 default).data.take 2 = [9, 7]
      ∧ 0 < (twins.ran twinsAtWork).files.size
      ∧ ((twins.ran twinsAtWork).file 0).writes = [] := by decide +kernel
  obtain ⟨q, calls, hanswer, _, hcalls, _, hwhole, _, hq, hhandles, _, hagain, _, hgone, hkept⟩ :=
    (Run.unmap_exact hstart hrun hsize 0).2 _ hm
  obtain ⟨hopen, hclosed⟩ := hhandles hnumbered
  have hreceived : (q.file 0).writes.map (fun call => (call.offset, call.bytes.take 1, call.count))
      = [(0, [9], 1), (pageSize, [8], 0)] := by
    rw [file, hq, hwrites]
  -- the first of the two calls took one byte of a page
  have hfirst : calls.findSome? WriteCall.fault? = some (.shortWrite pageSize 1) := by
    rw [hcalls, hanswered, List.nil_append] at hreceived
    obtain ⟨call, rest, rfl, hcall, _⟩ := List.map_eq_cons_iff.mp hreceived
    have hcount : call.count = 1 := congrArg (fun x => x.2.2) hcall
    rw [List.findSome?_cons, WriteCall.fault?, hwhole call (List.mem_cons_self ..), hcount,
      if_neg (by decide)]
  rw [hfirst] at hanswer
  refine ⟨hrun, hsize, q, hanswer, hagain, hreceived, ?_, hopen, ?_, hgone pageSize (by decide),
    hkept 1 topPage (by decide) (by decide)⟩
  · rw [file, hq, hdata]
  · exact fun hstill => (hclosed 0 1 hfiles hopen).mp hstill rfl

end DemandPaging

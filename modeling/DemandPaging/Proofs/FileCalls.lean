import DemandPaging.Proofs.ListedPages
import DemandPaging.Proofs.TakingDown
/-!
# The calls that a file receives

A file keeps a record of the calls to write that it receives. So what was asked of it between
two states is what the record has grown by, call by call and in order, and the answers stand
beside the calls (`writes_foldl`). That tells more than the contents do: a call that is made twice,
or one of which the file took nothing, leaves no other trace.

Every mapping shows a file that is there (`Pager.Reachable.showsFiles`), so its record grows.
-/

namespace DemandPaging

open Pager

variable {n : Nat}

/-! ## What actions leave on record -/

/-- What a call asks the file to take: where, and what. -/
def WriteCall.asked (call : WriteCall) : Nat × Bytes := (call.offset, call.bytes)

/-- How a call falls short, if it does. -/
def WriteCall.fault? (call : WriteCall) : Option PagingError :=
  if call.count = call.bytes.length then none
  else some (.shortWrite call.bytes.length call.count)

namespace FileAction

/-- The file that an action is for. -/
def file : FileAction → Nat
  | .write file .. => file
  | .close file _ => file

/-- What an action asks the file `k` to take. -/
def asks? (k : Nat) : FileAction → Option (Nat × Bytes)
  | .write file offset bytes => if file = k then some (offset, bytes) else none
  | .close .. => none

/-- The call that an action is for the file `k`, with the answer that the file gives as it is. -/
def call? (files : Array OpenFile) (k : Nat) : FileAction → Option WriteCall
  | .write file offset bytes =>
    if file = k then some ⟨offset, bytes, ((files.getD k default).write offset bytes).1⟩ else none
  | .close .. => none

end FileAction

/-- The calls that the file `k` receives when the files are asked for one thing after the other. -/
def callsTo (k : Nat) : Array OpenFile → List FileAction → List WriteCall
  | _, [] => []
  | files, action :: rest => (action.call? files k).toList ++ callsTo k (action.on files) rest

section Record

variable {files : Array OpenFile} {k : Nat}

@[simp] theorem FileAction.size_on (action : FileAction) (files : Array OpenFile) :
    (action.on files).size = files.size := by
  cases action with
  | write | close => exact Array.size_modify

theorem FileAction.writes_on (hk : k < files.size) (action : FileAction) :
    ((action.on files).getD k default).writes
      = (files.getD k default).writes ++ (action.call? files k).toList := by
  cases action with
  | write file offset bytes =>
    simp only [on, call?]
    rw [getD_modify]
    by_cases hfile : file = k
    · subst hfile
      rw [if_pos ⟨rfl, hk⟩, if_pos rfl]
      exact OpenFile.writes_write ..
    · rw [if_neg fun h => hfile h.1.symm, if_neg hfile]
      exact (List.append_nil _).symm
  | close file handle =>
    simp only [on, call?]
    rw [getD_modify]
    by_cases hfile : k = file ∧ file < files.size
    · rw [if_pos hfile, hfile.1]
      exact (List.append_nil _).symm
    · rw [if_neg hfile]
      exact (List.append_nil _).symm

/-- The record grows by the calls, in the order in which they are made. -/
theorem writes_foldl (hk : k < files.size) (actions : List FileAction) :
    ((actions.foldl FileAction.on files).getD k default).writes
      = (files.getD k default).writes ++ callsTo k files actions := by
  induction actions generalizing files with
  | nil => exact (List.append_nil _).symm
  | cons action rest ih =>
    rw [List.foldl_cons, ih ((action.size_on files).symm ▸ hk), action.writes_on hk, callsTo,
      List.append_assoc]

/-- What the calls ask for does not depend on the answers. -/
theorem map_asked_callsTo (actions : List FileAction) :
    (callsTo k files actions).map WriteCall.asked = actions.filterMap (FileAction.asks? k) := by
  induction actions generalizing files with
  | nil => rfl
  | cons action rest ih =>
    have hfirst : (action.call? files k).map WriteCall.asked = action.asks? k := by
      cases action with
      | close => rfl
      | write file offset bytes =>
        simp only [FileAction.call?, FileAction.asks?]
        by_cases hfile : file = k
        · rw [if_pos hfile, if_pos hfile]
          rfl
        · rw [if_neg hfile, if_neg hfile]
          rfl
    rw [callsTo, List.map_append, ih, List.filterMap_cons, ← hfirst]
    cases action.call? files k with
    | none => rfl
    | some call => rfl

/-- An action is for one file only. -/
theorem FileAction.getD_on_of_ne {action : FileAction} (h : action.file ≠ k) :
    (action.on files).getD k default = files.getD k default := by
  cases action with
  | write | close => exact (getD_modify ..).trans (if_neg fun hk => h hk.1.symm)

theorem getD_foldl_of_ne {actions : List FileAction} (h : ∀ action ∈ actions, action.file ≠ k) :
    (actions.foldl FileAction.on files).getD k default = files.getD k default := by
  induction actions generalizing files with
  | nil => rfl
  | cons action rest ih =>
    rw [List.foldl_cons, ih fun a ha => h a (List.mem_cons_of_mem _ ha)]
    exact FileAction.getD_on_of_ne (h action (List.mem_cons_self ..))

/-- No action opens a handle. -/
theorem FileAction.handles_on (action : FileAction) :
    ((action.on files).getD k default).handles.Sublist (files.getD k default).handles := by
  cases action with
  | write | close =>
    simp only [on]
    rw [getD_modify]
    split
    next h =>
      obtain ⟨rfl, _⟩ := h
      first | exact List.Sublist.refl _ | exact List.erase_sublist
    next => exact List.Sublist.refl _

theorem handles_foldl (actions : List FileAction) :
    ((actions.foldl FileAction.on files).getD k default).handles.Sublist
      (files.getD k default).handles := by
  induction actions generalizing files with
  | nil => exact List.Sublist.refl _
  | cons action rest ih => exact ih.trans action.handles_on

/-- A handle that is closed on the way is not open in the end. -/
theorem not_mem_handles_foldl {actions : List FileAction} {handle : Nat} (hk : k < files.size)
    (hnodup : (files.getD k default).handles.Nodup) (hclose : .close k handle ∈ actions) :
    handle ∉ ((actions.foldl FileAction.on files).getD k default).handles := by
  induction actions generalizing files with
  | nil => cases hclose
  | cons action rest ih =>
    rcases List.mem_cons.mp hclose with rfl | hclose
    · intro hmem
      have herased := (handles_foldl rest).subset hmem
      simp only [FileAction.on] at herased
      rw [getD_modify, if_pos ⟨rfl, hk⟩] at herased
      exact hnodup.not_mem_erase herased
    · exact ih ((action.size_on files).symm ▸ hk) (action.handles_on.nodup hnodup) hclose

end Record

/-! ## What taking mappings down asks for -/

namespace Pager

/-- What the file of a mapping is asked to take when the mapping is taken down: each page that is
in a frame and dirty, whole and at its place, from the first page on. -/
def pagesDue (p : Pager n) (id : SpaceId) (fm : FileMapping) : List (Nat × Bytes) :=
  (List.range fm.pageCount).filterMap fun i =>
    if p.has .dirty id (fm.base + i * pageSize) then
      (p.framed? id (fm.base + i * pageSize)).map fun page => (i * pageSize, page.bytes)
    else none

/-- What the file `k` is asked to take when the mapping with the number `m` is taken down. -/
def pagesDueTo (p : Pager n) (id : SpaceId) (k m : Nat) : List (Nat × Bytes) :=
  match p.mapping? id m with
  | none => []
  | some fm => if fm.source.file = k then p.pagesDue id fm else []

variable {p : Pager n} {id : SpaceId} {k : Nat} {fm : FileMapping}

theorem filterMap_asks?_writeBack? :
    ((List.range fm.pageCount).filterMap (p.writeBack? id fm)).filterMap (FileAction.asks? k)
      = if fm.source.file = k then p.pagesDue id fm else [] := by
  rw [List.filterMap_filterMap]
  by_cases hfile : fm.source.file = k
  · rw [if_pos hfile]
    refine List.filterMap_congr fun i _ => ?_
    unfold writeBack?
    split
    · cases p.framed? id (fm.base + i * pageSize) with
      | none => rfl
      | some page => exact if_pos hfile
    · rfl
  · rw [if_neg hfile]
    refine List.filterMap_eq_nil_iff.mpr fun i _ => ?_
    unfold writeBack?
    split
    · cases p.framed? id (fm.base + i * pageSize) with
      | none => rfl
      | some page => exact if_neg hfile
    · rfl

theorem filterMap_asks?_unmapActions (m : Nat) :
    (p.unmapActions id m).filterMap (FileAction.asks? k) = p.pagesDueTo id k m := by
  unfold unmapActions pagesDueTo
  cases p.mapping? id m with
  | none => rfl
  | some fm =>
    simp only [List.filterMap_append, filterMap_asks?_writeBack?]
    exact List.append_nil _

end Pager

/-! ## The files of mappings -/

section Sizes

variable {S : Array OpenFile → Prop} {p q : Pager n} {f g : Option (Fin n)}

theorem Keeps.size_files {swap swap' : SwapArea} {files files' : Array OpenFile} {page : Page}
    {b b' : Backing} {dirty : Bool} (h : Keeps swap files page b dirty b' swap' files') :
    files'.size = files.size := by
  cases h with
  | dropped | stored => rfl
  | written => exact Array.size_modify

/-- No file comes or goes while the pager works. -/
theorem Quiet.size_files (move : Quiet S p f q g) : q.files.size = p.files.size := by
  cases move with
  | evicted _ _ _ _ _ _ _ hkeeps => exact hkeeps.size_files
  | swept | took | scribbled | returned | settled | pinned | accessed => rfl

theorem Visible.size_files {c : Change} (move : Visible p f c q g) :
    q.files.size = p.files.size := by
  cases move with
  | grown | stored | dirtied | described | unlisted | droppedAbsent | vacated => rfl
  | droppedPresent =>
    simp only [filesAfter]
    split
    · exact Array.size_modify
    · rfl
  | rewritten => exact Array.size_modify
  | mapped => exact Array.size_modify
  | closed => exact Array.size_modify

/-- A file that can be mapped is there. -/
theorem lt_size_of_mappingFault? {index base : Nat}
    (h : mappingFault? (p.file index) base = none) : index < p.files.size := by
  refine Nat.lt_of_not_le fun hle => ?_
  have hconsole : (p.file index).isConsole = true := by
    rw [file, Array.getD_eq_getD_getElem?, Array.getElem?_eq_none hle]
    rfl
  exact absurd ((of_mappingFault?_eq_none h).2.2.2.2.symm.trans hconsole) (by simp)

/-- All mappings show files that are there. -/
def Pager.ShowsFiles (p : Pager n) : Prop :=
  ∀ id m fm, p.mapping? id m = some fm → fm.source.file < p.files.size

theorem Visible.showsFiles {c : Change} (move : Visible p f c q g) (hp : p.ShowsFiles) :
    q.ShowsFiles := by
  intro id m fm hm
  rw [move.size_files]
  rcases move.mapping?_before hm with hm | rfl
  · exact hp id m fm hm
  · cases move with
    | mapped _ hfault => exact lt_size_of_mappingFault? hfault

theorem Chain.showsFiles {cs : List Change} (h : Chain S p f cs q g) (hp : p.ShowsFiles) :
    q.ShowsFiles := by
  induction h with
  | refl => exact hp
  | quiet _ move ih =>
    intro id m fm hm
    rw [move.size_files]
    exact ih id m fm ((move.mapping? id m).symm.trans hm)
  | visible _ move ih => exact move.showsFiles ih

end Sizes

theorem Run.showsFiles {p q : Pager n} {es : List Event} (h : Run p es q) (hp : p.Agrees none)
    (hshows : p.ShowsFiles) : q.ShowsFiles := by
  induction h with
  | refl => exact hshows
  | step he happly _ ih =>
    obtain ⟨_, _, hchain⟩ := Event.chain (S := fun _ => True) hp he happly fun _ _ => trivial
    exact ih (hchain.agrees hp) (hchain.showsFiles hshows)

/-- After each event of a run, every live mapping shows a file that is there. -/
theorem Pager.Reachable.showsFiles {p : Pager n} (h : p.Reachable) : p.ShowsFiles := by
  obtain ⟨s, es, hs, hrun⟩ := h
  refine hrun.showsFiles hs.agrees fun id m fm hm => ?_
  exact absurd ((hs.mapping?_eq_none id m).symm.trans hm) (by simp)

end DemandPaging

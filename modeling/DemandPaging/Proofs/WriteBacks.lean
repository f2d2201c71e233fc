import DemandPaging.Proofs.ListedPages
import DemandPaging.Proofs.MovedFrames
import DemandPaging.Proofs.TakingDown
/-!
# What is written back

A file is written to for one reason only: a page of a live mapping of it loses its frame while
it is dirty (`Pager.Due`). `Pager.Flushes` says of two states that between them exactly these
pages were written, each as it was in its frame and to its own window, and that no file holds
anything else.

`Quiet.saved` is about one move that no process can tell. What loads a page, or extends a
stack, is a sequence of these and takes a frame from one page at most (`Leads.flushes`). A page
of a program is never due, though it may be dirty: no mapping lists it.
-/

namespace DemandPaging

open Pager

variable {n : Nat}

namespace FileContents

/-- The bytes that are held. -/
def data : FileContents → Bytes
  | .console => []
  | .bytes data => data

/-- The contents after `patch` was written at `offset`. A console takes nothing. -/
def overwrite : FileContents → Nat → Bytes → FileContents
  | .console, _, _ => .console
  | .bytes data, offset, patch => .bytes (Bytes.overwrite data offset patch)

end FileContents

/-- A file without limits takes what is written to it. -/
theorem OpenFile.contents_write {f : OpenFile} (h : f.medium? = none) (offset : Nat)
    (patch : Bytes) :
    (f.write offset patch).2.contents = f.contents.overwrite offset patch
      ∧ (f.write offset patch).2.medium? = f.medium? := by
  refine ⟨?_, rfl⟩
  show f.store offset patch (if f.isConsole then 0 else f.takes offset patch) = _
  unfold store isConsole
  cases hc : f.contents with
  | console => rfl
  | bytes data =>
    simp only [h, takes_of_memory h, Bool.false_eq_true, if_false, Option.isSome_none,
      Bool.false_and, List.take_length]
    rfl

/-- Whether the action writes anything. -/
def FileAction.isWrite : FileAction → Bool
  | .write .. => true
  | .close .. => false

/-- A page that was written back: page `number` of a mapping of a space, and what it held. -/
structure WriteBack where
  space : SpaceId
  mapping : Nat
  shown : FileMapping
  number : Nat
  page : Page

namespace WriteBack

/-- Where the page was. -/
def upage (w : WriteBack) : Nat := w.shown.base + w.number * pageSize

/-- The file that the page was written to. -/
def file (w : WriteBack) : Nat := w.shown.source.file

/-- What the file `x` holds after the page was written to its window. -/
def on (x : Nat) (c : FileContents) (w : WriteBack) : FileContents :=
  if w.file = x then c.overwrite (w.number * pageSize) w.page.bytes else c

/-- What the file is asked for. -/
def action (w : WriteBack) : FileAction := .write w.file (w.number * pageSize) w.page.bytes

/-- Of the pages of one space those of the older mapping go first, and those of one mapping in
order. -/
def Before (v w : WriteBack) : Prop :=
  v.space = w.space ∧ (v.mapping < w.mapping ∨ v.mapping = w.mapping ∧ v.number < w.number)

end WriteBack

namespace Pager

/-- The page of a live mapping is in a frame, and dirty: it is to be written back before it
loses the frame. -/
structure Due (p : Pager n) (w : WriteBack) : Prop where
  live : p.mapping? w.space w.mapping = some w.shown
  lt : w.number < w.shown.pageCount
  framed : p.framed? w.space w.upage = some w.page
  dirty : p.has .dirty w.space w.upage = true

/-- The state of a pager between two steps, when no file has limits. -/
structure Ready (p : Pager n) : Prop where
  agrees : p.Agrees none
  listed : p.Listed
  medium? : ∀ x, (p.file x).medium? = none

/-- Every file holds what it held, but for the pages that were written to it in this order, and
falls short of it as it did. -/
structure Wrote (p : Pager n) (ws : List WriteBack) (q : Pager n) : Prop where
  contents : ∀ x, (q.file x).contents = ws.foldl (WriteBack.on x) (p.file x).contents
  medium? : ∀ x, (q.file x).medium? = (p.file x).medium?

/-- The pages that were written back are those that were due and are not any more. No page
became due. -/
structure Saved (p : Pager n) (ws : List WriteBack) (q : Pager n) : Prop extends p.Wrote ws q where
  mem_iff : ∀ w, w ∈ ws ↔ p.Due w ∧ ¬ q.Due w
  due : ∀ w, q.Due w → p.Due w
  nodup : ws.Nodup

/-- The pages that were written back are those that were due when they lost their frames, one
after the other. -/
structure Flushes (p : Pager n) (ws : List WriteBack) (q : Pager n) : Prop
    extends p.Wrote ws q where
  mem_iff : ∀ w, w ∈ ws ↔ p.Due w ∧ q.framed? w.space w.upage = none
  sorted : ws.Pairwise WriteBack.Before

variable {p q r : Pager n} {f g : Option (Fin n)} {w w' : WriteBack} {vs ws : List WriteBack}

theorem Due.pageAligned (h : p.Due w) (hp : p.MappingsAgree) : PageAligned w.upage :=
  (hp.placed _ _ _ h.live).1.add_mul w.number

/-- The descriptor of a page that is due says what is to be written where. -/
theorem Due.described (h : p.Due w) (hp : p.MappingsAgree) :
    ∃ d v, p.descriptor? w.space w.upage = some d ∧ d.backing.isMapped = true
      ∧ d.backing.window? = some v ∧ v.source = w.shown.source
      ∧ v.offset = w.number * pageSize :=
  hp.described _ _ _ _ h.live h.lt

/-- A page is due as a page of one mapping only. -/
theorem Due.eq (h : p.Due w) (h' : p.Due w') (hp : p.MappingsAgree) (hspace : w.space = w'.space)
    (hupage : w.upage = w'.upage) : w = w' := by
  obtain ⟨o, m, fm, k, page⟩ := w
  obtain ⟨o', m', fm', k', page'⟩ := w'
  cases hspace
  have hin : WriteBack.upage ⟨o, m, fm, k, page⟩ ∈ fm.pages := mem_pageRange.mpr ⟨k, h.lt, rfl⟩
  have hin' : WriteBack.upage ⟨o, m, fm, k, page⟩ ∈ fm'.pages :=
    mem_pageRange.mpr ⟨k', h'.lt, hupage⟩
  cases hp.disjoint o m m' fm fm' _ h.live h'.live hin hin'
  cases h.live.symm.trans h'.live
  cases Nat.eq_of_mul_eq_mul_right pageSize_pos (Nat.add_left_cancel hupage)
  cases h.framed.symm.trans h'.framed
  rfl

/-- Whether a page is due depends on the page and its mapping. -/
theorem due_iff (hp : p.MappingsAgree) (hmapping : ∀ o m, q.mapping? o m = p.mapping? o m)
    (hpage : PageAligned w.upage → SamePage p q w.space w.upage) : q.Due w ↔ p.Due w := by
  constructor
  · intro h
    have hlive := (hmapping _ _).symm.trans h.live
    have hsame := hpage ((hp.placed _ _ _ hlive).1.add_mul w.number)
    exact ⟨hlive, h.lt, hsame.framed? ▸ h.framed, hsame.dirty ▸ h.dirty⟩
  · intro h
    have hsame := hpage (h.pageAligned hp)
    exact ⟨(hmapping _ _).trans h.live, h.lt, hsame.framed?.trans h.framed,
      hsame.dirty.trans h.dirty⟩

/-! ## What is written -/

theorem SameContents.wrote (h : SameContents p q) : p.Wrote [] q :=
  ⟨fun x => (h x).1, fun x => (h x).2⟩

theorem SameContents.of_files (h : q.files = p.files) : SameContents p q := by
  intro x
  rw [file, file, h]
  exact ⟨rfl, rfl⟩

namespace Wrote

theorem trans (h : p.Wrote vs q) (h' : q.Wrote ws r) : p.Wrote (vs ++ ws) r where
  contents x := by rw [List.foldl_append, ← h.contents, h'.contents]
  medium? x := (h'.medium? x).trans (h.medium? x)

/-- A page is written to its file, if there is such a file. -/
theorem of_action (hlimits : ∀ x, (p.file x).medium? = none)
    (hq : q.files = w.action.on p.files) : p.Wrote [w] q := by
  have hfile : ∀ x, q.file x = if x = w.file ∧ w.file < p.files.size
      then ((p.file w.file).write (w.number * pageSize) w.page.bytes).2 else p.file x := by
    intro x
    rw [Pager.file, hq]
    exact getD_modify x w.file
  obtain ⟨hcontents, hlimits⟩ := OpenFile.contents_write (hlimits w.file) (w.number * pageSize)
    w.page.bytes
  refine ⟨fun x => ?_, fun x => ?_⟩
  · show _ = WriteBack.on x _ w
    rw [hfile]
    unfold WriteBack.on
    split
    next h => rw [hcontents, if_pos h.1.symm, h.1]
    next h =>
      split
      next hx =>
        subst hx
        -- a file that does not exist is a console
        have hnone : p.file w.file = default := by
          unfold Pager.file
          rw [Array.getD_eq_getD_getElem?,
            Array.getElem?_eq_none (Nat.not_lt.mp fun hlt => h ⟨rfl, hlt⟩), Option.getD_none]
        rw [hnone]
        rfl
      next => rfl
  · rw [hfile]
    split
    next h => rw [hlimits, h.1]
    next => rfl

/-- Whatever else the files are asked for, they hold what is written to them. -/
theorem of_actions {actions : List FileAction} (hlimits : ∀ x, (p.file x).medium? = none)
    (hwrites : actions.filter FileAction.isWrite = ws.map WriteBack.action)
    (hq : q.files = actions.foldl FileAction.on p.files) : p.Wrote ws q := by
  induction actions generalizing p ws with
  | nil =>
    cases List.map_eq_nil_iff.mp hwrites.symm
    exact (SameContents.of_files hq).wrote
  | cons a rest ih =>
    obtain ⟨r, hr⟩ : ∃ r : Pager n, r = { p with files := a.on p.files } := ⟨_, rfl⟩
    cases a with
    | close x handle =>
      have hfirst : p.Wrote [] r :=
        (SameContents.of_modify (g := (·.close handle)) (congrArg Pager.files hr) rfl rfl).wrote
      have hrest : r.Wrote ws q :=
        ih (fun x => (hfirst.medium? x).trans (hlimits x)) hwrites (hr ▸ hq)
      exact hfirst.trans hrest
    | write x offset patch =>
      obtain ⟨w, ws', rfl, haction, hrest⟩ := List.map_eq_cons_iff.mp hwrites.symm
      have hfirst : p.Wrote [w] r := .of_action hlimits (by rw [hr, haction])
      have hrest : r.Wrote ws' q :=
        ih (fun x => (hfirst.medium? x).trans (hlimits x)) hrest.symm (hr ▸ hq)
      exact hfirst.trans hrest

end Wrote

namespace Saved

theorem nothing (hdue : ∀ w, q.Due w ↔ p.Due w) (hcontents : SameContents p q) :
    p.Saved [] q where
  toWrote := hcontents.wrote
  mem_iff w := ⟨fun h => absurd h List.not_mem_nil, fun h => absurd ((hdue w).mpr h.1) h.2⟩
  due w := (hdue w).mp
  nodup := List.nodup_nil

/-- One page is written back. -/
theorem one (hdue : p.Due w) (hgone : ¬ q.Due w) (hothers : ∀ w', w' ≠ w → (q.Due w' ↔ p.Due w'))
    (hwrote : p.Wrote [w] q) : p.Saved [w] q where
  toWrote := hwrote
  mem_iff w' := by
    rw [List.mem_singleton]
    constructor
    · rintro rfl
      exact ⟨hdue, hgone⟩
    · rintro ⟨hdue', hgone'⟩
      exact Classical.byContradiction fun hne => hgone' ((hothers w' hne).mpr hdue')
  due w' hdue' := (hothers w' fun heq => hgone (heq ▸ hdue')).mp hdue'
  nodup := List.pairwise_singleton ..

theorem trans (h : p.Saved vs q) (h' : q.Saved ws r) : p.Saved (vs ++ ws) r where
  toWrote := h.toWrote.trans h'.toWrote
  mem_iff w := by
    rw [List.mem_append, h.mem_iff, h'.mem_iff]
    constructor
    · rintro (⟨hp, hq⟩ | ⟨hq, hr⟩)
      · exact ⟨hp, fun hr => hq (h'.due w hr)⟩
      · exact ⟨h.due w hq, hr⟩
    · rintro ⟨hp, hr⟩
      by_cases hq : q.Due w
      · exact Or.inr ⟨hq, hr⟩
      · exact Or.inl ⟨hp, hq⟩
  due w hr := h.due w (h'.due w hr)
  nodup := by
    refine List.nodup_append.mpr ⟨h.nodup, h'.nodup, ?_⟩
    -- what the first part wrote is not due after it
    rintro v hv _ hw rfl
    exact ((h.mem_iff v).mp hv).2 ((h'.mem_iff v).mp hw).1

end Saved

end Pager

/-! ## Quiet moves -/

section Quiet

variable {S : Array OpenFile → Prop} {p q : Pager n} {f g : Option (Fin n)} {o : SpaceId} {v : Nat}
  {d : Descriptor} {b : Backing} {page : Page} {swap : SwapArea} {files : Array OpenFile}

/-- A page that is due is written to its window when its frame is taken away. -/
theorem Keeps.wrote {w : WriteBack}
    (h : Keeps p.swap p.files w.page d.backing (p.has .dirty w.space w.upage) b swap files)
    (hp : p.MappingsAgree) (hlimits : ∀ x, (p.file x).medium? = none) (hdue : p.Due w)
    (hd : p.descriptor? w.space w.upage = some d) (hq : q.files = files) : p.Wrote [w] q := by
  obtain ⟨d', window, hd', hmapped, hwindow, hsource, hoffset⟩ := hdue.described hp
  cases hd.symm.trans hd'
  rw [hdue.dirty] at h
  generalize d.backing = backing at h hmapped hwindow
  cases h with
  | stored hb =>
    rcases hb with rfl | ⟨_, rfl, _⟩ | ⟨_, _, hclean⟩
    · cases hmapped
    · cases hmapped
    · cases hclean
  | @written window' file hsave =>
    cases hwindow
    refine .of_action hlimits (hq.trans ?_)
    have hfile := FileWindow.save_file window (p.file window.source.file) w.page
    rw [show window.save (p.file window.source.file) w.page = (.ok (), file) from hsave, hoffset]
      at hfile
    rw [show file = _ from hfile, hsource]
    exact modify_const fun f => (f.write (w.number * pageSize) w.page.bytes).2

/-- A page that is not due is not written to any file: a dirty page that says it belongs to a
mapping does, so it would be due. -/
theorem Keeps.sameContents (h : Keeps p.swap p.files page d.backing (p.has .dirty o v) b swap files)
    (hlisted : p.Listed) (hpage : p.framed? o v = some page)
    (hd : p.descriptor? o v = some d ∨ p.descriptor? o v = none ∧ d.backing = .anonymous)
    (hnot : ∀ w, w.space = o → w.upage = v → ¬ p.Due w) (hq : q.files = files) :
    SameContents p q := by
  refine .of_files (hq.trans ?_)
  generalize hbacking : d.backing = backing at h hd
  generalize hdirty : p.has .dirty o v = dirty at h
  cases h with
  | dropped => rfl
  | stored => rfl
  | written =>
    have hdesc : p.descriptor? o v = some d := by
      rcases hd with hd | ⟨_, hb⟩
      · exact hd
      · cases hb
    obtain ⟨m, fm, hm, hv, _⟩ := hlisted o v d hdesc (by rw [hbacking]; rfl)
    obtain ⟨k, hk, rfl⟩ := mem_pageRange.mp hv
    exact absurd ⟨hm, hk, hpage, hdirty⟩ (hnot ⟨o, m, fm, k, page⟩ rfl rfl)

/-- A quiet move writes back the page that it takes out of its frame, if it is due. -/
theorem Quiet.saved (move : Quiet S p f q g) (hp : p.Agrees f) (hlisted : p.Listed)
    (hlimits : ∀ x, (p.file x).medium? = none) : ∃ ws, p.Saved ws q := by
  have hmapping := move.mapping?
  cases move.shift hp with
  | still hpages hfiles =>
    exact ⟨[], .nothing (fun w => due_iff hp.mappings hmapping (hpages _ _)) (.of_files hfiles)⟩
  | @evicted o v d b page hothers _ hpage hd hkeeps hgone _ _ =>
    have hother : ∀ w, ¬(w.space = o ∧ w.upage = v) → (q.Due w ↔ p.Due w) := fun w hne =>
      due_iff hp.mappings hmapping fun haligned => hothers _ _ haligned hne
    have hleft : ∀ w, w.space = o → w.upage = v → ¬ q.Due w := by
      rintro w rfl rfl h
      exact absurd (hgone.symm.trans h.framed) (by simp)
    by_cases hdue : ∃ w, p.Due w ∧ w.space = o ∧ w.upage = v
    · obtain ⟨w, hdue, rfl, rfl⟩ := hdue
      have hdesc : p.descriptor? w.space w.upage = some d := by
        obtain ⟨d', _, hd', _⟩ := hdue.described hp.mappings
        exact hd.resolve_right fun h => absurd (h.1.symm.trans hd') (by simp)
      cases hdue.framed.symm.trans hpage
      refine ⟨[w], .one hdue (hleft w rfl rfl) (fun w' hne => ?_)
        (hkeeps.wrote hp.mappings hlimits hdue hdesc rfl)⟩
      by_cases hsame : w'.space = w.space ∧ w'.upage = w.upage
      · refine iff_of_false (hleft w' hsame.1 hsame.2) fun hdue' => hne ?_
        exact hdue'.eq hdue hp.mappings hsame.1 hsame.2
      · exact hother w' hsame
    · have hnot : ∀ w, w.space = o → w.upage = v → ¬ p.Due w := fun w hspace hupage h =>
        hdue ⟨w, h, hspace, hupage⟩
      refine ⟨[], .nothing (fun w => ?_) (hkeeps.sameContents hlisted hpage hd hnot rfl)⟩
      by_cases hsame : w.space = o ∧ w.upage = v
      · exact iff_of_false (hleft w hsame.1 hsame.2) (hnot w hsame.1 hsame.2)
      · exact hother w hsame
  | @loaded o v d page hothers _ hgone hd _ _ hfiles _ hdirty _ _ _ =>
    refine ⟨[], .nothing (fun w => ?_) (.of_files hfiles)⟩
    by_cases hsame : w.space = o ∧ w.upage = v
    -- the page was in no frame, and a page of a mapping is clean when it is loaded
    · obtain ⟨rfl, rfl⟩ := hsame
      refine iff_of_false (fun h => ?_) fun h => absurd (hgone.symm.trans h.framed) (by simp)
      obtain ⟨d', _, hd', hmapped, _⟩ := hp.mappings.described _ _ _ _
        ((hmapping _ _).symm.trans h.live) h.lt
      cases hd.symm.trans hd'
      have hclean := hdirty.symm.trans h.dirty
      cases hb : d.backing with
      | mappedFile | mappedParked =>
        rw [hb] at hclean
        cases hclean
      | anonymous | swapped | privateFile | privateParked =>
        rw [hb] at hmapped
        cases hmapped
    · exact due_iff hp.mappings hmapping fun haligned => hothers _ _ haligned hsame

/-- The growth of a stack writes nothing: the new page is in no mapping. -/
theorem Visible.saved_grown {id : SpaceId} {upage : Nat} (move : Visible p f (.grown id upage) q g)
    (hp : p.Agrees f) : p.Saved [] q := by
  have hmapping : ∀ o m, q.mapping? o m = p.mapping? o m := by
    cases move with
    | grown => exact mapping?_congr (mappings_of_put_same rfl rfl)
  cases move.alters hp with
  | grown hothers _ hvacant _ _ hfiles =>
    refine .nothing (fun w => ?_) (.of_files hfiles)
    by_cases hsame : w.space = id ∧ w.upage = upage
    · obtain ⟨rfl, rfl⟩ := hsame
      refine iff_of_false (fun h => ?_) fun h => absurd (hvacant.2.symm.trans h.framed) (by simp)
      obtain ⟨d, _, hd, _⟩ := hp.mappings.described _ _ _ _ ((hmapping _ _).symm.trans h.live) h.lt
      exact absurd (hvacant.1.symm.trans hd) (by simp)
    · exact due_iff hp.mappings hmapping fun haligned => hothers _ _ haligned hsame

end Quiet

/-! ## Steps -/

/-- The change maps no file and strikes no mapping off its list. -/
def Change.KeepsMappings : Change → Prop
  | .mapped .. | .unlisted .. => False
  | _ => True

/-- The change extends a stack. -/
def Change.Grows : Change → Prop
  | .grown .. => True
  | _ => False

theorem Change.Grows.keepsMappings {c : Change} (h : c.Grows) : c.KeepsMappings := by
  cases c <;> first | exact h.elim | trivial

section Chain

variable {S : Array OpenFile → Prop} {p q r : Pager n} {f g : Option (Fin n)} {cs : List Change}

theorem Chain.mapping?_eq (h : Chain S p f cs q g) (hp : p.Agrees f)
    (hcs : ∀ c ∈ cs, c.KeepsMappings) (o : SpaceId) (m : Nat) :
    q.mapping? o m = p.mapping? o m := by
  refine Option.ext fun fm => ⟨fun hm => ?_, fun hm => ?_⟩
  · exact (h.mapping?_before hm).resolve_right fun hc => hcs _ hc
  · exact h.mapping?_of_not_mem hp hm fun hc => hcs _ hc

theorem Chain.listed (h : Chain S p f cs q g) (hp : p.Agrees f) (hcs : ∀ c ∈ cs, c.KeepsMappings)
    (hlisted : p.Listed) : q.Listed := by
  intro o v d hd hmapped
  have hv := ((h.agrees hp).descriptors.upage o v d hd).1
  rcases h.mapped_of hp hv hd hmapped with ⟨_, d', hd', hmapped', hw⟩ | ⟨fm, hmem, _⟩
  · obtain ⟨m, fm, hm, hvm, hsource⟩ := hlisted o v d' hd' hmapped'
    exact ⟨m, fm, (h.mapping?_eq hp hcs o m).trans hm, hvm, hw ▸ hsource⟩
  · exact (hcs _ hmem).elim

theorem Chain.saved (h : Chain S p f cs q g) (hp : p.Agrees f) (hcs : ∀ c ∈ cs, c.Grows)
    (hlisted : p.Listed) (hlimits : ∀ x, (p.file x).medium? = none) : ∃ ws, p.Saved ws q := by
  induction h with
  | refl => exact ⟨[], .nothing (fun _ => Iff.rfl) (.of_files rfl)⟩
  | quiet h move ih =>
    obtain ⟨vs, hvs⟩ := ih hcs
    obtain ⟨ws, hws⟩ := move.saved (h.agrees hp)
      (h.listed hp (fun c hc => (hcs c hc).keepsMappings) hlisted)
      fun x => (hvs.medium? x).trans (hlimits x)
    exact ⟨vs ++ ws, hvs.trans hws⟩
  | @visible cs c _ _ _ _ h move ih =>
    obtain ⟨vs, hvs⟩ := ih fun c hc => hcs c (List.mem_append_left _ hc)
    have hc := hcs c (List.mem_append_right _ (List.mem_singleton_self _))
    cases c with
    | grown => exact ⟨vs ++ [], hvs.trans (move.saved_grown (h.agrees hp))⟩
    | _ => exact hc.elim

end Chain

namespace Pager

variable {p q r : Pager n} {f : Option (Fin n)} {o : SpaceId} {v : Nat} {page : Page}

/-- The frame of a page that leaves it changes hands. -/
theorem FramesAgree.moved_of_gone (hp : p.FramesAgree none) (hq : q.FramesAgree none)
    (hv : PageAligned v) (hpage : p.framed? o v = some page) (hgone : q.framed? o v = none) :
    ∃ i, p.backed? i = some (o, v) ∧ q.backed? i ≠ p.backed? i := by
  obtain ⟨i, hi, _⟩ := Option.map_eq_some_iff.mp hpage
  obtain ⟨a, ha, _, howner, hupage⟩ := hp.of_frame? hi
  rw [hv.pageBase_eq] at hupage
  have hbacked : p.backed? i = some (o, v) := by
    unfold backed?
    rw [ha, Option.map_some, howner, hupage]
  refine ⟨i, hbacked, fun heq => ?_⟩
  obtain ⟨b, hb, hpair⟩ := Option.map_eq_some_iff.mp (heq.trans hbacked)
  cases hpair
  exact absurd (hgone.symm.trans (hq.framed?_of_assigned hb (by simp))) (by simp)

/-- No page leaves its frame or comes into one, and no file holds anything else. -/
structure SameFrames (p q : Pager n) : Prop where
  address? : ∀ o u, q.address? o u = p.address? o u
  contents : SameContents p q

theorem SameFrames.trans (h : p.SameFrames q) (h' : q.SameFrames r) : p.SameFrames r where
  address? o u := (h'.address? o u).trans (h.address? o u)
  contents k := ⟨(h'.contents k).1.trans (h.contents k).1, (h'.contents k).2.trans (h.contents k).2⟩

theorem SameFrames.refl : p.SameFrames p := ⟨fun _ _ => rfl, .of_files rfl⟩

instance : Std.Refl (SameFrames (n := n)) := ⟨fun _ => .refl⟩

instance : Trans (SameFrames (n := n)) (SameFrames (n := n)) (SameFrames (n := n)) := ⟨.trans⟩

/-- What follows and moves no page writes nothing. -/
theorem Flushes.before {ws : List WriteBack} (h : p.Flushes ws q) (hsame : q.SameFrames r)
    (hq : q.FramesAgree none) (hr : r.FramesAgree none) : p.Flushes ws r where
  contents x := (hsame.contents x).1.trans (h.contents x)
  medium? x := (hsame.contents x).2.trans (h.medium? x)
  mem_iff w := by
    rw [h.mem_iff, hq.framed?_eq_none_iff, hr.framed?_eq_none_iff, hsame.address?]
  sorted := h.sorted

theorem Flushes.nothing (p : Pager n) : p.Flushes [] p where
  toWrote := (SameContents.of_files rfl).wrote
  mem_iff w := by
    refine ⟨fun h => absurd h List.not_mem_nil, fun h => ?_⟩
    exact absurd (h.2.symm.trans h.1.framed) (by simp)
  sorted := .nil

theorem SameFrames.flushes (h : p.SameFrames q) (hp : p.Agrees none) (hq : q.Agrees none) :
    p.Flushes [] q :=
  (Flushes.nothing p).before h hp.frames hq.frames

end Pager

theorem Pager.Ready.leads {p q : Pager n} {id : SpaceId} {upage : Nat} {cs : List Change}
    {ws : List WriteBack} (hp : p.Ready) (h : Leads id upage p cs q)
    (hcs : ∀ c ∈ cs, c.KeepsMappings) (hwrote : p.Wrote ws q) : q.Ready where
  agrees := h.agrees hp.agrees
  listed := h.chain.listed hp.agrees hcs hp.listed
  medium? x := (hwrote.medium? x).trans (hp.medium? x)

/-- A page that is in a frame after a step that stores nothing was there all the time, and is as
due as it was. -/
theorem Leads.not_due_iff {p q : Pager n} {id : SpaceId} {upage : Nat} {cs : List Change}
    {w : WriteBack} (h : Leads id upage p cs q) (hp : p.Agrees none) (hcs : ∀ c ∈ cs, c.Grows)
    (hdue : p.Due w) : ¬ q.Due w ↔ q.framed? w.space w.upage = none := by
  refine ⟨fun hnot => ?_, fun hnone hdue' => absurd (hnone.symm.trans hdue'.framed) (by simp)⟩
  refine (h.steady.kept _ _ _ (hdue.pageAligned hp.mappings) hdue.framed).resolve_right ?_
  intro hstays
  have hsame : ∀ page, cs.foldl (Change.onPage w.space w.upage) page = page := by
    intro page
    refine List.foldlRecOn (motive := (· = page)) cs _ rfl ?_
    rintro _ rfl c hc
    cases c with
    | stored => exact (hcs _ hc).elim
    | _ => rfl
  refine hnot ⟨?_, hdue.lt, hsame w.page ▸ hstays.framed?, hstays.dirty ?_ hdue.dirty⟩
  · rw [h.chain.mapping?_eq hp fun c hc => (hcs c hc).keepsMappings]
    exact hdue.live
  · exact fun u hc => hcs _ hc

/-- If at most one frame changed hands, at most one page that was due has left its frame. -/
theorem Pager.OneMoved.eq_of_gone {p q : Pager n} {v w : WriteBack} (h : p.OneMoved q)
    (hp : p.Agrees none) (hq : q.Agrees none) (hv : p.Due v) (hw : p.Due w)
    (hvgone : q.framed? v.space v.upage = none) (hwgone : q.framed? w.space w.upage = none) :
    v = w := by
  obtain ⟨i, hi, himoved⟩ := hp.frames.moved_of_gone hq.frames (hv.pageAligned hp.mappings)
    hv.framed hvgone
  obtain ⟨j, hj, hjmoved⟩ := hp.frames.moved_of_gone hq.frames (hw.pageAligned hp.mappings)
    hw.framed hwgone
  cases h i j himoved hjmoved
  have hpair := Prod.mk.inj (Option.some.inj (hi.symm.trans hj))
  exact hv.eq hw hp.mappings hpair.1 hpair.2

/-- A step of the pager that stores nothing writes back the page that loses its frame, if it is
due, and no other: there is no other that does. -/
theorem Leads.flushes {p q : Pager n} {id : SpaceId} {upage : Nat} {cs : List Change}
    (h : Leads id upage p cs q) (hready : p.Ready) (hcs : ∀ c ∈ cs, c.Grows)
    (hone : p.OneMoved q) : ∃ ws, p.Flushes ws q := by
  have hp := hready.agrees
  obtain ⟨ws, hws⟩ := h.chain.saved hp hcs hready.listed hready.medium?
  have hmem : ∀ w, w ∈ ws ↔ p.Due w ∧ q.framed? w.space w.upage = none := fun w =>
    (hws.mem_iff w).trans (and_congr_right (h.not_due_iff hp hcs))
  have hunique : ∀ v ∈ ws, ∀ w ∈ ws, v = w := by
    intro v hv w hw
    obtain ⟨hv, hvgone⟩ := (hmem v).mp hv
    obtain ⟨hw, hwgone⟩ := (hmem w).mp hw
    exact hone.eq_of_gone hp (h.agrees hp) hv hw hvgone hwgone
  have hsorted : ws.Pairwise WriteBack.Before :=
    hws.nodup.imp_of_mem fun hv hw hne => absurd (hunique _ hv _ hw) hne
  exact ⟨ws, hws.toWrote, hmem, hsorted⟩

end DemandPaging

import DemandPaging.Proofs.ListedPages
/-!
# The pages of one mapping

A file is mapped at `base` and nothing else shows it (`Maps`). What a move does to the pages
of the mapping and to the file is one of a few things (`Touch`): a page is loaded from the
file, a page is forgotten that was not dirty, a dirty page is written back, bytes are stored
in a page, or a page is marked dirty. `Shift.touch` and `Alters.touch` say so of all moves,
whichever process they serve.
-/

namespace DemandPaging

open Pager

variable {n : Nat}

namespace Backing

/-- A page of a mapping is read from its window and loaded clean. -/
theorem loads_of_isMapped {b : Backing} {w : FileWindow} (h : b.isMapped = true)
    (hw : b.window? = some w) :
    b.loadSource = .file w ∧ b.loadsDirty = false ∧ b.loaded?.isSome = true := by
  cases b <;> cases h <;> cases hw <;> exact ⟨rfl, rfl, rfl⟩

end Backing

/-- A page of a mapping is written to its file if it is dirty; no other page is. -/
theorem Keeps.files {swap swap' : SwapArea} {files files' : Array OpenFile} {page : Page}
    {b b' : Backing} {dirty : Bool} (h : Keeps swap files page b dirty b' swap' files') :
    files' = files ∧ (b.isMapped = true → dirty = false)
      ∨ dirty = true ∧ b.isMapped = true ∧ ∃ w, b.window? = some w
        ∧ files' = files.modify w.source.file fun _ =>
          (w.save (files.getD w.source.file default) page).2 := by
  cases h with
  | @written w file h =>
    refine Or.inr ⟨rfl, rfl, w, rfl, ?_⟩
    rw [h]
  | dropped => exact Or.inl ⟨rfl, fun _ => rfl⟩
  | stored hb _ =>
    rcases hb with rfl | ⟨w, rfl, _⟩ | ⟨w, rfl, hclean⟩
    · exact Or.inl ⟨rfl, fun h => by cases h⟩
    · exact Or.inl ⟨rfl, fun h => by cases h⟩
    · exact Or.inl ⟨rfl, fun _ => hclean⟩

namespace Pager

variable {p q : Pager n} {f : Option (Fin n)}

/-- A page that is in no frame has no flag. -/
theorem FramesAgree.has_of_not_framed? (hp : p.FramesAgree f) {o : SpaceId} {u : Nat}
    (h : p.framed? o u = none) (flag : PageFlag) : p.has flag o u = false :=
  PageDirectory.has_of_frameAddress?_eq_none (hp.address?_of_not_framed? h) flag

/-- The file of a window holds what it was left with when the page was saved to it. -/
def SavedTo (p : Pager n) (w : FileWindow) (page : Page) (q : Pager n) : Prop :=
  (q.file w.source.file).contents = (w.save (p.file w.source.file) page).2.contents
    ∧ (q.file w.source.file).medium? = (p.file w.source.file).medium?

theorem savedTo_of_modify {w : FileWindow} {page : Page}
    (h : q.files = p.files.modify w.source.file fun _ => (w.save (p.file w.source.file) page).2) :
    p.SavedTo w page q := by
  unfold SavedTo
  rw [w.save_file]
  unfold file at *
  rw [h, getD_modify]
  split
  next =>
    rw [w.save_file]
    exact ⟨rfl, rfl⟩
  next hsize =>
    -- a file that does not exist takes no bytes
    have hdefault : p.files.getD w.source.file default = OpenFile.console := by
      rw [Array.getD_eq_getD_getElem?,
        Array.getElem?_eq_none (Nat.not_lt.mp fun h => hsize ⟨rfl, h⟩)]
      rfl
    rw [hdefault]
    exact ⟨rfl, rfl⟩

theorem SavedTo.data {w : FileWindow} {page : Page} (h : p.SavedTo w page q)
    (hp : (p.file w.source.file).IsPlain) :
    (q.file w.source.file).data
      = Bytes.overwrite (p.file w.source.file).data w.offset page.bytes := by
  rw [← hp.data_save w page]
  unfold OpenFile.data
  rw [h.1]

theorem SavedTo.isPlain {w : FileWindow} {page : Page} (h : p.SavedTo w page q)
    (hp : (p.file w.source.file).IsPlain) : (q.file w.source.file).IsPlain := by
  refine ⟨?_, h.2.trans hp.medium?⟩
  rw [← (hp.save w page).isConsole]
  unfold OpenFile.isConsole
  rw [h.1]

theorem file_of_saved_elsewhere {w : FileWindow} {g : OpenFile → OpenFile} {k : Nat}
    (h : q.files = p.files.modify w.source.file g) (hk : w.source.file ≠ k) :
    q.file k = p.file k := by
  unfold file
  rw [h, getD_modify, if_neg fun hc => hk hc.1.symm]

/-- The pages of a mapping at `base` of a file of `length` bytes show the file, each its own
part, and no other page of a mapping does. -/
structure Maps (p : Pager n) (id : SpaceId) (source : FileRef) (base length : Nat) : Prop where
  aligned : PageAligned base
  windows : ∀ j d, j < pagesFor length → p.descriptor? id (base + j * pageSize) = some d →
    d.backing.isMapped = true ∧ d.backing.window? = some (mappingWindow source length j)
  backed : ∀ j, j < pagesFor length → (p.framed? id (base + j * pageSize)).isSome = true →
    (p.descriptor? id (base + j * pageSize)).isSome = true
  sole : ∀ o v d w, p.descriptor? o v = some d → d.backing.isMapped = true →
    d.backing.window? = some w → w.source.file = source.file →
    o = id ∧ v ∈ pageRange base (pagesFor length)

end Pager

/-- Whether a change concerns a mapping only by storing in its pages, marking them dirty, or
taking it down. -/
def Change.Respects (id : SpaceId) (source : FileRef) (base length : Nat) (c : Change) : Prop :=
  (∀ v ∈ pageRange base (pagesFor length), ¬ c.Creates id v) ∧ match c with
    | .dirtied _ _ value => value = true
    | .mapped _ fm => fm.source.file ≠ source.file
    | .rewritten file => file ≠ source.file
    | _ => True

section Mapping

variable {S : Array OpenFile → Prop} {p q : Pager n} {f g : Option (Fin n)} {id : SpaceId}
  {source : FileRef} {base length : Nat}

theorem Pager.Maps.aligned_page (h : p.Maps id source base length) (j : Nat) :
    PageAligned (base + j * pageSize) := h.aligned.add_mul j

theorem mem_pageRange_of_lt {j : Nat} (hj : j < pagesFor length) :
    base + j * pageSize ∈ pageRange base (pagesFor length) := mem_pageRange.mpr ⟨j, hj, rfl⟩

/-- Pages of a mapping with different numbers are different pages. -/
theorem page_ne {i j : Nat} (h : i ≠ j) : base + i * pageSize ≠ base + j * pageSize :=
  fun heq => h (Nat.eq_of_mul_eq_mul_right pageSize_pos (Nat.add_left_cancel heq))

theorem Shift.maps (h : Shift S p q) (hq : q.Agrees g) (hp : p.Maps id source base length) :
    q.Maps id source base length where
  aligned := hp.aligned
  windows j e hj he := by
    rcases h.descriptor_of (hp.aligned_page j) he with ⟨d, hd, hw, hm⟩ | ⟨hframed, hnone, _⟩
    · rw [hw, hm]
      exact hp.windows j d hj hd
    -- a page that only now got a descriptor had a frame, and a mapped page in a frame has one
    · have hsome := hp.backed j hj hframed
      rw [hnone] at hsome
      cases hsome
  backed j hj hframed := by
    have hv := hp.aligned_page j
    cases h with
    | still hpages _ =>
      have hsame := hpages id _ hv
      rw [hsame.framed?] at hframed
      rw [hsame.descriptor?]
      exact hp.backed j hj hframed
    | @evicted o v _ _ _ hothers _ _ _ _ _ hafter =>
      by_cases hpage : id = o ∧ base + j * pageSize = v
      · rw [hpage.1, hpage.2, hafter]
        rfl
      · have hsame := hothers id _ hv hpage
        rw [hsame.framed?] at hframed
        rw [hsame.descriptor?]
        exact hp.backed j hj hframed
    | @loaded o v d _ hothers _ _ hd _ _ _ _ _ hafter =>
      by_cases hpage : id = o ∧ base + j * pageSize = v
      · obtain ⟨rfl, rfl⟩ := hpage
        obtain ⟨hmapped, hw⟩ := hp.windows j d hj hd
        rw [hafter, Option.isSome_map]
        exact (Backing.loads_of_isMapped hmapped hw).2.2
      · have hsame := hothers id _ hv hpage
        rw [hsame.framed?] at hframed
        rw [hsame.descriptor?]
        exact hp.backed j hj hframed
  sole o v e w he hmapped hw hfile := by
    rcases h.descriptor_of (hq.descriptors.upage o v e he).1 he with
      ⟨d, hd, hwindow, hm⟩ | ⟨_, _, hnone, _⟩
    · exact hp.sole o v d w hd (hm ▸ hmapped) (hwindow ▸ hw) hfile
    · rw [hnone] at hw
      cases hw

theorem Alters.maps {c : Change} (h : Alters p c q) (hq : q.Agrees g)
    (hp : p.Maps id source base length) (hc : c.Respects id source base length) :
    q.Maps id source base length where
  aligned := hp.aligned
  windows j e hj he := by
    have hcreates := hc.1 _ (mem_pageRange_of_lt hj)
    rcases h.descriptor_of (hp.aligned_page j) he with
      hd | ⟨rfl, hu⟩ | ⟨src, b, l, i, rfl, hi, hu, _⟩
    · exact hp.windows j e hj hd
    · exact absurd ⟨rfl, hu⟩ hcreates
    · exact absurd ⟨rfl, mem_pageRange.mpr ⟨i, hi, hu⟩⟩ hcreates
  backed j hj hframed := by
    have hv := hp.aligned_page j
    have hcreates := hc.1 _ (mem_pageRange_of_lt hj)
    have hsame : SamePage p q id (base + j * pageSize) →
        (q.descriptor? id (base + j * pageSize)).isSome = true := fun hsame => by
      rw [hsame.framed?] at hframed
      rw [hsame.descriptor?]
      exact hp.backed j hj hframed
    cases h with
    | grown hothers => exact hsame (hothers id _ hv hcreates)
    | @stored o u _ _ page _ hothers _ _ hpage hafter =>
      by_cases hours : id = o ∧ base + j * pageSize = u
      · obtain ⟨rfl, rfl⟩ := hours
        rw [hafter]
        exact hp.backed j hj (Option.isSome_of_mem hpage)
      · exact hsame (hothers id _ hv hours)
    | @dirtied o u _ _ hothers hafter hkept =>
      by_cases hours : id = o ∧ base + j * pageSize = pageBase u
      · obtain ⟨rfl, hu⟩ := hours
        rw [hu, hkept, ← hu] at hframed
        rw [hu, hafter, ← hu]
        exact hp.backed j hj hframed
      · exact hsame (hothers id _ hv hours)
    | described hothers => exact hsame (hothers id _ hv hcreates)
    | mapped hothers => exact hsame (hothers id _ hv hcreates)
    | unlisted hpages => exact hsame (hpages id _ hv)
    | @dropped o u _ _ hothers _ _ _ _ _ hgone =>
      by_cases hours : id = o ∧ base + j * pageSize = u
      · obtain ⟨rfl, rfl⟩ := hours
        rw [hgone] at hframed
        cases hframed
      · exact hsame (hothers id _ hv hours)
    | closed hpages => exact hsame (hpages id _ hv)
    | @vacated o _ hothers _ hgone =>
      by_cases ho : id = o
      · rw [ho, (hgone _).2] at hframed
        cases hframed
      · exact hsame (hothers id _ hv ho)
    | rewritten hpages => exact hsame (hpages id _ hv)
  sole o v e w he hmapped hw hfile := by
    rcases h.descriptor_of (hq.descriptors.upage o v e he).1 he with
      hd | ⟨rfl, _⟩ | ⟨src, b, l, i, rfl, _, _, rfl⟩
    · exact hp.sole o v e w hd hmapped hw hfile
    · cases h with
      | described _ _ hb =>
        rw [hb] at hmapped
        cases hmapped
    · cases hw
      exact absurd hfile hc.2

end Mapping

/-- A page is in its frame, or not, as it was, and has the dirty flag that it had. -/
def Pager.Alike (p q : Pager n) (o : SpaceId) (v : Nat) : Prop :=
  q.framed? o v = p.framed? o v ∧ q.has .dirty o v = p.has .dirty o v

/-- A file holds what it held, and falls short of it as it did. -/
def Pager.KeepsFile (p q : Pager n) (k : Nat) : Prop :=
  (q.file k).contents = (p.file k).contents ∧ (q.file k).medium? = (p.file k).medium?

/-- Changes store no byte in the first `count` pages from `base` on. -/
def Idle (id : SpaceId) (base count : Nat) (cs : List Change) : Prop :=
  ∀ j b, j < count → b < pageSize → ∀ b? : Option UInt8,
    cs.foldl (Change.byteAfter id (base + j * pageSize + b)) b? = b?

/-- What a move with the changes `cs` does to the pages of a mapping and to its file. -/
inductive Touch (p : Pager n) (id : SpaceId) (source : FileRef) (base length : Nat) :
    List Change → Pager n → Prop where
  | kept {cs : List Change} {q : Pager n}
      (hpages : ∀ j, j < pagesFor length → Alike p q id (base + j * pageSize))
      (hfile : KeepsFile p q source.file) (hidle : Idle id base (pagesFor length) cs) :
      Touch p id source base length cs q
  /-- A page was loaded from the file. -/
  | loaded {cs : List Change} {q : Pager n} {j : Nat} (hj : j < pagesFor length)
      (hothers : ∀ i, i < pagesFor length → i ≠ j → Alike p q id (base + i * pageSize))
      (hclean : p.has .dirty id (base + j * pageSize) = false)
      (hframed : q.framed? id (base + j * pageSize)
        = some ((mappingWindow source length j).view (p.file source.file)))
      (hdirty : q.has .dirty id (base + j * pageSize) = false)
      (hfile : KeepsFile p q source.file) (hidle : Idle id base (pagesFor length) cs) :
      Touch p id source base length cs q
  /-- A page that was not dirty left its frame, if it was in one. -/
  | left {cs : List Change} {q : Pager n} {j : Nat} (hj : j < pagesFor length)
      (hothers : ∀ i, i < pagesFor length → i ≠ j → Alike p q id (base + i * pageSize))
      (hclean : p.has .dirty id (base + j * pageSize) = false)
      (hgone : q.framed? id (base + j * pageSize) = none)
      (hdirty : q.has .dirty id (base + j * pageSize) = false)
      (hfile : KeepsFile p q source.file) (hidle : Idle id base (pagesFor length) cs) :
      Touch p id source base length cs q
  /-- A dirty page left its frame and was written to the file. -/
  | saved {cs : List Change} {q : Pager n} {j : Nat} {page : Page} (hj : j < pagesFor length)
      (hothers : ∀ i, i < pagesFor length → i ≠ j → Alike p q id (base + i * pageSize))
      (hwas : p.has .dirty id (base + j * pageSize) = true)
      (hpage : p.framed? id (base + j * pageSize) = some page)
      (hgone : q.framed? id (base + j * pageSize) = none)
      (hdirty : q.has .dirty id (base + j * pageSize) = false)
      (hfile : p.SavedTo (mappingWindow source length j) page q)
      (hidle : Idle id base (pagesFor length) cs) : Touch p id source base length cs q
  /-- Bytes were stored in a page. -/
  | stored {q : Pager n} {j start : Nat} {bytes : Bytes} {page : Page} (hj : j < pagesFor length)
      (hothers : ∀ i, i < pagesFor length → i ≠ j → Alike p q id (base + i * pageSize))
      (hfits : start + bytes.length ≤ pageSize)
      (hpage : p.framed? id (base + j * pageSize) = some page)
      (hframed : q.framed? id (base + j * pageSize) = some (page.overwrite start bytes))
      (hdirty : q.has .dirty id (base + j * pageSize) = true)
      (hfile : KeepsFile p q source.file) :
      Touch p id source base length [.stored id (base + j * pageSize) start bytes] q
  /-- A page was marked dirty, if it is in a frame. -/
  | dirtied {q : Pager n} {j upage : Nat} (hj : j < pagesFor length)
      (hupage : pageBase upage = base + j * pageSize)
      (hothers : ∀ i, i < pagesFor length → i ≠ j → Alike p q id (base + i * pageSize))
      (hframed : q.framed? id (base + j * pageSize) = p.framed? id (base + j * pageSize))
      (hdirty : p.has .dirty id (base + j * pageSize) = true →
        q.has .dirty id (base + j * pageSize) = true)
      (hfile : KeepsFile p q source.file) :
      Touch p id source base length [.dirtied id upage true] q

section Mapping

variable {S : Array OpenFile → Prop} {p q : Pager n} {f g : Option (Fin n)} {id : SpaceId}
  {source : FileRef} {base length : Nat}

theorem Pager.SamePage.alike {o : SpaceId} {v : Nat} (h : SamePage p q o v) : Alike p q o v :=
  ⟨h.framed?, h.dirty⟩

theorem Pager.KeepsFile.of_eq {k : Nat} (h : q.file k = p.file k) : KeepsFile p q k := by
  unfold KeepsFile
  rw [h]
  exact ⟨rfl, rfl⟩

theorem Pager.KeepsFile.of_files {k : Nat} (h : q.files = p.files) : KeepsFile p q k :=
  .of_eq (by rw [file, h, file])

theorem Idle.nil {count : Nat} : Idle id base count [] := fun _ _ _ _ _ => rfl

/-- A page is one of the mapping, with its number, or none of them. -/
theorem isPage_or_not (id : SpaceId) (base length : Nat) (o : SpaceId) (v : Nat) :
    (∃ j, j < pagesFor length ∧ o = id ∧ v = base + j * pageSize)
      ∨ ∀ j, j < pagesFor length → ¬(id = o ∧ base + j * pageSize = v) := by
  by_cases h : ∃ j, j < pagesFor length ∧ o = id ∧ v = base + j * pageSize
  · exact Or.inl h
  · exact Or.inr fun j hj hc => h ⟨j, hj, hc.1.symm, hc.2.symm⟩

theorem Shift.touch (h : Shift S p q) (hp : p.Agrees f) (hq : q.Agrees g)
    (hmaps : p.Maps id source base length) : Touch p id source base length [] q := by
  cases h with
  | still hpages hfiles =>
    exact .kept (fun j _ => (hpages id _ (hmaps.aligned_page j)).alike) (.of_files hfiles) .nil
  | @evicted o v d b page hothers _ hpage hd hkeeps hgone _ =>
    have hfiles := hkeeps.files
    rcases isPage_or_not id base length o v with ⟨j, hj, rfl, rfl⟩ | hnot
    · have hrest : ∀ i, i < pagesFor length → i ≠ j → Alike p q o (base + i * pageSize) :=
        fun i _ hij => (hothers o _ (hmaps.aligned_page i) fun hc => page_ne hij hc.2).alike
      -- the victim is of the mapping: clean it is dropped, dirty it is written to the file
      have hdirty := hq.frames.has_of_not_framed? hgone .dirty
      obtain ⟨hmapped, hw⟩ : d.backing.isMapped = true
          ∧ d.backing.window? = some (mappingWindow source length j) := by
        rcases hd with hd | ⟨hnone, _⟩
        · exact hmaps.windows j d hj hd
        · have hsome := hmaps.backed j hj (Option.isSome_of_mem hpage)
          rw [hnone] at hsome
          cases hsome
      rcases hfiles with ⟨hsame, hclean⟩ | ⟨hwas, _, w, hw', hsaved⟩
      · exact .left hj hrest (hclean hmapped) hgone hdirty (.of_files hsame) .nil
      · cases hw.symm.trans hw'
        exact .saved hj hrest hwas hpage hgone hdirty (savedTo_of_modify hsaved) .nil
    · refine .kept (fun j hj => (hothers id _ (hmaps.aligned_page j) (hnot j hj)).alike) ?_ .nil
      rcases hfiles with ⟨hsame, _⟩ | ⟨_, hmapped, w, hw, hsaved⟩
      · exact .of_files hsame
      -- the victim was saved to a file, which is another one: this file has no other mapping
      · refine .of_eq (file_of_saved_elsewhere hsaved ?_)
        intro hfile
        rcases hd with hd | ⟨_, hb⟩
        · obtain ⟨rfl, hv⟩ := hmaps.sole o v d w hd hmapped hw hfile
          obtain ⟨j, hj, rfl⟩ := mem_pageRange.mp hv
          exact hnot j hj ⟨rfl, rfl⟩
        · rw [hb] at hmapped
          cases hmapped
  | @loaded o v d page hothers _ hgone hd hparked _ hfiles hframed hdirty _ =>
    rcases isPage_or_not id base length o v with ⟨j, hj, rfl, rfl⟩ | hnot
    · obtain ⟨hmapped, hw⟩ := hmaps.windows j d hj hd
      obtain ⟨hsource, hclean, _⟩ := Backing.loads_of_isMapped hmapped hw
      unfold parked? at hparked
      rw [hsource] at hparked
      cases hparked
      exact .loaded hj (fun i _ hij =>
        (hothers o _ (hmaps.aligned_page i) fun hc => page_ne hij hc.2).alike)
        (hp.frames.has_of_not_framed? hgone .dirty) hframed (hdirty.trans hclean)
        (.of_files hfiles) .nil
    · exact .kept (fun j hj => (hothers id _ (hmaps.aligned_page j) (hnot j hj)).alike)
        (.of_files hfiles) .nil

/-- The process of a mapping ends only when no page of the mapping is in a frame any more. -/
theorem Alters.touch {c : Change} (h : Alters p c q) (hp : p.Agrees f) (hq : q.Agrees g)
    (hmaps : p.Maps id source base length) (hc : c.Respects id source base length)
    (hvacated : c = .vacated id →
      ∀ j, j < pagesFor length → p.framed? id (base + j * pageSize) = none) :
    Touch p id source base length [c] q := by
  have hv := hmaps.aligned_page
  have hcreates : ∀ j, j < pagesFor length → ¬ c.Creates id (base + j * pageSize) :=
    fun j hj => hc.1 _ (mem_pageRange_of_lt hj)
  have hrest : ∀ {o j}, o = id → (∀ o' v', PageAligned v' → ¬(o' = o ∧ v' = base + j * pageSize) →
      SamePage p q o' v') → ∀ i, i < pagesFor length → i ≠ j → Alike p q id (base + i * pageSize) :=
    fun _ hothers i _ hij => (hothers id _ (hv i) fun hc => page_ne hij hc.2).alike
  cases h with
  | grown hothers _ _ _ _ hfiles =>
    exact .kept (fun j hj => (hothers id _ (hv j) (hcreates j hj)).alike) (.of_files hfiles)
      fun _ _ _ _ _ => rfl
  | @stored o u start bytes page _ hothers haligned hfits hpage _ hframed hdirty hfiles =>
    rcases isPage_or_not id base length o u with ⟨j, hj, rfl, rfl⟩ | hnot
    · exact .stored hj (hrest rfl hothers) hfits hpage hframed hdirty (.of_files hfiles)
    · exact .kept (fun j hj => (hothers id _ (hv j) (hnot j hj)).alike) (.of_files hfiles)
        fun j b hj hb => Change.byteAfter_of_other_page haligned (hv j) hfits (hnot j hj) hb
  | @dirtied o u value _ hothers _ hframed hdirty hfiles =>
    -- of the marks only setting the bit respects the mapping
    have hset : value = true := hc.2
    subst hset
    rcases isPage_or_not id base length o (pageBase u) with ⟨j, hj, rfl, hu⟩ | hnot
    · rw [hu] at hothers hframed hdirty
      refine .dirtied hj hu (hrest rfl hothers) hframed ?_ (.of_files hfiles)
      intro hwas
      rw [hdirty, Bool.true_and]
      cases hp' : p.framed? o (base + j * pageSize) with
      | none =>
        rw [hp.frames.has_of_not_framed? hp'] at hwas
        cases hwas
      | some page => rfl
    · exact .kept (fun j hj => (hothers id _ (hv j) (hnot j hj)).alike) (.of_files hfiles)
        fun _ _ _ _ _ => rfl
  | described hothers _ _ _ _ _ hfiles =>
    exact .kept (fun j hj => (hothers id _ (hv j) (hcreates j hj)).alike) (.of_files hfiles)
      fun _ _ _ _ _ => rfl
  | mapped hothers _ _ _ _ hcontents =>
    exact .kept (fun j hj => (hothers id _ (hv j) (hcreates j hj)).alike) (hcontents source.file)
      fun _ _ _ _ _ => rfl
  | unlisted hpages hfiles =>
    exact .kept (fun j _ => (hpages id _ (hv j)).alike) (.of_files hfiles) fun _ _ _ _ _ => rfl
  | @dropped o u d _ hothers _ hd hmapped _ _ hgone hfiles =>
    rcases isPage_or_not id base length o u with ⟨j, hj, rfl, rfl⟩ | hnot
    · have hdirty := hq.frames.has_of_not_framed? hgone .dirty
      rcases hfiles with ⟨hnone, hfiles⟩ | ⟨w, page, hb, hpage, hfiles⟩
      · exact .left hj (hrest rfl hothers) (hp.frames.has_of_not_framed? hnone .dirty) hgone hdirty
          (.of_files hfiles) fun _ _ _ _ _ => rfl
      · have hw := (hmaps.windows j d hj hd).2
        rw [hb] at hw
        cases hw
        unfold filesAfter at hfiles
        split at hfiles
        next hwas =>
          exact .saved hj (hrest rfl hothers) hwas hpage hgone hdirty (savedTo_of_modify hfiles)
            fun _ _ _ _ _ => rfl
        next hclean =>
          exact .left hj (hrest rfl hothers) (by simpa using hclean) hgone hdirty (.of_files hfiles)
            fun _ _ _ _ _ => rfl
    · refine .kept (fun j hj => (hothers id _ (hv j) (hnot j hj)).alike) ?_ fun _ _ _ _ _ => rfl
      rcases hfiles with ⟨_, hfiles⟩ | ⟨w, page, hb, _, hfiles⟩
      · exact .of_files hfiles
      · unfold filesAfter at hfiles
        split at hfiles
        next =>
          refine .of_eq (file_of_saved_elsewhere hfiles ?_)
          intro hfile
          obtain ⟨rfl, hu⟩ := hmaps.sole o u d w hd hmapped (by rw [hb]; rfl) hfile
          obtain ⟨j, hj, rfl⟩ := mem_pageRange.mp hu
          exact hnot j hj ⟨rfl, rfl⟩
        next => exact .of_files hfiles
  | closed hpages hcontents =>
    exact .kept (fun j _ => (hpages id _ (hv j)).alike) (hcontents source.file) fun _ _ _ _ _ => rfl
  | @vacated o _ hothers _ hgone hfiles =>
    refine .kept ?_ (.of_files hfiles) fun _ _ _ _ _ => rfl
    intro j hj
    by_cases ho : id = o
    · subst ho
      -- the space ends with its mappings gone, so no page of the mapping is in a frame
      have hwas := hvacated rfl j hj
      have hnone := (hgone (base + j * pageSize)).2
      refine ⟨hnone.trans hwas.symm, ?_⟩
      rw [hq.frames.has_of_not_framed? hnone, hp.frames.has_of_not_framed? hwas]
    · exact (hothers id _ (hv j) ho).alike
  | rewritten hpages hfiles =>
    exact .kept (fun j _ => (hpages id _ (hv j)).alike) (.of_eq (hfiles _ hc.2.symm))
      fun _ _ _ _ _ => rfl

end Mapping

end DemandPaging

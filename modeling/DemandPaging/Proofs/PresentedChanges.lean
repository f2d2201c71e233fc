import DemandPaging.Proofs.PresentedMoves
/-!
# Changes and the memory that is presented

A visible move changes the memory that the pager presents to a process as its label says, if it
is made for this process, and not at all if it is made for another one (`Change.onMemory`,
`Alters.presents`). Mapping a file is the one change that has more to ask: no page of the process
may show the file already (`Presents.mapped`).
-/

namespace DemandPaging

open Pager

variable {n : Nat}

/-- What a change does to the memory of a process. -/
def Change.onMemory (b : SpaceId) (M : Memory) : Change → Memory
  | .grown id upage => if id = b then M.setPage upage (some (.own (.ok .zero) true)) else M
  | .stored id upage start bytes => if id = b then M.store upage start bytes else M
  | .described id d => if id = b then M.describe d else M
  | .mapped id fm => if id = b then M.addRegion fm.region else M
  | .unlisted id m => if id = b then M.unlist m else M
  | .dropped id upage => if id = b then M.setPage upage none else M
  | _ => M

section Own

variable (b : SpaceId) (M : Memory)

@[simp] theorem Change.onMemory_grown (u : Nat) :
    (Change.grown b u).onMemory b M = M.setPage u (some (.own (.ok .zero) true)) := if_pos rfl

@[simp] theorem Change.onMemory_stored (u start : Nat) (bytes : Bytes) :
    (Change.stored b u start bytes).onMemory b M = M.store u start bytes := if_pos rfl

@[simp] theorem Change.onMemory_described (d : Descriptor) :
    (Change.described b d).onMemory b M = M.describe d := if_pos rfl

@[simp] theorem Change.onMemory_mapped (fm : FileMapping) :
    (Change.mapped b fm).onMemory b M = M.addRegion fm.region := if_pos rfl

@[simp] theorem Change.onMemory_unlisted (m : Nat) :
    (Change.unlisted b m).onMemory b M = M.unlist m := if_pos rfl

@[simp] theorem Change.onMemory_dropped (u : Nat) :
    (Change.dropped b u).onMemory b M = M.setPage u none := if_pos rfl

end Own

/-- What is asked of a change: the process itself clears no dirty flag and does not end, its
segments are of files that it uses for them, and nobody else maps or changes a file that it
uses. -/
def Change.Suits (U : FileUse) (b : SpaceId) : Change → Prop
  | .dirtied id _ _ => id ≠ b
  | .described id d => id = b → ∀ w, d.backing.window? = some w → U.segment w.source.file
  | .mapped id fm => id ≠ b ∧ ¬ U.own fm.source.file
  | .vacated id => id ≠ b
  | .rewritten k => ¬ U.own k
  | _ => True

variable {p q : Pager n} {U : FileUse} {b : SpaceId} {M : Memory} {v : Nat} {d : Descriptor}
  {page : Page}

/-- Nobody else maps a file that the process uses. -/
theorem Alters.others {c : Change} (h : Alters p c q) (hp : p.Presents U b M)
    (hc : ∀ id fm, c = .mapped id fm → id = b ∨ ¬ U.own fm.source.file) : q.OthersApart U b := by
  intro o v d w ho hv hd hm hw
  rcases h.descriptor_of hv hd with he | ⟨rfl, rfl⟩ | ⟨source, base, length, i, rfl, _, rfl, rfl⟩
  · exact hp.others o v d w ho hv he hm hw
  · cases h with
    | described _ _ hb =>
      rw [hb] at hm
      cases hm
  · cases hw
    exact (hc _ _ rfl).resolve_left ho

namespace Pager.Presents

theorem pages_eq_none (hp : p.Presents U b M) (hv : PageAligned v)
    (hd : p.descriptor? b v = none) (hf : p.framed? b v = none) : M.pages v = none := by
  rw [← Memory.look_eq_none_iff, ← (hp.page v hv).seen, seen?_eq_none_iff]
  exact ⟨hf, hd⟩

/-- A page is added where there is none. -/
theorem added (hp : p.Presents U b M) (hv : PageAligned v) (hd : p.descriptor? b v = none)
    (hf : p.framed? b v = none) {contents : Except PagingError Page} {writable : Bool}
    (hsame : ∀ u, PageAligned u → u ≠ v → SamePage p q b u) (hfiles : q.files = p.files)
    (hpage : q.PresentsPage U b (M.setPage v (some (.own contents writable))) v)
    (hothers : q.OthersApart U b) :
    q.Presents U b (M.setPage v (some (.own contents writable))) := by
  have hnone := hp.pages_eq_none hv hd hf
  have hkeeps := hp.keepsFiles_of_eq hfiles
  refine hp.of_page (hp.sound.setPage v (by simp)) hsame (hkeeps.writesBack M v .zero)
    (fun u hu => Memory.look_setPage_of_ne hu _) (fun u k offset hu h => (if_neg hu).trans h) hpage
    (fun k hk => ?_) hothers
  refine (hp.file_of_writesBack (hkeeps.writesBack M v .zero) hk).of_shows rfl ?_
  intro u offset hu
  refine (if_neg ?_).trans hu
  intro huv
  rw [huv, hnone] at hu
  cases hu

theorem grown (hp : p.Presents U b M) (hv : PageAligned v) (hd : p.descriptor? b v = none)
    (hf : p.framed? b v = none)
    (hsame : ∀ u, PageAligned u → u ≠ v → SamePage p q b u) (hfiles : q.files = p.files)
    (hafter : q.descriptor? b v = none) (hframed : q.framed? b v = some .zero)
    (hwritable : q.has .writable b v = true)
    (hothers : q.OthersApart U b) :
    q.Presents U b (M.setPage v (some (.own (.ok .zero) true))) := by
  refine hp.added hv hd hf hsame hfiles (.of_undescribed hafter ?_) hothers
  rw [seen?_of_framed? hframed, hwritable, Memory.look_setPage_own]

theorem described {w : FileWindow} (hp : p.Presents U b M) (hv : PageAligned d.upage)
    (hb : d.backing = .privateFile w) (hsegment : U.segment w.source.file)
    (hd : p.descriptor? b d.upage = none) (hf : p.framed? b d.upage = none)
    (hsame : ∀ u, PageAligned u → u ≠ d.upage → SamePage p q b u) (hfiles : q.files = p.files)
    (hafter : q.descriptor? b d.upage = some d) (hgone : q.framed? b d.upage = none)
    (hothers : q.OthersApart U b) :
    q.Presents U b (M.describe d) := by
  have hw : d.backing.window? = some w := by rw [hb]; rfl
  have heq : M.describe d
      = M.setPage d.upage (some (.own (w.contents (M.files w.source.file)) d.writable)) := by
    unfold Memory.describe
    rw [hw]
  rw [heq]
  refine hp.added hv hd hf hsame hfiles (.of_unframed hgone ?_ ?_ ?_) hothers
  · rw [seen?_of_not_framed? hgone, hafter, Option.map_some, Memory.look_setPage_own, hb,
      ← hp.data_segment hsegment]
    refine congrArg some (Prod.ext ?_ (Bool.or_false _))
    show w.contents (q.file w.source.file).data = _
    rw [Pager.file, hfiles, Pager.file]
  · intro e w' he _ hm
    cases hafter.symm.trans he
    rw [hb] at hm
    cases hm
  · intro e w' he hw' _
    cases hafter.symm.trans he
    cases hw.symm.trans hw'
    exact hsegment

/-- Which mappings are listed is not told by the pages. -/
theorem unlist (hp : p.Presents U b M) (m : Nat) : p.Presents U b (M.unlist m) where
  sound := hp.sound.unlist m
  page v hv := ⟨(hp.page v hv).seen, (hp.page v hv).writable, (hp.page v hv).clean,
    (hp.page v hv).mapped, (hp.page v hv).segment⟩
  file k hk := (hp.file k hk).of_shows rfl fun _ _ hu => hu
  others := hp.others

/-- What was stored in the frame of a page is stored in the page. -/
theorem stored {start : Nat} {bytes : Bytes} (hp : p.Presents U b M) (hv : PageAligned v)
    (hfits : start + bytes.length ≤ pageSize) (hpage : p.framed? b v = some page)
    (hsame : ∀ u, PageAligned u → u ≠ v → SamePage p q b u) (hfiles : q.files = p.files)
    (hafter : q.descriptor? b v = p.descriptor? b v)
    (hframed : q.framed? b v = some (page.overwrite start bytes))
    (hdirty : q.has .dirty b v = true) (hwritable : q.has .writable b v = p.has .writable b v)
    (hothers : q.OthersApart U b) :
    q.Presents U b (M.store v start bytes) := by
  have hold := hp.page v hv
  have hkeeps := hp.keepsFiles_of_eq hfiles
  have hlook : M.look v = some (.ok page, p.has .writable b v) := by
    rw [← hold.seen, seen?_of_framed? hpage]
  refine hp.of_page (hp.sound.store hfits) hsame (hkeeps.writesBack M v .zero)
    (fun u hu => hp.sound.look_store_of_ne hfits hu)
    (fun u k offset _ hu => (Memory.shows_store_iff ..).mpr hu) ?_ ?_ hothers
  · refine ⟨?_, ?_, ?_, ?_, ?_⟩
    · rw [seen?_of_framed? hframed, hp.sound.look_store_self hfits hlook, hwritable]
    · intro e he _
      rw [hafter] at he
      rw [hwritable, hold.writable he (by rw [hpage]; rfl)]
    · intro e w page' _ _ _ hclean
      rw [hdirty] at hclean
      cases hclean
    · intro e w he hw hm
      rw [hafter] at he
      obtain ⟨hread, hshows⟩ := hold.mapped he hw hm
      exact ⟨hread, (Memory.shows_store_iff ..).mpr hshows⟩
    · intro e w he hw hm
      rw [hafter] at he
      exact hold.segment he hw hm
  · intro k hk
    have hfile := hp.file_of_writesBack (hkeeps.writesBack M v .zero) hk
    obtain ⟨hlength, hdata⟩ := hp.sound.files_store (v := v) hfits k
    refine ⟨hfile.isPlain, hfile.length.trans hlength.symm, ?_⟩
    intro i hi
    have hout : ∀ u offset, M.pages u = some (.shows k offset) →
        ¬(offset ≤ i ∧ i < offset + pageSize) := fun u offset hu =>
      hi u offset ((Memory.shows_store_iff ..).mpr hu)
    rw [hfile.data i hout, hdata i (hout v)]

/-- Once a page of a mapping has given up its frame, its window shows what the page did. -/
theorem contents_dropped {w : FileWindow} (hp : p.Presents U b M) (hv : PageAligned v)
    (hd : p.descriptor? b v = some d) (hm : d.backing.isMapped = true)
    (hw : d.backing.window? = some w)
    (hfiles : p.framed? b v = none ∧ q.files = p.files
      ∨ ∃ w page, d.backing = .mappedFile w ∧ p.framed? b v = some page
          ∧ q.files = p.filesAfter (p.has .dirty b v) w page) :
    ∃ page, WritesBack p q U M v page ∧ w.contents (q.file w.source.file).data
      = .ok (Bytes.pageAt (M.files w.source.file) w.offset) := by
  have hold := hp.page v hv
  obtain ⟨hread, hshows⟩ := hold.mapped hd hw hm
  have hseen := hp.seen_mapped hv hd hw hm
  rcases hfiles with ⟨hf, hfiles⟩ | ⟨w', page, hb, hf, hfiles⟩
  · refine ⟨.zero, (hp.keepsFiles_of_eq hfiles).writesBack M v .zero, ?_⟩
    rw [seen?_of_not_framed? hf, hd, Option.map_some] at hseen
    have hloads := congrArg Prod.fst (Option.some.inj hseen)
    simp only [Backing.loads, (Backing.loads_of_isMapped hm hw).1] at hloads
    rw [Pager.file, hfiles, hloads]
  · have hw' : d.backing.window? = some w' := by rw [hb]; rfl
    cases hw.symm.trans hw'
    rw [seen?_of_framed? hf] at hseen
    have heq : page = Bytes.pageAt (M.files w.source.file) w.offset :=
      Except.ok.inj (congrArg Prod.fst (Option.some.inj hseen))
    rw [← heq]
    unfold filesAfter at hfiles
    split at hfiles
    next => exact ⟨page, .of_save hp hshows hfiles, hp.contents_written hshows hread hfiles⟩
    next hclean =>
      refine ⟨page, (hp.keepsFiles_of_eq hfiles).writesBack M v page, ?_⟩
      rw [Pager.file, hfiles]
      exact hold.clean hd hw hf (Bool.eq_false_iff.mpr hclean)

/-- A page of a mapping is gone, and what was in its frame is in the file. -/
theorem dropped (hp : p.Presents U b M) (hv : PageAligned v) (hd : p.descriptor? b v = some d)
    (hm : d.backing.isMapped = true)
    (hsame : ∀ u, PageAligned u → u ≠ v → SamePage p q b u)
    (hafter : q.descriptor? b v = none) (hgone : q.framed? b v = none)
    (hfiles : p.framed? b v = none ∧ q.files = p.files
      ∨ ∃ w page, d.backing = .mappedFile w ∧ p.framed? b v = some page
          ∧ q.files = p.filesAfter (p.has .dirty b v) w page)
    (hothers : q.OthersApart U b) :
    q.Presents U b (M.setPage v none) := by
  obtain ⟨w, hw⟩ : ∃ w, d.backing.window? = some w := by
    cases hb : d.backing with
    | mappedFile w | mappedParked w slot => exact ⟨w, rfl⟩
    | anonymous | swapped slot | privateFile w | privateParked w slot =>
      rw [hb] at hm
      cases hm
  obtain ⟨hread, hshows⟩ := (hp.page v hv).mapped hd hw hm
  obtain ⟨page, hback, hcontents⟩ := hp.contents_dropped hv hd hm hw hfiles
  refine hp.of_page (hp.sound.setPage v (by simp)) hsame hback
    (fun u hu => Memory.look_setPage_of_ne hu _) (fun u k offset hu h => (if_neg hu).trans h)
    (.of_undescribed hafter ?_) ?_ hothers
  · rw [seen?_eq_none_iff.mpr ⟨hgone, hafter⟩]
    exact (Memory.look_eq_none_iff.mpr (if_pos rfl)).symm
  · intro k hk
    have hfile := hp.file_of_writesBack hback hk
    refine ⟨hfile.isPlain, hfile.length, ?_⟩
    intro i hi
    by_cases hin : k = w.source.file ∧ w.offset ≤ i ∧ i < w.offset + pageSize
    · obtain ⟨rfl, hlow, hhigh⟩ := hin
      have hwithin := hp.sound.within hshows
      have hlength := hfile.length
      rw [FileWindow.contents_of_whole hread (by omega)] at hcontents
      exact Bytes.getElem?_of_pageAt_eq (Except.ok.inj hcontents) (by omega) hwithin hlow hhigh
    · refine hfile.data i ?_
      intro u offset hu
      by_cases huv : u = v
      · rw [huv, hshows] at hu
        cases hu
        exact fun hc => hin ⟨rfl, hc⟩
      · exact hi u offset ((if_neg huv).trans hu)

/-- A page of a file that was just mapped shows the file from where the page lies in it. -/
theorem page_mapped {index base handle i : Nat} (hdata : (q.file index).data = M.files index)
    (hle : i * pageSize + pageSize ≤ (M.files index).length)
    (hd : q.descriptor? b (base + i * pageSize)
      = some (mappingPage ⟨index, handle⟩ base (M.files index).length i))
    (hgone : q.framed? b (base + i * pageSize) = none)
    (hpage : M.pages (base + i * pageSize) = some (.shows index (i * pageSize))) :
    q.PresentsPage U b M (base + i * pageSize) := by
  have hread : (mappingWindow ⟨index, handle⟩ (M.files index).length i).readBytes = pageSize := by
    unfold mappingWindow
    simp only
    omega
  have hloads : (mappingWindow ⟨index, handle⟩ (M.files index).length i).contents
      (q.file index).data = .ok (Bytes.pageAt (M.files index) (i * pageSize)) := by
    rw [hdata]
    exact FileWindow.contents_of_whole hread hle
  refine .of_unframed hgone ?_ ?_ ?_
  · rw [seen?_of_not_framed? hgone, hd, Memory.look_of_shows hpage]
    exact congrArg some (Prod.ext hloads rfl)
  · intro e w he hw _
    cases hd.symm.trans he
    cases hw
    exact ⟨hread, hpage⟩
  · intro e w he _ hm
    cases hd.symm.trans he
    cases hm

/-- A file that consists of whole pages is mapped where no page is, if none shows it yet. -/
theorem mapped {index base handle : Nat} (hp : p.Presents U b M) (hmapped : U.mapped index)
    (hfresh : ∀ v offset, M.pages v ≠ some (.shows index offset))
    (hfault : mappingFault? (p.file index) base = none)
    (hvacant : ∀ i, i < pagesFor (p.file index).length →
      p.descriptor? b (base + i * pageSize) = none ∧ p.framed? b (base + i * pageSize) = none)
    (hsame : ∀ u, PageAligned u → u ∉ pageRange base (pagesFor (p.file index).length) →
      SamePage p q b u)
    (hafter : ∀ i, i < pagesFor (p.file index).length →
      q.descriptor? b (base + i * pageSize)
          = some (mappingPage ⟨index, handle⟩ base (p.file index).length i)
        ∧ q.framed? b (base + i * pageSize) = none)
    (hcontents : SameContents p q) (hothers : q.OthersApart U b) :
    q.Presents U b (M.addRegion ⟨index, base, pagesFor (p.file index).length⟩) := by
  have haligned := (of_mappingFault?_eq_none hfault).1
  have hkeeps := hp.keepsFiles_of_sameContents hcontents
  have hown := U.own_of_mapped hmapped
  have hdata := hp.data_eq hown hfresh
  have hlength := (hp.file index hown).length_file
  rw [hlength] at hvacant hsame hafter ⊢
  have hpaged := hp.sound.paged index hmapped
  have hcount : pagesFor (M.files index).length * pageSize = (M.files index).length := by
    simp only [pagesFor, pageSize] at *
    omega
  have hnone : ∀ {u}, u ∈ pageRange base (pagesFor (M.files index).length) → M.pages u = none := by
    intro u hu
    obtain ⟨i, hi, rfl⟩ := mem_pageRange.mp hu
    exact hp.pages_eq_none (haligned.add_mul i) (hvacant i hi).1 (hvacant i hi).2
  have hshows : ∀ {u k offset}, M.pages u = some (.shows k offset) →
      (M.addRegion ⟨index, base, pagesFor (M.files index).length⟩).pages u
        = some (.shows k offset) := by
    intro u k offset hu
    refine (if_neg ?_).trans hu
    intro hrange
    rw [hnone hrange] at hu
    cases hu
  refine ⟨hp.sound.addRegion hmapped (Nat.le_of_eq hcount) hfresh, ?_, ?_, hothers⟩
  · intro v hv
    by_cases hrange : v ∈ pageRange base (pagesFor (M.files index).length)
    · have hpage : (M.addRegion ⟨index, base, pagesFor (M.files index).length⟩).pages v
          = some (.shows index (v - base)) := if_pos hrange
      obtain ⟨i, hi, rfl⟩ := mem_pageRange.mp hrange
      rw [Nat.add_sub_cancel_left] at hpage
      obtain ⟨hd, hgone⟩ := hafter i hi
      have hle := mul_add_pageSize_le hi
      rw [hcount] at hle
      exact page_mapped ((hkeeps index hown).2.trans hdata) hle hd hgone hpage
    · refine (hp.page v hv).of_samePage (hsame v hv hrange) ?_ ?_ hshows
      · intro d w hd hw
        rw [(hkeeps _ (hp.own hv hd hw)).2]
      · exact Memory.look_congr (if_neg hrange) fun _ _ _ => rfl
  · intro k hk
    exact (hp.file_of_writesBack (hkeeps.writesBack M 0 .zero) hk).of_shows rfl fun _ _ => hshows

end Pager.Presents

/-- A change is seen by its process as its label says, and by no other one. -/
theorem Alters.presents {c : Change} (h : Alters p c q) (hc : c.Suits U b)
    (hp : p.Presents U b M) : q.Presents U b (c.onMemory b M) := by
  have hothers : q.OthersApart U b := h.others hp fun id fm heq => by
    rw [heq] at hc
    exact Or.inr hc.2
  -- what is done for another process leaves the pages and files of this one alone
  have hapart : (∀ v, PageAligned v → SamePage p q b v) → KeepsFiles p q U →
      q.Presents U b M := fun hpages hfiles => hp.of_apart hpages hfiles hothers
  cases h with
  | @grown id u _ hsame haligned hvacant hafter hframed hfiles hwritable =>
    show q.Presents U b (if id = b then _ else M)
    split
    next hid =>
      subst hid
      exact hp.grown haligned hvacant.1 hvacant.2 (fun v hv hne => hsame id v hv fun hc => hne hc.2)
        hfiles hafter hframed hwritable hothers
    next hid =>
      exact hapart (fun v hv => hsame b v hv fun hc => hid hc.1.symm) (hp.keepsFiles_of_eq hfiles)
  | @stored id u start bytes page _ hsame haligned hfits hpage hafter hframed hdirty hfiles
      hwritable =>
    show q.Presents U b (if id = b then _ else M)
    split
    next hid =>
      subst hid
      exact hp.stored haligned hfits hpage (fun v hv hne => hsame id v hv fun hc => hne hc.2) hfiles
        hafter hframed hdirty hwritable hothers
    next hid =>
      exact hapart (fun v hv => hsame b v hv fun hc => hid hc.1.symm) (hp.keepsFiles_of_eq hfiles)
  | @dirtied id u value _ hsame _ _ _ hfiles =>
    exact hapart (fun v hv => hsame b v hv fun h => hc h.1.symm) (hp.keepsFiles_of_eq hfiles)
  | @described id d w _ hsame haligned hb hvacant hafter hgone hfiles =>
    show q.Presents U b (if id = b then _ else M)
    split
    next hid =>
      subst hid
      exact hp.described haligned hb (hc rfl w (by rw [hb]; rfl)) hvacant.1 hvacant.2
        (fun v hv hne => hsame id v hv fun hc => hne hc.2) hfiles hafter hgone hothers
    next hid =>
      exact hapart (fun v hv => hsame b v hv fun hc => hid hc.1.symm) (hp.keepsFiles_of_eq hfiles)
  | @mapped id index base _ _ hsame _ _ _ _ hcontents =>
    show q.Presents U b (if id = b then _ else M)
    rw [if_neg hc.1]
    exact hapart (fun v hv => hsame b v hv fun h => hc.1 h.1.symm)
      (hp.keepsFiles_of_sameContents hcontents)
  | @unlisted id m _ hpages hfiles =>
    have hsame := hapart (hpages b) (hp.keepsFiles_of_eq hfiles)
    show q.Presents U b (if id = b then _ else M)
    split
    next => exact hsame.unlist m
    next => exact hsame
  | @dropped id u d _ hsame haligned hd hm _ hafter hgone hfiles =>
    show q.Presents U b (if id = b then _ else M)
    split
    next hid =>
      subst hid
      exact hp.dropped haligned hd hm (fun v hv hne => hsame id v hv fun hc => hne hc.2) hafter
        hgone hfiles hothers
    next hid =>
      refine hapart (fun v hv => hsame b v hv fun hc => hid hc.1.symm) ?_
      rcases hfiles with ⟨_, hfiles⟩ | ⟨w, page, hb, _, hfiles⟩
      · exact hp.keepsFiles_of_eq hfiles
      · have hforeign : ¬ U.own w.source.file :=
          hp.others id u d w hid haligned hd hm (by rw [hb]; rfl)
        unfold filesAfter at hfiles
        split at hfiles
        next =>
          exact hp.keepsFiles fun k hk =>
            file_of_saved_elsewhere hfiles fun hc => hforeign (hc ▸ hk)
        next => exact hp.keepsFiles_of_eq hfiles
  | closed hpages hcontents => exact hapart (hpages b) (hp.keepsFiles_of_sameContents hcontents)
  | vacated hsame _ _ hfiles =>
    exact hapart (fun v hv => hsame b v hv fun h => hc h.symm) (hp.keepsFiles_of_eq hfiles)
  | rewritten hpages hfiles =>
    refine hapart (hpages b) (hp.keepsFiles fun k hk => hfiles k ?_)
    intro heq
    exact hc (heq ▸ hk)

end DemandPaging

import DemandPaging.Proofs.PresentedMemory
/-!
# Moves and the memory that is presented

A quiet move leaves the memory that the pager presents to a process as it is
(`Shift.presents`), whether the page that it moves is one of the process or not. A page that is
evicted can be loaded again, from its file or from its slot (`Keeps.loads`), and a page that is
loaded holds what it was seen to hold.
-/

namespace DemandPaging

open Pager

variable {n : Nat}

/-! ## Eviction -/

namespace Keeps

variable {swap swap' : SwapArea} {files files' : Array OpenFile} {page : Page} {b b' : Backing}
  {dirty : Bool}

/-- A page that was evicted can be loaded again. -/
theorem loads (h : Keeps swap files page b dirty b' swap' files') (hfitted : swap.Fitted)
    (hwindow : ∀ w, b.window? = some w → b.isMapped = true ∨ dirty = false →
      w.contents (files'.getD w.source.file default).data = .ok page) :
    b'.loads files' swap' = .ok page := by
  have hslot := (h.pageIn hfitted).1
  cases h with
  | @written w => exact hwindow w rfl (Or.inl rfl)
  | @dropped w => exact hwindow w rfl (Or.inr rfl)
  | @stored _ _ slot _ hb _ =>
    rcases hb with rfl | ⟨w, rfl, _⟩ | ⟨w, rfl, _⟩
    · exact congrArg Except.ok (hslot slot rfl)
    · exact congrArg Except.ok (hslot slot rfl)
    -- a clean page of a mapping is loaded from its file, though it has a slot
    · exact hwindow w rfl (Or.inl rfl)

end Keeps

namespace Backing

variable {files : Array OpenFile} {swap : SwapArea} {b c : Backing} {w : FileWindow}

/-- A page that is clean once it is loaded was loaded from its file. -/
theorem loads_of_clean (hc : b.loaded? = some c) (hw : c.window? = some w)
    (hclean : b.loadsDirty = false) :
    b.loads files swap = w.contents (files.getD w.source.file default).data := by
  cases b with
  | anonymous =>
    cases hc
    cases hw
  | swapped slot => cases hc
  | privateParked w slot => cases hclean
  | privateFile w | mappedFile w | mappedParked w slot =>
    cases hc
    cases hw
    rfl

end Backing

namespace Pager

variable {p q : Pager n} {U : FileUse} {b : SpaceId} {M : Memory} {v : Nat} {d : Descriptor}
  {page : Page}

/-- What a page is loaded with is what comes of loading it. -/
theorem loads_of_parked (hplain : ∀ w, d.backing.window? = some w → (p.file w.source.file).IsPlain)
    (hread : d.backing.Readable p.files) (hpage : p.parked? d.backing = some page) :
    d.backing.loads p.files p.swap = .ok page := by
  unfold parked? at hpage
  unfold Backing.loads
  rcases d.backing.loadSource_eq with hb | ⟨w, hsource, _, hw⟩ | ⟨slot, hsource, _⟩
  · rw [hb] at hpage
    cases hpage
  · rw [hsource] at hpage ⊢
    have hlength : ((p.file w.source.file).read w.offset w.readBytes).length = w.readBytes :=
      hread w hsource
    rw [(hplain w hw).read] at hlength
    have hview : w.view (p.file w.source.file) = page := Option.some.inj hpage
    rw [← hview]
    exact if_pos hlength
  · rw [hsource] at hpage ⊢
    exact congrArg Except.ok (Option.some.inj hpage)

namespace Presents

/-- A page that was evicted is seen as before. -/
theorem evicted {back : Backing} (hp : p.Presents U b M) (hv : PageAligned v)
    (hfitted : p.swap.Fitted) (hpage : p.framed? b v = some page)
    (hd : p.descriptor? b v = some d ∨ p.descriptor? b v = none ∧ d.backing = .anonymous)
    (hkeeps : Keeps p.swap p.files page d.backing (p.has .dirty b v) back q.swap q.files)
    (hgone : q.framed? b v = none)
    (hafter : q.descriptor? b v = some { d with backing := back, loaded := false })
    (hwritable : p.descriptor? b v = none → d.writable = p.has .writable b v) :
    WritesBack p q U M v page ∧ q.PresentsPage U b M v := by
  have hold := hp.page v hv
  obtain ⟨hwindow, hmapped, _⟩ := hkeeps.backing
  -- what has a window has a descriptor
  have hdesc : ∀ {w}, d.backing.window? = some w → p.descriptor? b v = some d := by
    intro w hw
    rcases hd with hd | ⟨_, hb⟩
    · exact hd
    · rw [hb] at hw
      cases hw
  have hback : WritesBack p q U M v page := by
    rcases hkeeps.files with ⟨hfiles, _⟩ | ⟨_, hm, w, hw, hfiles⟩
    · exact (hp.keepsFiles_of_eq hfiles).writesBack M v page
    · exact .of_save hp (hold.mapped (hdesc hw) hw hm).2 hfiles
  have hloads : back.loads q.files q.swap = .ok page := by
    refine hkeeps.loads hfitted ?_
    intro w hw hkept
    rcases hkeeps.files with ⟨hfiles, hclean⟩ | ⟨_, hm, w', hw', hfiles⟩
    · rw [hfiles]
      exact hold.clean (hdesc hw) hw hpage (hkept.elim hclean id)
    · cases hw.symm.trans hw'
      obtain ⟨hread, hshows⟩ := hold.mapped (hdesc hw) hw hm
      exact hp.contents_written hshows hread hfiles
  refine ⟨hback, .of_unframed hgone ?_ ?_ ?_⟩
  · rw [seen?_of_not_framed? hgone, hafter, ← hold.seen, seen?_of_framed? hpage, Option.map_some,
      hloads, hmapped]
    refine congrArg some (Prod.ext rfl ?_)
    rcases hd with hd | ⟨hnone, hb⟩
    · exact (hold.writable hd (by rw [hpage]; rfl)).symm
    · rw [hb, ← hwritable hnone]
      exact Bool.or_false _
  · intro e w he hw hm
    cases hafter.symm.trans he
    have hw := hwindow.symm.trans hw
    exact hold.mapped (hdesc hw) hw (hmapped.symm.trans hm)
  · intro e w he hw hm
    cases hafter.symm.trans he
    have hw := hwindow.symm.trans hw
    exact hold.segment (hdesc hw) hw (hmapped.symm.trans hm)

/-- A page that was loaded is seen as before. -/
theorem loaded (hp : p.Presents U b M) (hv : PageAligned v) (hgone : p.framed? b v = none)
    (hd : p.descriptor? b v = some d) (hpage : p.parked? d.backing = some page)
    (hread : d.backing.Readable p.files) (hfiles : q.files = p.files)
    (hframed : q.framed? b v = some page) (hdirty : q.has .dirty b v = d.backing.loadsDirty)
    (hafter : q.descriptor? b v
      = d.backing.loaded?.map fun back => { d with backing := back, loaded := true })
    (hwritable : q.has .writable b v = (d.writable || d.backing.isMapped)) :
    q.PresentsPage U b M v := by
  have hold := hp.page v hv
  have hloads : d.backing.loads p.files p.swap = .ok page :=
    loads_of_parked (fun w hw => (hp.file _ (hp.own hv hd hw)).isPlain) hread hpage
  -- the page is as it was but for the slot
  have hcases : ∀ {e}, q.descriptor? b v = some e → ∃ back, d.backing.loaded? = some back
      ∧ e = { d with backing := back, loaded := true } := by
    intro e he
    obtain ⟨back, hback, heq⟩ := Option.map_eq_some_iff.mp (hafter.symm.trans he)
    exact ⟨back, hback, heq.symm⟩
  refine ⟨?_, ?_, ?_, ?_, ?_⟩
  · rw [seen?_of_framed? hframed, ← hold.seen, seen?_of_not_framed? hgone, hd, Option.map_some,
      hloads, hwritable]
  · intro e he _
    obtain ⟨back, hback, rfl⟩ := hcases he
    rw [hwritable, (Backing.window?_loaded? hback).2.1]
  · intro e w page' he hw hf hc
    obtain ⟨back, hback, rfl⟩ := hcases he
    cases hframed.symm.trans hf
    rw [Pager.file, hfiles, ← hloads]
    exact (Backing.loads_of_clean hback hw (hdirty.symm.trans hc)).symm
  · intro e w he hw hm
    obtain ⟨back, hback, rfl⟩ := hcases he
    obtain ⟨hwindow, hmapped, _⟩ := Backing.window?_loaded? hback
    exact hold.mapped hd (hwindow.symm.trans hw) (hmapped.symm.trans hm)
  · intro e w he hw hm
    obtain ⟨back, hback, rfl⟩ := hcases he
    obtain ⟨hwindow, hmapped, _⟩ := Backing.window?_loaded? hback
    exact hold.segment hd (hwindow.symm.trans hw) (hmapped.symm.trans hm)

end Presents

end Pager

open Pager

variable {p q : Pager n} {U : FileUse} {b : SpaceId} {M : Memory}

/-- No quiet move maps a file. -/
theorem Shift.others {S : Array OpenFile → Prop} (h : Shift S p q) (hp : p.Presents U b M) :
    q.OthersApart U b := by
  intro o v d w ho hv hd hm hw
  rcases h.descriptor_of hv hd with ⟨e, he, hwindow, hmapped⟩ | ⟨_, _, hnone, _⟩
  · exact hp.others o v e w ho hv he (hmapped ▸ hm) (hwindow ▸ hw)
  · rw [hnone] at hw
    cases hw

/-- A process does not notice a quiet move. -/
theorem Shift.presents {S : Array OpenFile → Prop} (h : Shift S p q) (hfitted : p.swap.Fitted)
    (hp : p.Presents U b M) : q.Presents U b M := by
  have hothers := h.others hp
  cases h with
  | still hpages hfiles => exact hp.of_apart (hpages b) (hp.keepsFiles_of_eq hfiles) hothers
  | @evicted o v d back page hsame haligned hpage hd hkeeps hgone hafter hwritable =>
    by_cases ho : o = b
    · subst ho
      obtain ⟨hback, hnew⟩ :=
        hp.evicted haligned hfitted hpage hd hkeeps hgone hafter hwritable
      exact hp.of_page hp.sound (fun u hu hne => hsame o u hu fun hc => hne hc.2) hback
        (fun _ _ => rfl) (fun _ _ _ _ hu => hu) hnew (fun k hk => hp.file_of_writesBack hback hk)
        hothers
    · refine hp.of_apart (fun u hu => hsame b u hu fun hc => ho hc.1.symm) ?_ hothers
      rcases hkeeps.files with ⟨hfiles, _⟩ | ⟨_, hm, w, hw, hfiles⟩
      · exact hp.keepsFiles_of_eq hfiles
      -- the page of another process was written to a file that this one does not use
      · have hd : p.descriptor? o v = some d := by
          rcases hd with hd | ⟨_, hnone⟩
          · exact hd
          · rw [hnone] at hw
            cases hw
        have hforeign : ¬ U.own w.source.file := hp.others o v d w ho haligned hd hm hw
        exact hp.keepsFiles fun k hk => file_of_saved_elsewhere hfiles fun hc => hforeign (hc ▸ hk)
  | @loaded o v d page hsame haligned hgone hd hpage _ hfiles hframed hdirty hafter hwritable
      hread =>
    by_cases ho : o = b
    · subst ho
      have hback := (hp.keepsFiles_of_eq hfiles).writesBack M v page
      exact hp.of_page hp.sound (fun u hu hne => hsame o u hu fun hc => hne hc.2) hback
        (fun _ _ => rfl) (fun _ _ _ _ hu => hu)
        (hp.loaded haligned hgone hd hpage hread hfiles hframed hdirty hafter hwritable)
        (fun k hk => hp.file_of_writesBack hback hk) hothers
    · exact hp.of_apart (fun u hu => hsame b u hu fun hc => ho hc.1.symm)
        (hp.keepsFiles_of_eq hfiles) hothers

end DemandPaging

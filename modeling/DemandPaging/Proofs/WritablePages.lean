import DemandPaging.Proofs.PageOrigins
/-!
# Which pages may be written

User code may write to every page of the stack and of a mapping, and to those of a segment that
is writable (`Pager.permitsWrites`). The page directory has a flag for it, which is lost when a
page is evicted and set anew when it is loaded. In between the descriptor remembers it, and for
a page of the stack one is made to do so. In each state of a run the flag of a page that is in a
frame is right (`Visited.writesAgree`).
-/

namespace DemandPaging

open Pager

variable {n : Nat}

/-- Whether user code may write to a page. -/
def Pager.permitsWrites (p : Pager n) (id : SpaceId) (upage : Nat) : Bool :=
  (p.origin? id upage).all fun origin => origin.writable || origin.isMapped

/-- The flag of a page that is in a frame is right, and it will be when the page is loaded. -/
structure Pager.WritesAgree (p : Pager n) (id : SpaceId) (upage : Nat) : Prop where
  flagged : (p.framed? id upage).isSome = true → p.has .writable id upage = p.permitsWrites id upage
  anonymous : ∀ d, p.descriptor? id upage = some d → d.backing.window? = none → d.writable = true

variable {S : Array OpenFile → Prop} {p q : Pager n} {f g : Option (Fin n)} {o : SpaceId} {v : Nat}

namespace Pager

theorem permitsWrites_of_origin? (h : q.origin? o v = p.origin? o v) :
    q.permitsWrites o v = p.permitsWrites o v := by
  unfold permitsWrites
  rw [h]

/-- User code may write to a page without a descriptor. -/
theorem permitsWrites_of_none (h : p.descriptor? o v = none) : p.permitsWrites o v = true := by
  unfold permitsWrites Pager.origin?
  rw [h]
  rfl

namespace WritesAgree

/-- What a page is loaded with is what it permits. -/
theorem permitsWrites_eq {d : Descriptor} (h : p.WritesAgree o v)
    (hd : p.descriptor? o v = some d) : p.permitsWrites o v = (d.writable || d.backing.isMapped) := by
  unfold permitsWrites Pager.origin?
  rw [hd, Option.bind_some, Descriptor.origin?]
  cases hw : d.backing.window? with
  | some w => rfl
  | none => rw [h.anonymous d hd hw, Bool.true_or, Option.map_none, Option.all_none]

theorem samePage (h : p.WritesAgree o v) (hsame : SamePage p q o v) : q.WritesAgree o v where
  flagged hframed := by
    rw [hsame.has .writable (by simp), permitsWrites_of_origin? hsame.origin?]
    exact h.flagged (hsame.framed? ▸ hframed)
  anonymous d hd := h.anonymous d (hsame.descriptor?.symm.trans hd)

/-- Of a page that is in no frame only the descriptor is of account. -/
theorem of_absent (hgone : q.framed? o v = none)
    (hd : ∀ d, q.descriptor? o v = some d → d.backing.window? = none → d.writable = true) :
    q.WritesAgree o v where
  flagged hframed := by
    rw [hgone] at hframed
    cases hframed
  anonymous := hd

theorem of_none (hnone : q.descriptor? o v = none)
    (hwritable : (q.framed? o v).isSome = true → q.has .writable o v = true) :
    q.WritesAgree o v where
  flagged hframed := by rw [hwritable hframed, permitsWrites_of_none hnone]
  anonymous d hd := by
    rw [hnone] at hd
    cases hd

/-- Only the contents of the page and flags other than that for writing are different. -/
theorem of_kept (h : p.WritesAgree o v) (hdesc : q.descriptor? o v = p.descriptor? o v)
    (hframed : (q.framed? o v).isSome = true → (p.framed? o v).isSome = true)
    (hwritable : q.has .writable o v = p.has .writable o v) : q.WritesAgree o v where
  flagged hq := by
    rw [hwritable, h.flagged (hframed hq)]
    exact (permitsWrites_of_origin? (by unfold Pager.origin?; rw [hdesc])).symm
  anonymous d hd := h.anonymous d (hdesc.symm.trans hd)

end WritesAgree

end Pager

/-- Eviction and loading keep the flag right. -/
theorem Shift.writesAgree (h : Shift S p q) (hv : PageAligned v) (hp : p.WritesAgree o v) :
    q.WritesAgree o v := by
  cases h with
  | still hpages _ => exact hp.samePage (hpages o v hv)
  | @evicted o' v' d b page hothers _ hframed hd hkeeps hgone hafter hwritable =>
    by_cases hpage : o = o' ∧ v = v'
    · obtain ⟨rfl, rfl⟩ := hpage
      refine .of_absent hgone fun e he hnone => ?_
      cases hafter.symm.trans he
      rcases hd with hd | ⟨hd, _⟩
      · exact hp.anonymous d hd (hkeeps.backing.1.symm.trans hnone)
      -- the page had no descriptor, so the new one has the flag of the page directory
      · show d.writable = true
        rw [hwritable hd, hp.flagged (by rw [hframed]; rfl), permitsWrites_of_none hd]
    · exact hp.samePage (hothers o v hv hpage)
  | @loaded o' v' d page hothers _ _ hd _ _ _ _ _ hafter hwritable =>
    by_cases hpage : o = o' ∧ v = v'
    · obtain ⟨rfl, rfl⟩ := hpage
      refine ⟨fun _ => ?_, fun e he hnone => ?_⟩
      · rw [hwritable, permitsWrites_of_origin? (origin?_of_loaded hd hafter),
          hp.permitsWrites_eq hd]
      · obtain ⟨b, hb, rfl⟩ := Option.map_eq_some_iff.mp (hafter.symm.trans he)
        exact hp.anonymous d hd ((Backing.window?_loaded? hb).1.symm.trans hnone)
    · exact hp.samePage (hothers o v hv hpage)

/-- Nothing that is asked for makes a flag wrong. -/
theorem Alters.writesAgree {c : Change} (h : Alters p c q) (hv : PageAligned v)
    (hp : p.WritesAgree o v) : q.WritesAgree o v := by
  -- it is enough to look at the page that is changed
  have hchanged : ∀ {id u}, (∀ o v, PageAligned v → ¬(o = id ∧ v = u) → SamePage p q o v) →
      (p.WritesAgree id u → q.WritesAgree id u) → q.WritesAgree o v := by
    intro id u hothers hself
    by_cases hpage : o = id ∧ v = u
    · obtain ⟨rfl, rfl⟩ := hpage
      exact hself hp
    · exact hp.samePage (hothers o v hv hpage)
  cases h with
  | grown hothers _ _ hafter _ _ hwritable =>
    exact hchanged hothers fun _ => .of_none hafter fun _ => hwritable
  | stored hothers _ _ hpage hafter _ _ _ hwritable =>
    exact hchanged hothers fun h => h.of_kept hafter (fun _ => by rw [hpage]; rfl) hwritable
  | dirtied hothers hafter hframed _ _ _ hwritable =>
    exact hchanged hothers fun h => h.of_kept hafter (fun hq => hframed ▸ hq) hwritable
  | described hothers _ hb _ hafter hgone =>
    refine hchanged hothers fun _ => .of_absent hgone fun e he hnone => ?_
    cases hafter.symm.trans he
    rw [hb] at hnone
    cases hnone
  | @mapped id index base _ _ hothers _ _ hafter =>
    by_cases hpage : o = id ∧ v ∈ pageRange base (pagesFor (p.file index).length)
    · obtain ⟨rfl, hu⟩ := hpage
      obtain ⟨i, hi, rfl⟩ := mem_pageRange.mp hu
      refine .of_absent (hafter i hi).2 fun e he hnone => ?_
      cases (hafter i hi).1.symm.trans he
      cases hnone
    · exact hp.samePage (hothers o v hv hpage)
  | unlisted hpages => exact hp.samePage (hpages o v hv)
  | dropped hothers _ _ _ _ hafter hgone =>
    exact hchanged hothers fun _ => .of_none hafter fun hq => by
      rw [hgone] at hq
      cases hq
  | closed hpages => exact hp.samePage (hpages o v hv)
  | @vacated id _ hothers _ hgone =>
    by_cases ho : o = id
    · subst ho
      refine .of_none (hgone v).1 fun hq => ?_
      rw [(hgone v).2] at hq
      cases hq
    · exact hp.samePage (hothers o v hv ho)
  | rewritten hpages => exact hp.samePage (hpages o v hv)

theorem Chain.writesAgree {cs : List Change} (h : Chain S p f cs q g) (hp : p.Agrees f)
    (hv : PageAligned v) (hwrites : p.WritesAgree o v) : q.WritesAgree o v := by
  induction h with
  | refl => exact hwrites
  | quiet h move ih => exact (move.shift (h.agrees hp)).writesAgree hv ih
  | visible h move ih => exact (move.alters (h.agrees hp)).writesAgree hv ih

/-- In each state of a run the flag of a page that is in a frame is right. -/
theorem Pager.Visited.writesAgree (hp : p.Visited) (hv : PageAligned v) : p.WritesAgree o v := by
  obtain ⟨s, es, hs, hpassed⟩ := hp
  refine hpassed.preserves (I := fun p => p.WritesAgree o v) (P := fun _ => True)
    (H := fun _ => True) ?_ hs.agrees (fun _ _ => trivial) (fun _ _ => trivial) ?_
  · intro p r e hp he _ _ h hwrites
    obtain ⟨_, _, hchain⟩ := h.chain (S := fun _ => True) hp he fun _ _ => trivial
    exact hchain.writesAgree hp hv hwrites
  · obtain ⟨_, _, _, _, hspace⟩ := hs.fields
    have hdesc : s.descriptor? o v = none := by
      unfold Pager.descriptor?
      rw [(hspace o).2.1]
      rfl
    have haddr : s.address? o v = none := by
      unfold Pager.address?
      rw [(hspace o).1]
      rfl
    refine .of_none hdesc fun hframed => ?_
    rw [framed?_of_unmapped haddr] at hframed
    cases hframed

end DemandPaging

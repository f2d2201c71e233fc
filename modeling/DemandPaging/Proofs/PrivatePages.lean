import DemandPaging.Proofs.PageAlterations
/-!
# Quiet moves do not change what a private page holds

A page that belongs to no mapping is anonymous or a page of a program. What it holds is the
same in its frame, in its slot, and in its window as long as nobody changes the file, and a
quiet move takes it from one of these places to another (`Shift.held?`). This needs that a
frame which may be dropped, since its page is clean, holds what the file holds (`IsClean`);
each move keeps that up. A visible move has the effect that its label says
(`Chain.held?`).

What windows show is a parameter here, `look`, and `K` are the files that do show it.
-/

namespace DemandPaging

variable {n : Nat}

/-- What a page that is not mapped holds, if windows show what `look` says. -/
def Backing.shown? (look : FileWindow → Page) (swap : SwapArea) (b : Backing) : Option Page :=
  match b.loadSource with
  | .nowhere => none
  | .file w => some (look w)
  | .swap slot => some (swap.pageIn slot)

namespace Pager

/-- What a page holds, if windows show what `look` says. -/
def held? (look : FileWindow → Page) (p : Pager n) (id : SpaceId) (upage : Nat) : Option Page :=
  match p.framed? id upage with
  | some page => some page
  | none => (p.descriptor? id upage).bind fun d => d.backing.shown? look p.swap

/-- A page belongs to no mapping, and if it has a window then onto one of some files. -/
structure IsPrivate (K : Nat → Prop) (p : Pager n) (o : SpaceId) (v : Nat) : Prop where
  isMapped : ∀ d, p.descriptor? o v = some d → d.backing.isMapped = false
  onFile : ∀ d w, p.descriptor? o v = some d → d.backing.window? = some w → K w.source.file

/-- If a page may be dropped from its frame then the frame holds what its window shows. -/
def IsClean (K : Nat → Prop) (look : FileWindow → Page) (p : Pager n) (o : SpaceId) (v : Nat) :
    Prop :=
  ∀ d w page, p.descriptor? o v = some d → d.backing = .privateFile w → K w.source.file →
    p.framed? o v = some page → p.has .dirty o v = false → page = look w

variable {K : Nat → Prop} {look : FileWindow → Page} {p q : Pager n} {o : SpaceId} {v : Nat}

theorem held?_of_framed? {page : Page} (h : p.framed? o v = some page) :
    p.held? look o v = some page := by
  unfold held?
  rw [h]

theorem held?_of_not_framed? (h : p.framed? o v = none) :
    p.held? look o v = (p.descriptor? o v).bind fun d => d.backing.shown? look p.swap := by
  unfold held?
  rw [h]

/-- A page holds what it holds with the windows as they are. -/
theorem content?_eq_held? (hlook : ∀ d w, p.descriptor? o v = some d → d.backing.window? = some w →
    look w = w.view (p.file w.source.file)) : p.content? o v = p.held? look o v := by
  cases hf : p.framed? o v with
  | some page => rw [content?_of_framed? hf, held?_of_framed? hf]
  | none =>
    rw [content?_of_not_framed? hf, held?_of_not_framed? hf]
    cases hd : p.descriptor? o v with
    | none => rfl
    | some d =>
      show p.parked? d.backing = d.backing.shown? look p.swap
      unfold parked? Backing.shown?
      rcases d.backing.loadSource_eq with hb | ⟨w, hsource, _, hwindow⟩ | ⟨slot, hsource, _⟩
      · rw [hb]
        rfl
      · rw [hsource]
        exact congrArg some (hlook d w hd hwindow).symm
      · rw [hsource]

namespace SamePage

theorem held? (h : SamePage p q o v) : q.held? look o v = p.held? look o v := by
  unfold Pager.held?
  rw [h.framed?, h.descriptor?]
  cases p.framed? o v with
  | some page => rfl
  | none =>
    cases hd : p.descriptor? o v with
    | none => rw [Option.bind_none, Option.bind_none]
    | some d =>
      show d.backing.shown? look q.swap = d.backing.shown? look p.swap
      unfold Backing.shown?
      rcases d.backing.loadSource_eq with hb | ⟨w, hsource, _⟩ | ⟨slot, hsource, _, hslot, _⟩
      · rw [hb]
        rfl
      · rw [hsource]
      · rw [hsource]
        exact congrArg some (h.pageIn slot (slot?_eq_some_iff.mpr ⟨d, hd, hslot⟩))

theorem isClean (h : SamePage p q o v) (hp : p.IsClean K look o v) : q.IsClean K look o v := by
  intro d w page hd hb hk hframed hdirty
  exact hp d w page (h.descriptor?.symm.trans hd) hb hk (h.framed?.symm.trans hframed)
    (h.dirty.symm.trans hdirty)

end SamePage

end Pager

open Pager

namespace Shift

variable {S : Array OpenFile → Prop} {K : Nat → Prop} {look : FileWindow → Page} {p q : Pager n}
  {o : SpaceId} {v : Nat}

theorem isPrivate (h : Shift S p q) (hv : PageAligned v) (hp : p.IsPrivate K o v) :
    q.IsPrivate K o v where
  isMapped e he := by
    rcases h.descriptor_of hv he with ⟨d, hd, _, hmapped⟩ | ⟨_, _, _, hmapped⟩
    · exact hmapped.trans (hp.isMapped d hd)
    · exact hmapped
  onFile e w he hw := by
    rcases h.descriptor_of hv he with ⟨d, hd, hwindow, _⟩ | ⟨_, _, hnone, _⟩
    · exact hp.onFile d w hd (hwindow ▸ hw)
    · exact absurd (hnone.symm.trans hw) (by simp)

/-- A page that was loaded from its file holds what the file holds, and one that was loaded
from its slot is dirty. -/
theorem isClean (h : Shift S p q) (hv : PageAligned v)
    (hS : S p.files → ∀ w, K w.source.file → w.view (p.file w.source.file) = look w)
    (hp : p.IsClean K look o v) : q.IsClean K look o v := by
  cases h with
  | still hpages _ => exact (hpages o v hv).isClean hp
  | @evicted o' v' d b page hothers _ _ _ _ hgone _ =>
    by_cases hpage : o = o' ∧ v = v'
    · obtain ⟨rfl, rfl⟩ := hpage
      intro d w page _ _ _ hframed _
      exact absurd (hgone.symm.trans hframed) (by simp)
    · exact (hothers o v hv hpage).isClean hp
  | @loaded o' v' d page hothers _ _ hd hparked hsource _ hframed hdirty hafter =>
    by_cases hpage : o = o' ∧ v = v'
    · obtain ⟨rfl, rfl⟩ := hpage
      intro e w page' he hb hk hpage' hclean
      rw [hframed] at hpage'
      cases hpage'
      obtain ⟨b, hloaded, rfl⟩ := Option.map_eq_some_iff.mp (hafter.symm.trans he)
      have hb : b = .privateFile w := hb
      rw [hdirty] at hclean
      -- only the file loads a private page clean: from its slot it is loaded dirty, and a mapped
      -- or an anonymous page is not one of a private file
      cases hd' : d.backing with
      | privateFile w' =>
        rw [hd'] at hloaded hparked
        cases hloaded
        cases hb
        cases hparked
        exact hS hsource w hk
      | privateParked w' slot =>
        rw [hd'] at hclean
        cases hclean
      | anonymous =>
        rw [hd'] at hparked
        cases hparked
      | swapped slot =>
        rw [hd'] at hloaded
        cases hloaded
      | mappedFile w' =>
        rw [hd'] at hloaded
        cases hloaded
        cases hb
      | mappedParked w' slot =>
        rw [hd'] at hloaded
        cases hloaded
        cases hb
    · exact (hothers o v hv hpage).isClean hp

/-- A page that was taken out of its frame is still what the frame held. -/
theorem shown?_of_keeps {files files' : Array OpenFile} {swap swap' : SwapArea} {page : Page}
    {b b' : Backing} {dirty : Bool} (h : Keeps swap files page b dirty b' swap' files')
    (hfitted : swap.Fitted) (hmapped : b.isMapped = false)
    (hclean : ∀ w, b = .privateFile w → dirty = false → page = look w) :
    b'.shown? look swap' = some page := by
  have hslot := (h.pageIn hfitted).1
  cases h with
  | written => cases hmapped
  | @dropped w => exact congrArg some (hclean w rfl rfl).symm
  | @stored _ _ slot _ hb _ =>
    rcases hb with rfl | ⟨w, rfl, _⟩ | ⟨w, rfl, _⟩
    · exact congrArg some (hslot slot rfl)
    · exact congrArg some (hslot slot rfl)
    · cases hmapped

/-- What a private page holds is the same after a quiet move. -/
theorem held? (h : Shift S p q) (hv : PageAligned v) (hfitted : p.swap.Fitted)
    (hS : S p.files → ∀ w, K w.source.file → w.view (p.file w.source.file) = look w)
    (hprivate : p.IsPrivate K o v) (hclean : p.IsClean K look o v) :
    q.held? look o v = p.held? look o v := by
  cases h with
  | still hpages _ => exact (hpages o v hv).held?
  | @evicted o' v' d b page hothers _ hframed hd hkeeps hgone hafter =>
    by_cases hpage : o = o' ∧ v = v'
    · obtain ⟨rfl, rfl⟩ := hpage
      rw [held?_of_framed? hframed, held?_of_not_framed? hgone, hafter]
      -- what it was evicted to holds what the frame held: clean, it shows what it was loaded from
      refine shown?_of_keeps hkeeps hfitted ?_ fun w hb hdirty => ?_
      · rcases hd with hd | ⟨_, hb⟩
        · exact hprivate.isMapped d hd
        · rw [hb]
          rfl
      · rcases hd with hd | ⟨_, hb'⟩
        · exact hclean d w page hd hb (hprivate.onFile d w hd (by rw [hb]; rfl)) hframed hdirty
        · rw [hb'] at hb
          cases hb
    · exact (hothers o v hv hpage).held?
  | @loaded o' v' d page hothers _ hgone hd hparked hsource _ hframed _ _ =>
    by_cases hpage : o = o' ∧ v = v'
    · obtain ⟨rfl, rfl⟩ := hpage
      rw [held?_of_framed? hframed, held?_of_not_framed? hgone, hd, ← hparked]
      show p.parked? d.backing = d.backing.shown? look p.swap
      unfold parked? Backing.shown?
      rcases d.backing.loadSource_eq with hb | ⟨w, hb, _, hwindow⟩ | ⟨slot, hb, _⟩
      · rw [hb]
        rfl
      · rw [hb]
        exact congrArg some (hS hsource w (hprivate.onFile d w hd hwindow))
      · rw [hb]
    · exact (hothers o v hv hpage).held?

end Shift

/-- What a change does to what the page `v` of the space `o` holds. -/
def Change.effect (look : FileWindow → Page) (o : SpaceId) (v : Nat) (page? : Option Page) :
    Change → Option Page
  | .grown id upage => if o = id ∧ v = upage then some .zero else page?
  | .stored id upage start bytes =>
    if o = id ∧ v = upage then page?.map (·.overwrite start bytes) else page?
  | .described id d => if o = id ∧ v = d.upage then d.backing.window?.map look else page?
  | .vacated id => if o = id then none else page?
  | _ => page?

/-- What is asked of a change for the page `v` of the space `o` to stay private: it does not
clear a dirty flag, maps no file there, and describes the page by a window onto one of some
files. -/
def Change.Spares (K : Nat → Prop) (o : SpaceId) (v : Nat) : Change → Prop
  | .dirtied _ _ value => value = true
  | .mapped id fm => ¬(o = id ∧ v ∈ fm.pages)
  | .described id d => o = id ∧ v = d.upage → ∀ w, d.backing.window? = some w → K w.source.file
  | _ => True

namespace Alters

variable {K : Nat → Prop} {look : FileWindow → Page} {p q : Pager n} {o : SpaceId} {v : Nat}
  {c : Change}

theorem isPrivate (h : Alters p c q) (hv : PageAligned v) (hc : c.Spares K o v)
    (hp : p.IsPrivate K o v) : q.IsPrivate K o v := by
  -- a descriptor is one from before or a new one, of a segment or of a mapping
  have hcases : ∀ e, q.descriptor? o v = some e → p.descriptor? o v = some e
      ∨ e.backing.isMapped = false ∧ ∀ w, e.backing.window? = some w → K w.source.file := by
    intro e he
    rcases h.descriptor_of hv he with hd | ⟨rfl, rfl⟩ | ⟨source, base, length, i, rfl, hi, rfl, rfl⟩
    · exact Or.inl hd
    · refine Or.inr ⟨?_, fun w hw => hc ⟨rfl, rfl⟩ w hw⟩
      cases h with
      | described _ _ hb =>
        rw [hb]
        rfl
    · exact absurd ⟨rfl, mem_pageRange.mpr ⟨i, hi, rfl⟩⟩ hc
  refine ⟨?_, ?_⟩
  · intro e he
    rcases hcases e he with hd | ⟨hmapped, _⟩
    · exact hp.isMapped e hd
    · exact hmapped
  · intro e w he hw
    rcases hcases e he with hd | ⟨_, hfile⟩
    · exact hp.onFile e w hd hw
    · exact hfile w hw

theorem isClean (h : Alters p c q) (hv : PageAligned v) (hc : ∀ id u, c ≠ .dirtied id u false)
    (hp : p.IsClean K look o v) : q.IsClean K look o v := by
  -- away from the page that the label names nothing is different
  have hother : ∀ {id u}, (∀ o v, PageAligned v → ¬(o = id ∧ v = u) → SamePage p q o v) →
      (o = id → v = u → q.IsClean K look o v) → q.IsClean K look o v := by
    intro id u hothers hself
    by_cases hpage : o = id ∧ v = u
    · exact hself hpage.1 hpage.2
    · exact (hothers o v hv hpage).isClean hp
  cases h with
  | grown hothers _ _ hafter =>
    refine hother hothers ?_
    intro heq hsame d w page hd
    subst heq
    subst hsame
    exact absurd (hafter.symm.trans hd) (by simp)
  | stored hothers _ _ _ _ _ hdirty =>
    refine hother hothers ?_
    intro heq hsame d w page _ _ _ _ hclean
    subst heq
    subst hsame
    exact absurd (hdirty.symm.trans hclean) (by simp)
  | @dirtied id u value _ hothers hafter hframed hdirty =>
    refine hother hothers ?_
    intro heq hsame d w page _ _ _ hpage hclean
    subst heq
    subst hsame
    cases value with
    | false => exact absurd rfl (hc _ _)
    | true =>
      rw [hdirty, ← hframed, hpage] at hclean
      cases hclean
  | described hothers _ _ _ _ hgone =>
    refine hother hothers ?_
    intro heq hsame d w page _ _ _ hpage
    subst heq
    subst hsame
    exact absurd (hgone.symm.trans hpage) (by simp)
  | @mapped id index base _ _ hothers _ _ hafter =>
    by_cases hpage : o = id ∧ v ∈ pageRange base (pagesFor (p.file index).length)
    · obtain ⟨rfl, hu⟩ := hpage
      obtain ⟨i, hi, rfl⟩ := mem_pageRange.mp hu
      intro d w page _ _ _ hpage
      exact absurd ((hafter i hi).2.symm.trans hpage) (by simp)
    · exact (hothers o v hv hpage).isClean hp
  | unlisted hpages => exact (hpages o v hv).isClean hp
  | dropped hothers _ _ _ _ _ hgone =>
    refine hother hothers ?_
    intro heq hsame d w page _ _ _ hpage
    subst heq
    subst hsame
    exact absurd (hgone.symm.trans hpage) (by simp)
  | closed hpages => exact (hpages o v hv).isClean hp
  | @vacated id _ hothers _ hgone =>
    by_cases ho : o = id
    · subst ho
      intro d w page _ _ _ hpage
      exact absurd ((hgone v).2.symm.trans hpage) (by simp)
    · exact (hothers o v hv ho).isClean hp
  | rewritten hpages => exact (hpages o v hv).isClean hp

/-- What a private page holds changes as the label says. -/
theorem held? (h : Alters p c q) (hv : PageAligned v) (hc : c.Spares K o v)
    (hprivate : p.IsPrivate K o v) : q.held? look o v = c.effect look o v (p.held? look o v) := by
  cases h with
  | @grown id u _ hothers _ _ _ hframed =>
    show _ = if o = id ∧ v = u then _ else _
    split
    next hpage =>
      obtain ⟨rfl, rfl⟩ := hpage
      exact held?_of_framed? hframed
    next hpage => exact (hothers o v hv hpage).held?
  | @stored id u _ _ page _ hothers _ _ hpage' _ hframed =>
    show _ = if o = id ∧ v = u then _ else _
    split
    next hpage =>
      obtain ⟨rfl, rfl⟩ := hpage
      rw [held?_of_framed? hframed, held?_of_framed? hpage']
      rfl
    next hpage => exact (hothers o v hv hpage).held?
  | @dirtied id u _ _ hothers hafter hframed _ _ hswap =>
    by_cases hpage : o = id ∧ v = pageBase u
    · obtain ⟨rfl, rfl⟩ := hpage
      show _ = p.held? look o (pageBase u)
      unfold Pager.held?
      rw [hframed, hafter, hswap]
    · exact (hothers o v hv hpage).held?
  | @described id d w _ hothers _ hb _ hafter hgone =>
    show _ = if o = id ∧ v = d.upage then _ else _
    split
    next hpage =>
      obtain ⟨rfl, rfl⟩ := hpage
      rw [held?_of_not_framed? hgone, hafter, hb]
      show d.backing.shown? look q.swap = _
      rw [hb]
      rfl
    next hpage => exact (hothers o v hv hpage).held?
  | mapped hothers => exact (hothers o v hv hc).held?
  | unlisted hpages => exact (hpages o v hv).held?
  | @dropped id u d _ hothers _ hd hmapped =>
    by_cases hpage : o = id ∧ v = u
    · obtain ⟨rfl, rfl⟩ := hpage
      rw [hprivate.isMapped d hd] at hmapped
      cases hmapped
    · exact (hothers o v hv hpage).held?
  | closed hpages => exact (hpages o v hv).held?
  | @vacated id _ hothers _ hgone =>
    show _ = if o = id then _ else _
    split
    next ho =>
      subst ho
      rw [held?_of_not_framed? (hgone v).2, (hgone v).1]
      rfl
    next ho => exact (hothers o v hv ho).held?
  | rewritten hpages => exact (hpages o v hv).held?

end Alters

namespace Chain

variable {S : Array OpenFile → Prop} {K : Nat → Prop} {look : FileWindow → Page} {p q : Pager n}
  {f g : Option (Fin n)} {cs : List Change} {o : SpaceId} {v : Nat}

/-- A clean page stays clean as long as it is loaded from the file that it is compared with. -/
theorem isClean (h : Chain S p f cs q g) (hp : p.Agrees f) (hv : PageAligned v)
    (hS : ∀ r : Pager n, S r.files → ∀ w, K w.source.file → w.view (r.file w.source.file) = look w)
    (hcs : ∀ id u, Change.dirtied id u false ∉ cs) (hclean : p.IsClean K look o v) :
    q.IsClean K look o v := by
  induction h with
  | refl => exact hclean
  | quiet h move ih => exact (move.shift (h.agrees hp)).isClean hv (hS _) (ih hcs)
  | visible h move ih =>
    refine (move.alters (h.agrees hp)).isClean hv ?_
      (ih fun id u hmem => hcs id u (List.mem_append_left _ hmem))
    intro id u hc
    exact hcs id u (List.mem_append_right _ (hc ▸ List.mem_singleton_self _))

theorem isPrivate (h : Chain S p f cs q g) (hp : p.Agrees f) (hv : PageAligned v)
    (hcs : ∀ c ∈ cs, c.Spares K o v) (hprivate : p.IsPrivate K o v) : q.IsPrivate K o v := by
  induction h with
  | refl => exact hprivate
  | quiet h move ih => exact (move.shift (h.agrees hp)).isPrivate hv (ih hcs)
  | visible h move ih =>
    exact (move.alters (h.agrees hp)).isPrivate hv
      (hcs _ (List.mem_append_right _ (List.mem_singleton_self _)))
      (ih fun c hc => hcs c (List.mem_append_left _ hc))

/-- What a private page holds after a sequence of moves is what the changes made of it. -/
theorem held? (h : Chain S p f cs q g) (hp : p.Agrees f) (hv : PageAligned v)
    (hS : ∀ r : Pager n, S r.files → ∀ w, K w.source.file → w.view (r.file w.source.file) = look w)
    (hcs : ∀ c ∈ cs, c.Spares K o v) (hprivate : p.IsPrivate K o v)
    (hclean : p.IsClean K look o v) :
    q.held? look o v = cs.foldl (Change.effect look o v) (p.held? look o v) := by
  have hkeeps : ∀ {cs : List Change}, (∀ c ∈ cs, c.Spares K o v) →
      ∀ id u, Change.dirtied id u false ∉ cs := by
    intro cs hcs id u hmem
    exact absurd (hcs _ hmem) (by simp [Change.Spares])
  induction h with
  | refl => rfl
  | quiet h move ih =>
    have hagrees := h.agrees hp
    rw [← ih hcs]
    exact (move.shift hagrees).held? hv hagrees.slots.fitted (hS _) (h.isPrivate hp hv hcs hprivate)
      (h.isClean hp hv hS (hkeeps hcs) hclean)
  | visible h move ih =>
    have hlast := hcs _ (List.mem_append_right _ (List.mem_singleton_self _))
    have hbefore := fun c hc => hcs c (List.mem_append_left _ hc)
    rw [List.foldl_append, ← ih hbefore]
    exact (move.alters (h.agrees hp)).held? hv hlast (h.isPrivate hp hv hbefore hprivate)

end Chain

end DemandPaging

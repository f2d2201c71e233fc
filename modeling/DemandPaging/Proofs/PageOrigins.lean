import DemandPaging.Proofs.MappedFiles
/-!
# The life of a descriptor

A descriptor is marked loaded by whoever brings the page in and marked not loaded by whoever
takes the frame away, and its backing is changed by both. `Visited.descriptors_exact` says
what holds of it in every state of a run: which backings go with the mark, and that the mark
tells whether the page is mapped.

A page of a segment or of a mapping has an `Origin`: the window onto its file, whether it may
be written, and whether it belongs to a mapping. No eviction and no loading changes it. It
stays until the page is released (`Event.Releases`): its mapping is taken down, or its
process exits.
-/

namespace DemandPaging

open Pager

variable {n : Nat}

/-- What is known of a page of a segment or of a mapping for as long as it exists. -/
structure Origin where
  window : FileWindow
  writable : Bool
  isMapped : Bool

/-- The origin of the page, unless the page is anonymous. -/
def Descriptor.origin? (d : Descriptor) : Option Origin :=
  d.backing.window?.map fun w => ⟨w, d.writable, d.backing.isMapped⟩

/-- The origin of a page, if it has one. -/
def Pager.origin? (p : Pager n) (id : SpaceId) (upage : Nat) : Option Origin :=
  (p.descriptor? id upage).bind Descriptor.origin?

/-- Another backing with the window and nature of the old one, or another mark, is of no
account. -/
theorem Descriptor.origin?_eq {d : Descriptor} {b : Backing} {loaded : Bool}
    (hwindow : b.window? = d.backing.window?) (hmapped : b.isMapped = d.backing.isMapped) :
    ({ d with backing := b, loaded := loaded } : Descriptor).origin? = d.origin? := by
  unfold origin?
  rw [hwindow, hmapped]

/-- A page that was loaded has the origin that it had. -/
theorem Pager.origin?_of_loaded {p q : Pager n} {id : SpaceId} {upage : Nat} {d : Descriptor}
    (hd : p.descriptor? id upage = some d) (hafter : q.descriptor? id upage
      = d.backing.loaded?.map fun b => { d with backing := b, loaded := true }) :
    q.origin? id upage = p.origin? id upage := by
  unfold Pager.origin?
  rw [hafter, hd, Option.bind_some]
  cases hb : d.backing.loaded? with
  | some b =>
    obtain ⟨hwindow, hmapped, _⟩ := Backing.window?_loaded? hb
    exact Descriptor.origin?_eq hwindow hmapped
  -- a page that comes from a slot only has no origin
  | none =>
    unfold Descriptor.origin?
    cases hd : d.backing with
    | anonymous | swapped slot => rfl
    | privateFile w | mappedFile w | privateParked w slot | mappedParked w slot =>
      rw [hd] at hb
      cases hb

/-- Whether an event ends the life of a page: its mapping is taken down, or its process
exits. -/
inductive Event.Releases (p : Pager n) (o : SpaceId) (v : Nat) : Event → Prop where
  | unmapped {m : Nat} {fm : FileMapping} (hm : p.mapping? o m = some fm) (hv : v ∈ fm.pages) :
      Releases p o v (.request (.unmapFile o m))
  | exited : Releases p o v (.request (.exit o))

/-- Whether a change ends the life of a page. -/
def Change.Removes (o : SpaceId) (v : Nat) (c : Change) : Prop :=
  c = .dropped o v ∨ c = .vacated o

theorem Event.Causes.releases {p : Pager n} {e : Event} {c : Change} (h : e.Causes p c)
    {o : SpaceId} {v : Nat} (hc : c.Removes o v) : e.Releases p o v := by
  rcases hc with rfl | rfl
  · cases h with
    | dropped he hm hu =>
      rcases he with rfl | rfl
      · exact .unmapped hm hu
      · exact .exited
  · cases h with
    | vacated => exact .exited

/-! ## Origins along a run -/

variable {S : Array OpenFile → Prop} {p q : Pager n} {f g : Option (Fin n)} {o : SpaceId} {v : Nat}
  {origin : Origin}

theorem Pager.SamePage.origin? (h : SamePage p q o v) : q.origin? o v = p.origin? o v := by
  unfold Pager.origin?
  rw [h.descriptor?]

/-- The origin of a page is the same after it was evicted or loaded. -/
theorem Shift.origin? (h : Shift S p q) (hv : PageAligned v) : q.origin? o v = p.origin? o v := by
  cases h with
  | still hpages _ => exact (hpages o v hv).origin?
  | @evicted o' v' d b page hothers _ _ hd hkeeps _ hafter =>
    by_cases hpage : o = o' ∧ v = v'
    · obtain ⟨rfl, rfl⟩ := hpage
      obtain ⟨hwindow, hmapped, _⟩ := hkeeps.backing
      unfold Pager.origin?
      rw [hafter, Option.bind_some, Descriptor.origin?_eq hwindow hmapped]
      rcases hd with hd | ⟨hnone, hb⟩
      · rw [hd, Option.bind_some]
      -- a page without a descriptor gets one without a window
      · rw [hnone, Option.bind_none, Descriptor.origin?, hb]
        rfl
    · exact (hothers o v hv hpage).origin?
  | @loaded o' v' d page hothers _ _ hd _ _ _ _ _ hafter =>
    by_cases hpage : o = o' ∧ v = v'
    · obtain ⟨rfl, rfl⟩ := hpage
      exact Pager.origin?_of_loaded hd hafter
    · exact (hothers o v hv hpage).origin?

/-- A page has its origin until it is dropped or its space is emptied. -/
theorem Alters.origin? {c : Change} (h : Alters p c q) (hv : PageAligned v)
    (hc : ¬ c.Removes o v) (ho : p.origin? o v = some origin) : q.origin? o v = some origin := by
  obtain ⟨e, he, horigin⟩ := Option.bind_eq_some_iff.mp ho
  -- a page that is made by the move had no descriptor, and any other is left as it was
  have hmade : ∀ {id u}, (∀ o v, PageAligned v → ¬(o = id ∧ v = u) → SamePage p q o v) →
      p.descriptor? id u = none → q.origin? o v = some origin := by
    intro id u hothers hnone
    refine (hothers o v hv ?_).origin?.trans ho
    rintro ⟨rfl, rfl⟩
    exact absurd (hnone.symm.trans he) (by simp)
  have hkept : ∀ {id u}, (∀ o v, PageAligned v → ¬(o = id ∧ v = u) → SamePage p q o v) →
      q.descriptor? id u = p.descriptor? id u → q.origin? o v = some origin := by
    intro id u hothers hafter
    by_cases hpage : o = id ∧ v = u
    · obtain ⟨rfl, rfl⟩ := hpage
      unfold Pager.origin?
      rw [hafter]
      exact ho
    · exact (hothers o v hv hpage).origin?.trans ho
  cases h with
  | grown hothers _ hvacant => exact hmade hothers hvacant.1
  | stored hothers _ _ _ hafter => exact hkept hothers hafter
  | dirtied hothers hafter => exact hkept hothers hafter
  | described hothers _ _ hvacant => exact hmade hothers hvacant.1
  | @mapped id index base _ _ hothers _ hvacant =>
    refine (hothers o v hv ?_).origin?.trans ho
    rintro ⟨rfl, hu⟩
    obtain ⟨i, hi, rfl⟩ := mem_pageRange.mp hu
    exact absurd ((hvacant i hi).1.symm.trans he) (by simp)
  | unlisted hpages => exact (hpages o v hv).origin?.trans ho
  | @dropped id upage _ _ hothers =>
    refine (hothers o v hv ?_).origin?.trans ho
    rintro ⟨rfl, rfl⟩
    exact hc (Or.inl rfl)
  | closed hpages => exact (hpages o v hv).origin?.trans ho
  | @vacated id _ hothers =>
    refine (hothers o v hv ?_).origin?.trans ho
    rintro rfl
    exact hc (Or.inr rfl)
  | rewritten hpages => exact (hpages o v hv).origin?.trans ho

theorem Chain.origin? {cs : List Change} (h : Chain S p f cs q g) (hp : p.Agrees f)
    (hv : PageAligned v) (hcs : ∀ c ∈ cs, ¬ c.Removes o v) (ho : p.origin? o v = some origin) :
    q.origin? o v = some origin := by
  induction h with
  | refl => exact ho
  | quiet h move ih => exact ((move.shift (h.agrees hp)).origin? hv).trans (ih hcs)
  | visible h move ih =>
    refine (move.alters (h.agrees hp)).origin? hv ?_
      (ih fun c hc => hcs c (List.mem_append_left _ hc))
    exact hcs _ (List.mem_append_right _ (List.mem_singleton_self _))

/-- An event that does not release a page leaves it its origin, in each state on the way. -/
theorem Event.Passes.origin? {r : Pager n} {e : Event} (hp : p.Agrees none) (he : e.Permitted p)
    (h : e.Passes p r) (hv : PageAligned v) (hrelease : ¬ e.Releases p o v)
    (ho : p.origin? o v = some origin) : r.origin? o v = some origin := by
  obtain ⟨cs, hmade, hchain⟩ := h.chain (S := fun _ => True) hp he fun _ _ => trivial
  exact hchain.origin? hp hv
    (fun c hc hremoves => hrelease ((hmade.causes hc).releases hremoves)) ho

/-- A page keeps its origin along a run until an event releases it. -/
theorem Passed.origin? {t : Pager n} {es : List Event} (h : Passed p es t) (hp : p.Agrees none)
    (hv : PageAligned v)
    (hes : ∀ front e rest q, es = front ++ e :: rest → Run p front q → ¬ e.Releases q o v)
    (ho : p.origin? o v = some origin) : t.origin? o v = some origin := by
  induction h with
  | start => exact ho
  | within he h => exact h.origin? hp he hv (hes [] _ _ _ rfl .refl) ho
  | later he happly _ ih =>
    exact ih (Event.agrees hp he happly) (Run.forall_tail he happly hes)
      ((Event.passes_of_apply happly).origin? hp he hv (hes [] _ _ _ rfl .refl) ho)

/-- Descriptors are exact, and pages keep their origin. In each state of a run a descriptor is
marked loaded exactly when its page is mapped, only with a backing that is a file and not while
the page is in a slot; it never says that its page is nowhere; and it is filed under its own
page. From then on a page of a segment or a mapping keeps its file, its part of the file,
whether it may be written and whether it belongs to a mapping, through whatever is evicted
and loaded, up to an event that releases it. -/
theorem Pager.Visited.descriptors_exact {p : Pager n} (hp : p.Visited) :
    (∀ id u d, p.descriptor? id u = some d →
        (d.loaded = true ↔ (p.address? id u).isSome = true)
          ∧ (d.loaded = true →
              (∃ w, d.backing = .privateFile w) ∨ ∃ w, d.backing = .mappedFile w)
          ∧ (((∃ slot, d.backing = .swapped slot) ∨ (∃ w slot, d.backing = .privateParked w slot)
              ∨ ∃ w slot, d.backing = .mappedParked w slot) → d.loaded = false)
          ∧ d.backing ≠ .anonymous ∧ d.upage = u)
      ∧ ∀ id u origin es t, p.origin? id u = some origin → Passed p es t →
          (∀ front e rest q, es = front ++ e :: rest → Run p front q → ¬ e.Releases q id u) →
          t.origin? id u = some origin := by
  have hagrees := hp.agrees
  have hdesc := hagrees.descriptors
  refine ⟨?_, ?_⟩
  · intro id u d hd
    have hbacked := hdesc.backed id u d hd
    have hslot := hdesc.slot_of_loaded id u d hd
    have hparked : ∀ slot, d.backing.slot? = some slot → d.loaded = false := by
      intro slot hs
      refine Bool.eq_false_iff.mpr fun hloaded => ?_
      rw [hslot hloaded] at hs
      cases hs
    refine ⟨hdesc.loaded_iff id u d hd, ?_, ?_, hbacked, hdesc.key id u d hd⟩
    · intro hloaded
      have hnone := hslot hloaded
      cases hb : d.backing with
      | anonymous => exact absurd hb hbacked
      | privateFile w => exact Or.inl ⟨w, rfl⟩
      | mappedFile w => exact Or.inr ⟨w, rfl⟩
      | swapped slot | privateParked w slot | mappedParked w slot =>
        rw [hb] at hnone
        cases hnone
    · rintro (⟨slot, hb⟩ | ⟨w, slot, hb⟩ | ⟨w, slot, hb⟩)
      · exact hparked slot (by rw [hb]; rfl)
      · exact hparked slot (by rw [hb]; rfl)
      · exact hparked slot (by rw [hb]; rfl)
  · intro id u origin es t horigin hpassed hes
    obtain ⟨d, hd, _⟩ := Option.bind_eq_some_iff.mp horigin
    exact hpassed.origin? hagrees (hdesc.upage id u d hd).1 hes horigin

/-- A byte of a mapping is read, and the stack takes the frame of its page. -/
def mappedPageEvicted : List Event :=
  [.request (.read 0 pageSize 1), .request (.fault 0 topPage topPage)]

/-- With one frame, a page of a mapping that was only read is moved to a slot when the stack
takes its frame. Then it is not mapped, and still knows which part of its file it shows. -/
theorem Pager.Visited.descriptors_exact_oneFrame :
    (∃ d, (threeBytesMapped.ran mappedPageEvicted).descriptor? 0 pageSize = some d
        ∧ d.loaded = false ∧ d.upage = pageSize)
      ∧ (threeBytesMapped.ran mappedPageEvicted).address? 0 pageSize = none
      ∧ (threeBytesMapped.ran mappedPageEvicted).origin? 0 pageSize
        = threeBytesMapped.origin? 0 pageSize := by
  have hstart : Run (oneFrame #[.ofBytes [1, 2, 3]]) _ threeBytesMapped :=
    run_ran (by decide +kernel)
  have hrun : Run threeBytesMapped mappedPageEvicted _ := run_ran (by decide +kernel)
  have hvisited : threeBytesMapped.Visited :=
    Reachable.visited ⟨_, _, isStart_oneFrame _, hstart⟩
  have hvisited' : (threeBytesMapped.ran mappedPageEvicted).Visited :=
    Reachable.visited ⟨_, _, isStart_oneFrame _, hstart.append hrun⟩
  obtain ⟨hexact, _⟩ := Pager.Visited.descriptors_exact hvisited'
  obtain ⟨_, hkeeps⟩ := Pager.Visited.descriptors_exact hvisited
  -- neither a read nor a fault releases a page
  have hspares : ∀ front e rest q, mappedPageEvicted = front ++ e :: rest →
      Run threeBytesMapped front q → ¬ e.Releases q 0 pageSize := by
    intro front e rest q hsplit _ hreleases
    have he : e ∈ mappedPageEvicted := hsplit ▸ List.mem_append_right _ (List.mem_cons_self ..)
    simp only [mappedPageEvicted, List.mem_cons, List.not_mem_nil, or_false] at he
    rcases he with rfl | rfl <;> cases hreleases
  obtain ⟨origin, horigin⟩ := Option.isSome_iff_exists.mp
    (by decide +kernel : (threeBytesMapped.origin? 0 pageSize).isSome = true)
  have hafter := hkeeps 0 pageSize origin _ _ horigin hrun.passed hspares
  obtain ⟨d, hd, _⟩ := Option.bind_eq_some_iff.mp hafter
  obtain ⟨hloaded, _, hparked, _, hkey⟩ := hexact 0 pageSize d hd
  have hslot : ((threeBytesMapped.ran mappedPageEvicted).descriptor? 0 pageSize).map
      (fun d => d.backing) = some (.mappedParked ⟨⟨0, 1⟩, 0, 3, pageSize - 3⟩ 0) := by
    decide +kernel
  rw [hd, Option.map_some] at hslot
  have hfalse := hparked (Or.inr (Or.inr ⟨_, _, Option.some.inj hslot⟩))
  refine ⟨⟨d, hd, hfalse, hkey⟩, ?_, hafter.trans horigin.symm⟩
  cases hx : (threeBytesMapped.ran mappedPageEvicted).address? 0 pageSize with
  | none => rfl
  | some x =>
    have htrue := hloaded.mpr (by rw [hx]; rfl)
    rw [hfalse] at htrue
    cases htrue

end DemandPaging

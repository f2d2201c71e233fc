import DemandPaging.Proofs.PageAlterations
/-!
# Steps

An operation works on one page at a time. What it does for one page is a step (`Leads`): a
sequence of moves in which pages are loaded from the files as they are at the end, and in
which no other page is brought into a frame (`Pager.Steady`). A copy takes a step for each of
its pages, and passes a state after each (`Through`).
-/

namespace DemandPaging

open Pager

variable {n : Nat}

/-- What a change makes of a page that stays in its frame. -/
def Change.onPage (o : SpaceId) (v : Nat) (page : Page) : Change → Page
  | .stored id upage start bytes =>
    if o = id ∧ v = upage then page.overwrite start bytes else page
  | _ => page

namespace Pager

/-- A page is in a frame before and after some changes, and was in it all the time: it holds what
it held, but for the bytes that the changes stored in it, and is dirty if it was. -/
structure Stays (p : Pager n) (o : SpaceId) (v : Nat) (page : Page) (cs : List Change)
    (q : Pager n) : Prop where
  framed? : q.framed? o v = some (cs.foldl (Change.onPage o v) page)
  dirty : (∀ u, .dirtied o u false ∉ cs) → p.has .dirty o v = true → q.has .dirty o v = true

namespace Stays

variable {p q r : Pager n} {o : SpaceId} {v : Nat} {page : Page} {cs ds : List Change}

theorem refl (h : p.framed? o v = some page) : p.Stays o v page [] p := ⟨h, fun _ hdirty => hdirty⟩

theorem of_samePage (h : SamePage p q o v) (hpage : p.framed? o v = some page)
    (hcs : cs.foldl (Change.onPage o v) page = page) : p.Stays o v page cs q :=
  ⟨by rw [h.framed?, hcs, hpage], fun _ hdirty => h.dirty.trans hdirty⟩

theorem trans (h : p.Stays o v page cs q)
    (h' : q.Stays o v (cs.foldl (Change.onPage o v) page) ds r) :
    p.Stays o v page (cs ++ ds) r where
  framed? := by rw [h'.framed?, List.foldl_append]
  dirty hcs hdirty := h'.dirty (fun u hc => hcs u (List.mem_append_right _ hc))
    (h.dirty (fun u hc => hcs u (List.mem_append_left _ hc)) hdirty)

theorem samePage (h : p.Stays o v page cs q) (hr : SamePage q r o v) : p.Stays o v page cs r where
  framed? := hr.framed?.trans h.framed?
  dirty hcs hdirty := hr.dirty.trans (h.dirty hcs hdirty)

end Stays

/-- What happens to the frames of pages when at most the page `upage` of the space `id` is
brought into one. -/
structure Steady (p : Pager n) (id : SpaceId) (upage : Nat) (cs : List Change) (q : Pager n) :
    Prop where
  kept : ∀ o v page, PageAligned v → p.framed? o v = some page →
    q.framed? o v = none ∨ p.Stays o v page cs q
  away : ∀ o v, PageAligned v → ¬(o = id ∧ v = upage) → p.framed? o v = none →
    q.framed? o v = none
  /-- Bytes are stored only in pages that are in frames. -/
  untouched : (∀ c ∈ cs, ∃ o u start bytes, c = .stored o u start bytes) → ∀ o v, PageAligned v →
    ¬(o = id ∧ v = upage) → p.framed? o v = none → SamePage p q o v

/-- Pages are left alone, or are taken out of their frames. -/
def Thins (p q : Pager n) : Prop :=
  ∀ o v, PageAligned v → (p.framed? o v).isSome = true ∧ q.framed? o v = none ∨ SamePage p q o v

namespace Steady

variable {p q r : Pager n} {id : SpaceId} {upage : Nat} {cs : List Change}

theorem refl : p.Steady id upage [] p :=
  ⟨fun _ _ _ _ hpage => Or.inr (.refl hpage), fun _ _ _ _ h => h, fun _ _ _ _ _ _ => .refl⟩

theorem thins (h : p.Steady id upage cs q) (hr : q.Thins r) : p.Steady id upage cs r where
  kept o v page hv hpage := by
    rcases hr o v hv with ⟨_, hnone⟩ | hsame
    · exact Or.inl hnone
    · rw [hsame.framed?]
      exact (h.kept o v page hv hpage).imp_right (·.samePage hsame)
  away o v hv hours hnone := by
    rcases hr o v hv with ⟨_, hnone'⟩ | hsame
    · exact hnone'
    · exact hsame.framed?.trans (h.away o v hv hours hnone)
  untouched hcs o v hv hours hnone := by
    rcases hr o v hv with ⟨hframed, _⟩ | hsame
    · rw [h.away o v hv hours hnone] at hframed
      cases hframed
    · exact (h.untouched hcs o v hv hours hnone).trans hsame

/-- The page in question comes into a frame, and was in none at first. -/
theorem brought (h : p.Steady id upage cs q)
    (hothers : ∀ o v, PageAligned v → ¬(o = id ∧ v = upage) → SamePage q r o v)
    (hgone : p.framed? id upage = none) : p.Steady id upage cs r where
  kept o v page hv hpage := by
    by_cases hours : o = id ∧ v = upage
    · obtain ⟨rfl, rfl⟩ := hours
      exact absurd (hgone.symm.trans hpage) (by simp)
    · have hsame := hothers o v hv hours
      rw [hsame.framed?]
      exact (h.kept o v page hv hpage).imp_right (·.samePage hsame)
  away o v hv hours hnone := (hothers o v hv hours).framed?.trans (h.away o v hv hours hnone)
  untouched hcs o v hv hours hnone :=
    (h.untouched hcs o v hv hours hnone).trans (hothers o v hv hours)

end Steady

end Pager

/-- A page that a change finds in a frame stays there or leaves it, and only the growth of a
stack brings a page into a frame. -/
theorem Alters.stays {p q : Pager n} {c : Change} (h : Alters p c q) {o : SpaceId} {v : Nat}
    (hv : PageAligned v) : q.framed? o v = none ∨ c = .grown o v
      ∨ (∀ page, p.framed? o v = some page → p.Stays o v page [c] q)
        ∧ (p.framed? o v = none → q.framed? o v = none) := by
  have hsame : SamePage p q o v → (∀ page, c.onPage o v page = page) →
      q.framed? o v = none ∨ c = .grown o v
        ∨ (∀ page, p.framed? o v = some page → p.Stays o v page [c] q)
          ∧ (p.framed? o v = none → q.framed? o v = none) := fun hpages heq =>
    Or.inr (Or.inr ⟨fun page hpage => .of_samePage hpages hpage (heq page),
      fun hnone => hpages.framed?.trans hnone⟩)
  cases h with
  | @grown o' u _ hothers =>
    by_cases hours : o = o' ∧ v = u
    · obtain ⟨rfl, rfl⟩ := hours
      exact Or.inr (Or.inl rfl)
    · exact hsame (hothers o v hv hours) fun _ => rfl
  | @stored o' u start bytes page _ hothers _ _ hpage _ hframed hdirty =>
    by_cases hours : o = o' ∧ v = u
    · obtain ⟨rfl, rfl⟩ := hours
      refine Or.inr (Or.inr ⟨?_, fun hnone => absurd (hnone.symm.trans hpage) (by simp)⟩)
      intro held hheld
      cases hpage.symm.trans hheld
      exact ⟨hframed.trans (congrArg some (if_pos ⟨rfl, rfl⟩).symm), fun _ _ => hdirty⟩
    · exact hsame (hothers o v hv hours) fun _ => if_neg hours
  | @dirtied o' u value _ hothers _ hframed hdirty =>
    by_cases hours : o = o' ∧ v = pageBase u
    · obtain ⟨rfl, rfl⟩ := hours
      refine Or.inr (Or.inr ⟨?_, fun hnone => hframed.trans hnone⟩)
      intro page hpage
      refine ⟨hframed.trans hpage, fun hcs _ => ?_⟩
      cases value with
      | true => rw [hdirty, hpage, Option.isSome_some, Bool.true_and]
      | false => exact absurd (List.mem_singleton_self _) (hcs u)
    · exact hsame (hothers o v hv hours) fun _ => rfl
  | @described o' d _ _ hothers _ _ _ _ hgone =>
    by_cases hours : o = o' ∧ v = d.upage
    · obtain ⟨rfl, rfl⟩ := hours
      exact Or.inl hgone
    · exact hsame (hothers o v hv hours) fun _ => rfl
  | @mapped o' index base _ _ hothers _ _ hafter =>
    by_cases hours : o = o' ∧ v ∈ pageRange base (pagesFor (p.file index).length)
    · obtain ⟨rfl, hrange⟩ := hours
      obtain ⟨i, hi, rfl⟩ := mem_pageRange.mp hrange
      exact Or.inl (hafter i hi).2
    · exact hsame (hothers o v hv hours) fun _ => rfl
  | unlisted hpages => exact hsame (hpages o v hv) fun _ => rfl
  | @dropped o' u _ _ hothers _ _ _ _ _ hgone =>
    by_cases hours : o = o' ∧ v = u
    · obtain ⟨rfl, rfl⟩ := hours
      exact Or.inl hgone
    · exact hsame (hothers o v hv hours) fun _ => rfl
  | closed hpages => exact hsame (hpages o v hv) fun _ => rfl
  | @vacated o' _ hothers _ hgone =>
    by_cases ho : o = o'
    · subst ho
      exact Or.inl (hgone v).2
    · exact hsame (hothers o v hv ho) fun _ => rfl
  | rewritten hpages => exact hsame (hpages o v hv) fun _ => rfl

/-- Of all changes only the growth of a stack brings a page into a frame. -/
theorem Pager.Steady.alters {p q r : Pager n} {id : SpaceId} {upage : Nat} {cs : List Change}
    {c : Change} (h : p.Steady id upage cs q) (hr : Alters q c r)
    (hgrown : ∀ o u, c = .grown o u → o = id ∧ u = upage ∧ p.framed? o u = none) :
    p.Steady id upage (cs ++ [c]) r where
  kept o v page hv hp := by
    rcases hr.stays hv with hnone | hc | ⟨hstays, hstill⟩
    · exact Or.inl hnone
    · exact absurd ((hgrown _ _ hc).2.2.symm.trans hp) (by simp)
    · rcases h.kept o v page hv hp with hnone | hold
      · exact Or.inl (hstill hnone)
      · exact Or.inr (hold.trans (hstays _ hold.framed?))
  away o v hv hours hnone := by
    rcases hr.stays hv with hgone | hc | ⟨_, hstill⟩
    · exact hgone
    · exact absurd ⟨(hgrown _ _ hc).1, (hgrown _ _ hc).2.1⟩ hours
    · exact hstill (h.away o v hv hours hnone)
  untouched hcs o v hv hours hnone := by
    have hsame := h.untouched (fun c hc => hcs c (List.mem_append_left _ hc)) o v hv hours hnone
    obtain ⟨o', u, start, bytes, rfl⟩ := hcs c (List.mem_append_right _ (List.mem_singleton_self _))
    refine hsame.trans ?_
    cases hr with
    | stored hothers _ _ hpage =>
      refine hothers o v hv fun hpages => ?_
      -- the page that bytes are stored in is in a frame
      rw [hpages.1, hpages.2] at hsame hnone
      exact absurd (hpage.symm.trans (hsame.framed?.trans hnone)) (by simp)

/-- Where no page can be loaded, pages only leave their frames. -/
theorem Shift.thins {p q : Pager n} (h : Shift (fun _ => False) p q) : p.Thins q := by
  intro o v hv
  cases h with
  | still hpages _ => exact Or.inr (hpages o v hv)
  | @evicted o' v' _ _ _ hothers _ hpage _ _ hgone =>
    by_cases hours : o = o' ∧ v = v'
    · obtain ⟨rfl, rfl⟩ := hours
      exact Or.inl ⟨Option.isSome_of_mem hpage, hgone⟩
    · exact Or.inr (hothers o v hv hours)
  | loaded _ _ _ _ _ hsource => exact hsource.elim

/-- Moves that load no page and extend no stack bring no page into a frame. -/
theorem Chain.steady {p q : Pager n} {f g : Option (Fin n)} {cs : List Change}
    (h : Chain (fun _ => False) p f cs q g) (hp : p.Agrees f) (hcs : ∀ o u, .grown o u ∉ cs)
    (id : SpaceId) (upage : Nat) : p.Steady id upage cs q := by
  induction h with
  | refl => exact .refl
  | quiet h move ih => exact (ih hcs).thins (move.shift (h.agrees hp)).thins
  | visible h move ih =>
    refine (ih fun o u hc => hcs o u (List.mem_append_left _ hc)).alters
      (move.alters (h.agrees hp)) ?_
    intro o u hc
    exact absurd (List.mem_append_right _ (hc ▸ List.mem_singleton_self _)) (hcs o u)

/-- Moves that load no page and change nothing leave every page alone that is in no frame. -/
theorem Chain.samePage_of_absent {p q : Pager n} {f g : Option (Fin n)}
    (h : Chain (fun _ => False) p f [] q g) (hp : p.Agrees f) {o : SpaceId} {v : Nat}
    (hv : PageAligned v) (hnone : p.framed? o v = none) : SamePage p q o v :=
  (h.steady hp (fun _ _ => List.not_mem_nil) (o + 1) v).untouched
    (fun _ hc => absurd hc List.not_mem_nil) o v hv (fun hours => Nat.ne_add_one o hours.1) hnone

/-- A step from `p` to `q` for the page `upage` of the space `id`, with the changes `cs`: all
pages that are loaded on the way are loaded from the files as they are in `q`, and no page but
this one is brought into a frame. -/
structure Leads (id : SpaceId) (upage : Nat) (p : Pager n) (cs : List Change) (q : Pager n) :
    Prop where
  along : ∀ S : Array OpenFile → Prop, S q.files → Chain S p none cs q none
  steady : p.Steady id upage cs q

namespace Leads

variable {p q r : Pager n} {id : SpaceId} {upage : Nat} {cs : List Change}

theorem refl : Leads id upage p [] p := ⟨fun _ _ => .refl, .refl⟩

theorem chain (h : Leads id upage p cs q) : Chain (fun _ => True) p none cs q none :=
  h.along _ trivial

theorem agrees (h : Leads id upage p cs q) (hp : p.Agrees none) : q.Agrees none :=
  h.chain.agrees hp

theorem of_chain (h : ∀ S, Chain S p none cs q none) (hp : p.Agrees none)
    (hcs : ∀ o u, .grown o u ∉ cs) : Leads id upage p cs q :=
  ⟨fun S _ => h S, (h _).steady hp hcs id upage⟩

theorem quiet (h : Leads id upage p cs q) (hp : p.Agrees none) (move : ∀ S, Quiet S q none r none)
    (hfiles : r.files = q.files) : Leads id upage p cs r :=
  ⟨fun S hS => (h.along S (hfiles ▸ hS)).quiet (move S),
    h.steady.thins ((move _).shift (h.agrees hp)).thins⟩

theorem visible {c : Change} (h : Leads id upage p cs q) (hp : p.Agrees none)
    (move : Visible q none c r none) (hfiles : r.files = q.files) (hgrown : ∀ o u, c ≠ .grown o u) :
    Leads id upage p (cs ++ [c]) r :=
  ⟨fun S hS => (h.along S (hfiles ▸ hS)).visible move,
    h.steady.alters (move.alters (h.agrees hp)) fun o u hc => absurd hc (hgrown o u)⟩

end Leads

/-- Steps through states of which `P` says something, the last one included. -/
inductive Through (P : Pager n → Prop) (p : Pager n) : List Change → Pager n → Prop where
  | refl : Through P p [] p
  | step {cs ds : List Change} {q r : Pager n} {id : SpaceId} {upage : Nat}
      (h : Through P p cs q) (leads : Leads id upage q ds r) (hr : P r) : Through P p (cs ++ ds) r

namespace Through

variable {P Q : Pager n → Prop} {p q r : Pager n} {cs ds : List Change}

theorem of_leads {id : SpaceId} {upage : Nat} (h : Leads id upage p cs q) (hq : P q) :
    Through P p cs q :=
  Through.refl.step h hq

theorem trans (h : Through P p cs q) (h' : Through P q ds r) : Through P p (cs ++ ds) r := by
  induction h' with
  | refl => rwa [List.append_nil]
  | step _ leads hr ih =>
    rw [← List.append_assoc]
    exact ih.step leads hr

theorem mono (h : Through P p cs q) (hPQ : ∀ r, P r → Q r) : Through Q p cs q := by
  induction h with
  | refl => exact .refl
  | step _ leads hr ih => exact ih.step leads (hPQ _ hr)

/-- Steps are a sequence of moves in which pages are loaded from the files of the states
that the steps lead to. -/
theorem chain {S : Array OpenFile → Prop} (h : Through P p cs q) (hS : ∀ r, P r → S r.files) :
    Chain S p none cs q none := by
  induction h with
  | refl => exact .refl
  | step _ leads hr ih => exact ih.trans (leads.along S (hS _ hr))

theorem agrees (h : Through P p cs q) (hp : p.Agrees none) : q.Agrees none :=
  (h.chain (S := fun _ => True) fun _ _ => trivial).agrees hp

end Through

end DemandPaging

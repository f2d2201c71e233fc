import DemandPaging.Proofs.CopyProgress
import DemandPaging.Proofs.MappedBytes
/-!
# The life of a mapping

From the call that maps a file until the mapping is taken down, a run keeps the pages of the
mapping and its file together (`Carries`): each byte is the last one that its process stored
there, or the original one (`Run.carries`).

`Run.filled` and `Run.unfilled` tell the length of the file by whether the last page of the
mapping was dirty in any state that the run passed.
-/

namespace DemandPaging

open Pager

variable {n : Nat}

/-- An event that clears no dirty flag, leaves a mapping in place and does not change its
file. -/
structure Event.Spares (id : SpaceId) (m file : Nat) (e : Event) : Prop where
  keepsDirty : e.KeepsDirty
  live : ¬ e.TakesDown id m
  untouched : ∀ data medium?, e ≠ .rewrite file data medium?

/-- No live mapping but one shows the file. -/
def Pager.MapsOnce (p : Pager n) (id : SpaceId) (m file : Nat) : Prop :=
  ∀ o k fm, p.mapping? o k = some fm → fm.source.file = file → o = id ∧ k = m

/-- Events that do not map a file leave it to the mapping that shows it. -/
theorem Passed.mapsOnce {p t : Pager n} {es : List Event} {id : SpaceId} {m file : Nat}
    (h : Passed p es t) (hp : p.Agrees none)
    (hes : ∀ e ∈ es, ∀ o base, e ≠ .request (.mapFile o file base))
    (honce : p.MapsOnce id m file) : t.MapsOnce id m file := by
  refine h.preserves (I := fun p => p.MapsOnce id m file) (H := fun _ => True)
    (P := fun e => ∀ o base, e ≠ .request (.mapFile o file base))
    (fun {p r e} hp he hother _ hpasses honce => ?_) hp hes (fun _ _ => trivial) honce
  obtain ⟨cs, hmade, hchain⟩ := hpasses.chain (S := fun _ => True) hp he fun _ _ => trivial
  intro o k fm hk hfile
  rcases hchain.mapping?_before hk with hk | hmem
  · exact honce o k fm hk hfile
  · cases hmade.causes hmem with
    | mapped =>
      cases hfile
      exact absurd rfl (hother _ _)

/-- A file of `length` bytes is mapped at `base`, and each byte of it is where it belongs. -/
structure Pager.Carries (p : Pager n) (id : SpaceId) (m : Nat) (source : FileRef)
    (base length : Nat) (byte? : Nat → Option UInt8) : Prop where
  mapping : p.mapping? id m = some ⟨source, base, pagesFor length⟩
  maps : p.Maps id source base length
  shows : p.Shows id source base length byte?

/-- The last byte that the events of a run store at the address `a` of the space `id`. -/
def Pager.lastStored? (id : SpaceId) (a : Nat) : Pager n → List Event → Option UInt8
  | _, [] => none
  | p, e :: rest => match e.apply p with
    | some q => (lastStored? id a q rest).or (e.storedByte? p id a)
    | none => none

theorem Pager.lastStored?_append {p q : Pager n} {es es' : List Event} (hrun : Run p es q)
    (id : SpaceId) (a : Nat) : p.lastStored? id a (es ++ es')
      = (q.lastStored? id a es').or (p.lastStored? id a es) := by
  induction hrun with
  | refl => exact (Option.or_none ..).symm
  | step _ happly _ ih =>
    rw [List.cons_append, lastStored?, lastStored?, happly]
    simp only
    rw [ih, Option.or_assoc]

section Mapping

variable {p q t : Pager n} {e : Event} {cs : List Change} {S : Array OpenFile → Prop} {id : SpaceId}
  {m base length : Nat} {source : FileRef} {byte? : Nat → Option UInt8}

/-- A page of a live mapping is there. -/
theorem Pager.Carries.not_vacant (h : p.Carries id m source base length byte?) (hp : p.Agrees none)
    {v : Nat} (hv : v ∈ pageRange base (pagesFor length)) : ¬ p.Vacant id v := by
  intro hvacant
  obtain ⟨j, hj, rfl⟩ := mem_pageRange.mp hv
  obtain ⟨d, w, hd, _⟩ := hp.mappings.described id m _ j h.mapping hj
  exact absurd (hvacant.1.symm.trans hd) (by simp)

/-- Changes that respect a mapping and do not strike it off the list carry it on. -/
theorem Pager.Carries.of_chain {f g : Option (Fin n)} (h : p.Carries id m source base length byte?)
    (hp : p.Agrees f) (hchain : Chain S p f cs q g)
    (hcs : ∀ c ∈ cs, c.Respects id source base length) (hunlisted : .unlisted id m ∉ cs)
    (hvacated : .vacated id ∉ cs) :
    q.Carries id m source base length (fun a => cs.foldl (Change.byteAfter id a) (byte? a))
      ∧ Touches id source base length p cs q := by
  obtain ⟨hmaps, htouches⟩ := hchain.touches hp h.maps hcs hvacated
  exact ⟨⟨hchain.mapping?_of_not_mem hp h.mapping hunlisted, hmaps,
    htouches.shows h.maps.aligned h.shows⟩, htouches⟩

/-- What an event does, it does with respect to a mapping that it spares. -/
theorem Event.HasMade.respects (hmade : e.HasMade p cs) (hp : p.Agrees none) (he : e.Permitted p)
    (hspares : e.Spares id m source.file) (h : p.Carries id m source base length byte?)
    (hchain : Chain S p none cs t none) (ht : t.MapsOnce id m source.file) :
    ∀ c ∈ cs, c.Respects id source base length := by
  intro c hmem
  have hc := hmade.causes hmem
  have hexit : e ≠ .request (.exit id) := fun heq => hspares.live (Or.inr heq)
  refine ⟨?_, ?_⟩
  · intro v hv hcreates
    obtain ⟨hspare, hleaves⟩ := hc.spares (K := fun _ => True) he (h.not_vacant hp hv)
    have hspare := hspare hspares.keepsDirty
    have hleaves := hleaves hexit
    cases c with
    | grown => exact hleaves hcreates
    | described => exact hleaves hcreates
    | mapped => exact hspare hcreates
    | _ => exact hcreates
  · cases hc with
    | dirtied => exact hspares.keepsDirty
    | @mapped o index b handle _ =>
      intro heq
      subst heq
      -- the new mapping would show the file as well
      obtain ⟨k, hk, hnew⟩ := hchain.mapping?_of_mapped hp hmem fun k hunlisted => by
        cases hmade.causes hunlisted with
        | unlisted hdown _ => rcases hdown with hdown | hdown <;> cases hdown
      obtain ⟨rfl, rfl⟩ := ht _ _ _ hk rfl
      rw [h.mapping] at hnew
      cases hnew
    | rewritten =>
      intro heq
      subst heq
      exact hspares.untouched _ _ rfl
    | _ => trivial

/-- An event that spares a mapping carries it on to each state that it passes. -/
theorem Event.HasMade.carries (hmade : e.HasMade p cs) (hp : p.Agrees none) (he : e.Permitted p)
    (hspares : e.Spares id m source.file) (h : p.Carries id m source base length byte?)
    (hchain : Chain S p none cs t none) (ht : t.MapsOnce id m source.file) :
    t.Carries id m source base length (fun a => cs.foldl (Change.byteAfter id a) (byte? a))
      ∧ Touches id source base length p cs t := by
  refine h.of_chain hp hchain (hmade.respects hp he hspares h hchain ht) ?_ ?_
  · intro hmem
    cases hmade.causes hmem with
    | unlisted hdown _ => exact hspares.live hdown
  · intro hmem
    cases hmade.causes hmem with
    | vacated => exact hspares.live (Or.inr rfl)

/-- What an event does to a mapping that it spares. -/
theorem Event.carries (hp : p.Agrees none) (he : e.Permitted p) (hq : e.apply p = some q)
    (hspares : e.Spares id m source.file) (h : p.Carries id m source base length byte?)
    (hsole : q.MapsOnce id m source.file) :
    q.Carries id m source base length (fun a => (e.storedByte? p id a).or (byte? a))
      ∧ ∃ cs, e.Makes p cs ∧ Touches id source base length p cs q := by
  obtain ⟨cs, hmakes, hchain⟩ := e.chain (S := fun _ => True) hp he hq fun _ _ => trivial
  obtain ⟨hcarries, htouches⟩ := Event.HasMade.carries (Or.inl hmakes) hp he hspares h hchain hsole
  simp only [hmakes.foldl_byteAfter] at hcarries
  exact ⟨hcarries, cs, hmakes, htouches⟩

/-- A run carries a mapping on, with the bytes that it stores. -/
theorem Run.carries {es : List Event} (hrun : Run p es q) (hp : p.Agrees none)
    (hes : ∀ e ∈ es, e.Spares id m source.file)
    (hsole : ∀ t, Passed p es t → t.MapsOnce id m source.file)
    (h : p.Carries id m source base length byte?) :
    q.Carries id m source base length fun a => (p.lastStored? id a es).or (byte? a) := by
  induction hrun generalizing byte? with
  | refl => exact h
  | @step p r q e es he happly rest ih =>
    have hr := (Event.carries hp he happly (hes e (List.mem_cons_self ..)) h
      (hsole r (.within he (Event.passes_of_apply happly)))).1
    have hq := ih (Event.agrees hp he happly) (fun e' he' => hes e' (List.mem_cons_of_mem _ he'))
      (fun t ht => hsole t (.later he happly ht)) hr
    have hlast : ∀ a, p.lastStored? id a (e :: es)
        = (r.lastStored? id a es).or (e.storedByte? p id a) := fun a => by
      rw [lastStored?, happly]
    simp only [hlast, Option.or_assoc]
    exact hq

/-! ## The length of the file -/

/-- Once the file is filled up, or will be, this stays so. -/
theorem Run.filled {es : List Event} (hrun : Run p es q) (hp : p.Agrees none)
    (hes : ∀ e ∈ es, e.Spares id m source.file)
    (hsole : ∀ t, Passed p es t → t.MapsOnce id m source.file) (hlength : length ≠ 0)
    (h : p.Carries id m source base length byte?) (hfilled : p.Filled id source base length) :
    q.Filled id source base length := by
  induction hrun generalizing byte? with
  | refl => exact hfilled
  | @step p r q e es he happly rest ih =>
    obtain ⟨hr, cs, _, htouches⟩ := Event.carries hp he happly (hes e (List.mem_cons_self ..)) h
      (hsole r (.within he (Event.passes_of_apply happly)))
    exact ih (Event.agrees hp he happly) (fun e' he' => hes e' (List.mem_cons_of_mem _ he'))
      (fun t ht => hsole t (.later he happly ht)) hr
      (htouches.filled h.maps.aligned hlength h.shows hfilled)

/-- If the last page is dirty in the middle of an event, the file is filled up or will be when
the event is over. -/
theorem Event.filled_of_passes (hp : p.Agrees none) (he : e.Permitted p) (hq : e.apply p = some q)
    (hspares : e.Spares id m source.file) (h : p.Carries id m source base length byte?)
    (hpasses : e.Passes p t) (hsole : t.MapsOnce id m source.file) (hlength : length ≠ 0)
    (hdirty : t.has .dirty id (lastPage base length) = true) : q.Filled id source base length := by
  have ht := hpasses.agrees hp he
  obtain ⟨cs, hmade, hchain⟩ := hpasses.chain (S := fun _ => True) hp he fun _ _ => trivial
  have hcarries := (hmade.carries hp he hspares h hchain hsole).1
  obtain ⟨_, ds, _, hstores, hrest⟩ := hpasses.rest hp he hq
  have htouches := (hrest.touches ht hcarries.maps (fun c hc => by
    obtain ⟨o, u, start, part, rfl⟩ := hstores c hc
    exact ⟨fun _ _ hcreates => hcreates, trivial⟩) fun hc => by
      obtain ⟨o, u, start, part, heq⟩ := hstores _ hc
      cases heq).2
  exact htouches.filled h.maps.aligned hlength hcarries.shows (Or.inr hdirty)

/-- If the last page was ever dirty, the file is filled up or will be. -/
theorem Run.filled_of_passed {es : List Event} (hrun : Run p es q) (hp : p.Agrees none)
    (hes : ∀ e ∈ es, e.Spares id m source.file)
    (hsole : ∀ t, Passed p es t → t.MapsOnce id m source.file) (hlength : length ≠ 0)
    (h : p.Carries id m source base length byte?) (ht : Passed p es t)
    (hdirty : t.has .dirty id (lastPage base length) = true) : q.Filled id source base length := by
  induction hrun generalizing byte? with
  | refl =>
    cases ht with
    | start => exact Or.inr hdirty
  | @step p r q e es he happly rest ih =>
    have hspares := hes e (List.mem_cons_self ..)
    have hr := Event.agrees hp he happly
    have hes' := fun e' he' => hes e' (List.mem_cons_of_mem _ he')
    have hsole' := fun s hs => hsole s (Passed.later he happly hs)
    obtain ⟨hcarries, cs, _, htouches⟩ := Event.carries hp he happly hspares h
      (hsole r (.within he (Event.passes_of_apply happly)))
    -- the dirty state is the first one, one within the first event, or one of the later events
    cases ht with
    | start =>
      exact rest.filled hr hes' hsole' hlength hcarries
        (htouches.filled h.maps.aligned hlength h.shows (Or.inr hdirty))
    | within he' hpasses =>
      exact rest.filled hr hes' hsole' hlength hcarries
        (Event.filled_of_passes hp he happly hspares h hpasses (hsole t (.within he hpasses))
          hlength hdirty)
    | later he' happly' ht =>
      cases happly'.symm.trans happly
      exact ih hr hes' hsole' hcarries ht

/-- As long as no state has the last page dirty, an event leaves the length of the file. -/
theorem Event.unfilled (hp : p.Agrees none) (he : e.Permitted p) (hq : e.apply p = some q)
    (hspares : e.Spares id m source.file) (h : p.Carries id m source base length byte?)
    (hsole : q.MapsOnce id m source.file) (hlength : length ≠ 0)
    (hclean : ∀ t, e.Passes p t → t.has .dirty id (lastPage base length) = false)
    (hun : p.Unfilled id source base length) : q.Unfilled id source base length := by
  obtain ⟨_, cs, hmakes, htouches⟩ := Event.carries hp he hq hspares h hsole
  have hstored : ∀ start bytes, .stored id (lastPage base length) start bytes ∉ cs := by
    intro start bytes hmem
    obtain ⟨t, hpasses, hdirty⟩ := hmakes.passes_dirty hp hmem
    rw [hclean t hpasses] at hdirty
    cases hdirty
  by_cases hmarks : ∃ u value, .dirtied id u value ∈ cs
  · -- the flag of a page that is in no frame is not set, and nothing is written
    obtain ⟨u, value, hmem⟩ := hmarks
    cases Event.HasMade.causes (Or.inl hmakes) hmem
    cases hq
    exact ⟨hun.1, hclean _ (.ended rfl)⟩
  · exact htouches.unfilled h.maps.aligned hlength h.shows hstored
      (fun u value _ hmem => hmarks ⟨u, value, hmem⟩) hun

theorem Run.unfilled {es : List Event} (hrun : Run p es q) (hp : p.Agrees none)
    (hes : ∀ e ∈ es, e.Spares id m source.file)
    (hsole : ∀ t, Passed p es t → t.MapsOnce id m source.file) (hlength : length ≠ 0)
    (h : p.Carries id m source base length byte?)
    (hclean : ∀ t, Passed p es t → t.has .dirty id (lastPage base length) = false)
    (hun : p.Unfilled id source base length) : q.Unfilled id source base length := by
  induction hrun generalizing byte? with
  | refl => exact hun
  | @step p r q e es he happly rest ih =>
    have hspares := hes e (List.mem_cons_self ..)
    have hr := hsole r (.within he (Event.passes_of_apply happly))
    exact ih (Event.agrees hp he happly) (fun e' he' => hes e' (List.mem_cons_of_mem _ he'))
      (fun t ht => hsole t (.later he happly ht)) (Event.carries hp he happly hspares h hr).1
      (fun t ht => hclean t (.later he happly ht))
      (Event.unfilled hp he happly hspares h hr hlength (fun t ht => hclean t (.within he ht)) hun)

end Mapping

end DemandPaging

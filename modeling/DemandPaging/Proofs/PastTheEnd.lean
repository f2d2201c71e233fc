import DemandPaging.Proofs.MappedTails
import DemandPaging.Proofs.StayingPages
/-!
# Bytes past the end of a mapped file

A process may store bytes past the end of a file in the last page of its mapping. As long as the
page stays in its frame they are there (`LastStore.held`), and zeros once it has left it
(`LastStore.gone`): a page that is written back takes them to the file, but is loaded up to the
old end of the file only. The file is filled up to whole pages if anything was stored in its
last page (`Run.filled_of_stored`), and keeps its length if not.
-/

namespace DemandPaging

open Pager PagerAction Outcome

variable {n : Nat}

/-! ## What a run stores -/

theorem foldl_byteAfter_cases (cs : List Change) (id : SpaceId) (a : Nat) :
    (∀ b? : Option UInt8, cs.foldl (Change.byteAfter id a) b? = b?)
      ∨ ∃ x?, ∀ b? : Option UInt8, cs.foldl (Change.byteAfter id a) b? = x? := by
  induction cs with
  | nil => exact Or.inl fun _ => rfl
  | cons c cs ih =>
    have hc : (∀ b? : Option UInt8, c.byteAfter id a b? = b?)
        ∨ ∃ x?, ∀ b? : Option UInt8, c.byteAfter id a b? = x? := by
      cases c with
      | stored o u start bytes =>
        simp only [Change.byteAfter_stored]
        split
        next => exact Or.inr ⟨_, fun _ => rfl⟩
        next => exact Or.inl fun _ => rfl
      | _ => exact Or.inl fun _ => rfl
    simp only [List.foldl_cons]
    rcases hc with hsame | ⟨x?, hconst⟩
    · simp only [hsame]
      exact ih
    · simp only [hconst]
      exact Or.inr ⟨_, fun _ => rfl⟩

theorem isSome_foldl_of_isSome (cs : List Change) (id : SpaceId) (a : Nat) {b? : Option UInt8}
    (h : b?.isSome = true) : (cs.foldl (Change.byteAfter id a) b?).isSome = true := by
  induction cs generalizing b? with
  | nil => exact h
  | cons c cs ih =>
    refine ih ?_
    cases c with
    | stored o u start bytes =>
      rw [Change.byteAfter_stored]
      split
      next hin =>
        rw [List.getElem?_eq_getElem (by omega)]
        rfl
      next => exact h
    | _ => exact h

/-- Changes that store something at a page have stored a byte at the place where it starts. -/
theorem isSome_foldl_of_mem {cs : List Change} {id : SpaceId} {u start : Nat} {part : Bytes}
    (hpart : part ≠ []) (hc : .stored id u start part ∈ cs) (b? : Option UInt8) :
    (cs.foldl (Change.byteAfter id (u + start)) b?).isSome = true := by
  induction cs generalizing b? with
  | nil => cases hc
  | cons c cs ih =>
    rcases List.mem_cons.mp hc with rfl | hc
    · refine isSome_foldl_of_isSome cs id _ ?_
      have hpos := List.length_pos_iff.mpr hpart
      rw [Change.byteAfter_stored, if_pos ⟨rfl, Nat.le_refl _, by omega⟩, Nat.sub_self,
        List.getElem?_eq_getElem hpos]
      rfl
    · exact ih hc _

theorem ne_nil_of_mem_storesOf {id o : SpaceId} {cs : List Chunk} {bytes part : Bytes}
    {u start : Nat} (hpos : ∀ c ∈ cs, 0 < c.count) (hcount : totalCount cs ≤ bytes.length)
    (h : .stored o u start part ∈ storesOf id cs bytes) : part ≠ [] := by
  induction cs generalizing bytes with
  | nil => cases h
  | cons c cs ih =>
    have hc := hpos c (List.mem_cons_self ..)
    have htotal : totalCount (c :: cs) = c.count + totalCount cs := rfl
    rcases List.mem_cons.mp h with heq | h
    · cases heq
      refine List.ne_nil_of_length_pos ?_
      rw [List.length_take]
      omega
    · refine ih (fun d hd => hpos d (List.mem_cons_of_mem _ hd)) ?_ h
      rw [List.length_drop]
      omega

/-- An event stores no empty pieces, and each in one page. -/
theorem Event.Makes.piece {p : Pager n} {e : Event} {cs : List Change} (h : e.Makes p cs)
    {o : SpaceId} {u start : Nat} {part : Bytes} (hc : .stored o u start part ∈ cs) :
    part ≠ [] ∧ start < pageSize := by
  cases Event.HasMade.causes (Or.inl h) hc with
  | @stored _ address bytes _ c hrange hchunk hpart =>
    have hpos := (bounds_of_mem_chunks hchunk).2
    have hfits := c.fits
    refine ⟨?_, by omega⟩
    cases h with
    | nothing => cases hc
    | @stored _ _ _ front rest _ hchunks hcount =>
      have htotal := totalCount_chunks address bytes.length
      rw [hchunks, totalCount_append] at htotal
      refine ne_nil_of_mem_storesOf (fun d hd => ?_) (by omega) hc
      exact (bounds_of_mem_chunks (hchunks ▸ List.mem_append_left rest hd)).2

section Mapping

variable {p q r t u : Pager n} {es : List Event} {id : SpaceId} {m base length : Nat}
  {source : FileRef} {byte? : Nat → Option UInt8}

/-- What a run does to the pages of a mapping and to its file, with the changes that its events
make. -/
theorem Run.touches (hrun : Run p es q) (hp : p.Agrees none)
    (hes : ∀ e ∈ es, e.Spares id m source.file)
    (hsole : ∀ t, Passed p es t → t.MapsOnce id m source.file)
    (h : p.Carries id m source base length byte?) :
    ∃ cs, Touches id source base length p cs q
      ∧ (∀ a b?, cs.foldl (Change.byteAfter id a) b? = (p.lastStored? id a es).or b?)
      ∧ ∀ c ∈ cs, ∃ e ∈ es, ∃ s ds, Event.Makes (n := n) s e ds ∧ c ∈ ds := by
  induction hrun generalizing byte? with
  | refl => exact ⟨[], .refl, fun _ _ => rfl, fun c hc => absurd hc List.not_mem_nil⟩
  | @step p r q e es he happly rest ih =>
    obtain ⟨hr, cs, hmakes, hfirst⟩ := Event.carries hp he happly (hes e (List.mem_cons_self ..)) h
      (hsole r (.within he (Event.passes_of_apply happly)))
    obtain ⟨ds, hrest, hfold, hmade⟩ := ih (Event.agrees hp he happly)
      (fun e' he' => hes e' (List.mem_cons_of_mem _ he'))
      (fun t ht => hsole t (.later he happly ht)) hr
    refine ⟨cs ++ ds, hfirst.trans hrest, ?_, ?_⟩
    · intro a b?
      rw [List.foldl_append, hfold, hmakes.foldl_byteAfter, lastStored?, happly, Option.or_assoc]
    · intro c hc
      rcases List.mem_append.mp hc with hc | hc
      · exact ⟨e, List.mem_cons_self .., p, cs, hmakes, hc⟩
      · obtain ⟨e', he', hmakes'⟩ := hmade c hc
        exact ⟨e', List.mem_cons_of_mem _ he', hmakes'⟩

/-- A run that stores a byte in the last page fills the file up, or will. -/
theorem Run.filled_of_stored (hrun : Run p es q) (hp : p.Agrees none)
    (hes : ∀ e ∈ es, e.Spares id m source.file)
    (hsole : ∀ t, Passed p es t → t.MapsOnce id m source.file) (hlength : length ≠ 0)
    (h : p.Carries id m source base length byte?) {b : Nat} (hb : b < pageSize)
    (hstored : (p.lastStored? id (lastPage base length + b) es).isSome = true) :
    q.Filled id source base length := by
  obtain ⟨cs, htouches, hfold, _⟩ := hrun.touches hp hes hsole h
  refine htouches.filled_of_stored h.maps.aligned hlength h.shows hb ?_
  rw [hfold, Option.or_none]
  exact hstored

/-- A run that stores no byte in the last page, and marks none, leaves the length of the file. -/
theorem Run.unfilled_of_not_stored (hrun : Run p es q) (hp : p.Agrees none)
    (hes : ∀ e ∈ es, e.Spares id m source.file)
    (hmarks : ∀ e ∈ es, ∀ o u value, e ≠ .request (.setDirty o u value))
    (hsole : ∀ t, Passed p es t → t.MapsOnce id m source.file) (hlength : length ≠ 0)
    (h : p.Carries id m source base length byte?)
    (hnone : ∀ b, b < pageSize → p.lastStored? id (lastPage base length + b) es = none)
    (hun : p.Unfilled id source base length) : q.Unfilled id source base length := by
  obtain ⟨cs, htouches, hfold, hmade⟩ := hrun.touches hp hes hsole h
  refine htouches.unfilled h.maps.aligned hlength h.shows ?_ ?_ hun
  · intro start part hc
    obtain ⟨e, _, s, ds, hmakes, hmem⟩ := hmade _ hc
    obtain ⟨hpart, hstart⟩ := hmakes.piece hmem
    have hsome := isSome_foldl_of_mem hpart hc none
    rw [hfold, hnone start hstart] at hsome
    cases hsome
  · intro v value _ hc
    obtain ⟨e, he, s, ds, hmakes, hmem⟩ := hmade _ hc
    cases Event.HasMade.causes (Or.inl hmakes) hmem with
    | dirtied => exact hmarks _ he _ _ _ rfl

/-! ## Pages that leave their frames -/

theorem Run.framedTail (hrun : Run p es q) (hp : p.Agrees none)
    (hes : ∀ e ∈ es, e.Spares id m source.file)
    (hsole : ∀ t, Passed p es t → t.MapsOnce id m source.file)
    (h : p.Carries id m source base length byte?) {j b : Nat} {b? : Option UInt8}
    (hj : j < pagesFor length) (hb : b < pageSize) (hout : length ≤ j * pageSize + b)
    (htail : p.FramedTail id base j b b?) :
    q.FramedTail id base j b ((p.lastStored? id (base + j * pageSize + b) es).or b?) := by
  obtain ⟨cs, htouches, hfold, _⟩ := hrun.touches hp hes hsole h
  rw [← hfold]
  exact htouches.framedTail h.maps.aligned hj hb hout htail

theorem framedTail_of_gone {j b : Nat} (h : p.framed? id (base + j * pageSize) = none)
    (b? : Option UInt8) : p.FramedTail id base j b b? := fun page hpage => by
  rw [h] at hpage
  cases hpage

/-- What is left of an event that stores nothing at a place stores nothing there. -/
theorem foldl_byteAfter_of_rest {cs ds : List Change} {a : Nat}
    (h : ∀ b? : Option UInt8, (cs ++ ds).foldl (Change.byteAfter id a) b? = b?)
    (b? : Option UInt8) : ds.foldl (Change.byteAfter id a) b? = b? := by
  simp only [List.foldl_append] at h
  rcases foldl_byteAfter_cases ds id a with hsame | ⟨x?, hconst⟩
  · exact hsame b?
  · simp only [hconst] at h
    exact absurd ((h none).symm.trans (h (some 0))) (by simp)

/-- Once a page was in no frame, the bytes past the end of the file that are not stored again
are zeros. -/
theorem Run.framedTail_of_gone (hrun : Run p es q) (hp : p.Agrees none)
    (hes : ∀ e ∈ es, e.Spares id m source.file)
    (hsole : ∀ t, Passed p es t → t.MapsOnce id m source.file)
    (h : p.Carries id m source base length byte?) {j b : Nat} (hj : j < pagesFor length)
    (hb : b < pageSize) (hout : length ≤ j * pageSize + b)
    (hnone : p.lastStored? id (base + j * pageSize + b) es = none) (ht : Passed p es t)
    (hgone : t.framed? id (base + j * pageSize) = none) :
    q.FramedTail id base j b (some 0) := by
  induction hrun generalizing byte? with
  | refl =>
    cases ht with
    | start => exact DemandPaging.framedTail_of_gone hgone _
  | @step p r q e es he happly rest ih =>
    have hr := Event.agrees hp he happly
    have hes' := fun e' he' => hes e' (List.mem_cons_of_mem _ he')
    have hsole' := fun s hs => hsole s (Passed.later he happly hs)
    have hspares := hes e (List.mem_cons_self ..)
    have hrcarries := (Event.carries hp he happly hspares h
      (hsole r (.within he (Event.passes_of_apply happly)))).1
    have hsplit := hnone
    rw [lastStored?, happly] at hsplit
    obtain ⟨hlater, hfirst⟩ := Option.or_eq_none_iff.mp hsplit
    cases ht with
    | start =>
      have hend := (Run.step he happly rest).framedTail hp hes hsole h hj hb hout
        (DemandPaging.framedTail_of_gone hgone (some 0))
      rwa [hnone, Option.none_or] at hend
    | within he' hpasses =>
      have ht := hpasses.agrees hp he
      obtain ⟨cs, hmade, hchain⟩ := hpasses.chain (S := fun _ => True) hp he fun _ _ => trivial
      have htcarries := (hmade.carries hp he hspares h hchain (hsole t (.within he hpasses))).1
      obtain ⟨cs', ds, hmakes, hstores, hrest⟩ := hpasses.rest hp he happly
      have htouches := (hrest.touches ht htcarries.maps (fun c hc => by
        obtain ⟨o, u, start, part, rfl⟩ := hstores c hc
        exact ⟨fun _ _ hcreates => hcreates, trivial⟩) fun hc => by
          obtain ⟨o, u, start, part, heq⟩ := hstores _ hc
          cases heq).2
      have htail := htouches.framedTail htcarries.maps.aligned hj hb hout
        (DemandPaging.framedTail_of_gone hgone (some 0))
      rw [foldl_byteAfter_of_rest (fun b? => by
        rw [hmakes.foldl_byteAfter, hfirst, Option.none_or])] at htail
      have hend := rest.framedTail hr hes' hsole' hrcarries hj hb hout htail
      rwa [hlater, Option.none_or] at hend
    | later he' happly' ht =>
      cases happly'.symm.trans happly
      exact ih hr hes' hsole' hrcarries hlater ht

/-- When the mapping is taken down, the bytes past the end of the file are in the file or lost,
and those that were to be written are there. -/
theorem Event.saves_tail {e : Event} (h : p.Carries id m source base length byte?)
    (hp : p.Agrees none) (he : e.Permitted p) (hq : e.apply p = some q) (hdown : e.TakesDown id m)
    {j b : Nat} {b? : Option UInt8} (hj : j < pagesFor length) (hb : b < pageSize)
    (hout : length ≤ j * pageSize + b) :
    (p.FramedTail id base j b b? → p.FiledTail id source base j b b? →
        (q.file source.file).data[j * pageSize + b]? = none
          ∨ ZeroOr b? (q.file source.file).data[j * pageSize + b]?)
      ∧ (p.KeepsTail id source base j b b? →
        (q.file source.file).data[j * pageSize + b]? = b?) := by
  obtain ⟨cs, hmakes, htouches, hgone⟩ := Event.touches_of_takesDown h hp he hq hdown
  have hclean : q.has .dirty id (base + j * pageSize) = false :=
    (Event.agrees hp he hq).frames.has_of_not_framed? (hgone j hj) .dirty
  have hcs : ∀ c ∈ cs, (∀ o u start part, c ≠ .stored o u start part)
      ∧ ∀ o u value, c ≠ .dirtied o u value := by
    intro c hc
    have hcauses := Event.HasMade.causes (Or.inl hmakes) hc
    refine ⟨?_, ?_⟩
    · rintro o u start part rfl
      cases hcauses
      rcases hdown with hdown | hdown <;> cases hdown
    · rintro o u value rfl
      cases hcauses
      rcases hdown with hdown | hdown <;> cases hdown
  refine ⟨fun hframed hfiled => ?_, fun hkeeps => ?_⟩
  · have hend := htouches.filedTail h.maps.aligned h.shows hj hb hout hframed hfiled hclean
    rwa [foldl_byteAfter_of_not_stored fun o u start part hc => (hcs _ hc).1 _ _ _ _ rfl] at hend
  · exact (htouches.keepsTail h.maps.aligned h.shows hj hb hout hcs hkeeps).clean hclean

end Mapping

/-! ## The last time that a byte is stored -/

/-- The page of an address is in a frame in every state that a run passes. -/
def Pager.Held (p : Pager n) (id : SpaceId) (a : Nat) (es : List Event) : Prop :=
  ∀ t, Passed p es t → (t.address? id a).isSome = true

/-- The last event of a run that stores at the address `a` of the space `id` stores `y` there,
leads to the state `u`, and is followed by the events `back`. -/
inductive LastStore (id : SpaceId) (a : Nat) (y : UInt8) :
    Pager n → List Event → Pager n → List Event → Prop where
  | here {p u : Pager n} {e : Event} {back : List Event} (happly : e.apply p = some u)
      (hy : e.storedByte? p id a = some y) (hnone : u.lastStored? id a back = none) :
      LastStore id a y p (e :: back) u back
  | later {p q u : Pager n} {e : Event} {es back : List Event} (happly : e.apply p = some q)
      (h : LastStore id a y q es u back) : LastStore id a y p (e :: es) u back

section LastStore

variable {p q r u : Pager n} {es back more : List Event} {id : SpaceId} {a : Nat} {y : UInt8}

namespace LastStore

theorem split (h : LastStore id a y p es u back) (hrun : Run p es q) :
    u.lastStored? id a back = none
      ∧ ∃ front, es = front ++ back ∧ Run p front u ∧ Run u back q := by
  induction h with
  | here happly _ hnone =>
    cases hrun with
    | step he happly' rest =>
      cases happly'.symm.trans happly
      exact ⟨hnone, [_], rfl, .step he happly .refl, rest⟩
  | later happly _ ih =>
    cases hrun with
    | step he happly' rest =>
      cases happly'.symm.trans happly
      obtain ⟨hnone, front, rfl, hfront, hback⟩ := ih rest
      exact ⟨hnone, _ :: front, rfl, .step he happly hfront, hback⟩

theorem framed? (h : LastStore id a y p es u back) (hrun : Run p es q) (hp : p.Agrees none)
    {page : Page} (hpage : u.framed? id (pageBase a) = some page) :
    page.bytes[offsetInPage a]? = some y ∧ u.has .dirty id (pageBase a) = true := by
  induction h with
  | here happly hy _ => exact Event.framed?_of_stored hp happly hy hpage
  | later happly _ ih =>
    cases hrun with
    | step he happly' rest =>
      cases happly'.symm.trans happly
      exact ih rest (Event.agrees hp he happly) hpage

/-- As long as the page stays in its frame the byte is there, and is to be written back. -/
theorem held (h : LastStore id a y p es u back) (hrun : Run p es q) (hmore : Run q more r)
    (hp : p.Agrees none) (hes : ∀ e ∈ es ++ more, e.KeepsDirty)
    (hidle : q.lastStored? id a more = none) (hheld : u.Held id a (back ++ more)) :
    ∃ page, r.framed? id (pageBase a) = some page ∧ page.bytes[offsetInPage a]? = some y
      ∧ r.has .dirty id (pageBase a) = true := by
  obtain ⟨hnone, front, rfl, hfront, hback⟩ := h.split hrun
  have hu := hfront.agrees hp
  have hsome : ∀ t, Passed u (back ++ more) t → (t.framed? id (pageBase a)).isSome = true := by
    intro t ht
    rw [(ht.agrees hu).frames.isSome_framed?, address?_pageBase]
    exact hheld t ht
  obtain ⟨page, hpage⟩ := Option.isSome_iff_exists.mp (hsome u .start)
  obtain ⟨hbyte, hdirty⟩ := h.framed? hrun hp hpage
  obtain ⟨page', hpage', hbytes, hkept⟩ := (hback.append hmore).framed?_of_stays hu
    (pageAligned_pageBase a) hsome hpage
  rw [List.append_assoc] at hes
  refine ⟨page', hpage', ?_, hkept (fun e he => hes e (List.mem_append_right _ he)) hdirty⟩
  rw [hbytes _ (offsetInPage_lt a), pageBase_add_offsetInPage, lastStored?_append hback, hidle,
    hnone, hbyte]
  rfl

/-- Once the page was out of its frame the byte is a zero. -/
theorem gone {m base length j b : Nat} {source : FileRef} {byte? : Nat → Option UInt8}
    (h : LastStore id (base + j * pageSize + b) y p es u back) (hrun : Run p es q)
    (hmore : Run q more r) (hp : p.Agrees none)
    (hes : ∀ e ∈ es ++ more, e.Spares id m source.file)
    (hsole : ∀ t, Passed p (es ++ more) t → t.MapsOnce id m source.file)
    (hcarries : p.Carries id m source base length byte?) (hj : j < pagesFor length)
    (hb : b < pageSize) (hout : length ≤ j * pageSize + b)
    (hidle : q.lastStored? id (base + j * pageSize + b) more = none)
    (hheld : ¬ u.Held id (base + j * pageSize + b) (back ++ more)) :
    r.FramedTail id base j b (some 0) := by
  obtain ⟨hnone, front, rfl, hfront, hback⟩ := h.split hrun
  have hu := hfront.agrees hp
  obtain ⟨t, ht⟩ := Classical.not_forall.mp hheld
  obtain ⟨ht, hgone⟩ := Classical.not_imp.mp ht
  have hbase := (page_of_place (j := j) hcarries.maps.aligned hb).1
  rw [List.append_assoc] at hes hsole
  have hsole' : ∀ t, Passed p front t → t.MapsOnce id m source.file := fun t ht =>
    hsole t ht.append_right
  refine (hback.append hmore).framedTail_of_gone hu
    (fun e he => hes e (List.mem_append_right _ he)) (fun t ht => hsole t (.append_left hfront ht))
    (hfront.carries hp (fun e he => hes e (List.mem_append_left _ he)) hsole' hcarries) hj hb hout
    ?_ ht ?_
  · rw [lastStored?_append hback, hidle, hnone]
    rfl
  · refine framed?_of_unmapped ?_
    rw [← hbase, address?_pageBase]
    simpa using hgone

end LastStore

end LastStore

end DemandPaging

import DemandPaging.Proofs.PrivatePages
import DemandPaging.Proofs.StoredBytes
import DemandPaging.Proofs.Stopping
/-!
# What happens to a private page

A page that is anonymous or belongs to a program keeps what it holds through every event of
a run, wherever the pager moves it, but for the bytes that its own process stores in it
(`content_after`). It is there until its process ends. New pages appear only where a fault
extends the stack, a segment is described or a file is mapped.

A page of a program counts as long as nobody changes its file.
-/

namespace DemandPaging

open Pager

variable {n : Nat}

/-- There is no such page. -/
def Pager.Vacant (p : Pager n) (o : SpaceId) (v : Nat) : Prop :=
  p.descriptor? o v = none ∧ p.framed? o v = none

theorem Pager.Agrees.content?_eq_none_iff {p : Pager n} {f : Option (Fin n)} (hp : p.Agrees f)
    {o : SpaceId} {v : Nat} : p.content? o v = none ↔ p.Vacant o v := by
  unfold Vacant
  cases hf : p.framed? o v with
  | some page => simp [content?_of_framed? hf]
  | none =>
    rw [content?_of_not_framed? hf]
    cases hd : p.descriptor? o v with
    | none => simp
    | some d =>
      have hbacked := hp.descriptors.backed o v d hd
      rw [Option.bind_some]
      unfold parked?
      rcases d.backing.loadSource_eq with hb | ⟨w, hsource, _⟩ | ⟨slot, hsource, _⟩
      · exact absurd hb hbacked
      · simp [hsource]
      · simp [hsource]

/-! ## Pages that there are -/

/-- The page `v` of the space `o` is there before and after a change, and changed in some
bytes at most. -/
def Change.Leaves (o : SpaceId) (v : Nat) : Change → Prop
  | .grown id upage => ¬(o = id ∧ v = upage)
  | .stored _ upage start bytes => PageAligned upage ∧ start + bytes.length ≤ pageSize
  | .described id d => ¬(o = id ∧ v = d.upage)
  | .vacated id => o ≠ id
  | _ => True

theorem Change.Leaves.effect {look : FileWindow → Page} {o : SpaceId} {v : Nat} {c : Change}
    (hc : c.Leaves o v) (page : Page) :
    c.effect look o v (some page) = some (c.onPage o v page) := by
  cases c with
  | stored id u start bytes =>
    show (if o = id ∧ v = u then _ else _) = some (if o = id ∧ v = u then _ else _)
    split
    next => rfl
    next => rfl
  | grown id u => exact if_neg hc
  | described id d => exact if_neg hc
  | vacated id => exact if_neg hc
  | dirtied | mapped | unlisted | dropped | closed | rewritten => rfl

theorem Change.Leaves.getElem?_onPage {o : SpaceId} {v j : Nat} {c : Change} (hc : c.Leaves o v)
    (hv : PageAligned v) (hj : j < pageSize) (page : Page) :
    (c.onPage o v page).bytes[j]? = c.byteAfter o (v + j) page.bytes[j]? := by
  cases c with
  | stored id u start bytes =>
    obtain ⟨hu, hfits⟩ := hc
    rw [Change.onPage]
    -- only a store into this very page can alter it
    by_cases hpage : o = id ∧ v = u
    · obtain ⟨rfl, rfl⟩ := hpage
      rw [if_pos ⟨rfl, rfl⟩, Page.getElem?_overwrite _ _ _ hj, Change.byteAfter_stored]
      by_cases hin : start ≤ j ∧ j < start + bytes.length
      · rw [if_pos hin, if_pos ⟨rfl, by omega, by omega⟩]
        congr 1
        omega
      · rw [if_neg hin, if_neg fun hc => hin ⟨by omega, by omega⟩]
    · rw [if_neg hpage, Change.byteAfter_of_other_page hu hv hfits hpage hj]
  | grown | described | vacated | dirtied | mapped | unlisted | dropped | closed | rewritten => rfl

/-- Changes make of a page that is there what each of them stores in it. -/
theorem foldl_effect_of_leaves (look : FileWindow → Page) {o : SpaceId} {v : Nat} {cs : List Change}
    (hcs : ∀ c ∈ cs, c.Leaves o v) (hv : PageAligned v) (page : Page) :
    cs.foldl (Change.effect look o v) (some page) = some (cs.foldl (Change.onPage o v) page)
      ∧ ∀ j, j < pageSize → (cs.foldl (Change.onPage o v) page).bytes[j]?
        = cs.foldl (Change.byteAfter o (v + j)) page.bytes[j]? := by
  induction cs generalizing page with
  | nil => exact ⟨rfl, fun _ _ => rfl⟩
  | cons c rest ih =>
    have hc := hcs c (List.mem_cons_self ..)
    obtain ⟨hfold, hbytes⟩ :=
      ih (fun d hd => hcs d (List.mem_cons_of_mem _ hd)) (c.onPage o v page)
    refine ⟨?_, ?_⟩
    · rw [List.foldl_cons, hc.effect, hfold, List.foldl_cons]
    · intro j hj
      rw [List.foldl_cons, List.foldl_cons, ← hc.getElem?_onPage hv hj, hbytes j hj]

/-- What an event does to a page that is there: unless it clears a dirty flag it spares it, and
unless the process of the page ends it leaves it. -/
theorem Event.Causes.spares {p : Pager n} {e : Event} {c : Change} (h : e.Causes p c)
    (he : e.Permitted p) {K : Nat → Prop} {o : SpaceId} {v : Nat} (hpage : ¬ p.Vacant o v) :
    (e.KeepsDirty → c.Spares K o v) ∧ (e ≠ .request (.exit o) → c.Leaves o v) := by
  cases h with
  | grown hd hnone =>
    refine ⟨fun _ => trivial, ?_⟩
    intro _ h
    obtain ⟨rfl, rfl⟩ := h
    exact hpage ⟨hd, framed?_of_unmapped hnone⟩
  | @stored _ _ _ _ c _ hc hpart =>
    have haligned := (bounds_of_mem_chunks hc).1
    have hfits := c.fits
    exact ⟨fun _ => trivial, fun _ => ⟨haligned, by omega⟩⟩
  | mapped hvacant =>
    refine ⟨?_, fun _ => trivial⟩
    intro _ h
    obtain ⟨rfl, hv⟩ := h
    obtain ⟨i, hi, rfl⟩ := mem_pageRange.mp hv
    obtain ⟨hd, hnone⟩ := isVacant_iff.mp (isVacantRange_iff.mp hvacant i hi)
    exact hpage ⟨hd, framed?_of_unmapped hnone⟩
  | unlisted => exact ⟨fun _ => trivial, fun _ => trivial⟩
  | dropped => exact ⟨fun _ => trivial, fun _ => trivial⟩
  | closed => exact ⟨fun _ => trivial, fun _ => trivial⟩
  | @described id source offset upage readBytes zeroBytes i writable hi hd =>
    have hother : ¬(o = id ∧ v = (DescriptorTable.segmentPage source offset upage readBytes
        writable i).upage) := by
      intro h
      obtain ⟨rfl, rfl⟩ := h
      -- no page of the segment is in a frame, so one of them with no descriptor was vacant
      have hle := Nat.le_trans (mul_add_pageSize_le hi) (Nat.div_mul_le_self _ _)
      have hpos := pageSize_pos
      have hfree := he.2.2 (upage + i * pageSize) (Nat.le_add_right _ _) (by omega)
      rw [PageDirectory.isMapped_eq] at hfree
      have hnone : p.address? o (upage + i * pageSize) = none := by simpa [address?] using hfree
      exact hpage ⟨hd, framed?_of_unmapped hnone⟩
    exact ⟨fun _ hc => absurd hc hother, fun _ => hother⟩
  | dirtied => exact ⟨fun hkeeps => hkeeps, fun _ => trivial⟩
  | vacated =>
    refine ⟨fun _ => trivial, ?_⟩
    intro hexit heq
    subst heq
    exact hexit rfl
  | rewritten => exact ⟨fun _ => trivial, fun _ => trivial⟩

/-! ## Clean pages of a run -/

theorem FileWindow.view_of_data {w : FileWindow} {f g : OpenFile} (h : f.data = g.data) :
    w.view f = w.view g := by
  unfold view
  rw [h]

/-- In each state of a run a clean page of a program holds what its file held at the start, if
the file has not changed. -/
theorem Passed.isClean {s r : Pager n} {es : List Event} (h : Passed s es r) (hs : s.IsStart)
    (hes : ∀ e ∈ es, e.KeepsDirty) {K : Nat → Prop}
    (hK : ∀ t, Passed s es t → ∀ k, K k → (t.file k).data = (s.file k).data) {o : SpaceId} {v : Nat}
    (hv : PageAligned v) : r.IsClean K (fun w => w.view (s.file w.source.file)) o v := by
  refine h.preserves (I := fun p => p.IsClean K (fun w => w.view (s.file w.source.file)) o v)
    (P := Event.KeepsDirty) (H := fun t => ∀ k, K k → (t.file k).data = (s.file k).data)
    (fun {p r e} hp he hkeeps hdata hpasses hclean => ?_) hs.agrees hes hK ?_
  · obtain ⟨cs, hmade, hchain⟩ := hpasses.chain
      (S := fun files => ∀ k, K k → (files.getD k default).data = (s.file k).data) hp he hdata
    refine hchain.isClean hp hv (fun t ht w hw => FileWindow.view_of_data (ht _ hw))
      ?_ hclean
    intro id u hc
    cases hmade.causes hc
    cases hkeeps
  · intro d w page hd
    obtain ⟨_, _, _, _, hspace⟩ := hs.fields
    unfold descriptor? at hd
    rw [(hspace o).2.1] at hd
    cases hd

/-! ## Pages that come into being -/

/-- A change makes the page `v` of the space `o`. -/
def Change.Creates (o : SpaceId) (v : Nat) : Change → Prop
  | .grown id upage => o = id ∧ v = upage
  | .described id d => o = id ∧ v = d.upage
  | .mapped id fm => o = id ∧ v ∈ fm.pages
  | _ => False

theorem Pager.SamePage.vacant {p q : Pager n} {o : SpaceId} {v : Nat} (h : SamePage p q o v)
    (hp : p.Vacant o v) : q.Vacant o v := ⟨h.descriptor?.trans hp.1, h.framed?.trans hp.2⟩

theorem Shift.vacant {S : Array OpenFile → Prop} {p q : Pager n} (h : Shift S p q) {o : SpaceId}
    {v : Nat} (hv : PageAligned v) (hp : p.Vacant o v) : q.Vacant o v := by
  cases h with
  | still hpages _ => exact (hpages o v hv).vacant hp
  | @evicted o' v' _ _ _ hothers _ hframed =>
    refine (hothers o v hv ?_).vacant hp
    intro hpage
    rw [← hpage.1, ← hpage.2, hp.2] at hframed
    cases hframed
  | @loaded o' v' _ _ hothers _ _ hd =>
    refine (hothers o v hv ?_).vacant hp
    intro hpage
    rw [← hpage.1, ← hpage.2, hp.1] at hd
    cases hd

theorem Alters.vacant {p q : Pager n} {c : Change} (h : Alters p c q) {o : SpaceId} {v : Nat}
    (hv : PageAligned v) (hc : ¬ c.Creates o v) (hp : p.Vacant o v) : q.Vacant o v := by
  cases h with
  | grown hothers => exact (hothers o v hv hc).vacant hp
  | stored hothers _ _ hframed =>
    refine (hothers o v hv ?_).vacant hp
    intro hpage
    rw [← hpage.1, ← hpage.2, hp.2] at hframed
    cases hframed
  | @dirtied id u _ _ hothers hafter hframed =>
    by_cases hpage : o = id ∧ v = pageBase u
    · obtain ⟨rfl, rfl⟩ := hpage
      exact ⟨hafter.trans hp.1, hframed.trans hp.2⟩
    · exact (hothers o v hv hpage).vacant hp
  | described hothers => exact (hothers o v hv hc).vacant hp
  | mapped hothers => exact (hothers o v hv hc).vacant hp
  | unlisted hpages => exact (hpages o v hv).vacant hp
  | @dropped id u _ _ hothers _ _ _ _ hafter hgone =>
    by_cases hpage : o = id ∧ v = u
    · obtain ⟨rfl, rfl⟩ := hpage
      exact ⟨hafter, hgone⟩
    · exact (hothers o v hv hpage).vacant hp
  | closed hpages => exact (hpages o v hv).vacant hp
  | @vacated id _ hothers _ hgone =>
    by_cases ho : o = id
    · subst ho
      exact hgone v
    · exact (hothers o v hv ho).vacant hp
  | rewritten hpages => exact (hpages o v hv).vacant hp

/-- No page comes into being but by a change that makes it. -/
theorem Chain.vacant {S : Array OpenFile → Prop} {p q : Pager n} {f g : Option (Fin n)}
    {cs : List Change} (h : Chain S p f cs q g) (hp : p.Agrees f) {o : SpaceId} {v : Nat}
    (hv : PageAligned v) (hcs : ∀ c ∈ cs, ¬ c.Creates o v) (hvacant : p.Vacant o v) :
    q.Vacant o v := by
  induction h with
  | refl => exact hvacant
  | quiet h move ih => exact (move.shift (h.agrees hp)).vacant hv (ih hcs)
  | visible h move ih =>
    exact (move.alters (h.agrees hp)).vacant hv
      (hcs _ (List.mem_append_right _ (List.mem_singleton_self _)))
      (ih fun c hc => hcs c (List.mem_append_left _ hc))

/-- How an event makes the page `v` of the space `o`, and what the page holds then. -/
inductive Event.Creates (p q : Pager n) (o : SpaceId) (v : Nat) : Event → Prop where
  | fault {address stackPointer : Nat} (hv : v = pageBase address)
      (hcontent : q.content? o v = some .zero) :
      Creates p q o v (.request (.fault o address stackPointer))
  | segment {source : FileRef} {offset upage readBytes zeroBytes i : Nat} {writable : Bool}
      {w : FileWindow} (hi : i < (readBytes + zeroBytes) / pageSize) (hv : v = upage + i * pageSize)
      (hw : (DescriptorTable.segmentPage source offset upage readBytes writable i).backing.window?
        = some w)
      (hcontent : q.content? o v = some (w.view (q.file source.file))) :
      Creates p q o v
        (.request (.addSegment o source offset upage readBytes zeroBytes writable))
  | mapping {index base : Nat} (hv : v ∈ pageRange base (pagesFor (p.file index).length)) :
      Creates p q o v (.request (.mapFile o index base))

/-- Of the pages of a segment one is the page in question, if it was described at all. -/
theorem foldl_effect_described {look : FileWindow → Page} {o : SpaceId} {source : FileRef}
    {offset upage readBytes i : Nat} {writable : Bool} {w : FileWindow}
    (hw : (DescriptorTable.segmentPage source offset upage readBytes writable i).backing.window?
      = some w) (k : Nat) (page? : Option Page) :
    ((List.range k).map fun j => Change.described o
        (DescriptorTable.segmentPage source offset upage readBytes writable j)).foldl
        (Change.effect look o (upage + i * pageSize)) page?
      = if i < k then some (look w) else page? := by
  have hpos := pageSize_pos
  induction k with
  | zero => rfl
  | succ k ih =>
    rw [List.range_succ, List.map_append, List.foldl_append, ih]
    show (if o = o ∧ upage + i * pageSize = upage + k * pageSize then _ else _) = _
    -- the pages of a segment differ, so at most one of the changes is at this page
    by_cases hik : i = k
    · subst hik
      rw [if_pos ⟨rfl, rfl⟩, if_pos (Nat.lt_succ_self _), hw]
      rfl
    · rw [if_neg fun hc => hik (Nat.eq_of_mul_eq_mul_right hpos (Nat.add_left_cancel hc.2))]
      by_cases hlt : i < k
      · rw [if_pos hlt, if_pos (Nat.lt_succ_of_lt hlt)]
      · rw [if_neg hlt, if_neg fun hc => hik (by omega)]

section Vacant

variable {p q : Pager n} {o : SpaceId} {v : Nat}

/-- What changes made of a page that was vacant is what it holds in the end, if files are
loaded as they are in the end. -/
theorem Chain.content?_of_vacant {cs : List Change}
    (h : Chain (fun files => files = q.files) p none cs q none) (hp : p.Agrees none)
    (hv : PageAligned v) (hvacant : p.Vacant o v) (hcs : ∀ c ∈ cs, c.Spares (fun _ => True) o v) :
    q.content? o v
      = cs.foldl (Change.effect (fun w => w.view (q.file w.source.file)) o v) none := by
  have hprivate : p.IsPrivate (fun _ => True) o v :=
    ⟨fun d hd => absurd (hvacant.1.symm.trans hd) (by simp), fun _ _ _ _ => trivial⟩
  have hclean : p.IsClean (fun _ => True) (fun w => w.view (q.file w.source.file)) o v :=
    fun d w page hd => absurd (hvacant.1.symm.trans hd) (by simp)
  have hheld := h.held? hp hv (fun r hr w _ => by unfold file; rw [hr]) hcs hprivate hclean
  rw [content?_eq_held? fun _ _ _ _ => rfl, hheld, held?_of_not_framed? hvacant.2, hvacant.1]
  rfl

/-- A request that passes no state but its last one loads from files as they are in the end. -/
theorem Operation.chain_of_ended {op : Operation} (hp : p.Agrees none) (hop : op.Permitted p)
    (hq : (op.perform.run p).state? = some q)
    (honly : ∀ r, op.Passes p r → (op.perform.run p).state? = some r) :
    ∃ cs, op.Makes p cs ∧ Chain (fun files => files = q.files) p none cs q none := by
  refine Event.chain (e := .request op) hp hop hq ?_
  intro r hr
  have hsame := (honly r hr).symm.trans hq
  cases hsame
  rfl

theorem vacant_or_fault {id : SpaceId} {address stackPointer : Nat} (hp : p.Agrees none)
    (hop : (Operation.fault id address stackPointer).Permitted p)
    (hq : ((Operation.fault id address stackPointer).perform.run p).state? = some q)
    (hv : PageAligned v) (hvacant : p.Vacant o v) :
    q.Vacant o v ∨ Event.Creates p q o v (.request (.fault id address stackPointer)) := by
  obtain ⟨cs, hmakes, hchain⟩ := Operation.chain_of_ended hp hop hq fun r hr => by
    cases hr
    assumption
  cases hmakes with
  | nothing => exact Or.inl (hchain.vacant hp hv (fun c hc => absurd hc List.not_mem_nil) hvacant)
  | grown =>
    by_cases hpage : o = id ∧ v = pageBase address
    · obtain ⟨rfl, rfl⟩ := hpage
      refine Or.inr (.fault rfl ?_)
      rw [hchain.content?_of_vacant hp hv hvacant fun c hc => by
        rw [List.mem_singleton.mp hc]
        trivial]
      exact if_pos ⟨rfl, rfl⟩
    · refine Or.inl (hchain.vacant hp hv ?_ hvacant)
      intro c hc
      rw [List.mem_singleton.mp hc]
      exact hpage

theorem vacant_or_segment {id : SpaceId} {source : FileRef} {offset upage readBytes zeroBytes : Nat}
    {writable : Bool} (hp : p.Agrees none)
    (hop : (Operation.addSegment id source offset upage readBytes zeroBytes writable).Permitted p)
    (hq : ((Operation.addSegment id source offset upage readBytes zeroBytes
      writable).perform.run p).state? = some q)
    (hv : PageAligned v) (hvacant : p.Vacant o v) :
    q.Vacant o v ∨ Event.Creates p q o v
      (.request (.addSegment id source offset upage readBytes zeroBytes writable)) := by
  obtain ⟨cs, hmakes, hchain⟩ := Operation.chain_of_ended hp hop hq fun r hr => by
    cases hr
    assumption
  cases hmakes with
  | nothing => exact Or.inl (hchain.vacant hp hv (fun c hc => absurd hc List.not_mem_nil) hvacant)
  | @described _ _ _ _ _ _ k _ hk =>
    by_cases hpage : o = id ∧ ∃ i, i < k ∧ v = upage + i * pageSize
    · obtain ⟨rfl, i, hi, rfl⟩ := hpage
      obtain ⟨w, hw⟩ : ∃ w, (DescriptorTable.segmentPage source offset upage readBytes writable
        i).backing.window? = some w := ⟨_, rfl⟩
      refine Or.inr (.segment (Nat.lt_of_lt_of_le hi hk) rfl hw ?_)
      rw [hchain.content?_of_vacant hp hv hvacant fun c hc => ?_, foldl_effect_described hw,
        if_pos hi]
      · cases hw
        rfl
      · obtain ⟨j, _, rfl⟩ := List.mem_map.mp hc
        exact fun _ _ _ => trivial
    · refine Or.inl (hchain.vacant hp hv (fun c hc hcreates => hpage ?_) hvacant)
      obtain ⟨j, hj, rfl⟩ := List.mem_map.mp hc
      exact ⟨hcreates.1, j, List.mem_range.mp hj, hcreates.2⟩

/-- A vacant page stays so unless an event makes it. -/
theorem Event.creates_of_vacant {e : Event} (hp : p.Agrees none) (he : e.Permitted p)
    (hq : e.apply p = some q) (hv : PageAligned v) (hvacant : p.Vacant o v) :
    q.Vacant o v ∨ e.Creates p q o v := by
  obtain ⟨cs, hmakes, hchain⟩ := e.chain (S := fun _ => True) hp he hq fun _ _ => trivial
  by_cases hcs : ∀ c ∈ cs, ¬ c.Creates o v
  · exact Or.inl (hchain.vacant hp hv hcs hvacant)
  · obtain ⟨c, hc⟩ := Classical.not_forall.mp hcs
    obtain ⟨hmem, hcreates⟩ := Classical.not_imp.mp hc
    have hcreates := Classical.not_not.mp hcreates
    -- a change that creates the page is a growth, a segment page or a page of a new mapping
    cases Event.HasMade.causes (Or.inl hmakes) hmem with
    | grown => exact vacant_or_fault hp he hq hv hvacant
    | described => exact vacant_or_segment hp he hq hv hvacant
    | mapped =>
      obtain ⟨rfl, hrange⟩ := hcreates
      exact Or.inr (.mapping hrange)
    | stored => exact hcreates.elim
    | unlisted => exact hcreates.elim
    | dropped => exact hcreates.elim
    | closed => exact hcreates.elim
    | dirtied => exact hcreates.elim
    | vacated => exact hcreates.elim
    | rewritten => exact hcreates.elim

end Vacant

/-! ## Every event -/

/-- What a private page holds after moves is what the changes made of what it held, if all files
that it is loaded from are as they were in `s`. -/
theorem Chain.content?_of_private {s p q : Pager n} {K : Nat → Prop} {cs : List Change}
    (h : Chain (fun files => ∀ k, K k → (files.getD k default).data = (s.file k).data) p none cs q
      none) (hp : p.Agrees none)
    (hbefore : ∀ k, K k → (p.file k).data = (s.file k).data)
    (hafter : ∀ k, K k → (q.file k).data = (s.file k).data) {o : SpaceId} {v : Nat}
    (hv : PageAligned v) (hcs : ∀ c ∈ cs, c.Spares K o v) (hprivate : p.IsPrivate K o v)
    (hclean : p.IsClean K (fun w => w.view (s.file w.source.file)) o v) :
    q.content? o v = cs.foldl (Change.effect (fun w => w.view (s.file w.source.file)) o v)
      (p.content? o v) := by
  have hheld := h.held? hp hv
    (fun t ht w hw => FileWindow.view_of_data (ht _ hw)) hcs hprivate hclean
  -- no source of a private page changed, so its content is the same looked up in `s`
  have hlook : ∀ t : Pager n, (∀ k, K k → (t.file k).data = (s.file k).data) →
      t.IsPrivate K o v →
      t.content? o v = t.held? (fun w => w.view (s.file w.source.file)) o v :=
    fun t ht htprivate => content?_eq_held? fun d w hd hw =>
      FileWindow.view_of_data (ht _ (htprivate.onFile d w hd hw)).symm
  rw [hlook p hbefore hprivate, hlook q hafter (h.isPrivate hp hv hcs hprivate), hheld]

/-- What an event does to a private page that is there. -/
theorem Event.content_of_private {s p q : Pager n} {e : Event} (hp : p.Agrees none)
    (he : e.Permitted p) (hkeeps : e.KeepsDirty) (hq : e.apply p = some q) {K : Nat → Prop}
    (hK : ∀ t, t = p ∨ e.Passes p t → ∀ k, K k → (t.file k).data = (s.file k).data) {o : SpaceId}
    {v : Nat} (hv : PageAligned v) (hprivate : p.IsPrivate K o v)
    (hclean : p.IsClean K (fun w => w.view (s.file w.source.file)) o v) {page : Page}
    (hpage : p.content? o v = some page) :
    (e = .request (.exit o) → q.content? o v = none)
      ∧ (e ≠ .request (.exit o) → ∃ page', q.content? o v = some page'
          ∧ ∀ j, j < pageSize →
            page'.bytes[j]? = (e.storedByte? p o (v + j)).or page.bytes[j]?) := by
  obtain ⟨cs, hmakes, hchain⟩ := e.chain
    (S := fun files => ∀ k, K k → (files.getD k default).data = (s.file k).data) hp he hq
    fun t ht => hK t (Or.inr ht)
  have hthere : ¬ p.Vacant o v := fun hvacant => by
    rw [hp.content?_eq_none_iff.mpr hvacant] at hpage
    cases hpage
  have hcauses := fun c hc =>
    (Event.HasMade.causes (Or.inl hmakes) (c := c) hc).spares (K := K) he hthere
  have hafter := hchain.content?_of_private hp (hK p (Or.inl rfl))
    (hK q (Or.inr (Event.passes_of_apply hq))) hv (fun c hc => (hcauses c hc).1 hkeeps) hprivate
    hclean
  rw [hpage] at hafter
  refine ⟨?_, ?_⟩
  · intro heq
    subst heq
    cases hmakes with
    | exited =>
      rw [hafter, List.foldl_append]
      exact if_pos rfl
    | nothing hop => exact hop.elim
  · intro hexit
    obtain ⟨hfold, hbytes⟩ := foldl_effect_of_leaves
      (fun w => w.view (s.file w.source.file)) (fun c hc => (hcauses c hc).2 hexit) hv page
    refine ⟨_, hafter.trans hfold, ?_⟩
    intro j hj
    rw [hbytes j hj, hmakes.foldl_byteAfter]

theorem Run.passed_append {s p : Pager n} {es : List Event} (h : Run s es p) {e : Event}
    (he : e.Permitted p) {t : Pager n} (ht : t = p ∨ e.Passes p t) : Passed s (es ++ [e]) t := by
  rcases ht with rfl | ht
  · exact .append_left h .start
  · exact .append_left h (.within he ht)

/-- Eviction is invisible. Take any run and an event after it, with no dirty flag cleared. A
page that is anonymous or belongs to a program whose file nobody has changed holds the same
before and after the event, but for the bytes that the event stores in it, and it is gone
only if its process ended. A page that was not there is there only if the event made it. -/
theorem content_after {s p q : Pager n} {es : List Event} {e : Event} {id : SpaceId} {upage : Nat}
    (hs : s.IsStart) (hrun : Run s es p) (he : e.Permitted p) (hq : e.apply p = some q)
    (hkeeps : ∀ e' ∈ es ++ [e], e'.KeepsDirty) (haligned : PageAligned upage)
    (hprivate : p.IsPrivate
      (fun k => ∀ t, Passed s (es ++ [e]) t → (t.file k).data = (s.file k).data) id upage) :
    match p.content? id upage with
    | some page =>
      (e = .request (.exit id) → q.content? id upage = none)
        ∧ (e ≠ .request (.exit id) → ∃ page', q.content? id upage = some page'
            ∧ ∀ j, j < pageSize →
              page'.bytes[j]? = (e.storedByte? p id (upage + j)).or page.bytes[j]?)
    | none => q.content? id upage = none ∨ e.Creates p q id upage := by
  have hp := hrun.agrees hs.agrees
  have hkeep : e.KeepsDirty := hkeeps e (List.mem_append_right _ (List.mem_singleton_self _))
  split
  next page hpage =>
    refine Event.content_of_private hp he hkeep hq
      (fun t ht k hk => hk t (hrun.passed_append he ht)) haligned hprivate ?_ hpage
    exact hrun.passed.isClean hs (fun e' he' => hkeeps e' (List.mem_append_left _ he'))
      (fun t ht k hk => hk t ht.append_right) haligned
  next hnone =>
    rw [(Event.agrees hp he hq).content?_eq_none_iff]
    exact Event.creates_of_vacant hp he hq haligned (hp.content?_eq_none_iff.mp hnone)

/-- Two bytes are stored in the top page of a stack. -/
def storedInStack : List Event :=
  [.request (.fault 0 topPage topPage), .request (.write 0 topPage [7, 8])]

/-- With one frame, the second page of a stack takes the frame of the first one, which still
holds the bytes that were stored in it. -/
theorem content_after_oneFrame :
    ∃ page, (((oneFrame #[]).ran storedInStack).ran
        [.request (.fault 0 nextPage nextPage)]).content? 0 topPage = some page
      ∧ page.bytes[1]? = some 8 := by
  have hrun : Run (oneFrame #[]) storedInStack _ := run_ran (by decide +kernel)
  have hlast : Run ((oneFrame #[]).ran storedInStack) [.request (.fault 0 nextPage nextPage)] _ :=
    run_ran (by decide +kernel)
  have hkeeps : ∀ e ∈ storedInStack ++ [.request (.fault 0 nextPage nextPage)], e.KeepsDirty := by
    intro e he
    simp only [storedInStack, List.cons_append, List.nil_append, List.mem_cons, List.not_mem_nil,
      or_false] at he
    rcases he with rfl | rfl | rfl <;> trivial
  -- a page of the stack that has always been in its frame has no descriptor
  have hnone : ((oneFrame #[]).ran storedInStack).descriptor? 0 topPage = none :=
    Option.isNone_iff_eq_none.mp (by decide +kernel)
  have hprivate : ((oneFrame #[]).ran storedInStack).IsPrivate (fun k =>
      ∀ t, Passed (oneFrame #[]) (storedInStack ++ [.request (.fault 0 nextPage nextPage)]) t →
        (t.file k).data = ((oneFrame #[]).file k).data) 0 topPage :=
    ⟨fun d hd => absurd (hnone.symm.trans hd) (by simp),
      fun d w hd => absurd (hnone.symm.trans hd) (by simp)⟩
  have hafter := content_after (isStart_oneFrame #[]) hrun hlast.apply_eq.1 hlast.apply_eq.2 hkeeps
    (by decide) hprivate
  obtain ⟨page, hpage, hbyte⟩ := Option.map_eq_some_iff.mp
    (by decide +kernel : (((oneFrame #[]).ran storedInStack).content? 0 topPage).map
      (fun page => page.bytes[1]?) = some (some 8))
  rw [hpage] at hafter
  obtain ⟨page', hpage', hbytes⟩ := hafter.2 (by simp)
  exact ⟨page', hpage', (hbytes 1 (by decide)).trans hbyte⟩

end DemandPaging

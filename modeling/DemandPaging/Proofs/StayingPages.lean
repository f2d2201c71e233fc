import DemandPaging.Proofs.MappedRuns
/-!
# Pages that stay in their frames

A page that is in a frame in every state that a run passes has never left it. So it holds what
it held, but for the bytes that the run stores, whether or not there is anything to load it
from, and stays dirty if no flag is cleared (`Run.framed?_of_stays`). The same is known of the
states between the pages of a copy (`Event.HasMade.framed?_of_stays`).
`Event.framed?_of_stored` is about the event that stores a byte: the byte is in the frame
afterwards, unless the page is in none.
-/

namespace DemandPaging

open Pager PagerAction Outcome

variable {n : Nat}

/-! ## Runs in which a page stays -/

section Stays

variable {p q : Pager n} {o : SpaceId} {v : Nat} {page : Page}

theorem Through.stays {P : Pager n → Prop} {cs : List Change} (h : Through P p cs q)
    (hv : PageAligned v) (hstays : ∀ r, P r → (r.framed? o v).isSome = true)
    (hpage : p.framed? o v = some page) : p.Stays o v page cs q := by
  induction h with
  | refl => exact .refl hpage
  | @step cs ds r t _ _ _ leads ht ih =>
    have hsome := hstays t ht
    rcases leads.steady.kept o v _ hv ih.framed? with hnone | hstay
    · rw [hnone] at hsome
      cases hsome
    · exact ih.trans hstay

/-- A page that is in a frame in every state that an event passes holds in each of them what it
held, but for what the event has stored by then, and stays dirty unless its flag is cleared. -/
theorem Event.HasMade.framed?_of_stays {e : Event} {cs : List Change} (hp : p.Agrees none)
    (he : e.Permitted p) (hmade : e.HasMade p cs) (hthrough : Through (e.Passes p) p cs q)
    (hv : PageAligned v) (hstays : ∀ t, e.Passes p t → (t.framed? o v).isSome = true)
    (hpage : p.framed? o v = some page) :
    ∃ page', q.framed? o v = some page'
      ∧ (∀ j, j < pageSize →
          page'.bytes[j]? = cs.foldl (Change.byteAfter o (v + j)) page.bytes[j]?)
      ∧ (e.KeepsDirty → p.has .dirty o v = true → q.has .dirty o v = true) := by
  have hafter := hthrough.stays hv hstays hpage
  have hthere : ¬ p.Vacant o v := fun hvacant => by
    rw [hvacant.2] at hpage
    cases hpage
  have hcauses : ∀ c ∈ cs, e.Causes p c := fun c hc => hmade.causes hc
  -- the end of the process would have taken the page out of its frame
  have hexit : e ≠ .request (.exit o) := by
    intro heq
    subst heq
    rcases hmade with hmakes | ⟨_, _, _, _, _, hwrite, _⟩
    · cases hmakes with
      | nothing hop => exact hop
      | exited =>
        obtain ⟨r, t, _, _, hfront, hmove, hback⟩ :=
          (hthrough.chain (S := fun _ => True) fun _ _ => trivial).split_last
        have hr := hfront.agrees hp
        have hgone : t.Vacant o v := by
          cases hmove.alters hr with
          | vacated _ _ hgone => exact hgone v
        have hend := hback.vacant (hmove.agrees hr) hv (fun c hc => absurd hc List.not_mem_nil)
          hgone
        have hframed := hafter.framed?
        rw [hend.2] at hframed
        cases hframed
    · cases hwrite
  have hleaves : ∀ c ∈ cs, c.Leaves o v := fun c hc =>
    ((hcauses c hc).spares (K := fun _ => True) he hthere).2 hexit
  refine ⟨_, hafter.framed?, (foldl_effect_of_leaves (fun _ => .zero) hleaves hv page).2, ?_⟩
  intro hkeeps
  refine hafter.dirty fun u hu => ?_
  cases hcauses _ hu with
  | dirtied => cases hkeeps

theorem Event.framed?_of_stays {e : Event} (hp : p.Agrees none) (he : e.Permitted p)
    (hq : e.apply p = some q) (hv : PageAligned v)
    (hstays : ∀ t, e.Passes p t → (t.framed? o v).isSome = true)
    (hpage : p.framed? o v = some page) :
    ∃ page', q.framed? o v = some page'
      ∧ (∀ j, j < pageSize → page'.bytes[j]? = (e.storedByte? p o (v + j)).or page.bytes[j]?)
      ∧ (e.KeepsDirty → p.has .dirty o v = true → q.has .dirty o v = true) := by
  obtain ⟨cs, hmakes, hthrough⟩ := e.through hp he hq
  obtain ⟨page', hframed, hbytes, hdirty⟩ :=
    Event.HasMade.framed?_of_stays hp he (Or.inl hmakes) hthrough hv hstays hpage
  exact ⟨page', hframed, fun j hj => (hbytes j hj).trans (hmakes.foldl_byteAfter ..), hdirty⟩

/-- A page that is in a frame in every state that a run passes holds what it held, but for
what the run stores, and stays dirty if no dirty flag is cleared. -/
theorem Run.framed?_of_stays {es : List Event} (hrun : Run p es q) (hp : p.Agrees none)
    (hv : PageAligned v) (hstays : ∀ t, Passed p es t → (t.framed? o v).isSome = true)
    (hpage : p.framed? o v = some page) :
    ∃ page', q.framed? o v = some page'
      ∧ (∀ j, j < pageSize → page'.bytes[j]? = (p.lastStored? o (v + j) es).or page.bytes[j]?)
      ∧ ((∀ e ∈ es, e.KeepsDirty) → p.has .dirty o v = true → q.has .dirty o v = true) := by
  induction hrun generalizing page with
  | refl => exact ⟨page, hpage, fun _ _ => rfl, fun _ hdirty => hdirty⟩
  | @step p r q e es he happly rest ih =>
    obtain ⟨page₁, hpage₁, hbytes₁, hdirty₁⟩ := Event.framed?_of_stays hp he happly hv
      (fun t ht => hstays t (.within he ht)) hpage
    obtain ⟨page₂, hpage₂, hbytes₂, hdirty₂⟩ := ih (Event.agrees hp he happly)
      (fun t ht => hstays t (.later he happly ht)) hpage₁
    refine ⟨page₂, hpage₂, ?_, fun hkeeps hdirty => ?_⟩
    · intro j hj
      rw [hbytes₂ j hj, hbytes₁ j hj, lastStored?, happly, Option.or_assoc]
    · exact hdirty₂ (fun e' he' => hkeeps e' (List.mem_cons_of_mem _ he'))
        (hdirty₁ (hkeeps e (List.mem_cons_self ..)) hdirty)

end Stays

/-! ## The copy that stores a byte -/

/-- The chunks of a range lie in its first page and in pages above it. -/
theorem le_upage_of_mem_chunks {address length : Nat} {c : Chunk} (h : c ∈ chunks address length) :
    pageBase address ≤ c.upage := by
  induction length using Nat.strongRecOn generalizing address with
  | ind length ih =>
    by_cases hzero : length = 0
    · subst hzero
      cases h
    · rw [chunks_of_ne_zero hzero] at h
      have hpos := firstCount_pos address hzero
      rcases List.mem_cons.mp h with rfl | h
      · exact Nat.le_refl _
      · refine Nat.le_trans ?_ (ih _ (by omega) h)
        exact Nat.mul_le_mul_right _ (Nat.div_le_div_right (Nat.le_add_right _ _))

/-- The chunks after the first one lie in other pages. -/
theorem pageBase_lt_of_mem_chunks {address length : Nat} {c : Chunk}
    (h : c ∈ chunks (address + firstCount address length) (length - firstCount address length)) :
    pageBase address < c.upage := by
  have hsplit := pageBase_add_offsetInPage address
  have hlt := offsetInPage_lt address
  by_cases hall : length - firstCount address length = 0
  · rw [hall] at h
    cases h
  · have hfill : firstCount address length = pageSize - offsetInPage address := by
      unfold firstCount at hall ⊢
      omega
    have hnext : address + firstCount address length = pageBase address + pageSize := by omega
    have hle := le_upage_of_mem_chunks h
    have haligned := (pageAligned_pageBase address).add_mul 1
    rw [Nat.one_mul] at haligned
    rw [hnext, haligned.pageBase_eq] at hle
    have hpos := pageSize_pos
    omega

/-- The chunks of a range lie in pages one above the other. -/
theorem pairwise_chunks (address length : Nat) :
    (chunks address length).Pairwise fun c d => c.upage < d.upage := by
  induction length using Nat.strongRecOn generalizing address with
  | ind length ih =>
    by_cases hzero : length = 0
    · subst hzero
      exact .nil
    · have hpos := firstCount_pos address hzero
      rw [chunks_of_ne_zero hzero]
      exact .cons (fun c hc => pageBase_lt_of_mem_chunks hc) (ih _ (by omega) _)

/-- A page is in its frame as it was, and dirty if it was, or is in none. -/
def Pager.Lasts (p : Pager n) (o : SpaceId) (v : Nat) (q : Pager n) : Prop :=
  q.framed? o v = none
    ∨ q.framed? o v = p.framed? o v ∧ (p.has .dirty o v = true → q.has .dirty o v = true)

theorem Pager.Lasts.of_framed {p q : Pager n} {o : SpaceId} {v : Nat} {page : Page}
    (h : p.Lasts o v q) (hpage : q.framed? o v = some page) :
    p.framed? o v = some page ∧ (p.has .dirty o v = true → q.has .dirty o v = true) := by
  obtain hnone | ⟨hsame, hdirty⟩ := h
  · exact absurd (hnone.symm.trans hpage) (by simp)
  · exact ⟨hsame.symm.trans hpage, hdirty⟩

/-- A step that is about another page does not touch it. -/
theorem Pager.Lasts.leads {p q r : Pager n} {id o : SpaceId} {u v : Nat} {ds : List Change}
    (h : p.Lasts o v q) (hleads : Leads id u q ds r) (hv : PageAligned v)
    (hne : ¬(o = id ∧ v = u)) (hds : ∀ page, ds.foldl (Change.onPage o v) page = page)
    (hkeeps : ∀ u', .dirtied o u' false ∉ ds) : p.Lasts o v r := by
  cases hpage : q.framed? o v with
  | none => exact Or.inl (hleads.steady.away o v hv hne hpage)
  | some page =>
    obtain ⟨hsame, hdirty⟩ := h.of_framed hpage
    refine (hleads.steady.kept o v page hv hpage).imp_right fun hstay => ?_
    exact ⟨by rw [hstay.framed?, hds, hsame], fun hwas => hstay.dirty hkeeps (hdirty hwas)⟩

/-- A copy that does not touch a page leaves it in its frame as it is, or it is in none. -/
theorem lasts_of_writeChunks {p q : Pager n} {id o : SpaceId} {v : Nat} {cs : List Chunk}
    {bytes : Bytes} (hp : p.Agrees none) (hv : PageAligned v)
    (hapart : ∀ c ∈ cs, ¬(o = id ∧ v = c.upage))
    (h : ((writeChunks id cs bytes).run p).state? = some q) : p.Lasts o v q := by
  -- one chunk, whether it is written or not: the step is for another page
  have hstep : ∀ c ∈ cs, ∀ (bytes : Bytes) r, r.Agrees none ∧ p.Lasts o v r →
      ((writeChunk id c (bytes.take c.count)).run r).Meets
        (fun _ t => t.Agrees none ∧ p.Lasts o v t) (fun _ t => t.Agrees none ∧ p.Lasts o v t)
        (fun _ => True) := by
    intro c hc bytes r hr
    obtain ⟨hagrees, hlasts⟩ := hr
    have hother : ∀ page, [Change.stored id c.upage c.start (bytes.take c.count)].foldl
        (Change.onPage o v) page = page := fun page => if_neg (hapart c hc)
    refine (writeChunk_spec hagrees id c (c.fits_take bytes)).mono ?_ ?_
      fun _ _ => trivial
    · intro _ t h
      exact ⟨h.1.agrees hagrees, hlasts.leads h.1 hv (hapart c hc) hother (by simp)⟩
    · intro _ t h
      exact ⟨h.1.agrees hagrees, hlasts.leads h.1 hv (hapart c hc) (fun _ => rfl) (by simp)⟩
  have hspec := writeChunks_meets hstep ⟨hp, Or.inr ⟨rfl, fun hwas => hwas⟩⟩ bytes
  exact (hspec.of_state? h).2

/-- A byte that a copy stores is in the frame of its page, if the page is in one at the end, and
the page is dirty. -/
theorem framed?_of_storedCount {p q : Pager n} {id : SpaceId} {address a : Nat} {bytes : Bytes}
    (hp : p.Agrees none) (hlow : address ≤ a)
    (hhigh : a < address + storedCount id (chunks address bytes.length) bytes p)
    (h : ((writeChunks id (chunks address bytes.length) bytes).run p).state? = some q) {page : Page}
    (hpage : q.framed? id (pageBase a) = some page) :
    page.bytes[offsetInPage a]? = bytes[a - address]?
      ∧ q.has .dirty id (pageBase a) = true := by
  generalize hlength : bytes.length = length at h hhigh
  induction length using Nat.strongRecOn generalizing address bytes p with
  | ind length ih =>
    by_cases hzero : length = 0
    · subst hzero
      exact absurd (Nat.lt_of_le_of_lt hlow hhigh) (Nat.lt_irrefl address)
    · have hpos := firstCount_pos address hzero
      have hcount : firstCount address length ≤ length := Nat.min_le_right _ _
      have hlen : (bytes.take (firstCount address length)).length = firstCount address length := by
        rw [List.length_take]
        omega
      rw [chunks_of_ne_zero hzero] at h hhigh
      have hfit := firstCount_fits address length
      have htake : offsetInPage address + (bytes.take (firstCount address length)).length
          ≤ pageSize := hlen.symm ▸ hfit
      have hchunk := writeChunk_spec hp id (.first address length) htake
      rw [storedCount_cons] at hhigh
      rw [run_writeChunks_cons] at h
      simp only [Chunk.count_first] at h hhigh
      revert h hhigh hchunk
      cases (writeChunk id (.first address length)
        (bytes.take (firstCount address length))).run p with
      | done u r =>
        intro h hhigh hchunk
        obtain ⟨hleads, hdirty, _, before, hframed⟩ := hchunk
        simp only [Chunk.upage_first, Chunk.start_first] at h hhigh hdirty hframed
        have hr := hleads.agrees hp
        by_cases hfirst : a < address + firstCount address length
        -- the byte is in the page of the first chunk, which the rest of the copy does not touch
        · obtain ⟨hbase, hoff⟩ := page_of_lt hlow hfit hfirst
          have hrest := lasts_of_writeChunks (o := id) hr (pageAligned_pageBase a)
            (fun c hc hsame => by
              have hlt := pageBase_lt_of_mem_chunks hc
              rw [← hbase, hsame.2] at hlt
              exact Nat.lt_irrefl _ hlt) h
          obtain ⟨hsame, hkept⟩ := hrest.of_framed hpage
          rw [hbase] at hsame hkept ⊢
          cases hsame.symm.trans hframed
          refine ⟨?_, hkept hdirty⟩
          rw [Page.getElem?_overwrite _ _ _ (offsetInPage_lt a), if_pos ⟨by omega, by omega⟩,
            hoff, Nat.add_sub_cancel_left, List.getElem?_take_of_lt (by omega)]
        · obtain ⟨hbyte, hkept⟩ := ih (length - firstCount address length) (by omega) hr
            (Nat.not_lt.mp hfirst) (by rw [List.length_drop, hlength]) h (by omega)
          refine ⟨?_, hkept⟩
          rw [hbyte, List.getElem?_drop]
          congr 1
          omega
      | failed e r =>
        intro h hhigh
        simp only at hhigh
        omega
      | fatal reason =>
        intro h
        cases h

/-- The byte that an event stores is in the frame of its page, if the page is in one when the
event is over, and the page is dirty. -/
theorem Event.framed?_of_stored {p q : Pager n} {e : Event} {id : SpaceId} {a : Nat} {y : UInt8}
    (hp : p.Agrees none) (hq : e.apply p = some q) (hy : e.storedByte? p id a = some y)
    {page : Page} (hpage : q.framed? id (pageBase a) = some page) :
    page.bytes[offsetInPage a]? = some y ∧ q.has .dirty id (pageBase a) = true := by
  unfold Event.storedByte? at hy
  split at hy
  next o address bytes =>
    have hq : ((writeUser o address bytes).run p).state? = some q := by
      rw [← state?_map fun _ => Answer.nothing]
      exact hq
    by_cases hrange : IsUserRange address bytes.length
    · rw [writeUser_of_range hrange] at hq
      rw [if_pos hrange] at hy
      obtain ⟨⟨rfl, hlow, hhigh⟩, hbyte⟩ := Option.ite_none_right_eq_some.mp hy
      exact hbyte ▸ framed?_of_storedCount hp hlow hhigh hq hpage
    · rw [if_neg hrange] at hy
      obtain ⟨hin, _⟩ := Option.ite_none_right_eq_some.mp hy
      omega
  next => cases hy

end DemandPaging

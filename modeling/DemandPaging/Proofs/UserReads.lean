import DemandPaging.Proofs.FailedLoads
import DemandPaging.Proofs.OwnedPages
import DemandPaging.Proofs.WritablePages
import DemandPaging.Proofs.WrittenPages
/-!
# Reading user memory

What a process reads at an address is a byte of the page there, wherever the page is
(`Pager.userByte?`). A copy out of user memory takes its pages one after the other, and to load one
of them may cost another its frame. A page that is no part of a mapping holds the same all the time
that the copy takes (`Run.content?_of_read`), so the copy brings what the pages held when it began
(`readUser_brings`), up to a page that is not there or cannot be loaded (`readUser_stops`). Out of
pages that are kept apart it brings all of the range (`readUser_of_keptApart`).
-/

namespace DemandPaging

open Pager PagerAction Outcome

variable {n : Nat}

/-- The byte at an address of a space, if the space has the page, wherever that is. -/
def Pager.userByte? (p : Pager n) (id : SpaceId) (a : Nat) : Option UInt8 :=
  (p.content? id (pageBase a)).bind (·.bytes[offsetInPage a]?)

theorem Pager.userByte?_of_content? {p : Pager n} {id : SpaceId} {a : Nat} {page : Page}
    (h : p.content? id (pageBase a) = some page) :
    p.userByte? id a = page.bytes[offsetInPage a]? := by
  unfold userByte?
  rw [h, Option.bind_some]

/-- The events leave the bytes of the file as they were in the beginning. -/
def Pager.Unchanged (s : Pager n) (es : List Event) (k : Nat) : Prop :=
  ∀ t, Passed s es t → (t.file k).data = (s.file k).data

/-! ## The pages of a range -/

/-- After some chunks of a range comes the page of the first byte that is not in them, and no byte
of it is in them. -/
theorem upage_of_chunks {address length : Nat} {front rest : List Chunk} {c : Chunk}
    (h : chunks address length = front ++ c :: rest) :
    c.upage = pageBase (address + totalCount front) ∧ totalCount front < length
      ∧ ∀ a, address ≤ a → (a < address + totalCount front ↔ a < c.upage) := by
  have hne : length ≠ 0 := by
    rintro rfl
    rw [chunks_zero] at h
    cases front <;> cases h
  have hle : firstCount address length ≤ length := Nat.min_le_right _ _
  have hmem : c ∈ chunks address length := h ▸ List.mem_append_right _ (List.mem_cons_self ..)
  induction front generalizing address length with
  | nil =>
    rw [chunks_of_ne_zero hne] at h
    obtain ⟨rfl, _⟩ := List.cons.inj h
    refine ⟨rfl, Nat.pos_of_ne_zero hne, fun a ha => ?_⟩
    have hbase := pageBase_le address
    exact iff_of_false (Nat.not_lt.mpr ha) (Nat.not_lt.mpr (Nat.le_trans hbase ha))
  | cons d front ih =>
    rw [chunks_of_ne_zero hne] at h
    obtain ⟨rfl, hchunks⟩ := List.cons.inj h
    have hrest : c ∈ chunks (address + firstCount address length)
        (length - firstCount address length) :=
      hchunks ▸ List.mem_append_right _ (List.mem_cons_self ..)
    have hsome : length - firstCount address length ≠ 0 := by
      intro hzero
      rw [hzero] at hrest
      cases hrest
    obtain ⟨hupage, hcount, hlow⟩ := ih hchunks hsome (Nat.min_le_right _ _) hrest
    have htotal : totalCount (.first address length :: front)
        = firstCount address length + totalCount front := rfl
    rw [htotal, ← Nat.add_assoc]
    refine ⟨hupage, by omega, fun a ha => ?_⟩
    by_cases hfirst : a < address + firstCount address length
    -- a byte of the first chunk is below the pages of all others
    · refine iff_of_true (by omega) ?_
      have habove := pageBase_lt_of_mem_chunks hrest
      have hc := (bounds_of_mem_chunks hmem).1
      have hsplit := pageBase_add_offsetInPage address
      have hbase := pageAligned_pageBase address
      have hfits := firstCount_fits address length
      unfold PageAligned offsetInPage at hc hbase
      unfold pageSize at hc hbase hfits
      omega
    · exact hlow a (Nat.not_lt.mp hfirst)

/-- Each page of a range has a byte of the range. -/
theorem exists_of_mem_chunks {address length : Nat} {c : Chunk} (h : c ∈ chunks address length) :
    ∃ i, i < length ∧ pageBase (address + i) = c.upage := by
  obtain ⟨front, rest, hchunks⟩ := List.append_of_mem h
  obtain ⟨hupage, hcount, _⟩ := upage_of_chunks hchunks
  exact ⟨_, hcount, hupage.symm⟩

/-- The pages of the first bytes of a range are those of its first chunks. -/
theorem mem_of_chunks {address length a : Nat} {front rest : List Chunk}
    (h : chunks address length = front ++ rest) (hlow : address ≤ a)
    (hhigh : a < address + totalCount front) : ∃ c ∈ front, c.upage = pageBase a := by
  induction front generalizing address length with
  | nil => exact absurd hhigh (Nat.not_lt.mpr hlow)
  | cons c front ih =>
    have hne : length ≠ 0 := by
      rintro rfl
      cases h
    rw [chunks_of_ne_zero hne] at h
    obtain ⟨rfl, hchunks⟩ := List.cons.inj h
    by_cases hfirst : a < address + firstCount address length
    · have hfits := firstCount_fits address length
      exact ⟨_, List.mem_cons_self .., (page_of_lt hlow hfits hfirst).1.symm⟩
    · have htotal : totalCount (.first address length :: front)
          = firstCount address length + totalCount front := rfl
      obtain ⟨d, hd, hupage⟩ := ih hchunks (Nat.not_lt.mp hfirst) (by omega)
      exact ⟨d, List.mem_cons_of_mem _ hd, hupage⟩

/-! ## The page at which a copy stops -/

theorem Change.IsStore.keepsPages {c : Change} (h : c.IsStore) : c.KeepsPages := by
  obtain ⟨_, _, _, _, rfl⟩ := h
  trivial

/-- Why a copy stops at the page `u` with an error: the space does not have the page, or may not
write to it and the copy would, or the page cannot be loaded. -/
inductive Refuses (p q : Pager n) (op : Operation) (id : SpaceId) (u : Nat) :
    PagingError → Prop where
  | absent (hnone : ¬ p.Owns id u) : Refuses p q op id u .badAddress
  | readOnly {address : Nat} {bytes : Bytes} (hop : op = .write id address bytes)
      (howns : p.Owns id u) (hpermits : p.permitsWrites id u = false) :
      Refuses p q op id u .readOnly
  | unread {e : PagingError} {r : Pager n} (howns : p.Owns id u) (hasks : op.Asks p r id u)
      (hunread : Unread r id u e q) : Refuses p q op id u e

/-- A page that could not be pinned when a copy had come to it was not there from the beginning, or
cannot be loaded. -/
theorem Refuses.of_copyFails {S : Array OpenFile → Prop} {p q r : Pager n} {op : Operation}
    {id : SpaceId} {u : Nat} {e : PagingError} {cs : List Change} (hp : p.Agrees none)
    (hbefore : Chain S p none cs r none) (hcs : ∀ c ∈ cs, c.IsStore) (hu : PageAligned u)
    (hasks : op.Asks p r id u) (hblames : e.IsUnread → Unread r id u e q)
    (h : CopyFails r q id u e) : Refuses p q op id u e := by
  have howns := hbefore.owns_iff (o := id) hp (fun c hc => (hcs c hc).keepsPages) hu
  cases h with
  | absent hd hresident =>
    refine .absent fun hthere => ?_
    rcases howns.mpr hthere with hdesc | haddress
    · exact hdesc hd
    · exact haddress (address?_of_not_resident (hbefore.agrees hp).frames hu hresident)
  | unread hd _ hload =>
    refine .unread (howns.mp (Or.inl (by rw [hd]; exact nofun))) hasks (hblames ?_)
    cases hload <;> trivial

/-! ## What a copy brings -/

/-- The bytes are those that are seen from `address` on. -/
def SeenFrom (byte? : Nat → Option UInt8) (address : Nat) (bytes : Bytes) : Prop :=
  ∀ i, i < bytes.length → bytes[i]? = byte? (address + i)

theorem SeenFrom.nil (byte? : Nat → Option UInt8) (address : Nat) : SeenFrom byte? address [] :=
  fun i hi => absurd hi (Nat.not_lt_zero i)

theorem SeenFrom.append {byte? : Nat → Option UInt8} {address : Nat} {first more : Bytes}
    (hfirst : SeenFrom byte? address first)
    (hmore : SeenFrom byte? (address + first.length) more) :
    SeenFrom byte? address (first ++ more) := by
  refine Bytes.forall_getElem?_append (P := fun i b? => b? = byte? (address + i)) hfirst ?_
  intro i hi
  rw [hmore i hi, Nat.add_assoc]

/-- The part of a range in its first page is cut out of the page. -/
theorem seenFrom_slice {page : Page} {address count : Nat} {byte? : Nat → Option UInt8}
    (hfits : offsetInPage address + count ≤ pageSize)
    (hbytes : ∀ i, i < count → page.bytes[offsetInPage (address + i)]? = byte? (address + i)) :
    (page.slice (offsetInPage address) count).length = count
      ∧ SeenFrom byte? address (page.slice (offsetInPage address) count) := by
  have hlen : (page.slice (offsetInPage address) count).length = count := by
    unfold Page.slice
    rw [Bytes.length_slice, page.length_bytes]
    omega
  refine ⟨hlen, fun i hi => ?_⟩
  rw [hlen] at hi
  have hplace := (page_of_lt (Nat.le_add_right address i) hfits (by omega)).2
  unfold Page.slice
  rw [Bytes.getElem?_slice, if_pos hi, ← hbytes i hi, hplace, Nat.add_sub_cancel_left]

/-- A copy out of user memory goes page by page, and brings what each of its pages holds by the time
that it has got there. -/
theorem readChunks_brings {p : Pager n} (hp : p.Agrees none) {id : SpaceId} {address count : Nat}
    {byte? : Nat → Option UInt8} (bytes : Bytes)
    (hshown : ∀ m t, ((readChunks id ((chunks address count).take m) bytes).run p).state? = some t →
      ∀ i page, i < count → t.framed? id (pageBase (address + i)) = some page →
        page.bytes[offsetInPage (address + i)]? = byte? (address + i)) :
    ((readChunks id (chunks address count) bytes).run p).Meets
      (fun copied _ => ∃ more, copied.bytes = bytes ++ more ∧ SeenFrom byte? address more
        ∧ (copied.result = .ok () → more.length = count))
      (fun _ _ => False) (fun _ => True) := by
  induction count using Nat.strongRecOn generalizing p address bytes with
  | ind count ih =>
    by_cases hzero : count = 0
    · subst hzero
      exact ⟨[], (List.append_nil _).symm, .nil _ _, fun _ => rfl⟩
    · have hpos := firstCount_pos address hzero
      have hle : firstCount address count ≤ count := Nat.min_le_right _ _
      have hfits := firstCount_fits address count
      rw [chunks_of_ne_zero hzero] at hshown ⊢
      have hchunk := readChunk_spec hp id (.first address count)
      generalize hc : Chunk.first address count = c at hshown hchunk ⊢
      rw [run_readChunks_cons]
      cases hrun : (readChunk id c).run p with
      | failed e q => exact ⟨[], (List.append_nil _).symm, .nil _ _, nofun⟩
      | fatal reason => trivial
      | done first q =>
        rw [hrun] at hchunk
        obtain ⟨hleads, page, hpage, hslice⟩ := hchunk
        -- the copy of the rest passes the states that the whole copy passes after its first page
        have hrest : ∀ m t, ((readChunks id ((chunks (address + firstCount address count)
              (count - firstCount address count)).take m) (bytes ++ first)).run q).state? = some t →
            ∀ i page, i < count → t.framed? id (pageBase (address + i)) = some page →
              page.bytes[offsetInPage (address + i)]? = byte? (address + i) := by
          intro m t ht
          refine hshown (m + 1) t ?_
          rw [List.take_succ_cons, run_readChunks_cons, hrun]
          exact ht
        subst hc
        have hbytes : ∀ i, i < firstCount address count →
            page.bytes[offsetInPage (address + i)]? = byte? (address + i) := by
          intro i hi
          refine hrest 0 q rfl i page (by omega) ?_
          rw [(page_of_lt (Nat.le_add_right address i) hfits (by omega)).1]
          exact hpage
        obtain ⟨hlen, hfirst⟩ := seenFrom_slice hfits hbytes
        rw [Chunk.start_first, Chunk.count_first] at hslice
        rw [← hslice] at hlen hfirst
        refine (ih (count - firstCount address count) (by omega) (hleads.agrees hp) _
          fun m t ht i page' hi => ?_).mono ?_ (fun _ _ h => h) fun _ h => h
        · rw [Nat.add_assoc]
          exact hrest m t ht _ page' (by omega)
        · intro copied r h
          obtain ⟨more, hmore, hseen, hall⟩ := h
          refine ⟨first ++ more, hmore.trans (List.append_assoc ..),
            hfirst.append (hlen.symm ▸ hseen), fun hok => ?_⟩
          rw [List.length_append, hlen, hall hok]
          omega

/-- A copy out of user memory that is answered without an error has brought all of its chunks, from
pages that there are. -/
theorem readChunks_of_ok {p q : Pager n} (hp : p.Agrees none) {id : SpaceId} {address length : Nat}
    {front rest : List Chunk} {bytes more : Bytes} (hchunks : chunks address length = front ++ rest)
    (h : (readChunks id front bytes).run p = .done ⟨more, .ok ()⟩ q) :
    more.length = bytes.length + totalCount front ∧ ∀ c ∈ front, p.Owns id c.upage := by
  have haligned : ∀ c ∈ front, PageAligned c.upage := fun c hc => pageAligned_of_chunks hchunks hc
  clear hchunks
  induction front generalizing p bytes with
  | nil =>
    cases h
    exact ⟨rfl, fun _ hc => absurd hc List.not_mem_nil⟩
  | cons c front ih =>
    have hchunk := readChunk_spec hp id c
    rw [run_readChunks_cons] at h
    cases hrun : (readChunk id c).run p with
    | failed e r =>
      rw [hrun] at h
      cases h
    | fatal reason =>
      rw [hrun] at h
      cases h
    | done first r =>
      rw [hrun] at h hchunk
      obtain ⟨hleads, page, hframed, hslice⟩ := hchunk
      have hfits := c.fits
      obtain ⟨hfirst, hrest⟩ := List.forall_mem_cons.mp haligned
      obtain ⟨hlength, howns⟩ := ih (hleads.agrees hp) h hrest
      have hcount : first.length = c.count := by
        rw [hslice]
        unfold Page.slice
        rw [Bytes.length_slice, page.length_bytes]
        omega
      have hback : ∀ {v}, PageAligned v → r.Owns id v → p.Owns id v := fun hv =>
        (hleads.chain.owns_iff hp (fun d hd => absurd hd List.not_mem_nil) hv).mp
      refine ⟨?_, List.forall_mem_cons.mpr ⟨hback hfirst ?_, fun d hd =>
        hback (hrest d hd) (howns d hd)⟩⟩
      · rw [hlength, List.length_append, hcount, Nat.add_assoc]
        rfl
      · rw [(hleads.agrees hp).frames.owns_iff]
        intro hvacant
        cases hvacant.2.symm.trans hframed

/-- What a copy out of user memory brings if its pages hold the same in all states that it
passes. -/
theorem readUser_brings {p : Pager n} (hp : p.Agrees none) {id : SpaceId} {address length : Nat}
    (hrange : IsUserRange address length)
    (hsame : ∀ m t, ((readChunks id ((chunks address length).take m) []).run p).state? = some t →
      ∀ i, i < length →
        t.content? id (pageBase (address + i)) = p.content? id (pageBase (address + i))) :
    ((readUser id address length).run p).Meets
      (fun copied _ => SeenFrom (p.userByte? id) address copied.bytes
        ∧ (copied.result = .ok () → copied.bytes.length = length))
      (fun _ _ => False) (fun _ => True) := by
  rw [readUser_of_range hrange]
  have hshown : ∀ m t, ((readChunks id ((chunks address length).take m) []).run p).state? = some t →
      ∀ i page, i < length → t.framed? id (pageBase (address + i)) = some page →
        page.bytes[offsetInPage (address + i)]? = p.userByte? id (address + i) := by
    intro m t ht i page hi hpage
    have hcontent := (hsame m t ht i hi).symm.trans (content?_of_framed? hpage)
    exact (userByte?_of_content? hcontent).symm
  refine (readChunks_brings hp [] hshown).mono ?_ (fun _ _ h => h) fun _ h => h
  intro copied q h
  obtain ⟨more, hmore, hrest⟩ := h
  rw [hmore, List.nil_append]
  exact hrest

/-- A copy out of user memory that ends with an error has brought the bytes up to a page that is not
there or cannot be loaded. -/
theorem readUser_stops {p q : Pager n} (hp : p.Agrees none) {id : SpaceId} {address length : Nat}
    (hrange : IsUserRange address length) {bytes : Bytes} {e : PagingError}
    (h : (readUser id address length).run p = .done ⟨bytes, .error e⟩ q) :
    ∃ u, (∃ i, i < length ∧ pageBase (address + i) = u) ∧ bytes.length = u - address
      ∧ (∀ a, address ≤ a → a < u → p.Owns id (pageBase a))
      ∧ Refuses p q (.read id address length) id u e := by
  rw [readUser_of_range hrange] at h
  obtain ⟨front, c, rest, r, hchunks, hfront, hfails⟩ := readChunks_stops h
  obtain ⟨hupage, hcounted, hbefore⟩ := upage_of_chunks hchunks
  obtain ⟨hlength, howns⟩ := readChunks_of_ok hp hchunks hfront
  have hmem : c ∈ chunks address length :=
    hchunks ▸ List.mem_append_right front (List.mem_cons_self ..)
  have hspec := readChunks_spec hp id front []
  rw [hfront] at hspec
  have hchain := hspec.chain (S := fun _ => True) fun _ _ => trivial
  have hr := hchain.agrees hp
  have hchunk := (readChunk_blames hr id c).and (readChunk_spec hr id c)
  rw [hfails] at hchunk
  refine ⟨c.upage, ⟨_, hcounted, hupage.symm⟩, ?_, fun a hlow hhigh => ?_, ?_⟩
  · have hstop := hbefore (address + totalCount front) (Nat.le_add_right _ _)
    have hlast := hbefore (address + (totalCount front - 1)) (Nat.le_add_right _ _)
    have hlength : bytes.length = 0 + totalCount front := hlength
    omega
  · obtain ⟨d, hd, hpage⟩ := mem_of_chunks hchunks hlow ((hbefore a hlow).mpr hhigh)
    exact hpage ▸ howns d hd
  · exact .of_copyFails hp hchain (fun d hd => absurd hd List.not_mem_nil)
      (bounds_of_mem_chunks hmem).1 (.read hchunks hfront) hchunk.1 hchunk.2.2

/-- A page that is no part of a mapping holds the same in all states that a copy out of user memory
passes. -/
theorem Run.content?_of_read {s p t : Pager n} {es : List Event} (hs : s.IsStart)
    (hrun : Run s es p) (hkeeps : ∀ e ∈ es, e.KeepsDirty) {id : SpaceId} {address length m : Nat}
    (hid : id < p.spaces.size) (hrange : IsUserRange address length)
    (ht : ((readChunks id ((chunks address length).take m) []).run p).state? = some t) {o : SpaceId}
    {v : Nat} (hv : PageAligned v)
    (hprivate : p.IsPrivate (s.Unchanged (es ++ [.request (.read id address length)])) o v) :
    t.content? o v = p.content? o v := by
  have hp := hrun.agrees hs.agrees
  have he : (Event.request (.read id address length)).Permitted p := ⟨hid, trivial⟩
  have hfiles : ∀ k, s.Unchanged (es ++ [.request (.read id address length)]) k →
      (p.file k).data = (s.file k).data ∧ ∀ m r,
        ((readChunks id ((chunks address length).take m) []).run p).state? = some r →
          (r.file k).data = (s.file k).data := fun k hk =>
    ⟨hk p (hrun.passed_append he (Or.inl rfl)),
      fun m r hr => hk r (hrun.passed_append he (Or.inr (.read hrange hr)))⟩
  have hchain := (through_of_readChunks hp ht).chain
    (S := fun files => ∀ k, s.Unchanged (es ++ [.request (.read id address length)]) k →
      (files.getD k default).data = (s.file k).data)
    fun r ⟨j, hr⟩ k hk => (hfiles k hk).2 j r hr
  have hclean : p.IsClean (s.Unchanged (es ++ [.request (.read id address length)]))
      (fun w => w.view (s.file w.source.file)) o v :=
    hrun.passed.isClean hs hkeeps (fun r hr k hk => hk r hr.append_right) hv
  exact hchain.content?_of_private hp (fun k hk => (hfiles k hk).1)
    (fun k hk => (hfiles k hk).2 m t ht) hv (fun c hc => absurd hc List.not_mem_nil) hprivate hclean

/-- A copy out of pages that are kept apart does not fail, and brings what they hold. -/
theorem readUser_of_keptApart {p : Pager n} (hp : p.Agrees none) {id : SpaceId}
    {address length : Nat} (hrange : IsUserRange address length)
    (hapart : ∀ c ∈ chunks address length, ∃ page, p.KeptApart id c.upage page) :
    ((readUser id address length).run p).Meets
      (fun copied _ => copied.result = .ok () ∧ copied.bytes.length = length
        ∧ ∀ i, i < length → copied.bytes[i]? = p.userByte? id (address + i))
      (fun _ _ => False) (fun _ => True) := by
  have haligned : ∀ c ∈ chunks address length, PageAligned c.upage :=
    fun c hc => (bounds_of_mem_chunks hc).1
  have hgoes : ((readUser id address length).run p).Meets (fun copied _ => copied.result = .ok ())
      (fun _ _ => False) (fun _ => True) := by
    rw [readUser_of_range hrange]
    exact readChunks_of_keptApart hp (fun c hc => ⟨haligned c hc, hapart c hc⟩) []
  have hsame : ∀ m t,
      ((readChunks id ((chunks address length).take m) []).run p).state? = some t →
      ∀ i, i < length →
        t.content? id (pageBase (address + i)) = p.content? id (pageBase (address + i)) := by
    intro m t ht i hi
    have hin : address + i < address + totalCount (chunks address length) := by
      rw [totalCount_chunks]
      omega
    obtain ⟨c, hc, hupage⟩ :=
      mem_of_chunks (List.append_nil _).symm (Nat.le_add_right address i) hin
    obtain ⟨page, hpage⟩ := hapart c hc
    have hchain := (through_of_readChunks hp ht).chain (S := fun _ => True) fun _ _ => trivial
    have hlater :=
      hchain.keptApart hp (haligned c hc) (fun d hd => absurd hd List.not_mem_nil) hpage
    rw [← hupage, hpage.content?]
    exact hlater.content?
  refine ((readUser_brings hp hrange hsame).and hgoes).mono ?_ (fun _ _ h => h.1) fun _ _ => trivial
  intro copied q h
  obtain ⟨⟨hbytes, hall⟩, hok⟩ := h
  refine ⟨hok, hall hok, fun i hi => hbytes i ?_⟩
  rw [hall hok]
  exact hi

end DemandPaging

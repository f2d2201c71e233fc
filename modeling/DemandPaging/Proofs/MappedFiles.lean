import DemandPaging.Proofs.MappedRuns
/-!
# Nothing stored in a mapped file is lost

A process reads what it last stored in its mapping, or what was in the file
(`readUser_of_carries`). When the mapping is taken down the same bytes are in the file
(`Event.saves_file`). `mapped_file_kept` says both of a whole run, from the call that maps
the file on.
-/

namespace DemandPaging

open Pager PagerAction Outcome

variable {n : Nat}

/-! ## The call that maps the file -/

/-- The pages of a new mapping show its file, and no other pages do. -/
theorem maps_of_mapped {p q : Pager n} {id : SpaceId} {source : FileRef} {base length : Nat}
    (hp : p.Agrees none) (hq : q.Agrees none) (hlisted : p.Listed) (haligned : PageAligned base)
    (hothers : ∀ o v, PageAligned v → ¬(o = id ∧ v ∈ pageRange base (pagesFor length)) →
      SamePage p q o v)
    (hafter : ∀ j, j < pagesFor length →
      q.descriptor? id (base + j * pageSize) = some (mappingPage source base length j)
        ∧ q.framed? id (base + j * pageSize) = none)
    (hmapping : ∀ o k, q.mapping? o k = if o = id ∧ k = (p.space id).mappings.nextId
      then some ⟨source, base, pagesFor length⟩ else p.mapping? o k)
    (hsole : q.MapsOnce id (p.space id).mappings.nextId source.file) :
    q.Maps id source base length := by
  refine ⟨haligned, ?_, ?_, ?_⟩
  · intro j d hj hd
    rw [(hafter j hj).1] at hd
    cases hd
    exact ⟨rfl, rfl⟩
  · intro j hj hframed
    rw [(hafter j hj).2] at hframed
    cases hframed
  · intro o v d w hd hmapped hw hsame
    by_cases hours : o = id ∧ v ∈ pageRange base (pagesFor length)
    · exact hours
    · -- a page that was there before belongs to a mapping that was listed before
      have hold := hothers o v (hq.descriptors.upage o v d hd).1 hours
      rw [hold.descriptor?] at hd
      obtain ⟨k, fm, hk, hvk, hsource⟩ := hlisted o v d hd hmapped
      rw [hw] at hsource
      have hfm : fm.source.file = source.file := by
        rw [← Option.some.inj hsource]
        exact hsame
      have hnew : ¬(o = id ∧ k = (p.space id).mappings.nextId) := by
        intro h
        obtain ⟨rfl, rfl⟩ := h
        exact Nat.lt_irrefl _ (hp.mappings.numbered _ _ _ hk)
      exact absurd (hsole o k fm ((hmapping o k).trans ((if_neg hnew).trans hk)) hfm) hnew

theorem agrees_of_mapFile {p q : Pager n} {id : SpaceId} {k base m : Nat} (hp : p.Agrees none)
    (hid : id < p.spaces.size) (hrun : (mapFile id k base).run p = .done m q) : q.Agrees none := by
  have hspec := mapFile_spec hid k base
  rw [hrun] at hspec
  obtain ⟨_, hmove, _⟩ := hspec
  exact hmove.agrees hp

/-- A file is mapped. Each of its bytes is in the file, and none of its pages in a frame. -/
theorem carries_of_mapFile {p q : Pager n} {id : SpaceId} {k base m : Nat} {data : Bytes}
    (hp : p.Agrees none) (hid : id < p.spaces.size) (hlisted : p.Listed)
    (hdata : (p.file k).contents = .bytes data) (hlimits : (p.file k).medium? = none)
    (hrun : (mapFile id k base).run p = .done m q) (hsole : q.MapsOnce id m k) :
    data.length ≠ 0 ∧ base ≠ 0 ∧ ∃ handle,
      q.Carries id m ⟨k, handle⟩ base data.length (fun a => data[a - base]?)
        ∧ q.Unfilled id ⟨k, handle⟩ base data.length
        ∧ ∀ j, j < pagesFor data.length → q.framed? id (base + j * pageSize) = none := by
  have hspec := mapFile_spec hid k base
  rw [hrun] at hspec
  obtain ⟨handle, hmove, rfl, _⟩ := hspec
  have hlength : (p.file k).length = data.length := by
    unfold OpenFile.length OpenFile.data
    rw [hlimits, hdata]
    rfl
  rw [hlength] at hmove
  have hq := hmove.agrees hp
  have halters := hmove.alters hp
  rw [← hlength] at halters
  cases halters with
  | mapped hothers hfault _ hafter hmapping hcontents =>
    rw [hlength] at hothers hafter hmapping
    obtain ⟨haligned, _, hne, hbase, hconsole⟩ := of_mappingFault?_eq_none hfault
    rw [hlength] at hne
    obtain ⟨hle, hpos, _⟩ := pagesFor_spec hne
    have hfile : KeepsFile p q k := hcontents k
    have hqdata : (q.file k).data = data := by
      rw [hfile.data]
      unfold OpenFile.data
      rw [hdata]
    have hclean : ∀ j, j < pagesFor data.length →
        q.has .dirty id (base + j * pageSize) = false := fun j hj =>
      hq.frames.has_of_not_framed? (hafter j hj).2 .dirty
    have hmaps := maps_of_mapped hp hq hlisted haligned hothers hafter
      hmapping hsole
    refine ⟨hne, hbase, handle, ⟨(hmapping _ _).trans (if_pos ⟨rfl, rfl⟩), hmaps, ?_⟩,
      ⟨congrArg List.length hqdata, hclean _ (Nat.sub_lt hpos Nat.one_pos)⟩,
      fun j hj => (hafter j hj).2⟩
    -- a new mapping has no page in a frame, so what the mapping shows is the file itself
    refine ⟨hfile.isConsole.trans hconsole, hfile.2.trans hlimits, ?_, ?_, ?_, ?_⟩
    · exact Nat.le_of_eq (congrArg List.length hqdata).symm
    · show (q.file k).data.length ≤ _
      rwa [hqdata]
    · intro j b page hj _ _ hpage
      rw [(hafter j hj).2] at hpage
      cases hpage
    · intro j b _ _ _ _
      show (q.file k).data[j * pageSize + b]? = _
      rw [hqdata, Nat.add_assoc, Nat.add_sub_cancel_left]

/-- A file that no mapping showed is mapped by one mapping. -/
theorem mapsOnce_of_mapFile {p q : Pager n} {id : SpaceId} {k base m : Nat} (hp : p.Agrees none)
    (hid : id < p.spaces.size) (hrun : (mapFile id k base).run p = .done m q)
    (hnone : ∀ o j fm, p.mapping? o j = some fm → fm.source.file ≠ k) : q.MapsOnce id m k := by
  have hspec := mapFile_spec hid k base
  rw [hrun] at hspec
  obtain ⟨handle, hmove, rfl, _⟩ := hspec
  have halters := hmove.alters hp
  intro o j fm hj hfile
  cases halters with
  | mapped _ _ _ _ hmapping =>
    rw [hmapping] at hj
    split at hj
    next h => exact h
    next => exact absurd hfile (hnone o j fm hj)

/-! ## Reading -/

section Mapping

variable {p q : Pager n} {S : Array OpenFile → Prop} {id : SpaceId} {m base length : Nat}
  {source : FileRef} {byte? : Nat → Option UInt8}

/-- A page of the mapping holds its bytes, wherever it is. -/
theorem Pager.Carries.content? (h : p.Carries id m source base length byte?) (hp : p.Agrees none)
    {j b : Nat} {page : Page} (hj : j < pagesFor length) (hb : b < pageSize)
    (hlt : j * pageSize + b < length) (hpage : p.content? id (base + j * pageSize) = some page) :
    page.bytes[b]? = byte? (base + j * pageSize + b) := by
  cases hf : p.framed? id (base + j * pageSize) with
  | some frame =>
    rw [content?_of_framed? hf] at hpage
    cases hpage
    exact h.shows.framed j b page hj hb hlt hf
  | none =>
    obtain ⟨d, _, hd, _⟩ := hp.mappings.described id m _ j h.mapping hj
    obtain ⟨hmapped, hw⟩ := h.maps.windows j d hj hd
    rw [content?_of_not_framed? hf, hd, Option.bind_some] at hpage
    unfold parked? at hpage
    rw [(Backing.loads_of_isMapped hmapped hw).1] at hpage
    cases hpage
    exact h.shows.view hj hb hlt (hp.frames.has_of_not_framed? hf .dirty)

/-- Loading a page of the mapping does not fall short of the file. -/
theorem Pager.Carries.not_copyFails (h : p.Carries id m source base length byte?)
    (hp : p.Agrees none) (hq : q.Shows id source base length byte?) {j : Nat} {e : PagingError}
    (hj : j < pagesFor length) (hin : j * pageSize < length) :
    ¬ CopyFails p q id (base + j * pageSize) e := by
  obtain ⟨d, _, hd, _⟩ := hp.mappings.described id m _ j h.mapping hj
  obtain ⟨hmapped, hw⟩ := h.maps.windows j d hj hd
  have hsource := (Backing.loads_of_isMapped hmapped hw).1
  intro h
  cases h with
  | absent hnone => exact absurd (hnone.symm.trans hd) (by simp)
  | unread hd' _ hfails =>
    cases hd.symm.trans hd'
    cases hfails with
    | short hb hactual hne =>
      cases hsource.symm.trans hb
      -- the file is still at least as long as when it was mapped, so a whole window is read
      refine hne (hactual.trans ?_)
      show ((q.file source.file).read (j * pageSize)
        (min pageSize (length - j * pageSize))).length = _
      have hlen := hq.length_le
      rw [hq.isPlain.read, Bytes.length_slice]
      show min (min pageSize (length - j * pageSize)) _ = min pageSize (length - j * pageSize)
      omega
    | refused hb => cases hsource.symm.trans hb

/-- What is read at an offset of a mapping: up to the end of the file the byte of the mapping, and
past it what the frame of the page holds. -/
def Pager.ReadsAt (q : Pager n) (id : SpaceId) (base length : Nat) (byte? : Nat → Option UInt8)
    (i : Nat) (b? : Option UInt8) : Prop :=
  (i < length → b? = byte? (base + i))
    ∧ (length ≤ i → ∃ page, q.framed? id (pageBase (base + i)) = some page
      ∧ b? = page.bytes[offsetInPage (base + i)]?)

/-- Up to the end of the file it does not matter where the page is. -/
theorem Pager.ReadsAt.of_lt {i : Nat} {b? : Option UInt8} (h : p.ReadsAt id base length byte? i b?)
    (hi : i < length) (q : Pager n) : q.ReadsAt id base length byte? i b? :=
  ⟨h.1, fun hle => absurd hi (Nat.not_lt.mpr hle)⟩

/-- A chunk of the mapping is read, unless the system stops. -/
theorem readChunk_of_carries (h : p.Carries id m source base length byte?) (hp : p.Agrees none)
    {c : Chunk} {j : Nat} (hj : j < pagesFor length) (hupage : c.upage = base + j * pageSize) :
    ((readChunk id c).run p).Meets
      (fun bytes q => q.Agrees none ∧ q.Carries id m source base length byte?
        ∧ bytes.length = c.count ∧ ∀ x, x < c.count →
          q.ReadsAt id base length byte? (j * pageSize + (c.start + x)) bytes[x]?)
      (fun _ _ => False)
      (fun _ => True) := by
  have hcarries : ∀ q, Leads id c.upage p [] q →
      q.Agrees none ∧ q.Carries id m source base length byte? := by
    intro q hleads
    have hnone : ∀ c, c ∉ ([] : List Change) := fun _ => List.not_mem_nil
    exact ⟨hleads.chain.agrees hp, (h.of_chain hp hleads.chain (fun c hc => absurd hc (hnone c))
      (hnone _) (hnone _)).1⟩
  refine (readChunk_spec hp id c).mono ?_ ?_ fun _ _ => trivial
  · intro bytes q hread
    obtain ⟨hleads, page, hpage, rfl⟩ := hread
    obtain ⟨hq, hqcarries⟩ := hcarries q hleads
    rw [hupage] at hpage
    have hfits := c.fits
    refine ⟨hq, hqcarries, ?_, ?_⟩
    · unfold Page.slice
      rw [Bytes.length_slice, page.length_bytes]
      omega
    · intro x hx
      have hplace : c.start + x < pageSize := by omega
      obtain ⟨hbase, hoff⟩ := page_of_place (j := j) h.maps.aligned hplace
      unfold Page.slice Pager.ReadsAt
      rw [Bytes.getElem?_slice, if_pos hx, ← Nat.add_assoc base, hbase, hoff]
      refine ⟨fun hin => ?_, fun _ => ⟨page, hpage, rfl⟩⟩
      exact hqcarries.content? hq hj hplace hin (content?_of_framed? hpage)
  · intro e q hfailed
    obtain ⟨hleads, hfails⟩ := hfailed
    rw [hupage] at hfails
    exact h.not_copyFails hp (hcarries q hleads).2.shows hj (mul_lt_of_lt_pagesFor hj) hfails

/-- A range of the mapping is read page by page. The end of the file is in the last page, so what
lies past it is in the frame of that page when the copy is over. -/
theorem readChunks_of_carries (h : p.Carries id m source base length byte?) (hp : p.Agrees none)
    {i count : Nat} (hin : i + count ≤ pagesFor length * pageSize) (bytes : Bytes) :
    ((readChunks id (chunks (base + i) count) bytes).run p).Meets
      (fun copied q => ∃ more, copied = ⟨bytes ++ more, .ok ()⟩ ∧ more.length = count
        ∧ ∀ x, x < count → q.ReadsAt id base length byte? (i + x) more[x]?)
      (fun _ _ => False)
      (fun _ => True) := by
  induction count using Nat.strongRecOn generalizing i p bytes with
  | ind count ih =>
    by_cases hzero : count = 0
    · subst hzero
      exact ⟨[], by rw [List.append_nil], rfl, fun x hx => absurd hx (Nat.not_lt_zero x)⟩
    · have hlt := offsetInPage_lt (base + i)
      have hpos := firstCount_pos (base + i) hzero
      have hle : firstCount (base + i) count ≤ count := Nat.min_le_right _ _
      obtain ⟨hupage, hoff⟩ := page_of_offset h.maps.aligned i
      have hj : i / pageSize < pagesFor length :=
        Nat.div_lt_of_lt_mul (by rw [Nat.mul_comm]; omega)
      rw [chunks_of_ne_zero hzero, run_readChunks_cons]
      have hchunk := readChunk_of_carries (c := .first (base + i) count) h hp hj hupage
      revert hchunk
      cases (readChunk id (.first (base + i) count)).run p with
      | failed e q => exact fun hchunk => hchunk.elim
      | fatal reason => exact fun _ => trivial
      | done first q =>
        intro hfirst
        obtain ⟨hq, hcarries, hlen, hreads⟩ := hfirst
        simp only [Chunk.start_first, Chunk.count_first, ← Nat.add_assoc, hoff] at hlen hreads
        by_cases hrest : count - firstCount (base + i) count = 0
        -- the range ends in this page
        · rw [hrest, chunks_zero]
          exact ⟨first, rfl, by omega, fun x hx => hreads x (by omega)⟩
        · have hfill : firstCount (base + i) count = pageSize - offsetInPage (base + i) := by
            unfold firstCount at hrest ⊢
            omega
          rw [Nat.add_assoc base i]
          refine (ih (count - firstCount (base + i) count) (by omega) hcarries hq (by omega)
            (bytes ++ first)).mono ?_ (fun _ _ hf => hf) fun _ _ => trivial
          intro copied r hmores
          obtain ⟨more, rfl, hmore, hrests⟩ := hmores
          -- there are pages after this one, so all of it is in the file
          have hbefore : ∀ x, x < first.length → i + x < length := by
            intro x hx
            have hnext : i / pageSize + 1 < pagesFor length := by
              refine Nat.lt_of_mul_lt_mul_right (a := pageSize) ?_
              rw [Nat.succ_mul]
              omega
            have hend := mul_lt_of_lt_pagesFor hnext
            rw [Nat.succ_mul] at hend
            omega
          have hlength : (first ++ more).length = count := by
            rw [List.length_append]
            omega
          have hall := Bytes.forall_getElem?_append
            (P := fun x b? => r.ReadsAt id base length byte? (i + x) b?)
            (fun x hx => (hreads x (hlen ▸ hx)).of_lt (hbefore x hx) r)
            (fun x hx => by
              rw [hlen, ← Nat.add_assoc]
              exact hrests x (hmore ▸ hx))
          exact ⟨first ++ more, by rw [List.append_assoc], hlength, fun x hx =>
            hall x (hlength.symm ▸ hx)⟩

/-- A process reads its mapping, and gets its bytes, unless the system stops. -/
theorem readUser_of_carries (h : p.Carries id m source base length byte?) (hp : p.Agrees none)
    (hbase : base ≠ 0) {i count : Nat} (hin : i + count ≤ pagesFor length * pageSize) :
    ((readUser id (base + i) count).run p).Meets
      (fun copied q => ∃ bytes, copied = ⟨bytes, .ok ()⟩ ∧ bytes.length = count
        ∧ ∀ x, x < count → q.ReadsAt id base length byte? (i + x) bytes[x]?)
      (fun _ _ => False)
      (fun _ => True) := by
  have htop := (hp.mappings.placed id m _ h.mapping).2
  have hrange : IsUserRange (base + i) count := by
    refine ⟨by omega, ?_⟩
    show base + i + count ≤ userTop
    have htop : base + pagesFor length * pageSize ≤ userTop := htop
    omega
  rw [readUser_of_range hrange]
  exact readChunks_of_carries h hp hin []

/-! ## Taking the mapping down -/

theorem respects_of_mem_unmapChanges {o : SpaceId} {k : Nat} {c : Change}
    (h : c ∈ unmapChanges p o k) : c.Respects id source base length ∧ c ≠ .vacated id := by
  unfold unmapChanges at h
  split at h
  next => cases h
  next fm _ =>
    simp only [List.mem_append, List.mem_cons, List.mem_map, List.not_mem_nil, or_false] at h
    rcases h with (rfl | ⟨u, _, rfl⟩) | rfl
    · exact ⟨⟨fun _ _ hcreates => hcreates, trivial⟩, by simp⟩
    · exact ⟨⟨fun _ _ hcreates => hcreates, trivial⟩, by simp⟩
    · exact ⟨⟨fun _ _ hcreates => hcreates, trivial⟩, by simp⟩

/-- Once all changes of taking the mapping down were made, none of its pages is left. -/
theorem Pager.Carries.gone (h : p.Carries id m source base length byte?) (hp : p.Agrees none)
    {g : Option (Fin n)} {cs : List Change} (hchain : Chain S p none cs q g)
    (hcs : ∀ c ∈ cs, c.Respects id source base length) (hmem : ∀ c ∈ unmapChanges p id m, c ∈ cs)
    (j : Nat) (hj : j < pagesFor length) : q.framed? id (base + j * pageSize) = none := by
  have hpage : base + j * pageSize ∈ pageRange base (pagesFor length) := mem_pageRange_of_lt hj
  exact (hchain.gone hp (h.maps.aligned_page j) (fun c hc => (hcs c hc).1 _ hpage)
    (hmem _ (dropped_mem_unmapChanges h.mapping hpage))).2

/-- The end of the process takes all its mappings down first, and then what is left of it. -/
theorem Pager.Carries.touches_of_exit (h : p.Carries id m source base length byte?)
    (hp : p.Agrees none) (hchain : Chain S p none
      ((p.space id).mappings.ids.flatMap (unmapChanges p id) ++ [.vacated id]) q none) :
    Touches id source base length p
        ((p.space id).mappings.ids.flatMap (unmapChanges p id) ++ [.vacated id]) q
      ∧ ∀ j, j < pagesFor length → q.framed? id (base + j * pageSize) = none := by
  obtain ⟨r, t, f', g', hfront, hmove, hback⟩ := hchain.split_last
  have hcs : ∀ c ∈ (p.space id).mappings.ids.flatMap (unmapChanges p id),
      c.Respects id source base length ∧ c ≠ .vacated id := by
    intro c hc
    obtain ⟨k, _, hc⟩ := List.mem_flatMap.mp hc
    exact respects_of_mem_unmapChanges hc
  have hmem : ∀ c ∈ unmapChanges p id m,
      c ∈ (p.space id).mappings.ids.flatMap (unmapChanges p id) := fun c hc =>
    List.mem_flatMap.mpr
      ⟨m, List.mem_map.mpr ⟨(m, _), KeyedTable.mem_bindings_iff.mpr h.mapping, rfl⟩, hc⟩
  have hvacated : (Change.vacated id).Respects id source base length :=
    ⟨fun _ _ hcreates => hcreates, trivial⟩
  have hnone : ∀ c, c ∉ ([] : List Change) := fun _ => List.not_mem_nil
  obtain ⟨hrmaps, htouches⟩ := hfront.touches hp h.maps (fun c hc => (hcs c hc).1)
    fun hc => (hcs _ hc).2 rfl
  have hr := hfront.agrees hp
  have ht := hmove.agrees hr
  have halters := hmove.alters hr
  -- by the time that the space is vacated no page of the mapping is left
  have htouch := halters.touch hr ht hrmaps hvacated fun _ =>
    h.gone hp hfront (fun c hc => (hcs c hc).1) hmem
  have hlast := (hback.touches ht (halters.maps ht hrmaps hvacated)
    (fun c hc => absurd hc (hnone c)) (hnone _)).2
  refine ⟨?_, h.gone hp hchain ?_ fun c hc => List.mem_append_left _ (hmem c hc)⟩
  · have hall := (htouches.step htouch).trans hlast
    rwa [List.append_nil] at hall
  · intro c hc
    rcases List.mem_append.mp hc with hc | hc
    · exact (hcs c hc).1
    · exact List.mem_singleton.mp hc ▸ hvacated

/-- Whatever takes a mapping down touches it until none of its pages is left. -/
theorem Event.touches_of_takesDown {e : Event} (h : p.Carries id m source base length byte?)
    (hp : p.Agrees none) (he : e.Permitted p) (hq : e.apply p = some q) (hdown : e.TakesDown id m) :
    ∃ cs, e.Makes p cs ∧ Touches id source base length p cs q
      ∧ ∀ j, j < pagesFor length → q.framed? id (base + j * pageSize) = none := by
  obtain ⟨cs, hmakes, hchain⟩ := e.chain (S := fun _ => True) hp he hq fun _ _ => trivial
  rcases hdown with rfl | rfl
  · cases hmakes with
    | nothing hop => exact hop.elim
    | unmapped =>
      have hcs : ∀ c ∈ unmapChanges p id m, c.Respects id source base length ∧ c ≠ .vacated id :=
        fun c hc => respects_of_mem_unmapChanges hc
      exact ⟨_, .unmapped, (hchain.touches hp h.maps (fun c hc => (hcs c hc).1)
        fun hc => (hcs _ hc).2 rfl).2,
        h.gone hp hchain (fun c hc => (hcs c hc).1) fun c hc => hc⟩
  · cases hmakes with
    | nothing hop => exact hop.elim
    | exited => exact ⟨_, .exited, h.touches_of_exit hp hchain⟩

/-- When a mapping is taken down, each of its bytes is in the file. If the last page was ever
dirty the file is filled up to whole pages, and if not it is as long as it was. -/
theorem Event.saves_file {e : Event} (h : p.Carries id m source base length byte?)
    (hp : p.Agrees none) (he : e.Permitted p) (hq : e.apply p = some q) (hdown : e.TakesDown id m)
    (hlength : length ≠ 0) :
    (∀ i, i < length → (q.file source.file).data[i]? = byte? (base + i))
      ∧ (p.Filled id source base length →
        (q.file source.file).data.length = pagesFor length * pageSize)
      ∧ (p.Unfilled id source base length → (q.file source.file).data.length = length) := by
  obtain ⟨cs, hmakes, htouches, hgone⟩ := Event.touches_of_takesDown h hp he hq hdown
  have hq := Event.agrees hp he hq
  have hcauses := fun c hc => Event.HasMade.causes (Or.inl hmakes) (c := c) hc
  have hstored : ∀ o u start bytes, .stored o u start bytes ∉ cs := fun o u start bytes hc => by
    cases hcauses _ hc
    rcases hdown with hdown | hdown <;> cases hdown
  have hmarked : ∀ o u value, .dirtied o u value ∉ cs := fun o u value hc => by
    cases hcauses _ hc
    rcases hdown with hdown | hdown <;> cases hdown
  have hshows := htouches.shows h.maps.aligned h.shows
  simp only [foldl_byteAfter_of_not_stored hstored] at hshows
  -- taking the mapping down leaves no page in a frame, so every page is clean and in the file
  have hclean : ∀ j, j < pagesFor length → q.has .dirty id (base + j * pageSize) = false :=
    fun j hj => hq.frames.has_of_not_framed? (hgone j hj) .dirty
  have hpos := (pagesFor_spec hlength).2.1
  refine ⟨?_, ?_, ?_⟩
  · intro i hi
    have hsplit := Nat.div_add_mod' i pageSize
    have hj : i / pageSize < pagesFor length := div_lt_pagesFor hi
    have hbyte := hshows.clean (i / pageSize) (i % pageSize) hj (Nat.mod_lt i pageSize_pos)
      (hsplit.symm ▸ hi) (hclean _ hj)
    rwa [Nat.add_assoc, hsplit] at hbyte
  · intro hfilled
    rcases htouches.filled h.maps.aligned hlength h.shows hfilled with hfull | hdirty
    · exact hfull
    · rw [lastPage, hclean _ (Nat.sub_lt hpos Nat.one_pos)] at hdirty
      cases hdirty
  · intro hun
    exact (htouches.unfilled h.maps.aligned hlength h.shows (fun start bytes => hstored _ _ _ _)
      (fun u value _ => hmarked _ _ _) hun).1

end Mapping

/-- Nothing stored in a mapped file is lost. Take any run that maps a file of bytes, and goes on
with any events that leave the mapping in place, clear no dirty flag and do not write the file
otherwise, with no other mapping of the file live. Then the process reads in its mapping what
it last stored there, or else what was in the file. When the mapping is taken down, or the
process ends, the file holds the same. It is as long as it was, unless the last page of the
mapping was ever dirty; then it is filled up to whole pages. -/
theorem mapped_file_kept {s p q r : Pager n} {es fs : List Event} {id : SpaceId} {k base m : Nat}
    {data : Bytes} (hs : s.IsStart) (hbefore : Run s es p) (hid : id < p.spaces.size)
    (hdata : (p.file k).contents = .bytes data) (hlimits : (p.file k).medium? = none)
    (hmap : (mapFile id k base).run p = .done m q) (hrun : Run q fs r)
    (hspares : ∀ e ∈ fs, e.Spares id m k) (hsole : ∀ t, Passed q fs t → t.MapsOnce id m k) :
    (∀ i count, i + count ≤ data.length →
      ((readUser id (base + i) count).run r).Meets
        (fun copied _ => ∃ bytes, copied = ⟨bytes, .ok ()⟩ ∧ bytes.length = count
          ∧ ∀ x, x < count →
            bytes[x]? = (q.lastStored? id (base + i + x) fs).or data[i + x]?)
        (fun _ _ => False)
        (fun _ => True))
      ∧ ∀ (e : Event) (t : Pager n), e.TakesDown id m → e.Permitted r → e.apply r = some t →
        (∀ i, i < data.length →
          (t.file k).data[i]? = (q.lastStored? id (base + i) fs).or data[i]?)
        ∧ ((∃ u, Passed q fs u ∧ u.has .dirty id (lastPage base data.length) = true) →
          (t.file k).data.length = pagesFor data.length * pageSize)
        ∧ ((∀ u, Passed q fs u → u.has .dirty id (lastPage base data.length) = false) →
          (t.file k).data.length = data.length) := by
  have hp := hbefore.agrees hs.agrees
  have hlisted := Pager.Reachable.listed ⟨s, es, hs, hbefore⟩
  obtain ⟨hlength, hbase, handle, hcarries, hun, _⟩ :=
    carries_of_mapFile hp hid hlisted hdata hlimits hmap (hsole q .start)
  have hq := agrees_of_mapFile hp hid hmap
  have hr := hrun.agrees hq
  have hrcarries := hrun.carries hq hspares hsole hcarries
  refine ⟨?_, ?_⟩
  · intro i count hin
    have hroom := (pagesFor_spec hlength).1
    refine (readUser_of_carries hrcarries hr hbase (Nat.le_trans hin hroom)).mono ?_
      (fun _ _ hf => hf) fun _ _ => trivial
    intro copied _ h
    obtain ⟨bytes, rfl, hcount, hreads⟩ := h
    refine ⟨bytes, rfl, hcount, ?_⟩
    intro x hx
    have hbyte := (hreads x hx).1 (by omega)
    simp only [Nat.add_sub_cancel_left] at hbyte
    rw [hbyte, Nat.add_assoc base i x]
  · intro e t hdown he ht
    obtain ⟨hbytes, hfilled, hunfilled⟩ := Event.saves_file hrcarries hr he ht hdown hlength
    refine ⟨?_, fun hever => hfilled ?_, fun hnever => hunfilled ?_⟩
    · intro i hi
      rw [hbytes i hi, Nat.add_sub_cancel_left]
    · obtain ⟨u, hu, hdirty⟩ := hever
      exact hrun.filled_of_passed hq hspares hsole hlength hcarries hu hdirty
    · exact hrun.unfilled hq hspares hsole hlength hcarries hnever hun

/-- A file of three bytes is mapped. -/
def threeBytesMapped : Pager 1 :=
  (oneFrame #[.ofBytes [1, 2, 3]]).ran [.request (.mapFile 0 0 pageSize)]

/-- A byte is stored in the mapping, and then the stack takes the frame. -/
def storedInMapping : List Event :=
  [.request (.write 0 (pageSize + 1) [9]), .request (.fault 0 topPage topPage)]

theorem run_mapFile_threeBytes :
    (mapFile 0 0 pageSize).run (oneFrame #[.ofBytes [1, 2, 3]]) = .done 0 threeBytesMapped := by
  have hrun : Run (oneFrame #[.ofBytes [1, 2, 3]]) [.request (.mapFile 0 0 pageSize)]
      threeBytesMapped := run_ran (by decide +kernel)
  have hstate : ((mapFile 0 0 pageSize).run (oneFrame #[.ofBytes [1, 2, 3]])).state?
      = some threeBytesMapped := (state?_map Answer.mapping _ _).symm.trans hrun.apply_eq.2
  have hspec := mapFile_spec (p := oneFrame #[.ofBytes [1, 2, 3]]) (by decide : 0 < 1) 0 pageSize
  revert hstate hspec
  cases (mapFile 0 0 pageSize).run (oneFrame #[.ofBytes [1, 2, 3]]) with
  | done m q =>
    intro hstate hspec
    cases hstate
    obtain ⟨_, _, hm, _⟩ := hspec
    rw [hm]
    rfl
  | failed e q =>
    intro hstate hspec
    have hsame : q = oneFrame #[.ofBytes [1, 2, 3]] := hspec.1
    have hmapped : (threeBytesMapped.mapping? 0 0).isSome = true := by decide +kernel
    cases hstate
    rw [hsame] at hmapped
    cases hmapped
  | fatal reason =>
    intro hstate
    cases hstate

theorem agrees_threeBytesMapped : threeBytesMapped.Agrees none :=
  (run_ran (by decide +kernel) : Run _ _ threeBytesMapped).agrees (isStart_oneFrame _).agrees

theorem mapsOnce_threeBytesMapped : threeBytesMapped.MapsOnce 0 0 0 := by
  have hstart := isStart_oneFrame #[.ofBytes [1, 2, 3]]
  refine mapsOnce_of_mapFile hstart.agrees (by decide) run_mapFile_threeBytes ?_
  intro o j fm hj
  obtain ⟨_, _, _, _, hspace⟩ := hstart.fields
  unfold mapping? at hj
  rw [(hspace o).2.2] at hj
  cases hj

/-- With one frame, the byte that was stored goes to the file when the frame is taken. It is
read from there, and is there when the mapping is gone. -/
theorem mapped_file_kept_oneFrame :
    ((readUser 0 (pageSize + 1) 2).run (threeBytesMapped.ran storedInMapping)).Meets
        (fun copied _ => ∃ bytes, copied = ⟨bytes, .ok ()⟩ ∧ bytes[0]? = some 9
          ∧ bytes[1]? = some 3)
        (fun _ _ => False) (fun _ => True)
      ∧ (((threeBytesMapped.ran storedInMapping).ran
          [.request (.unmapFile 0 0)]).file 0).data[1]? = some 9
      ∧ (((threeBytesMapped.ran storedInMapping).ran
          [.request (.unmapFile 0 0)]).file 0).data.length = pageSize := by
  have hstart := isStart_oneFrame #[.ofBytes [1, 2, 3]]
  obtain ⟨r, hr, hrun⟩ : ∃ r, threeBytesMapped.ran storedInMapping = r
      ∧ Run threeBytesMapped storedInMapping r := ⟨_, rfl, run_ran (by decide +kernel)⟩
  have hlast : Run (threeBytesMapped.ran storedInMapping) [.request (.unmapFile 0 0)] _ :=
    run_ran (by decide +kernel)
  rw [hr] at hlast ⊢
  have hspares : ∀ e ∈ storedInMapping, e.Spares 0 0 0 ∧
      ∀ o base, e ≠ .request (.mapFile o 0 base) := by
    intro e he
    simp only [storedInMapping, List.mem_cons, List.not_mem_nil, or_false] at he
    rcases he with rfl | rfl
    · exact ⟨⟨trivial, by simp [Event.TakesDown], by simp⟩, by simp⟩
    · exact ⟨⟨trivial, by simp [Event.TakesDown], by simp⟩, by simp⟩
  have hdirty : ∃ u, Passed threeBytesMapped storedInMapping u
      ∧ u.has .dirty 0 (lastPage pageSize 3) = true := by
    have hwrite : Run threeBytesMapped [.request (.write 0 (pageSize + 1) [9])] _ :=
      run_ran (by decide +kernel)
    exact ⟨_, .within hwrite.apply_eq.1 (Event.passes_of_apply hwrite.apply_eq.2),
      by decide +kernel⟩
  obtain ⟨hread, hdown⟩ := mapped_file_kept hstart .refl (by decide) rfl rfl run_mapFile_threeBytes
    hrun (fun e he => (hspares e he).1)
    fun t ht => ht.mapsOnce agrees_threeBytesMapped (fun e he => (hspares e he).2)
      mapsOnce_threeBytesMapped
  obtain ⟨hbytes, hlength, _⟩ := hdown _ _ (Or.inl rfl) hlast.apply_eq.1 hlast.apply_eq.2
  have hstored : threeBytesMapped.lastStored? 0 (pageSize + 1) storedInMapping = some 9 := by
    decide +kernel
  have hold : threeBytesMapped.lastStored? 0 (pageSize + 2) storedInMapping = none := by
    decide +kernel
  have hin : 1 + 2 ≤ ([1, 2, 3] : Bytes).length := by decide
  have hread := hread 1 2 hin
  have hlength := hlength hdirty
  refine ⟨hread.mono ?_ (fun _ _ hf => hf) fun _ _ => trivial, ?_, hlength.trans (by decide)⟩
  · intro copied _ h
    obtain ⟨bytes, hcopied, _, hbyte⟩ := h
    refine ⟨bytes, hcopied, ?_, ?_⟩
    · rw [hbyte 0 (by decide), hstored]
      rfl
    · rw [hbyte 1 (by decide), hold]
      rfl
  · rw [hbytes 1 (by decide), hstored]
    rfl

end DemandPaging

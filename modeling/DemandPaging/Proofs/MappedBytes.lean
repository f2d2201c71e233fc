import DemandPaging.Proofs.MappedPages
/-!
# The bytes of one mapping

A mapped file is as long as it was, or filled up to whole pages, and each byte of a page of
the mapping is in the frame of the page or, if the page is not dirty, in the file (`Shows`).
`Touch.shows` says that every move keeps it so, but for the bytes that it stores.

The file is filled up once its last page is written back. Before that happens the page is
dirty (`Touch.filled`), and as long as it is not the file keeps its length
(`Touch.length_of_clean`).
-/

namespace DemandPaging

open Pager

variable {n : Nat}

/-- The number of pages of a file is the least that has room for it. -/
theorem pagesFor_spec {length : Nat} (h : length ≠ 0) :
    length ≤ pagesFor length * pageSize ∧ 0 < pagesFor length
      ∧ (pagesFor length - 1) * pageSize < length := by
  simp only [pagesFor, pageSize]
  omega

theorem div_lt_pagesFor {i length : Nat} (h : i < length) : i / pageSize < pagesFor length := by
  simp only [pagesFor, pageSize]
  omega

/-- Every page of a file has bytes of it. -/
theorem mul_lt_of_lt_pagesFor {j length : Nat} (h : j < pagesFor length) :
    j * pageSize < length := by
  simp only [pagesFor, pageSize] at *
  omega

/-- Where the byte `i` beyond the start of a page is: in which page after it, and where there. -/
theorem page_of_offset {base : Nat} (hbase : PageAligned base) (i : Nat) :
    pageBase (base + i) = base + i / pageSize * pageSize
      ∧ i / pageSize * pageSize + offsetInPage (base + i) = i := by
  unfold PageAligned offsetInPage at hbase
  unfold pageBase offsetInPage
  unfold pageSize at *
  omega

theorem page_of_place {base j b : Nat} (hbase : PageAligned base) (hb : b < pageSize) :
    pageBase (base + j * pageSize + b) = base + j * pageSize
      ∧ offsetInPage (base + j * pageSize + b) = b := by
  unfold PageAligned offsetInPage at hbase
  unfold pageBase offsetInPage
  unfold pageSize at *
  omega

/-- Where an address is that lies beyond another one in the same page. -/
theorem page_of_lt {address a count : Nat} (hlow : address ≤ a)
    (hfits : offsetInPage address + count ≤ pageSize) (hhigh : a < address + count) :
    pageBase a = pageBase address ∧ offsetInPage a = offsetInPage address + (a - address) := by
  unfold pageBase offsetInPage pageSize at *
  omega

/-- The last page of a mapping. -/
def lastPage (base length : Nat) : Nat := base + (pagesFor length - 1) * pageSize

namespace Pager

/-- Each byte of the mapped file, at its address, is in a frame or in the file. -/
structure Shows (p : Pager n) (id : SpaceId) (source : FileRef) (base length : Nat)
    (byte? : Nat → Option UInt8) : Prop where
  isConsole : (p.file source.file).isConsole = false
  medium? : (p.file source.file).medium? = none
  length_le : length ≤ (p.file source.file).data.length
  le_length : (p.file source.file).data.length ≤ pagesFor length * pageSize
  framed : ∀ j b page, j < pagesFor length → b < pageSize → j * pageSize + b < length →
    p.framed? id (base + j * pageSize) = some page →
      page.bytes[b]? = byte? (base + j * pageSize + b)
  clean : ∀ j b, j < pagesFor length → b < pageSize → j * pageSize + b < length →
    p.has .dirty id (base + j * pageSize) = false →
      (p.file source.file).data[j * pageSize + b]? = byte? (base + j * pageSize + b)

/-- The file is filled up to whole pages, or will be when the last page is written back. -/
def Filled (p : Pager n) (id : SpaceId) (source : FileRef) (base length : Nat) : Prop :=
  (p.file source.file).data.length = pagesFor length * pageSize
    ∨ p.has .dirty id (lastPage base length) = true

/-- The file has the length that it had, and nothing is to be written to its last page. -/
def Unfilled (p : Pager n) (id : SpaceId) (source : FileRef) (base length : Nat) : Prop :=
  (p.file source.file).data.length = length ∧ p.has .dirty id (lastPage base length) = false

variable {p q : Pager n} {id : SpaceId} {source : FileRef} {base length k : Nat}
  {byte? : Nat → Option UInt8}

theorem Shows.isPlain (hp : p.Shows id source base length byte?) : (p.file source.file).IsPlain :=
  ⟨hp.isConsole, hp.medium?⟩

/-- A page that is not dirty is as the file shows it. -/
theorem Shows.view (hp : p.Shows id source base length byte?) {j b : Nat} (hj : j < pagesFor length)
    (hb : b < pageSize) (hlt : j * pageSize + b < length)
    (hclean : p.has .dirty id (base + j * pageSize) = false) :
    ((mappingWindow source length j).view (p.file source.file)).bytes[b]?
      = byte? (base + j * pageSize + b) := by
  have hin : j * pageSize + b < (p.file source.file).data.length :=
    Nat.lt_of_lt_of_le hlt hp.length_le
  have hread : b < min pageSize (length - j * pageSize) := by omega
  rw [FileWindow.getElem?_view _ _ hb, mappingWindow, if_pos hread, List.getElem?_eq_getElem hin,
    Option.getD_some, ← List.getElem?_eq_getElem hin]
  exact hp.clean j b hj hb hlt hclean

theorem KeepsFile.data (h : KeepsFile p q k) : (q.file k).data = (p.file k).data := by
  unfold OpenFile.data
  rw [h.1]

theorem KeepsFile.isConsole (h : KeepsFile p q k) :
    (q.file k).isConsole = (p.file k).isConsole := by
  unfold OpenFile.isConsole
  rw [h.1]

end Pager

namespace Touch

variable {p q : Pager n} {id : SpaceId} {source : FileRef} {base length : Nat} {cs : List Change}
  {byte? : Nat → Option UInt8}

/-- The file is as it was unless a dirty page was written to it. -/
theorem file (h : Touch p id source base length cs q) :
    KeepsFile p q source.file
      ∨ ∃ j page, j < pagesFor length ∧ p.has .dirty id (base + j * pageSize) = true
        ∧ p.SavedTo (mappingWindow source length j) page q := by
  cases h with
  | kept _ hfile => exact Or.inl hfile
  | loaded _ _ _ _ _ hfile => exact Or.inl hfile
  | left _ _ _ _ _ hfile => exact Or.inl hfile
  | saved hj _ hwas _ _ _ hfile => exact Or.inr ⟨_, _, hj, hwas, hfile⟩
  | stored _ _ _ _ _ _ hfile => exact Or.inl hfile
  | dirtied _ _ _ _ _ hfile => exact Or.inl hfile

/-- How long the file is after a move. -/
theorem length_data (h : Touch p id source base length cs q)
    (hp : p.Shows id source base length byte?) :
    (q.file source.file).data.length = (p.file source.file).data.length
      ∨ ∃ j, j < pagesFor length ∧ p.has .dirty id (base + j * pageSize) = true
        ∧ (q.file source.file).data.length
          = max (p.file source.file).data.length (j * pageSize + pageSize) := by
  rcases h.file with hfile | ⟨j, page, hj, hwas, hfile⟩
  · exact Or.inl (congrArg List.length hfile.data)
  · refine Or.inr ⟨j, hj, hwas, ?_⟩
    have hnew := hfile.data hp.isPlain
    rw [show (q.file source.file).data = _ from hnew, Bytes.length_overwrite, page.length_bytes]
    rfl

theorem framed (h : Touch p id source base length cs q) (hbase : PageAligned base)
    (hp : p.Shows id source base length byte?) {i b : Nat} {page' : Page} (hi : i < pagesFor length)
    (hb : b < pageSize) (hlt : i * pageSize + b < length)
    (hpage' : q.framed? id (base + i * pageSize) = some page') :
    page'.bytes[b]? = cs.foldl (Change.byteAfter id (base + i * pageSize + b))
      (byte? (base + i * pageSize + b)) := by
  cases h with
  | kept hpages _ hidle =>
    rw [hidle i b hi hb]
    exact hp.framed i b page' hi hb hlt ((hpages i hi).1 ▸ hpage')
  | @loaded _ _ j _ hothers hclean hframed _ _ hidle =>
    rw [hidle i b hi hb]
    by_cases hij : i = j
    · subst hij
      -- a page is loaded with what the file holds, and a page not in a frame is clean
      rw [hframed] at hpage'
      cases hpage'
      exact hp.view hi hb hlt hclean
    · exact hp.framed i b page' hi hb hlt ((hothers i hi hij).1 ▸ hpage')
  | @left _ _ j _ hothers _ hgone _ _ hidle =>
    rw [hidle i b hi hb]
    by_cases hij : i = j
    · subst hij
      rw [hgone] at hpage'
      cases hpage'
    · exact hp.framed i b page' hi hb hlt ((hothers i hi hij).1 ▸ hpage')
  | @saved _ _ j _ _ hothers _ _ hgone _ _ hidle =>
    rw [hidle i b hi hb]
    by_cases hij : i = j
    · subst hij
      rw [hgone] at hpage'
      cases hpage'
    · exact hp.framed i b page' hi hb hlt ((hothers i hi hij).1 ▸ hpage')
  | @stored _ j start bytes page _ hothers hfits hpage hframed =>
    rw [List.foldl_cons, List.foldl_nil]
    by_cases hij : i = j
    · subst hij
      rw [hframed] at hpage'
      cases hpage'
      rw [Page.getElem?_overwrite _ _ _ hb, Change.byteAfter_stored,
        hp.framed i b page hi hb hlt hpage]
      by_cases hin : start ≤ b ∧ b < start + bytes.length
      · rw [if_pos hin, if_pos ⟨rfl, by omega, by omega⟩]
        congr 1
        omega
      · rw [if_neg hin, if_neg fun hc => hin ⟨by omega, by omega⟩]
    · rw [Change.byteAfter_of_other_page (hbase.add_mul j) (hbase.add_mul i) hfits
        (fun hc => page_ne hij hc.2) hb]
      exact hp.framed i b page' hi hb hlt ((hothers i hi hij).1 ▸ hpage')
  | @dirtied _ j _ _ _ hothers hframed =>
    by_cases hij : i = j
    · subst hij
      exact hp.framed i b page' hi hb hlt (hframed ▸ hpage')
    · exact hp.framed i b page' hi hb hlt ((hothers i hi hij).1 ▸ hpage')

theorem clean (h : Touch p id source base length cs q) (hbase : PageAligned base)
    (hp : p.Shows id source base length byte?) {i b : Nat} (hi : i < pagesFor length)
    (hb : b < pageSize) (hlt : i * pageSize + b < length)
    (hclean' : q.has .dirty id (base + i * pageSize) = false) :
    (q.file source.file).data[i * pageSize + b]?
      = cs.foldl (Change.byteAfter id (base + i * pageSize + b))
        (byte? (base + i * pageSize + b)) := by
  have hold := hp.clean i b hi hb hlt
  cases h with
  | kept hpages hfile hidle =>
    rw [hidle i b hi hb, hfile.data]
    exact hold ((hpages i hi).2 ▸ hclean')
  | @loaded _ _ j _ hothers hclean _ _ hfile hidle =>
    rw [hidle i b hi hb, hfile.data]
    by_cases hij : i = j
    · exact hold (hij ▸ hclean)
    · exact hold ((hothers i hi hij).2 ▸ hclean')
  | @left _ _ j _ hothers hclean _ _ hfile hidle =>
    rw [hidle i b hi hb, hfile.data]
    by_cases hij : i = j
    · exact hold (hij ▸ hclean)
    · exact hold ((hothers i hi hij).2 ▸ hclean')
  | @saved _ _ j page _ hothers _ hpage _ _ hfile hidle =>
    have hnew : (q.file source.file).data
        = Bytes.overwrite (p.file source.file).data (j * pageSize) page.bytes :=
      hfile.data hp.isPlain
    rw [hidle i b hi hb, hnew, Bytes.getElem?_overwrite, page.length_bytes]
    by_cases hij : i = j
    · subst hij
      rw [if_pos ⟨by omega, by omega⟩, Nat.add_sub_cancel_left]
      exact hp.framed i b page hi hb hlt hpage
    · -- the page was written beside this byte, and not beyond the end of the file
      have hbeside : ¬(j * pageSize ≤ i * pageSize + b
          ∧ i * pageSize + b < j * pageSize + pageSize) := by
        unfold pageSize at *
        omega
      have hinside : ¬((p.file source.file).data.length ≤ i * pageSize + b
          ∧ i * pageSize + b < j * pageSize) :=
        fun hc => Nat.not_le.mpr (Nat.lt_of_lt_of_le hlt hp.length_le) hc.1
      rw [if_neg hbeside, if_neg hinside]
      exact hold ((hothers i hi hij).2 ▸ hclean')
  | @stored _ j start bytes page _ hothers hfits _ _ hdirty hfile =>
    rw [hfile.data, List.foldl_cons, List.foldl_nil]
    by_cases hij : i = j
    · rw [hij, hdirty] at hclean'
      cases hclean'
    · rw [Change.byteAfter_of_other_page (hbase.add_mul j) (hbase.add_mul i) hfits
        (fun hc => page_ne hij hc.2) hb]
      exact hold ((hothers i hi hij).2 ▸ hclean')
  | @dirtied _ j _ _ _ hothers _ hdirty hfile =>
    rw [hfile.data]
    by_cases hij : i = j
    · subst hij
      refine hold (Bool.eq_false_iff.mpr ?_)
      intro hwas
      rw [hdirty hwas] at hclean'
      cases hclean'
    · exact hold ((hothers i hi hij).2 ▸ hclean')

/-- Every move keeps each byte in its frame or in the file, but for those that it stores. -/
theorem shows (h : Touch p id source base length cs q) (hbase : PageAligned base)
    (hp : p.Shows id source base length byte?) :
    q.Shows id source base length fun a => cs.foldl (Change.byteAfter id a) (byte? a) := by
  have hlow := hp.length_le
  have hhigh := hp.le_length
  have hplain : (q.file source.file).IsPlain := by
    rcases h.file with hfile | ⟨j, page, _, _, hfile⟩
    · exact ⟨hfile.isConsole.trans hp.isConsole, hfile.2.trans hp.medium?⟩
    · exact hfile.isPlain hp.isPlain
  refine ⟨hplain.isConsole, hplain.medium?, ?_, ?_,
    fun j b page hj hb hlt hpage => h.framed hbase hp hj hb hlt hpage,
    fun j b hj hb hlt hc => h.clean hbase hp hj hb hlt hc⟩
  · rcases h.length_data hp with heq | ⟨j, _, _, heq⟩
    · omega
    · omega
  · rcases h.length_data hp with heq | ⟨j, hj, _, heq⟩
    · omega
    · have hle := mul_add_pageSize_le hj
      omega

/-- As long as the last page is not dirty, the file keeps its length. -/
theorem length_of_clean (h : Touch p id source base length cs q) (hlength : length ≠ 0)
    (hp : p.Shows id source base length byte?) (hun : p.Unfilled id source base length) :
    (q.file source.file).data.length = length := by
  obtain ⟨hsame, hclean⟩ := hun
  rcases h.length_data hp with heq | ⟨j, hj, hwas, heq⟩
  · exact heq.trans hsame
  · have hne : j ≠ pagesFor length - 1 := by
      intro heq
      subst heq
      rw [lastPage, hwas] at hclean
      cases hclean
    have hlast := (pagesFor_spec hlength).2.2
    have hle := mul_add_pageSize_le (show j < pagesFor length - 1 by omega)
    omega

/-- The last page becomes dirty only where bytes are stored in it or it is marked. -/
theorem dirty_lastPage (h : Touch p id source base length cs q) (hlength : length ≠ 0)
    (hclean : p.has .dirty id (lastPage base length) = false)
    (hstored : ∀ start bytes, .stored id (lastPage base length) start bytes ∉ cs)
    (hmarked : ∀ u value, pageBase u = lastPage base length → .dirtied id u value ∉ cs) :
    q.has .dirty id (lastPage base length) = false := by
  have hlast : pagesFor length - 1 < pagesFor length :=
    Nat.sub_lt (pagesFor_spec hlength).2.1 Nat.one_pos
  unfold lastPage at *
  cases h with
  | kept hpages => exact (hpages _ hlast).2.trans hclean
  | @loaded _ _ j _ hothers _ _ hdirty =>
    by_cases hj : pagesFor length - 1 = j
    · exact hj ▸ hdirty
    · exact (hothers _ hlast hj).2.trans hclean
  | @left _ _ j _ hothers _ _ hdirty =>
    by_cases hj : pagesFor length - 1 = j
    · exact hj ▸ hdirty
    · exact (hothers _ hlast hj).2.trans hclean
  | @saved _ _ j _ _ hothers _ _ _ hdirty =>
    by_cases hj : pagesFor length - 1 = j
    · exact hj ▸ hdirty
    · exact (hothers _ hlast hj).2.trans hclean
  | @stored _ j _ _ _ _ hothers =>
    by_cases hj : pagesFor length - 1 = j
    · subst hj
      exact absurd (List.mem_singleton_self _) (hstored _ _)
    · exact (hothers _ hlast hj).2.trans hclean
  | @dirtied _ j _ _ hupage hothers =>
    by_cases hj : pagesFor length - 1 = j
    · subst hj
      exact absurd (List.mem_singleton_self _) (hmarked _ _ hupage)
    · exact (hothers _ hlast hj).2.trans hclean

/-- Once the last page was dirty, the file is filled up or will be. -/
theorem filled (h : Touch p id source base length cs q) (hlength : length ≠ 0)
    (hp : p.Shows id source base length byte?) (hfilled : p.Filled id source base length) :
    q.Filled id source base length := by
  have hlast : pagesFor length - 1 < pagesFor length :=
    Nat.sub_lt (pagesFor_spec hlength).2.1 Nat.one_pos
  have hfull : (pagesFor length - 1) * pageSize + pageSize = pagesFor length * pageSize := by
    rw [← Nat.succ_mul, Nat.succ_eq_add_one, Nat.sub_add_cancel (pagesFor_spec hlength).2.1]
  have hhigh := hp.le_length
  rcases hfilled with hlen | hwas
  · refine Or.inl ?_
    rcases h.length_data hp with heq | ⟨j, hj, _, heq⟩
    · exact heq.trans hlen
    · have hle := mul_add_pageSize_le hj
      omega
  · unfold Filled lastPage at *
    cases h with
    | kept hpages => exact Or.inr ((hpages _ hlast).2.trans hwas)
    | @loaded _ _ j _ hothers hclean =>
      by_cases hj : pagesFor length - 1 = j
      · rw [hj, hclean] at hwas
        cases hwas
      · exact Or.inr ((hothers _ hlast hj).2.trans hwas)
    | @left _ _ j _ hothers hclean =>
      by_cases hj : pagesFor length - 1 = j
      · rw [hj, hclean] at hwas
        cases hwas
      · exact Or.inr ((hothers _ hlast hj).2.trans hwas)
    | @saved _ _ j page _ hothers _ _ _ _ hfile =>
      by_cases hj : pagesFor length - 1 = j
      -- the last page was saved, and saving it fills the file to its end
      · refine Or.inl ?_
        have hnew := hfile.data hp.isPlain
        rw [show (q.file source.file).data = _ from hnew, Bytes.length_overwrite, page.length_bytes]
        show max _ (j * pageSize + pageSize) = _
        rw [← hj, hfull]
        exact Nat.max_eq_right hhigh
      · exact Or.inr ((hothers _ hlast hj).2.trans hwas)
    | @stored _ j _ _ _ _ hothers _ _ _ hdirty =>
      by_cases hj : pagesFor length - 1 = j
      · exact Or.inr (hj ▸ hdirty)
      · exact Or.inr ((hothers _ hlast hj).2.trans hwas)
    | @dirtied _ j _ _ _ hothers _ hdirty =>
      by_cases hj : pagesFor length - 1 = j
      · subst hj
        exact Or.inr (hdirty hwas)
      · exact Or.inr ((hothers _ hlast hj).2.trans hwas)

end Touch

/-! ## Sequences of moves -/

/-- What a sequence of moves does to the pages of a mapping and to its file. -/
inductive Touches (id : SpaceId) (source : FileRef) (base length : Nat) :
    Pager n → List Change → Pager n → Prop where
  | refl {p : Pager n} : Touches id source base length p [] p
  | step {p q r : Pager n} {cs ds : List Change} (h : Touches id source base length p cs q)
      (touch : Touch q id source base length ds r) : Touches id source base length p (cs ++ ds) r

namespace Touches

variable {p q r : Pager n} {id : SpaceId} {source : FileRef} {base length : Nat}
  {cs ds : List Change} {byte? : Nat → Option UInt8}

theorem trans (h : Touches id source base length p cs q)
    (h' : Touches id source base length q ds r) : Touches id source base length p (cs ++ ds) r := by
  induction h' with
  | refl => rwa [List.append_nil]
  | step _ touch ih =>
    rw [← List.append_assoc]
    exact ih.step touch

theorem shows (h : Touches id source base length p cs q) (hbase : PageAligned base)
    (hp : p.Shows id source base length byte?) :
    q.Shows id source base length fun a => cs.foldl (Change.byteAfter id a) (byte? a) := by
  induction h with
  | refl => exact hp
  | step _ touch ih =>
    simp only [List.foldl_append]
    exact touch.shows hbase ih

theorem filled (h : Touches id source base length p cs q) (hbase : PageAligned base)
    (hlength : length ≠ 0) (hp : p.Shows id source base length byte?)
    (hfilled : p.Filled id source base length) : q.Filled id source base length := by
  induction h with
  | refl => exact hfilled
  | step h touch ih => exact touch.filled hlength (h.shows hbase hp) ih

theorem unfilled (h : Touches id source base length p cs q) (hbase : PageAligned base)
    (hlength : length ≠ 0) (hp : p.Shows id source base length byte?)
    (hstored : ∀ start bytes, .stored id (lastPage base length) start bytes ∉ cs)
    (hmarked : ∀ u value, pageBase u = lastPage base length → .dirtied id u value ∉ cs)
    (hun : p.Unfilled id source base length) : q.Unfilled id source base length := by
  induction h with
  | refl => exact hun
  | step h touch ih =>
    have hr := ih (fun start bytes hmem => hstored start bytes (List.mem_append_left _ hmem))
      fun u value hu hmem => hmarked u value hu (List.mem_append_left _ hmem)
    exact ⟨touch.length_of_clean hlength (h.shows hbase hp) hr, touch.dirty_lastPage hlength hr.2
      (fun start bytes hmem => hstored start bytes (List.mem_append_right _ hmem))
      fun u value hu hmem => hmarked u value hu (List.mem_append_right _ hmem)⟩

end Touches

/-- A sequence of moves that does not end the process of the mapping. -/
theorem Chain.touches {S : Array OpenFile → Prop} {p q : Pager n} {f g : Option (Fin n)}
    {cs : List Change} {id : SpaceId} {source : FileRef} {base length : Nat}
    (h : Chain S p f cs q g) (hp : p.Agrees f) (hmaps : p.Maps id source base length)
    (hcs : ∀ c ∈ cs, c.Respects id source base length) (hvacated : .vacated id ∉ cs) :
    q.Maps id source base length ∧ Touches id source base length p cs q := by
  induction h with
  | refl => exact ⟨hmaps, .refl⟩
  | quiet h move ih =>
    obtain ⟨hr, htouches⟩ := ih hcs hvacated
    have hagrees := h.agrees hp
    have hshift := move.shift hagrees
    have hmore := htouches.step (hshift.touch hagrees (move.agrees hagrees) hr)
    rw [List.append_nil] at hmore
    exact ⟨hshift.maps (move.agrees hagrees) hr, hmore⟩
  | @visible cs c _ _ _ _ h move ih =>
    obtain ⟨hr, htouches⟩ := ih (fun c hc => hcs c (List.mem_append_left _ hc))
      fun hmem => hvacated (List.mem_append_left _ hmem)
    have hlast : c ∈ cs ++ [c] := List.mem_append_right _ (List.mem_singleton_self _)
    have hagrees := h.agrees hp
    have halters := move.alters hagrees
    -- the space itself does not end here, so the frames of its pages need not be known
    refine ⟨halters.maps (move.agrees hagrees) hr (hcs _ hlast), htouches.step ?_⟩
    exact halters.touch hagrees (move.agrees hagrees) hr (hcs _ hlast)
      fun hc => absurd (hc ▸ hlast) hvacated

end DemandPaging

import DemandPaging.Proofs.CallSequences
import DemandPaging.Proofs.Changes
/-!
# A page directory behaves as a map of pages

A page directory keeps packed words by page number. Seen from outside it is a map from page numbers
to what is known of a mapped page (`PageMap`), and `toMap` is this view. The words do not get in the
way, since writing one field of a word leaves the others alone (`page_withFlag_accessed`,
`page_withFlag_dirty`, `page_userMapping`).

`Shows` is what every call keeps: the directory stands for a map in which all pages lie in user
space, so that they can be counted (`Shows.size_eq`). What one call does to the map is
`Shows.serve`, and `behaves_as_map` says what comes of any sequence of calls on an empty directory.
-/

namespace DemandPaging

/-- A table whose keys lie below a bound has as many bindings as there are bound numbers below
it. -/
theorem KeyedTable.size_eq_countP {α : Type} {t : KeyedTable α} {bound : Nat}
    (h : ∀ k, bound ≤ k → t.find? k = none) :
    t.size = (List.range bound).countP fun k => (t.find? k).isSome := by
  have hnodup : t.keys.Nodup :=
    List.pairwise_map.mpr (t.ascending.imp fun hab => Nat.ne_of_lt hab)
  have hbound : ∀ k, k ∈ t.keys ↔ (t.find? k).isSome = true := by
    intro k
    rw [Option.isSome_iff_exists]
    refine List.mem_map.trans ⟨?_, ?_⟩
    · rintro ⟨⟨key, value⟩, hb, rfl⟩
      exact ⟨value, mem_bindings_iff.mp hb⟩
    · rintro ⟨value, hvalue⟩
      exact ⟨(k, value), mem_bindings_iff.mpr hvalue, rfl⟩
  have hmem : ∀ k, k ∈ t.keys ↔ k < bound ∧ (t.find? k).isSome = true := by
    intro k
    rw [hbound]
    refine ⟨fun hk => ⟨Nat.lt_of_not_le fun hle => ?_, hk⟩, And.right⟩
    rw [h k hle] at hk
    cases hk
  exact (List.length_map ..).symm.trans (length_eq_countP hnodup hmem)

/-! ## The map -/

/-- What is known of a mapped page. -/
structure MappedPage where
  /-- The physical address of its frame. -/
  frame : Nat
  writable : Bool
  accessed : Bool
  dirty : Bool
  deriving DecidableEq

/-- The page with its accessed flag written. -/
def MappedPage.withAccessed (page : MappedPage) (value : Bool) : MappedPage :=
  { page with accessed := value }

/-- The page with its dirty flag written. -/
def MappedPage.withDirty (page : MappedPage) (value : Bool) : MappedPage :=
  { page with dirty := value }

/-- The mapped pages by their numbers. -/
abbrev PageMap := Nat → Option MappedPage

namespace PageMap

/-- The map with another entry for the page that holds `upage`. -/
def set (m : PageMap) (upage : Nat) (page? : Option MappedPage) : PageMap :=
  fun k => if k = pageNumber upage then page? else m k

/-- A page cannot be mapped outside user space, nor where one is mapped. -/
def Refuses (m : PageMap) (upage : Nat) : Prop :=
  userTop ≤ upage ∨ (m (pageNumber upage)).isSome = true

instance (m : PageMap) (upage : Nat) : Decidable (m.Refuses upage) :=
  inferInstanceAs (Decidable (_ ∨ _))

/-- Number of mapped pages of user space. -/
def size (m : PageMap) : Nat := (List.range (userTop / pageSize)).countP fun k => (m k).isSome

end PageMap

namespace PageEntry

/-- What an entry says of its page. -/
def page (e : PageEntry) : MappedPage where
  frame := e.frameAddress
  writable := e.has .writable
  accessed := e.has .accessed
  dirty := e.has .dirty

theorem page_withFlag_accessed (e : PageEntry) (value : Bool) :
    (e.withFlag .accessed value).page = e.page.withAccessed value := by
  simp [page, MappedPage.withAccessed, has_withFlag, frameAddress, frameNumber_withFlag]

theorem page_withFlag_dirty (e : PageEntry) (value : Bool) :
    (e.withFlag .dirty value).page = e.page.withDirty value := by
  simp [page, MappedPage.withDirty, has_withFlag, frameAddress, frameNumber_withFlag]

theorem page_userMapping {frame : Nat} (haligned : PageAligned frame) (hlow : frame < 0x100000000)
    (writable : Bool) :
    ∃ e, userMapping frame writable = .ok e ∧ e.page = ⟨frame, writable, false, false⟩ := by
  obtain ⟨e, he, hframe⟩ := userMapping_of_lt haligned hlow writable
  obtain ⟨hwritable, haccessed, hdirty⟩ := has_userMapping he
  refine ⟨e, he, ?_⟩
  unfold page
  rw [hframe, hwritable, haccessed, hdirty]

end PageEntry

namespace PageDirectory

/-- The map that a directory stands for. -/
def toMap (d : PageDirectory) : PageMap := fun k => (d.entries.find? k).map PageEntry.page

theorem frameAddress?_eq_toMap (d : PageDirectory) (upage : Nat) :
    d.frameAddress? upage = (d.toMap (pageNumber upage)).map (·.frame) := by
  unfold frameAddress? toMap
  rw [Option.map_map]
  rfl

theorem has_eq_toMap {flag : PageFlag} {ofPage : MappedPage → Bool}
    (h : ∀ e : PageEntry, ofPage e.page = e.has flag) (d : PageDirectory) (upage : Nat) :
    d.has flag upage = (d.toMap (pageNumber upage)).any ofPage := by
  unfold has toMap lookup
  cases d.entries.find? (pageNumber upage) with
  | none => rfl
  | some e => exact (h e).symm

theorem toMap_unmap (d : PageDirectory) (upage : Nat) :
    (d.unmap upage).toMap = d.toMap.set upage none := by
  funext k
  unfold toMap unmap PageMap.set
  rw [KeyedTable.find?_erase]
  split
  · rfl
  · rfl

theorem toMap_setFlag {flag : PageFlag} {value : Bool} {change : MappedPage → MappedPage}
    (h : ∀ e : PageEntry, (e.withFlag flag value).page = change e.page) (d : PageDirectory)
    (upage : Nat) :
    (d.setFlag flag upage value).toMap
      = d.toMap.set upage ((d.toMap (pageNumber upage)).map change) := by
  funext k
  unfold toMap setFlag PageMap.set
  rw [KeyedTable.find?_modify, Option.map_map, Option.map_map]
  by_cases hk : k = pageNumber upage
  · subst hk
    simp only [if_true, Function.comp_def, h]
  · simp only [hk, if_false, Function.comp_def]

/-! ## Calls -/

/-- A call that changes a page directory. -/
inductive Call where
  | map (upage frame : Nat) (writable : Bool)
  | unmap (upage : Nat)
  | setAccessed (upage : Nat) (value : Bool)
  | setDirty (upage : Nat) (value : Bool)

/-- Whole pages are mapped, to whole frames that a 32-bit word can address. -/
def Call.WellFormed : Call → Prop
  | .map upage frame _ => PageAligned upage ∧ PageAligned frame ∧ frame < 0x100000000
  | .unmap _ | .setAccessed _ _ | .setDirty _ _ => True

/-- The map of pages after a call. -/
def Call.onMap (m : PageMap) : Call → PageMap
  | .map upage frame writable =>
    if m.Refuses upage then m else m.set upage (some ⟨frame, writable, false, false⟩)
  | .unmap upage => m.set upage none
  | .setAccessed upage value => m.set upage ((m (pageNumber upage)).map (·.withAccessed value))
  | .setDirty upage value => m.set upage ((m (pageNumber upage)).map (·.withDirty value))

/-- The directory after a call. -/
def serve (d : PageDirectory) : Call → Except Fatal PageDirectory
  | .map upage frame writable =>
    match d.map upage frame writable with
    | .ok (some d') => .ok d'
    | .ok none => .ok d
    | .error fatal => .error fatal
  | .unmap upage => .ok (d.unmap upage)
  | .setAccessed upage value => .ok (d.setFlag .accessed upage value)
  | .setDirty upage value => .ok (d.setFlag .dirty upage value)

/-- The directory after a sequence of calls. -/
def serveAll (d : PageDirectory) (calls : List Call) : Except Fatal PageDirectory :=
  calls.foldlM serve d

/-- The directory stands for the map, whose pages lie in user space, and refuses no page that it
could map. -/
structure Shows (d : PageDirectory) (m : PageMap) : Prop where
  toMap_eq : d.toMap = m
  reserved : d.reserved = []
  user : ∀ k, userTop / pageSize ≤ k → m k = none

namespace Shows

variable {d d' : PageDirectory} {m : PageMap} {upage : Nat}

theorem empty : Shows {} fun _ => none := ⟨rfl, rfl, fun _ _ => rfl⟩

theorem size_eq (h : d.Shows m) : d.size = m.size := by
  have hnone : ∀ k, userTop / pageSize ≤ k → d.entries.find? k = none := fun k hk =>
    Option.map_eq_none_iff.mp ((congrFun h.toMap_eq k).trans (h.user k hk))
  refine (KeyedTable.size_eq_countP hnone).trans (List.countP_congr fun k _ => ?_)
  rw [← h.toMap_eq]
  unfold toMap
  rw [Option.isSome_map]

/-- No page is mapped outside user space. -/
theorem eq_none (h : d.Shows m) (hupage : userTop ≤ upage) : m (pageNumber upage) = none :=
  h.user _ (Nat.div_le_div_right hupage)

/-- What stands for a map does so after one of its pages was set, unless that is outside user
space. -/
theorem set (h : d.Shows m) {page? : Option MappedPage} (hmap : d'.toMap = d.toMap.set upage page?)
    (hreserved : d'.reserved = d.reserved) (huser : userTop ≤ upage → page? = none) :
    d'.Shows (m.set upage page?) := by
  refine ⟨hmap.trans (by rw [h.toMap_eq]), hreserved.trans h.reserved, fun k hk => ?_⟩
  unfold PageMap.set
  split
  next heq =>
    refine huser ?_
    simp only [pageNumber, userTop, pageSize] at *
    omega
  next => exact h.user k hk

theorem unmap (h : d.Shows m) (upage : Nat) : (d.unmap upage).Shows (m.set upage none) :=
  h.set (toMap_unmap d upage) rfl fun _ => rfl

theorem setFlag (h : d.Shows m) {flag : PageFlag} {value : Bool} {change : MappedPage → MappedPage}
    (hflag : ∀ e : PageEntry, (e.withFlag flag value).page = change e.page) (upage : Nat) :
    (d.setFlag flag upage value).Shows (m.set upage ((m (pageNumber upage)).map change)) := by
  refine h.set (h.toMap_eq ▸ toMap_setFlag hflag d upage) rfl fun hupage => ?_
  rw [h.eq_none hupage]
  rfl

theorem setAccessed (h : d.Shows m) (upage : Nat) (value : Bool) :
    (d.setFlag .accessed upage value).Shows
      (m.set upage ((m (pageNumber upage)).map (·.withAccessed value))) :=
  h.setFlag (PageEntry.page_withFlag_accessed · value) upage

theorem setDirty (h : d.Shows m) (upage : Nat) (value : Bool) :
    (d.setFlag .dirty upage value).Shows
      (m.set upage ((m (pageNumber upage)).map (·.withDirty value))) :=
  h.setFlag (PageEntry.page_withFlag_dirty · value) upage

theorem refuses_iff (h : d.Shows m) : d.refuses upage = true ↔ m.Refuses upage := by
  have huser : ¬ IsUserAddress upage ↔ userTop ≤ upage := Nat.not_lt
  rw [← h.toMap_eq]
  unfold refuses PageMap.Refuses isMapped lookup toMap
  simp [h.reserved, huser]

theorem map_refused (h : d.Shows m) (hrefuses : m.Refuses upage) (frame : Nat) (writable : Bool) :
    d.map upage frame writable = .ok none := by
  unfold PageDirectory.map
  rw [if_pos (h.refuses_iff.mpr hrefuses)]

/-- A page that can be mapped gets an entry with its frame and with clear flags. -/
theorem map_granted (h : d.Shows m) {frame : Nat} (haligned : PageAligned frame)
    (hlow : frame < 0x100000000) (writable : Bool) (hfree : ¬ m.Refuses upage) :
    ∃ d', d.map upage frame writable = .ok (some d')
      ∧ d'.Shows (m.set upage (some ⟨frame, writable, false, false⟩)) := by
  obtain ⟨e, he, hpage⟩ := PageEntry.page_userMapping haligned hlow writable
  refine ⟨{ d with entries := d.entries.insert (pageNumber upage) e }, ?_, h.set ?_ rfl ?_⟩
  · unfold PageDirectory.map
    rw [if_neg (mt h.refuses_iff.mp hfree), he]
  · funext k
    unfold toMap PageMap.set
    rw [KeyedTable.find?_insert]
    split
    · exact congrArg some hpage
    · rfl
  · exact fun hupage => absurd (Or.inl hupage) hfree

/-- A call does to a directory what it does to its map. -/
theorem serve (h : d.Shows m) {call : Call} (hcall : call.WellFormed) :
    ∃ d', d.serve call = .ok d' ∧ d'.Shows (call.onMap m) := by
  cases call with
  | map upage frame writable =>
    obtain ⟨-, haligned, hlow⟩ := hcall
    unfold PageDirectory.serve Call.onMap
    by_cases hrefuses : m.Refuses upage
    · simp only [h.map_refused hrefuses, if_pos hrefuses]
      exact ⟨d, rfl, h⟩
    · obtain ⟨d', hmap, hshows⟩ := h.map_granted haligned hlow writable hrefuses
      simp only [hmap, if_neg hrefuses]
      exact ⟨d', rfl, hshows⟩
  | unmap upage => exact ⟨_, rfl, h.unmap upage⟩
  | setAccessed upage value => exact ⟨_, rfl, h.setAccessed upage value⟩
  | setDirty upage value => exact ⟨_, rfl, h.setDirty upage value⟩

end Shows

/-- **A page directory behaves as a map of pages.** After any sequence of calls on an empty
directory that map whole pages to whole frames below four gibibytes, the directory stands for what
the same calls make of the empty map, in which all pages lie in user space. Each page is seen as it
is in the map, every flag of an unmapped page is clear, and the mapped pages are counted. A request
to map a page is refused just when the page lies outside user space or is mapped; otherwise the page
is found at the very frame that was asked for, with clear flags. Unmapping a page forgets that page
alone. Writing the accessed or the dirty flag changes that flag of that page and nothing else, and
nothing if the page is not mapped.

That is so because of any word at all each field can be written without the other bits of it. -/
theorem behaves_as_map {calls : List Call} (hcalls : ∀ call ∈ calls, call.WellFormed) :
    ∃ (d : PageDirectory) (m : PageMap), serveAll {} calls = .ok d
      ∧ m = calls.foldl Call.onMap (fun _ => none)
      ∧ d.toMap = m
      ∧ (∀ k, userTop / pageSize ≤ k → m k = none)
      ∧ (∀ upage, d.frameAddress? upage = (m (pageNumber upage)).map (·.frame))
      ∧ (∀ upage, d.writable upage = (m (pageNumber upage)).any (·.writable))
      ∧ (∀ upage, d.accessed upage = (m (pageNumber upage)).any (·.accessed))
      ∧ (∀ upage, d.dirty upage = (m (pageNumber upage)).any (·.dirty))
      ∧ d.size = m.size
      ∧ (∀ upage frame writable, m.Refuses upage → d.map upage frame writable = .ok none)
      ∧ (∀ upage frame writable, (Call.map upage frame writable).WellFormed → ¬ m.Refuses upage →
        ∃ d', d.map upage frame writable = .ok (some d') ∧ d'.frameAddress? upage = some frame
          ∧ d'.toMap = m.set upage (some ⟨frame, writable, false, false⟩))
      ∧ (∀ upage, (d.unmap upage).toMap = m.set upage none)
      ∧ (∀ upage value, (d.setFlag .accessed upage value).toMap
        = m.set upage ((m (pageNumber upage)).map fun page => { page with accessed := value }))
      ∧ (∀ upage value, (d.setFlag .dirty upage value).toMap
        = m.set upage ((m (pageNumber upage)).map fun page => { page with dirty := value }))
      ∧ (∀ (e : PageEntry) (flag : PageFlag) (value : Bool) (i : Nat),
        (e.withFlag flag value).word.getLsbD i
          = if i = flag.position then value else e.word.getLsbD i)
      ∧ (∀ (e : PageEntry) (number : BitVec 20) (i : Nat),
        (e.withFrameNumber number).word.getLsbD i
          = if i < 12 then e.word.getLsbD i else number.getLsbD (i - 12)) := by
  have hstep : ∀ call ∈ calls, ∀ d m, Shows d m →
      ∃ d', d.serve call = .ok d' ∧ d'.Shows (call.onMap m) :=
    fun call hcall _ _ h => h.serve (hcalls call hcall)
  obtain ⟨d, hserve, hshows⟩ := foldlM_simulates hstep Shows.empty
  have hmap := hshows.toMap_eq
  refine ⟨d, _, hserve, rfl, hmap, hshows.user, ?_, ?_, ?_, ?_, hshows.size_eq,
    fun _ frame writable h => hshows.map_refused h frame writable, ?_,
    fun upage => (hshows.unmap upage).toMap_eq,
    fun upage value => (hshows.setAccessed upage value).toMap_eq,
    fun upage value => (hshows.setDirty upage value).toMap_eq, ?_,
    PageEntry.getLsbD_withFrameNumber⟩
  · exact fun upage => hmap ▸ frameAddress?_eq_toMap d upage
  · exact fun upage => hmap ▸ has_eq_toMap (fun _ => rfl) d upage
  · exact fun upage => hmap ▸ has_eq_toMap (fun _ => rfl) d upage
  · exact fun upage => hmap ▸ has_eq_toMap (fun _ => rfl) d upage
  · intro upage frame writable ⟨_, haligned, hlow⟩ hfree
    obtain ⟨d', hgranted, hshows'⟩ := hshows.map_granted haligned hlow writable hfree
    refine ⟨d', hgranted, ?_, hshows'.toMap_eq⟩
    rw [frameAddress?_eq_toMap, hshows'.toMap_eq, PageMap.set, if_pos rfl]
    rfl
  · intro e flag value i
    exact Bits.getLsbD_withBit _ (Nat.lt_trans flag.position_lt (by decide)) value i

/-- The flags of a read-only page are written at any address of it, and its frame stays. -/
theorem behaves_as_map_flags :
    ∃ d, serveAll {} [.map 0x2000 0x200000 false, .setAccessed 0x2000 true, .setDirty 0x2fff true,
        .setDirty 0x3000 true, .setAccessed 0x2001 false] = .ok d
      ∧ d.frameAddress? 0x2abc = some 0x200000 ∧ d.dirty 0x2000 = true
      ∧ d.accessed 0x2000 = false ∧ d.writable 0x2000 = false ∧ d.dirty 0x3000 = false
      ∧ d.map 0x2000 0x201000 true = .ok none := by
  have hcalls : ∀ call ∈ [Call.map 0x2000 0x200000 false, .setAccessed 0x2000 true,
      .setDirty 0x2fff true, .setDirty 0x3000 true, .setAccessed 0x2001 false],
      call.WellFormed := by
    have hmap : (Call.map 0x2000 0x200000 false).WellFormed := ⟨by decide, by decide, by decide⟩
    simpa [Call.WellFormed] using hmap
  obtain ⟨d, m, hserve, hm, -, -, hframe, hwritable, haccessed, hdirty, -, hrefuses, -⟩ :=
    behaves_as_map hcalls
  refine ⟨d, hserve, ?_, ?_, ?_, ?_, ?_, hrefuses _ _ _ ?_⟩
  · rw [hframe, hm]
    decide
  · rw [hdirty, hm]
    decide
  · rw [haccessed, hm]
    decide
  · rw [hwritable, hm]
    decide
  · rw [hdirty, hm]
    decide
  · rw [hm]
    decide

end PageDirectory

end DemandPaging

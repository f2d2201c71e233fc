import DemandPaging.Proofs.PageShifts
import DemandPaging.Proofs.VisibleMoves
/-!
# What a visible move does to the pages

A visible move changes the pages that its label names, and leaves the others alone
(`Alters`). `Visible.alters` says so of each move. Files are changed by writing a dropped
page back, and by somebody else; a mapping that comes or goes opens or closes a handle, which
changes nothing that a file holds (`SameContents`).
-/

namespace DemandPaging

variable {n : Nat}

namespace Pager

variable {p q : Pager n} {f : Option (Fin n)} {o : SpaceId} {v : Nat}

/-- Every file holds what it held, and falls short of it as it did. -/
def SameContents (p q : Pager n) : Prop :=
  ∀ k, (q.file k).contents = (p.file k).contents ∧ (q.file k).medium? = (p.file k).medium?

theorem getD_modify {files : Array OpenFile} {g : OpenFile → OpenFile} (k index : Nat) :
    (files.modify index g).getD k default
      = if k = index ∧ index < files.size then g (files.getD index default)
        else files.getD k default := by
  rw [Array.getD_eq_getD_getElem?, Array.getElem?_modify]
  by_cases hk : index = k
  · subst hk
    by_cases hlt : index < files.size
    · simp [hlt]
    · simp [hlt]
  · rw [if_neg hk, if_neg fun hc => hk hc.1.symm, Array.getD_eq_getD_getElem?]

theorem SameContents.of_modify {index : Nat} {g : OpenFile → OpenFile}
    (hq : q.files = p.files.modify index g)
    (hcontents : (g (p.file index)).contents = (p.file index).contents)
    (hlimits : (g (p.file index)).medium? = (p.file index).medium?) : SameContents p q := by
  intro k
  unfold file
  rw [hq, getD_modify]
  split
  next h =>
    rw [h.1]
    exact ⟨hcontents, hlimits⟩
  next => exact ⟨rfl, rfl⟩

/-- What writes flags of one page changes no other page, and no address. -/
theorem OnlyPage.of_flags {g : PageDirectory → PageDirectory}
    (hq : q.spaces = p.spaces.update o fun s => { s with directory := g s.directory })
    (haddr : ∀ d u, (g d).frameAddress? u = d.frameAddress? u)
    (hhas : ∀ d flag u, pageBase u ≠ v → (g d).has flag u = d.has flag u)
    (hreserved : ∀ d, (g d).reserved = d.reserved) :
    OnlyPage p q o v ∧ (∀ id u, q.address? id u = p.address? id u)
      ∧ ∀ id u, q.descriptor? id u = p.descriptor? id u := by
  have hcases : ∀ id,
      q.space id = { p.space id with directory := g (p.space id).directory } ∧ id = o
      ∨ q.space id = p.space id := by
    intro id
    unfold space
    rw [hq, Spaces.lookup_update]
    split
    next h => exact Or.inl ⟨by rw [h.1], h.1⟩
    next => exact Or.inr rfl
  have haddress : ∀ id u, q.address? id u = p.address? id u := by
    intro id u
    unfold Pager.address?
    rcases hcases id with ⟨h, _⟩ | h
    · rw [h, haddr]
    · rw [h]
  have hdesc : ∀ id u, q.descriptor? id u = p.descriptor? id u := by
    intro id u
    unfold Pager.descriptor?
    rcases hcases id with ⟨h, _⟩ | h
    · rw [h]
    · rw [h]
  refine ⟨⟨by rw [hq, Spaces.size_update], ?_, ?_, fun id u _ => haddress id u,
    ?_, fun id u _ => hdesc id u⟩, haddress, hdesc⟩
  · intro id
    rcases hcases id with ⟨h, _⟩ | h
    · rw [h, hreserved]
    · rw [h]
  · intro id
    rcases hcases id with ⟨h, _⟩ | h
    · rw [h]
    · rw [h]
  · intro flag id u hne
    unfold Pager.has
    rcases hcases id with ⟨h, ho⟩ | h
    · rw [h, hhas _ _ _ fun hu => hne ⟨ho, hu⟩]
    · rw [h]

end Pager

open Pager

/-- What a visible move does to the pages and to what the files hold. -/
inductive Alters (p : Pager n) : Change → Pager n → Prop where
  | grown {id : SpaceId} {upage : Nat} {q : Pager n}
      (hothers : ∀ o v, PageAligned v → ¬(o = id ∧ v = upage) → SamePage p q o v)
      (haligned : PageAligned upage)
      (hvacant : p.descriptor? id upage = none ∧ p.framed? id upage = none)
      (hafter : q.descriptor? id upage = none) (hframed : q.framed? id upage = some .zero)
      (hfiles : q.files = p.files) (hwritable : q.has .writable id upage = true) :
      Alters p (.grown id upage) q
  | stored {id : SpaceId} {upage start : Nat} {bytes : Bytes} {page : Page} {q : Pager n}
      (hothers : ∀ o v, PageAligned v → ¬(o = id ∧ v = upage) → SamePage p q o v)
      (haligned : PageAligned upage) (hfits : start + bytes.length ≤ pageSize)
      (hpage : p.framed? id upage = some page)
      (hafter : q.descriptor? id upage = p.descriptor? id upage)
      (hframed : q.framed? id upage = some (page.overwrite start bytes))
      (hdirty : q.has .dirty id upage = true) (hfiles : q.files = p.files)
      (hwritable : q.has .writable id upage = p.has .writable id upage) :
      Alters p (.stored id upage start bytes) q
  | dirtied {id : SpaceId} {upage : Nat} {value : Bool} {q : Pager n}
      (hothers : ∀ o v, PageAligned v → ¬(o = id ∧ v = pageBase upage) → SamePage p q o v)
      (hafter : q.descriptor? id (pageBase upage) = p.descriptor? id (pageBase upage))
      (hframed : q.framed? id (pageBase upage) = p.framed? id (pageBase upage))
      (hdirty : q.has .dirty id (pageBase upage)
        = (value && (p.framed? id (pageBase upage)).isSome))
      (hfiles : q.files = p.files) (hswap : q.swap = p.swap)
      (hwritable : q.has .writable id (pageBase upage) = p.has .writable id (pageBase upage)) :
      Alters p (.dirtied id upage value) q
  | described {id : SpaceId} {d : Descriptor} {w : FileWindow} {q : Pager n}
      (hothers : ∀ o v, PageAligned v → ¬(o = id ∧ v = d.upage) → SamePage p q o v)
      (haligned : PageAligned d.upage) (hb : d.backing = .privateFile w)
      (hvacant : p.descriptor? id d.upage = none ∧ p.framed? id d.upage = none)
      (hafter : q.descriptor? id d.upage = some d) (hgone : q.framed? id d.upage = none)
      (hfiles : q.files = p.files) : Alters p (.described id d) q
  | mapped {id : SpaceId} {index base handle : Nat} {q : Pager n}
      (hothers : ∀ o v, PageAligned v →
        ¬(o = id ∧ v ∈ pageRange base (pagesFor (p.file index).length)) → SamePage p q o v)
      (hfault : mappingFault? (p.file index) base = none)
      (hvacant : ∀ i, i < pagesFor (p.file index).length →
        p.descriptor? id (base + i * pageSize) = none ∧ p.framed? id (base + i * pageSize) = none)
      (hafter : ∀ i, i < pagesFor (p.file index).length →
        q.descriptor? id (base + i * pageSize)
            = some (mappingPage ⟨index, handle⟩ base (p.file index).length i)
          ∧ q.framed? id (base + i * pageSize) = none)
      (hmapping : ∀ o m, q.mapping? o m = if o = id ∧ m = (p.space id).mappings.nextId
        then some ⟨⟨index, handle⟩, base, pagesFor (p.file index).length⟩ else p.mapping? o m)
      (hcontents : SameContents p q) :
      Alters p (.mapped id ⟨⟨index, handle⟩, base, pagesFor (p.file index).length⟩) q
  | unlisted {id : SpaceId} {m : Nat} {q : Pager n}
      (hpages : ∀ o v, PageAligned v → SamePage p q o v) (hfiles : q.files = p.files) :
      Alters p (.unlisted id m) q
  | dropped {id : SpaceId} {upage : Nat} {d : Descriptor} {q : Pager n}
      (hothers : ∀ o v, PageAligned v → ¬(o = id ∧ v = upage) → SamePage p q o v)
      (haligned : PageAligned upage) (hd : p.descriptor? id upage = some d)
      (hmapped : d.backing.isMapped = true)
      (hunlisted : ∀ m fm, p.mapping? id m = some fm → upage ∉ fm.pages)
      (hafter : q.descriptor? id upage = none) (hgone : q.framed? id upage = none)
      (hfiles : p.framed? id upage = none ∧ q.files = p.files
        ∨ ∃ w page, d.backing = .mappedFile w ∧ p.framed? id upage = some page
            ∧ q.files = p.filesAfter (p.has .dirty id upage) w page) :
      Alters p (.dropped id upage) q
  | closed {file handle : Nat} {q : Pager n} (hpages : ∀ o v, PageAligned v → SamePage p q o v)
      (hcontents : SameContents p q) : Alters p (.closed file handle) q
  | vacated {id : SpaceId} {q : Pager n}
      (hothers : ∀ o v, PageAligned v → o ≠ id → SamePage p q o v)
      (hunlisted : ∀ m, p.mapping? id m = none)
      (hgone : ∀ u, q.descriptor? id u = none ∧ q.framed? id u = none)
      (hfiles : q.files = p.files) : Alters p (.vacated id) q
  | rewritten {index : Nat} {q : Pager n} (hpages : ∀ o v, PageAligned v → SamePage p q o v)
      (hfiles : ∀ k, k ≠ index → q.file k = p.file k) : Alters p (.rewritten index) q

/-- A page has the descriptor that it had, unless it was described or mapped just now. -/
theorem Alters.descriptor_of {p q : Pager n} {c : Change} (h : Alters p c q) {o : SpaceId} {v : Nat}
    (hv : PageAligned v) {e : Descriptor} (he : q.descriptor? o v = some e) :
    p.descriptor? o v = some e ∨ c = .described o e ∧ v = e.upage
      ∨ ∃ source base length i, c = .mapped o ⟨source, base, pagesFor length⟩
          ∧ i < pagesFor length ∧ v = base + i * pageSize
          ∧ e = mappingPage source base length i := by
  -- of another page than the changed one the descriptor is the old one
  have hother : ∀ {id u}, (∀ o v, PageAligned v → ¬(o = id ∧ v = u) → SamePage p q o v) →
      (q.descriptor? id u = some e → p.descriptor? id u = some e) → p.descriptor? o v = some e := by
    intro id u hothers hself
    by_cases hpage : o = id ∧ v = u
    · obtain ⟨rfl, rfl⟩ := hpage
      exact hself he
    · exact (hothers o v hv hpage).descriptor? ▸ he
  cases h with
  | grown hothers _ _ hafter =>
    exact Or.inl (hother hothers fun hc => absurd (hafter.symm.trans hc) (by simp))
  | stored hothers _ _ _ hafter => exact Or.inl (hother hothers fun hc => hafter.symm.trans hc)
  | dirtied hothers hafter => exact Or.inl (hother hothers fun hc => hafter.symm.trans hc)
  | @described id d _ _ hothers _ _ _ hafter =>
    by_cases hpage : o = id ∧ v = d.upage
    · obtain ⟨rfl, rfl⟩ := hpage
      rw [hafter] at he
      cases he
      exact Or.inr (Or.inl ⟨rfl, rfl⟩)
    · exact Or.inl ((hothers o v hv hpage).descriptor? ▸ he)
  | @mapped id index base _ _ hothers _ _ hafter =>
    by_cases hpage : o = id ∧ v ∈ pageRange base (pagesFor (p.file index).length)
    · obtain ⟨rfl, hu⟩ := hpage
      obtain ⟨i, hi, rfl⟩ := mem_pageRange.mp hu
      rw [(hafter i hi).1] at he
      cases he
      exact Or.inr (Or.inr ⟨_, _, _, i, rfl, hi, rfl, rfl⟩)
    · exact Or.inl ((hothers o v hv hpage).descriptor? ▸ he)
  | unlisted hpages => exact Or.inl ((hpages o v hv).descriptor? ▸ he)
  | dropped hothers _ _ _ _ hafter =>
    exact Or.inl (hother hothers fun hc => absurd (hafter.symm.trans hc) (by simp))
  | closed hpages => exact Or.inl ((hpages o v hv).descriptor? ▸ he)
  | @vacated id _ hothers _ hgone =>
    by_cases ho : o = id
    · subst ho
      exact absurd ((hgone v).1.symm.trans he) (by simp)
    · exact Or.inl ((hothers o v hv ho).descriptor? ▸ he)
  | rewritten hpages => exact Or.inl ((hpages o v hv).descriptor? ▸ he)

theorem Pager.SameContents.isPlain {p q : Pager n} (h : SameContents p q) {k : Nat}
    (hk : (p.file k).IsPlain) : (q.file k).IsPlain := by
  refine ⟨?_, (h k).2.trans hk.medium?⟩
  unfold OpenFile.isConsole
  rw [(h k).1]
  exact hk.isConsole

/-- Only somebody else can set limits to a file. -/
theorem Alters.isPlain {p q : Pager n} {c : Change} (h : Alters p c q) {k : Nat}
    (hc : c ≠ .rewritten k) (hk : (p.file k).IsPlain) : (q.file k).IsPlain := by
  have hsame : q.files = p.files → (q.file k).IsPlain := fun hfiles => by
    rw [file, hfiles]
    exact hk
  cases h with
  | grown _ _ _ _ _ hfiles => exact hsame hfiles
  | stored _ _ _ _ _ _ _ hfiles => exact hsame hfiles
  | dirtied _ _ _ _ hfiles => exact hsame hfiles
  | described _ _ _ _ _ _ hfiles => exact hsame hfiles
  | mapped _ _ _ _ _ hcontents => exact hcontents.isPlain hk
  | unlisted _ hfiles => exact hsame hfiles
  | dropped _ _ _ _ _ _ _ hfiles =>
    rcases hfiles with ⟨_, hfiles⟩ | ⟨w, page, _, _, hfiles⟩
    · exact hsame hfiles
    · unfold filesAfter at hfiles
      split at hfiles
      · unfold file
        rw [hfiles, getD_modify]
        split
        next heq =>
          rw [← heq.1]
          exact hk.save w page
        next => exact hk
      · exact hsame hfiles
  | closed _ hcontents => exact hcontents.isPlain hk
  | vacated _ _ _ hfiles => exact hsame hfiles
  | rewritten _ hfiles =>
    rw [hfiles k fun heq => hc (heq ▸ rfl)]
    exact hk

namespace Visible

variable {p q : Pager n} {id : SpaceId} {upage : Nat} {i : Fin n}

theorem alters_grown {directory : PageDirectory} (hp : p.Agrees (some i))
    (hi : p.assignment? i = some (.fresh id upage)) (hd : p.descriptor? id upage = none)
    (hzero : p.page i = .zero)
    (hmap : PageDirectory.Installed (p.space id).directory directory upage (p.frameAddress i) true)
    (hframes : q.frames = p.frames) (hswap : q.swap = p.swap) (hfiles : q.files = p.files)
    (hspaces : q.spaces = p.spaces.put id { p.space id with directory := directory }) :
    Alters p (.grown id upage) q := by
  have hid : id < p.spaces.size := hp.frames.owner i _ hi
  have haligned : PageAligned upage := (hp.frames.upage i _ hi).1
  obtain ⟨honly, haddr, hafter, _, hwritable⟩ :=
    Quiet.views_landed false hid haligned hmap (fun _ _ => rfl) hspaces
  have hnone : p.address? id upage = none := by
    obtain ⟨a, ha, _, hnone⟩ := hp.frames.flying i rfl
    rw [hi] at ha
    cases ha
    exact hnone
  refine .grown (fun o v hv hne => ?_) haligned ⟨hd, framed?_of_unmapped hnone⟩ (hafter.trans hd) ?_
    hfiles hwritable
  · exact .of_only honly hv hne (by rw [hframes]) (fun j _ => by rw [page, hframes, page])
      fun slot _ => by rw [hswap]
  · have hq : q.frame? id upage = some i := by
      unfold frame?
      rw [haddr, Option.bind_some, hframes]
      exact FramePool.frameHolding?_frameAddress p.frames.pool i
    unfold framed?
    rw [hq, Option.map_some, page, hframes]
    exact congrArg some hzero

theorem alters_stored {start : Nat} {bytes : Bytes} {a : Assignment} (hp : p.Agrees none)
    (hi : p.assignment? i = some a) (howner : a.owner = id) (hupage : a.upage = upage)
    (hfits : start + bytes.length ≤ pageSize) :
    Alters p (.stored id upage start bytes)
      ((p.writePage i ((p.page i).overwrite start bytes)).updateDirectory id fun d =>
        (d.setFlag .accessed upage true).setFlag .dirty upage true) := by
  subst howner hupage
  -- the state after is named, so that the views of it are stated once and not unfolded again
  obtain ⟨q, hq⟩ : ∃ q, q = (p.writePage i ((p.page i).overwrite start bytes)).updateDirectory
    a.owner fun d => (d.setFlag .accessed a.upage true).setFlag .dirty a.upage true := ⟨_, rfl⟩
  have haligned : PageAligned a.upage := (hp.frames.upage i a hi).1
  have hid := hp.frames.owner i a hi
  have hmapped := hp.frames.mapped i a hi (by simp)
  obtain ⟨honly, haddr, hdesc⟩ := OnlyPage.of_flags (p := p) (q := q) (v := a.upage)
    (g := fun d => (d.setFlag .accessed a.upage true).setFlag .dirty a.upage true)
    (by rw [hq]; rfl)
    (fun d u => by rw [PageDirectory.frameAddress?_setFlag, PageDirectory.frameAddress?_setFlag])
    (fun d flag u hu => by
      rw [PageDirectory.has_setFlag, haligned.pageBase_eq, if_neg fun hc => hu hc.1,
        PageDirectory.has_setFlag, haligned.pageBase_eq, if_neg fun hc => hu hc.1])
    fun _ => rfl
  have hpage : ∀ j, q.page j = if j = i then (p.page i).overwrite start bytes else p.page j := by
    intro j
    rw [hq]
    exact FramePool.contents_write ..
  rw [← hq]
  refine .stored (fun o v hv hne => ?_) haligned hfits (hp.frames.framed?_of_assigned hi (by simp))
    (hdesc _ _) ?_ ?_ (by rw [hq]; rfl) ?_
  · refine .of_only honly hv hne (by rw [hq]; rfl) ?_ fun slot _ => by rw [hq]; rfl
    intro j hj
    obtain ⟨b, hb, _, howner, hupage⟩ := hp.frames.of_frame? hj
    rw [hpage, if_neg]
    -- a page is in one frame, so no other page sees the bytes that were written
    intro heq
    subst heq
    rw [hi] at hb
    cases hb
    exact hne ⟨howner.symm, (hupage.trans hv.pageBase_eq).symm⟩
  · have hframe : q.frame? a.owner a.upage = some i := by
      unfold frame?
      rw [haddr, hmapped, Option.bind_some, hq]
      exact FramePool.frameHolding?_frameAddress p.frames.pool i
    unfold framed?
    rw [hframe, Option.map_some, hpage, if_pos rfl]
  · rw [hq]
    unfold Pager.has updateDirectory updateSpace space
    rw [Spaces.lookup_update, if_pos ⟨rfl, hid⟩, PageDirectory.has_setFlag, if_pos ⟨rfl, rfl⟩,
      PageDirectory.isMapped_eq, PageDirectory.frameAddress?_setFlag]
    show (true && (p.address? a.owner a.upage).isSome) = true
    rw [hmapped]
    rfl
  · rw [hq]
    unfold Pager.has updateDirectory updateSpace space
    rw [Spaces.lookup_update, if_pos ⟨rfl, hid⟩, PageDirectory.has_setFlag, if_neg (by simp),
      PageDirectory.has_setFlag, if_neg (by simp)]
    rfl

theorem alters_dirtied {value : Bool} (hp : p.Agrees none) :
    Alters p (.dirtied id upage value) (p.updateDirectory id (·.setFlag .dirty upage value)) := by
  obtain ⟨q, hq⟩ : ∃ q, q = p.updateDirectory id (·.setFlag .dirty upage value) := ⟨_, rfl⟩
  obtain ⟨honly, haddr, hdesc⟩ := OnlyPage.of_flags (p := p) (q := q) (v := pageBase upage)
    (g := fun d => d.setFlag .dirty upage value) (by rw [hq]; rfl)
    (fun d u => PageDirectory.frameAddress?_setFlag ..)
    (fun d flag u hu => by rw [PageDirectory.has_setFlag, if_neg fun hc => hu hc.1]) fun _ => rfl
  rw [← hq]
  refine .dirtied ?_ (hdesc _ _) ?_ ?_ (by rw [hq]; rfl) (by rw [hq]; rfl) ?_
  · intro o v hv hne
    exact .of_only honly hv hne (by rw [hq]; rfl) (fun j _ => by rw [hq]; rfl)
      fun slot _ => by rw [hq]; rfl
  · unfold framed? frame?
    rw [haddr, hq]
    rfl
  · rw [hp.frames.isSome_framed?, address?_pageBase, hq]
    unfold Pager.has updateDirectory updateSpace space
    rw [Spaces.lookup_update]
    split
    next =>
      rw [PageDirectory.has_setFlag, if_pos ⟨pageBase_pageBase _, rfl⟩, PageDirectory.isMapped_eq,
        PageDirectory.frameAddress?_pageBase]
      rfl
    next hid =>
      -- of a space that does not exist nothing is mapped
      have hnone : p.address? id upage = none := by
        cases hx : p.address? id upage with
        | none => rfl
        | some x => exact absurd ⟨rfl, hp.frames.lt_size_of_address hx⟩ hid
      rw [hnone, Option.isSome_none, Bool.and_false, PageDirectory.has_pageBase]
      exact PageDirectory.has_of_frameAddress?_eq_none hnone _
  · rw [hq]
    unfold Pager.has updateDirectory updateSpace space
    rw [Spaces.lookup_update]
    split
    next hid => rw [PageDirectory.has_setFlag, if_neg (by simp), hid.1]
    next => rfl

theorem alters_described {d : Descriptor} {w : FileWindow} (hid : id < p.spaces.size)
    (haligned : PageAligned d.upage) (hb : d.backing = .privateFile w)
    (hd : p.descriptor? id d.upage = none) (hnone : p.address? id d.upage = none)
    (hframes : q.frames = p.frames) (hswap : q.swap = p.swap) (hfiles : q.files = p.files)
    (hspaces : q.spaces = p.spaces.put id
      { p.space id with descriptors := (p.space id).descriptors.insert d.upage d }) :
    Alters p (.described id d) q := by
  have honly : OnlyPage p q id d.upage := .of_put hspaces hid rfl rfl (fun _ _ => rfl)
    (fun _ _ _ => rfl) fun u hu => by rw [KeyedTable.find?_insert, if_neg hu]
  refine .described (fun o v hv hne => ?_) haligned hb ⟨hd, framed?_of_unmapped hnone⟩ ?_ ?_ hfiles
  · exact .of_only honly hv hne (by rw [hframes]) (fun j _ => by rw [page, hframes, page])
      fun slot _ => by rw [hswap]
  · rw [descriptor?_of_put hspaces hid, if_pos rfl, KeyedTable.find?_insert_self]
  · refine framed?_of_unmapped ?_
    rw [address?_of_put hspaces hid, if_pos rfl]
    exact hnone

theorem alters_mapped {index base handle : Nat} {file : OpenFile} (hid : id < p.spaces.size)
    (hfault : mappingFault? (p.file index) base = none)
    (hvacant : (p.space id).isVacantRange (pagesFor (p.file index).length) base = true)
    (hopen : (p.file index).open? = some (handle, file))
    (hframes : q.frames = p.frames) (hswap : q.swap = p.swap)
    (hfiles : q.files = p.files.modify index fun _ => file)
    (hspaces : q.spaces = p.spaces.put id
      { p.space id with
        descriptors := (p.space id).descriptors.insertAll
          (mappingPages ⟨index, handle⟩ base (p.file index).length)
        mappings := ((p.space id).mappings.add
          ⟨⟨index, handle⟩, base, pagesFor (p.file index).length⟩).2 }) :
    Alters p (.mapped id ⟨⟨index, handle⟩, base, pagesFor (p.file index).length⟩) q := by
  obtain ⟨haddr, hhas, hnew, hold, hmapping⟩ := views_mapped hid hspaces
  have hfree : ∀ k, k < pagesFor (p.file index).length →
      p.descriptor? id (base + k * pageSize) = none
        ∧ p.address? id (base + k * pageSize) = none := fun k hk =>
    isVacant_iff.mp (isVacantRange_iff.mp hvacant k hk)
  refine .mapped (fun o v _ hne => ?_) hfault
    (fun i hi => ⟨(hfree i hi).1, framed?_of_unmapped (hfree i hi).2⟩)
    (fun i hi => ⟨hnew i hi, framed?_of_unmapped ((haddr _ _).trans (hfree i hi).2)⟩) hmapping ?_
  · exact .of_views (haddr o v) (by rw [hframes]) (fun j _ => by rw [page, hframes, page])
      (fun flag _ => hhas flag o v) (hold o v hne) fun slot _ => by rw [hswap]
  · unfold OpenFile.open? at hopen
    split at hopen
    next =>
      cases hopen
      exact .of_modify hfiles rfl rfl
    next => cases hopen

theorem alters_droppedAbsent {d : Descriptor} (hp : p.Agrees none)
    (hd : p.descriptor? id upage = some d) (hmapped : d.backing.isMapped = true)
    (hunlisted : ∀ m fm, p.mapping? id m = some fm → upage ∉ fm.pages)
    (hnone : p.address? id upage = none)
    (hframes : q.frames = p.frames) (hswap : q.swap = p.swap.freed? d.backing.slot?)
    (hfiles : q.files = p.files)
    (hspaces : q.spaces = p.spaces.put id
      { p.space id with descriptors := (p.space id).descriptors.erase upage }) :
    Alters p (.dropped id upage) q := by
  obtain ⟨honly, haddr, hafter⟩ := views_droppedAbsent (lt_size_of_descriptor hd) hspaces
  refine .dropped (fun o v hv hne => ?_) (hp.descriptors.upage id upage d hd).1 hd hmapped hunlisted
    hafter (framed?_of_unmapped ((haddr _ _).trans hnone))
    (Or.inl ⟨framed?_of_unmapped hnone, hfiles⟩)
  exact .of_only honly hv hne (by rw [hframes]) (fun j _ => by rw [page, hframes, page])
    fun slot _ => by rw [hswap, SwapArea.pageIn_freed?]

theorem alters_droppedPresent {a : Assignment} {d : Descriptor} {w : FileWindow}
    (hp : p.Agrees none) (hd : p.descriptor? id upage = some d) (hb : d.backing = .mappedFile w)
    (hunlisted : ∀ m fm, p.mapping? id m = some fm → upage ∉ fm.pages)
    (hi : p.assignment? i = some a) (howner : a.owner = id) (hupage : a.upage = upage)
    (hframes : q.frames = p.frames.without i) (hswap : q.swap = p.swap)
    (hfiles : q.files = p.filesAfter (p.has .dirty id upage) w (p.page i))
    (hspaces : q.spaces = p.spaces.put id
      { p.space id with
        directory := (p.space id).directory.unmap upage
        descriptors := (p.space id).descriptors.erase upage }) :
    Alters p (.dropped id upage) q := by
  subst howner hupage
  have haligned := (hp.frames.upage i a hi).1
  obtain ⟨honly, hxnone, hafter⟩ := views_droppedPresent (hp.frames.owner i a hi) haligned hspaces
  refine .dropped (fun o v hv hne => ?_) haligned hd (by rw [hb]; rfl) hunlisted hafter
    (framed?_of_unmapped hxnone)
    (Or.inr ⟨w, p.page i, hb, hp.frames.framed?_of_assigned hi (by simp), hfiles⟩)
  exact .of_only honly hv hne (by rw [hframes]; rfl) (fun j _ => by rw [page, hframes]; rfl)
    fun slot _ => by rw [hswap]

theorem alters_vacated (hp : p.Agrees none) (hid : id < p.spaces.size)
    (hunlisted : ∀ m, p.mapping? id m = none)
    (hswap : (p.space id).descriptors.freeSlots p.swap = .ok q.swap)
    (hframes : q.frames = ((p.frames.ownedBy id).map Prod.fst).foldl FrameTable.without p.frames)
    (hfiles : q.files = p.files)
    (hspaces : q.spaces = p.spaces.put id
      { p.space id with
        directory := (p.frames.ownedBy id).foldl (fun d frame => d.unmap frame.2)
          (p.space id).directory
        descriptors := .empty }) : Alters p (.vacated id) q := by
  obtain ⟨hxnone, hdnone, hother, _, _⟩ := views_vacated hp.frames hid hspaces
  obtain ⟨hbase, hcontents⟩ :=
    FrameTable.pool_foldl_without ((p.frames.ownedBy id).map Prod.fst) p.frames
  -- freeing slots clears bits of the map and writes nothing to the device
  have hdevice : q.swap.device = p.swap.device := by
    obtain ⟨swap, hrun, hdevice, _⟩ := hp.slots.freeSlots id
    rw [hswap] at hrun
    cases hrun
    exact hdevice
  refine .vacated (fun o v _ ho => ?_) hunlisted
    (fun u => ⟨hdnone u, framed?_of_unmapped (hxnone u)⟩) hfiles
  refine .of_views (by rw [address?, hother o ho, address?]) (by rw [hframes, hbase])
    ?_ (fun flag _ => by rw [Pager.has, hother o ho, Pager.has])
    (by rw [descriptor?, hother o ho, descriptor?]) ?_
  · intro j _
    rw [page, hframes, hcontents, page]
  · intro slot _
    unfold SwapArea.pageIn SwapArea.sectorAt
    rw [hdevice]

theorem alters {f g : Option (Fin n)} {c : Change} (move : Visible p f c q g) (hp : p.Agrees f) :
    Alters p c q := by
  cases move with
  | grown hi hd hzero hmap => exact alters_grown hp hi hd hzero hmap rfl rfl rfl rfl
  | stored hi howner hupage _ hfits => exact alters_stored hp hi howner hupage hfits
  | dirtied => exact alters_dirtied hp
  | described hid haligned _ hb _ hd hnone =>
    exact alters_described hid haligned hb hd hnone rfl rfl rfl rfl
  | mapped hid hfault hvacant hopen =>
    exact alters_mapped hid hfault hvacant hopen rfl rfl rfl rfl
  | @unlisted id m =>
    have hviews := fun o => views_unlisted (p := p) id m rfl o
    refine .unlisted ?_ rfl
    intro o v _
    exact .of_views (congrArg (·.frameAddress? v) (hviews o).1) rfl (fun _ _ => rfl)
      (fun flag _ => congrArg (·.has flag v) (hviews o).1) (congrArg (·.find? v) (hviews o).2.1)
      fun _ _ => rfl
  | droppedAbsent hd hmapped hunlisted hnone =>
    exact alters_droppedAbsent hp hd hmapped hunlisted hnone rfl rfl rfl rfl
  | droppedPresent hd hb hunlisted hi howner hupage =>
    exact alters_droppedPresent hp hd hb hunlisted hi howner hupage rfl rfl rfl rfl
  | @closed file handle =>
    refine .closed (fun o v _ => .of_spaces rfl rfl (fun _ _ => rfl) fun _ _ => rfl) ?_
    exact .of_modify (g := (·.close handle)) rfl rfl rfl
  | vacated hid hunlisted hswap => exact alters_vacated hp hid hunlisted hswap rfl rfl rfl
  | @rewritten index data medium? =>
    refine .rewritten (fun o v _ => .of_spaces rfl rfl (fun _ _ => rfl) fun _ _ => rfl) ?_
    intro k hk
    unfold file updateFile
    rw [getD_modify, if_neg fun hc => hk hc.1]

/-- Only mapping a file and striking a mapping off change the mappings of a space. -/
theorem mappings_of_ne {f g : Option (Fin n)} {c : Change} (move : Visible p f c q g)
    (hmapped : ∀ fm, c ≠ .mapped id fm) (hunlisted : ∀ m, c ≠ .unlisted id m) :
    (q.space id).mappings = (p.space id).mappings := by
  have hsame (h : ∀ o, (q.space o).mappings = (p.space o).mappings) :
      (q.space id).mappings = (p.space id).mappings := h id
  cases move with
  | grown => exact hsame (mappings_of_put_same rfl rfl)
  | stored => exact mappings_updateDirectory _ _ _ id
  | dirtied => exact mappings_updateDirectory _ _ _ id
  | described => exact hsame (mappings_of_put_same rfl rfl)
  | @mapped o _ _ _ _ hid =>
    have hne : o ≠ id := fun h => hmapped _ (congrArg (Change.mapped · _) h)
    rw [mappings_of_put rfl hid, if_neg hne.symm]
  | @unlisted o m =>
    have hne : o ≠ id := fun h => hunlisted m (h ▸ rfl)
    unfold space updateSpace
    rw [Spaces.lookup_update, if_neg fun h => hne h.1.symm]
  | droppedAbsent => exact hsame (mappings_of_put_same rfl rfl)
  | droppedPresent => exact hsame (mappings_of_put_same rfl rfl)
  | closed => rfl
  | vacated => exact hsame (mappings_of_put_same rfl rfl)
  | rewritten => rfl

/-- A mapping stays listed unless it is struck off the list. -/
theorem mapping?_of_ne {f g : Option (Fin n)} {c : Change} (move : Visible p f c q g)
    (hp : p.Agrees f) {m : Nat} {fm : FileMapping} (hm : p.mapping? id m = some fm)
    (hc : c ≠ .unlisted id m) : q.mapping? id m = some fm := by
  by_cases hmapped : ∃ fm', c = .mapped id fm'
  · obtain ⟨fm', rfl⟩ := hmapped
    cases move with
    | mapped hid =>
      rw [(views_mapped hid rfl).2.2.2.2, if_neg]
      · exact hm
      · -- the new number is one that no mapping has
        intro h
        obtain ⟨_, rfl⟩ := h
        exact Nat.lt_irrefl _ (hp.mappings.numbered _ _ _ hm)
  · by_cases hunlisted : ∃ k, c = .unlisted id k
    · obtain ⟨k, rfl⟩ := hunlisted
      cases move with
      | unlisted =>
        rw [mapping?_unlisted, if_neg]
        · exact hm
        · intro h
          obtain ⟨_, rfl, _⟩ := h
          exact hc rfl
    · unfold mapping? at hm ⊢
      rwa [move.mappings_of_ne (fun fm' h => hmapped ⟨fm', h⟩) fun k h => hunlisted ⟨k, h⟩]

/-- A mapping that is listed was listed before, unless its file was mapped just now. -/
theorem mapping?_before {f g : Option (Fin n)} {c : Change} (move : Visible p f c q g) {m : Nat}
    {fm : FileMapping} (hm : q.mapping? id m = some fm) :
    p.mapping? id m = some fm ∨ c = .mapped id fm := by
  by_cases hmapped : ∃ fm', c = .mapped id fm'
  · obtain ⟨fm', rfl⟩ := hmapped
    cases move with
    | mapped hid =>
      rw [(views_mapped hid rfl).2.2.2.2] at hm
      split at hm
      next h =>
        cases hm
        exact Or.inr rfl
      next => exact Or.inl hm
  · refine Or.inl ?_
    by_cases hunlisted : ∃ k, c = .unlisted id k
    · obtain ⟨k, rfl⟩ := hunlisted
      cases move with
      | unlisted =>
        rw [mapping?_unlisted] at hm
        split at hm
        next => cases hm
        next => exact hm
    · unfold mapping? at hm ⊢
      rwa [move.mappings_of_ne (fun fm' h => hmapped ⟨fm', h⟩) fun k h => hunlisted ⟨k, h⟩] at hm

end Visible

end DemandPaging

import DemandPaging.Proofs.QuietMoves
/-!
# What a quiet move does to the pages

Seen from the pages a quiet move is one of three things (`Shift`): it leaves all of them
alone, or it takes one page out of its frame, or it brings one page into a frame. All other
pages are as before (`SamePage`), down to what their slots hold. `Quiet.shift` says so of
each move; what follows for the contents of pages is proved from that.
-/

namespace DemandPaging

variable {n : Nat}

namespace Pager

/-- What the frame of a page holds, if the page is mapped. -/
def framed? (p : Pager n) (id : SpaceId) (upage : Nat) : Option Page :=
  (p.frame? id upage).map p.page

variable {p q : Pager n} {f : Option (Fin n)} {id : SpaceId} {u : Nat} {i : Fin n}

theorem content?_of_framed? {page : Page} (h : p.framed? id u = some page) :
    p.content? id u = some page := by
  obtain ⟨i, hi, rfl⟩ := Option.map_eq_some_iff.mp h
  unfold content?
  rw [hi]

theorem content?_of_not_framed? (h : p.framed? id u = none) :
    p.content? id u = (p.descriptor? id u).bind fun d => p.parked? d.backing := by
  unfold content?
  rw [Option.map_eq_none_iff.mp h]

/-- The frame that a page is mapped to is assigned to it, and not in flight. -/
theorem FramesAgree.of_frame? (hp : p.FramesAgree f) (h : p.frame? id u = some i) :
    ∃ a, p.assignment? i = some a ∧ f ≠ some i ∧ a.owner = id ∧ a.upage = pageBase u := by
  unfold frame? at h
  obtain ⟨x, hx, hi⟩ := Option.bind_eq_some_iff.mp h
  obtain ⟨j, a, ha, hf, howner, hupage, rfl⟩ := hp.frame_of_address hx
  rw [show p.frameAddress j = p.frames.pool.frameAddress j from rfl,
    FramePool.frameHolding?_frameAddress] at hi
  cases hi
  exact ⟨a, ha, hf, howner, hupage⟩

/-- A frame that is assigned, and not in flight, is that of its page. -/
theorem FramesAgree.framed?_of_assigned (hp : p.FramesAgree f) {a : Assignment}
    (hi : p.assignment? i = some a) (hf : f ≠ some i) :
    p.framed? a.owner a.upage = some (p.page i) := by
  unfold framed? frame?
  rw [hp.mapped i a hi hf, Option.bind_some,
    show p.frameAddress i = p.frames.pool.frameAddress i from rfl,
    FramePool.frameHolding?_frameAddress]
  rfl

theorem framed?_of_unmapped (h : p.address? id u = none) : p.framed? id u = none := by
  unfold framed? frame?
  rw [h]
  rfl

theorem FramesAgree.isSome_framed? (hp : p.FramesAgree f) (id : SpaceId) (u : Nat) :
    (p.framed? id u).isSome = (p.address? id u).isSome := by
  cases hx : p.address? id u with
  | none => rw [framed?_of_unmapped hx, Option.isSome_none, Option.isSome_none]
  | some x =>
    obtain ⟨i, a, ha, hf, rfl, hu, _⟩ := hp.frame_of_address hx
    have hframed := hp.framed?_of_assigned ha hf
    rw [hu] at hframed
    unfold framed? frame? at hframed ⊢
    rw [address?_pageBase] at hframed
    rw [hframed, Option.isSome_some, Option.isSome_some]

theorem FramesAgree.framed?_eq_none_iff (hp : p.FramesAgree f) :
    p.framed? id u = none ↔ p.address? id u = none := by
  rw [← Option.isNone_iff_eq_none, ← Option.isNone_iff_eq_none, ← Option.not_isSome,
    ← Option.not_isSome, hp.isSome_framed?]

theorem FramesAgree.address?_of_not_framed? (hp : p.FramesAgree f) (h : p.framed? id u = none) :
    p.address? id u = none := hp.framed?_eq_none_iff.mp h

/-- A move leaves a page alone. -/
structure SamePage (p q : Pager n) (o : SpaceId) (v : Nat) : Prop where
  framed? : q.framed? o v = p.framed? o v
  has : ∀ flag, flag ≠ .accessed → q.has flag o v = p.has flag o v
  descriptor? : q.descriptor? o v = p.descriptor? o v
  pageIn : ∀ slot, p.slot? o v = some slot → q.swap.pageIn slot = p.swap.pageIn slot

namespace SamePage

variable {o : SpaceId} {v : Nat}

theorem dirty (h : SamePage p q o v) : q.has .dirty o v = p.has .dirty o v :=
  h.has .dirty (by simp)

theorem refl : SamePage p p o v := ⟨rfl, fun _ _ => rfl, rfl, fun _ _ => rfl⟩

theorem slot? (h : SamePage p q o v) : q.slot? o v = p.slot? o v := by
  rw [Pager.slot?, h.descriptor?, Pager.slot?]

theorem trans {r : Pager n} (h : SamePage p q o v) (h' : SamePage q r o v) : SamePage p r o v where
  framed? := h'.framed?.trans h.framed?
  has flag hflag := (h'.has flag hflag).trans (h.has flag hflag)
  descriptor? := h'.descriptor?.trans h.descriptor?
  pageIn slot hslot := (h'.pageIn slot (h.slot?.trans hslot)).trans (h.pageIn slot hslot)

theorem of_views (haddr : q.address? o v = p.address? o v)
    (hbase : q.frames.pool.base = p.frames.pool.base)
    (hpage : ∀ i, p.frame? o v = some i → q.page i = p.page i)
    (hhas : ∀ flag, flag ≠ .accessed → q.has flag o v = p.has flag o v)
    (hdesc : q.descriptor? o v = p.descriptor? o v)
    (hslot : ∀ slot, p.slot? o v = some slot → q.swap.pageIn slot = p.swap.pageIn slot) :
    SamePage p q o v := by
  refine ⟨?_, hhas, hdesc, hslot⟩
  have hframe : q.frame? o v = p.frame? o v := by
    unfold frame? FramePool.frameHolding?
    simp only [haddr, hbase]
  unfold Pager.framed?
  rw [hframe]
  cases hi : p.frame? o v with
  | none => rfl
  | some i => exact congrArg some (hpage i hi)

/-- Neither the spaces nor the frame and the slot of the page are different. -/
theorem of_spaces (hspaces : q.spaces = p.spaces) (hbase : q.frames.pool.base = p.frames.pool.base)
    (hpage : ∀ i, p.frame? o v = some i → q.page i = p.page i)
    (hslot : ∀ slot, p.slot? o v = some slot → q.swap.pageIn slot = p.swap.pageIn slot) :
    SamePage p q o v := by
  refine of_views ?_ hbase hpage ?_ ?_ hslot
  · unfold address? space
    rw [hspaces]
  · intro flag _
    unfold Pager.has space
    rw [hspaces]
  · unfold Pager.descriptor? space
    rw [hspaces]

/-- Only flags are different, and those not among the flags in question. -/
theorem of_reflagged (h : Spaces.Reflagged [.accessed] p.spaces q.spaces)
    (hpool : q.frames.pool = p.frames.pool) (hswap : q.swap = p.swap) : SamePage p q o v := by
  refine of_views (h.frameAddress? o v) (by rw [hpool]) ?_ ?_
    (congrArg (·.find? v) (h.descriptors o)) fun slot _ => by rw [hswap]
  · intro i _
    unfold page
    rw [hpool]
  · intro flag hflag
    exact h.has flag o v (by simpa using hflag)

/-- What changes one page leaves another alone. -/
theorem of_only {o' : SpaceId} {v' : Nat} (h : OnlyPage p q o' v') (hv : PageAligned v)
    (hne : ¬(o = o' ∧ v = v')) (hbase : q.frames.pool.base = p.frames.pool.base)
    (hpage : ∀ i, p.frame? o v = some i → q.page i = p.page i)
    (hslot : ∀ slot, p.slot? o v = some slot → q.swap.pageIn slot = p.swap.pageIn slot) :
    SamePage p q o v := by
  have hbase' : ¬(o = o' ∧ pageBase v = v') := by rwa [hv.pageBase_eq]
  exact of_views (h.address? o v hbase') hbase hpage (fun flag _ => h.has flag o v hbase')
    (h.descriptor? o v hne) hslot

end SamePage

end Pager

open Pager

/-- A slot that a page was stored in holds the page. -/
theorem Keeps.pageIn {swap swap' : SwapArea} {files files' : Array OpenFile} {page : Page}
    {b b' : Backing} {dirty : Bool} (h : Keeps swap files page b dirty b' swap' files')
    (hfitted : swap.Fitted) :
    (∀ slot, b'.slot? = some slot → swap'.pageIn slot = page)
      ∧ ∀ slot, swap.Claimed slot → swap'.pageIn slot = swap.pageIn slot := by
  rcases h.slot with ⟨rfl, hnone⟩ | ⟨slot, hstore, hslot⟩
  · exact ⟨fun slot hs => by simp [hnone] at hs, fun _ _ => rfl⟩
  · obtain ⟨_, hfree, _, _, hpage, hother⟩ := SwapArea.store_eq_ok hfitted hstore
    refine ⟨?_, fun other hclaimed => hother other (Bitmap.lt_of_isSet hclaimed) ?_⟩
    · intro other ho
      rw [hslot] at ho
      cases ho
      exact hpage
    · intro heq
      subst heq
      exact hfree hclaimed

theorem SwapArea.pageIn_freed? (s : SwapArea) (slot? : Option Nat) (slot : Nat) :
    (s.freed? slot?).pageIn slot = s.pageIn slot := by
  cases slot? with
  | none => rfl
  | some _ => rfl

/-- What a quiet move does to the pages. -/
inductive Shift (Source : Array OpenFile → Prop) (p q : Pager n) : Prop where
  /-- Nothing. -/
  | still (hpages : ∀ o v, PageAligned v → SamePage p q o v) (hfiles : q.files = p.files)
  /-- A page was taken out of its frame. -/
  | evicted {o : SpaceId} {v : Nat} {d : Descriptor} {b : Backing} {page : Page}
      (hothers : ∀ o' v', PageAligned v' → ¬(o' = o ∧ v' = v) → SamePage p q o' v')
      (haligned : PageAligned v) (hpage : p.framed? o v = some page)
      (hd : p.descriptor? o v = some d ∨ p.descriptor? o v = none ∧ d.backing = .anonymous)
      (hkeeps : Keeps p.swap p.files page d.backing (p.has .dirty o v) b q.swap q.files)
      (hgone : q.framed? o v = none)
      (hafter : q.descriptor? o v = some { d with backing := b, loaded := false })
      (hwritable : p.descriptor? o v = none → d.writable = p.has .writable o v)
  /-- A page was brought into a frame. -/
  | loaded {o : SpaceId} {v : Nat} {d : Descriptor} {page : Page}
      (hothers : ∀ o' v', PageAligned v' → ¬(o' = o ∧ v' = v) → SamePage p q o' v')
      (haligned : PageAligned v) (hgone : p.framed? o v = none) (hd : p.descriptor? o v = some d)
      (hpage : p.parked? d.backing = some page) (hsource : Source p.files)
      (hfiles : q.files = p.files) (hframed : q.framed? o v = some page)
      (hdirty : q.has .dirty o v = d.backing.loadsDirty)
      (hafter : q.descriptor? o v
        = d.backing.loaded?.map fun b => { d with backing := b, loaded := true })
      (hwritable : q.has .writable o v = (d.writable || d.backing.isMapped))
      (hread : d.backing.Readable p.files)

namespace Shift

variable {S : Array OpenFile → Prop} {p q : Pager n} {o : SpaceId} {v : Nat}

/-- A page has the window that it had. If it had no descriptor it was in a frame, and has no
window. -/
theorem descriptor_of (h : Shift S p q) (hv : PageAligned v) {e : Descriptor}
    (he : q.descriptor? o v = some e) :
    (∃ d, p.descriptor? o v = some d ∧ e.backing.window? = d.backing.window?
        ∧ e.backing.isMapped = d.backing.isMapped)
      ∨ (p.framed? o v).isSome = true ∧ p.descriptor? o v = none ∧ e.backing.window? = none
        ∧ e.backing.isMapped = false := by
  cases h with
  | still hpages _ => exact Or.inl ⟨e, (hpages o v hv).descriptor? ▸ he, rfl, rfl⟩
  | @evicted o' v' d b page hothers _ hframed hd hkeeps _ hafter =>
    by_cases hpage : o = o' ∧ v = v'
    · obtain ⟨rfl, rfl⟩ := hpage
      rw [hafter] at he
      cases he
      obtain ⟨hwindow, hmapped, _⟩ := hkeeps.backing
      rcases hd with hd | ⟨hnone, hb⟩
      · exact Or.inl ⟨d, hd, hwindow, hmapped⟩
      -- a page without a descriptor gets one when it is evicted
      · rw [hb] at hwindow hmapped
        exact Or.inr ⟨Option.isSome_of_mem hframed, hnone, hwindow, hmapped⟩
    · exact Or.inl ⟨e, (hothers o v hv hpage).descriptor? ▸ he, rfl, rfl⟩
  | @loaded o' v' d page hothers _ _ hd _ _ _ _ _ hafter =>
    by_cases hpage : o = o' ∧ v = v'
    · obtain ⟨rfl, rfl⟩ := hpage
      obtain ⟨b, hb, rfl⟩ := Option.map_eq_some_iff.mp (hafter.symm.trans he)
      obtain ⟨hwindow, hmapped, _⟩ := Backing.window?_loaded? hb
      exact Or.inl ⟨d, hd, hwindow, hmapped⟩
    · exact Or.inl ⟨e, (hothers o v hv hpage).descriptor? ▸ he, rfl, rfl⟩

end Shift

namespace Quiet

variable {S : Array OpenFile → Prop} {p q : Pager n} {id : SpaceId} {upage : Nat} {i : Fin n}

theorem shift_evicted {victim : Assignment} {d : Descriptor} {b : Backing} (hp : p.Agrees none)
    (hvictim : p.assignment? i = some victim)
    (hd : d = ((p.space victim.owner).descriptors.getOrAdd victim.upage .anonymous
      (p.has .writable victim.owner victim.upage)).1)
    (hkeeps : Keeps p.swap p.files (p.page i) d.backing
      (p.has .dirty victim.owner victim.upage) b q.swap q.files)
    (hframes : q.frames = (p.frames.write i .zero).assign i (some (.fresh id upage)))
    (hspaces : q.spaces = p.spaces.put victim.owner
      { p.space victim.owner with
        directory := (p.space victim.owner).directory.unmap victim.upage
        descriptors := (p.space victim.owner).descriptors.insert victim.upage
          { d with backing := b, loaded := false } }) : Shift S p q := by
  have hvaligned := (hp.frames.upage i victim hvictim).1
  obtain ⟨honly, haddr, hafter⟩ :=
    views_evicted (hp.frames.owner i victim hvictim) hvaligned hspaces
  refine .evicted (o := victim.owner) (v := victim.upage) (fun o v hv hne => ?_) hvaligned
    (hp.frames.framed?_of_assigned hvictim (by simp)) ?_ hkeeps (framed?_of_unmapped haddr) hafter
    ?_
  · refine .of_only honly hv hne (by rw [hframes]; rfl) ?_ ?_
    · intro j hj
      obtain ⟨a, ha, _, howner, hupage⟩ := hp.frames.of_frame? hj
      -- no other page has the frame that is taken
      have hji : j ≠ i := by
        intro heq
        subst heq
        rw [hvictim] at ha
        cases ha
        exact hne ⟨howner.symm, (hupage.trans hv.pageBase_eq).symm⟩
      unfold page
      rw [hframes]
      exact (FramePool.contents_write _ _ _ _).trans (if_neg hji)
    · intro slot hslot
      exact (hkeeps.pageIn hp.slots.fitted).2 slot ((hp.slots.claimed_iff slot).mpr ⟨o, v, hslot⟩)
  · unfold DescriptorTable.getOrAdd at hd
    split at hd
    next e he =>
      subst hd
      exact Or.inl he
    next hnone =>
      subst hd
      exact Or.inr ⟨hnone, rfl⟩
  · intro hnone
    have hnone : (p.space victim.owner).descriptors.find? victim.upage = none := hnone
    unfold DescriptorTable.getOrAdd at hd
    rw [hnone] at hd
    rw [hd]

/-- A page that is mapped to the frame that was written last holds what was written. -/
theorem framed?_of_written {page : Page} (haddr : q.address? id upage = some (p.frameAddress i))
    (hframes : q.frames = p.frames.write i page) : q.framed? id upage = some page := by
  have hq : q.frame? id upage = some i := by
    unfold frame?
    rw [haddr, Option.bind_some, hframes]
    exact FramePool.frameHolding?_frameAddress p.frames.pool i
  unfold Pager.framed? Pager.page
  rw [hq, Option.map_some, hframes]
  exact congrArg some ((FramePool.contents_write _ _ _ _).trans (if_pos rfl))

/-- A page that lands leaves all others alone. -/
theorem samePage_settled {d : Descriptor} {page : Page} {reads : UInt32}
    {directory : PageDirectory} {writable : Bool} (hp : p.Agrees (some i))
    (hi : p.assignment? i = some (.fresh id upage))
    (hmap : PageDirectory.Installed (p.space id).directory directory upage (p.frameAddress i)
      writable)
    (hframes : q.frames = p.frames.write i page)
    (hswap : q.swap = (p.swap.withReads reads).freed? d.backing.slot?)
    (hspaces : q.spaces = p.spaces.put id
      { p.space id with
        directory := if d.backing.loadsDirty then directory.setFlag .dirty upage true
          else directory
        descriptors := match d.backing.loaded? with
          | some b => (p.space id).descriptors.insert upage { d with backing := b, loaded := true }
          | none => (p.space id).descriptors.erase upage })
    {o : SpaceId} {v : Nat} (hv : PageAligned v) (hne : ¬(o = id ∧ v = upage)) :
    SamePage p q o v := by
  have honly := (views_settled (hp.frames.owner i _ hi) (hp.frames.upage i _ hi).1 hmap hspaces).1
  refine .of_only honly hv hne (by rw [hframes]; rfl) ?_ ?_
  · intro j hj
    obtain ⟨a, ha, hf, _⟩ := hp.frames.of_frame? hj
    unfold Pager.page
    rw [hframes]
    -- only the frame in flight was written, and no page was mapped to it
    exact (FramePool.contents_write _ _ _ _).trans (if_neg fun hji => hf (congrArg some hji.symm))
  · intro slot _
    rw [hswap, SwapArea.pageIn_freed?]
    rfl

theorem shift_settled {d : Descriptor} {page : Page} {reads : UInt32} {directory : PageDirectory}
    (hp : p.Agrees (some i)) (hi : p.assignment? i = some (.fresh id upage))
    (hd : p.descriptor? id upage = some d) (hpage : p.parked? d.backing = some page)
    (hsource : S p.files)
    (hmap : PageDirectory.Installed (p.space id).directory directory upage (p.frameAddress i)
      (d.writable || d.backing.isMapped))
    (hread : d.backing.Readable p.files)
    (hframes : q.frames = p.frames.write i page) (hfiles : q.files = p.files)
    (hswap : q.swap = (p.swap.withReads reads).freed? d.backing.slot?)
    (hspaces : q.spaces = p.spaces.put id
      { p.space id with
        directory := if d.backing.loadsDirty then directory.setFlag .dirty upage true
          else directory
        descriptors := match d.backing.loaded? with
          | some b => (p.space id).descriptors.insert upage { d with backing := b, loaded := true }
          | none => (p.space id).descriptors.erase upage }) : Shift S p q := by
  have haligned : PageAligned upage := (hp.frames.upage i _ hi).1
  have hid : id < p.spaces.size := hp.frames.owner i _ hi
  obtain ⟨_, haddr, hafter, hdirty, hwritable⟩ := views_settled hid haligned hmap hspaces
  have hnone : p.address? id upage = none := by
    obtain ⟨a, ha, _, hnone⟩ := hp.frames.flying i rfl
    rw [hi] at ha
    cases ha
    exact hnone
  exact .loaded (fun o v hv hne => samePage_settled hp hi hmap hframes hswap hspaces hv hne)
    haligned (framed?_of_unmapped hnone) hd hpage hsource hfiles (framed?_of_written haddr hframes)
    hdirty hafter hwritable hread

/-- What is written into the frame in flight is in no page. -/
theorem samePage_scribbled {page : Page} {reads : UInt32} {o : SpaceId} {v : Nat}
    (hp : p.Agrees (some i)) :
    SamePage p { p with frames := p.frames.write i page, swap := p.swap.withReads reads } o v := by
  refine .of_spaces rfl rfl ?_ fun _ _ => rfl
  intro j hj
  obtain ⟨a, _, hf, _⟩ := hp.frames.of_frame? hj
  exact (FramePool.contents_write _ _ _ _).trans (if_neg fun hji => hf (congrArg some hji.symm))

/-- Every quiet move leaves the pages alone, or takes one out of its frame, or brings one
in. -/
theorem shift {f g : Option (Fin n)} (move : Quiet S p f q g) (hp : p.Agrees f) : Shift S p q := by
  cases move with
  | swept => exact .still (fun o v _ => .of_reflagged (.notAccessed _ _) rfl rfl) rfl
  | took _ _ _ _ h =>
    obtain ⟨_, _, _, hbase, hcontents⟩ := FrameTable.takeFree_eq_some h
    refine .still (fun o v _ => .of_spaces rfl hbase ?_ fun _ _ => rfl) rfl
    intro i _
    exact congrArg (·.get i) hcontents
  | evicted _ _ _ _ hvictim _ hd hkeeps => exact shift_evicted hp hvictim hd hkeeps rfl rfl
  | scribbled => exact .still (fun o v _ => samePage_scribbled hp) rfl
  | returned => exact .still (fun o v _ => .of_spaces rfl rfl (fun _ _ => rfl) fun _ _ => rfl) rfl
  | settled hi hd _ hpage hsource hmap hread =>
    exact shift_settled hp hi hd hpage hsource hmap hread rfl rfl rfl rfl
  | pinned _ => exact .still (fun o v _ => .of_spaces rfl rfl (fun _ _ => rfl) fun _ _ => rfl) rfl
  | accessed => exact .still (fun o v _ => .of_reflagged (.update_setFlag ..) rfl rfl) rfl

/-- Quiet moves know nothing of mappings. -/
theorem mappings {f g : Option (Fin n)} (move : Quiet S p f q g) :
    ∀ o, (q.space o).mappings = (p.space o).mappings := by
  cases move with
  | swept => exact (Spaces.Reflagged.notAccessed _ _).mappings
  | took => exact fun _ => rfl
  | evicted => exact mappings_of_put_same rfl rfl
  | scribbled => exact fun _ => rfl
  | returned => exact fun _ => rfl
  | settled => exact mappings_of_put_same rfl rfl
  | pinned => exact fun _ => rfl
  | accessed => exact (Spaces.Reflagged.update_setFlag ..).mappings

theorem mapping? {f g : Option (Fin n)} (move : Quiet S p f q g) (o : SpaceId) (m : Nat) :
    q.mapping? o m = p.mapping? o m :=
  mapping?_congr move.mappings o m

end Quiet

end DemandPaging

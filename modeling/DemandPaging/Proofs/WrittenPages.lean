import DemandPaging.Proofs.Contents
import DemandPaging.Proofs.CopyProgress
/-!
# Pages that were written

Bytes that were stored in a page of the stack or of a program are in no file. The page is dirty,
so it goes to a slot when it is evicted and comes back from there. As long as this is so what it
holds depends on no file (`Pager.KeptApart`). Moves keep that up (`Chain.keptApart`), a copy to
user memory brings it about for all of its pages (`keptApart_of_writeChunks`), and a copy out of
such pages does not fail (`readChunks_of_keptApart`).
-/

namespace DemandPaging

open Pager PagerAction Outcome

variable {n : Nat}

/-- The page holds `page`, belongs to no mapping, and no file has a say in what it holds: it is in
a frame, dirty if there is a window that it could be loaded from, or in a slot, to whose end the
disk reaches. -/
inductive Pager.KeptApart (p : Pager n) (o : SpaceId) (v : Nat) (page : Page) : Prop where
  | framed (hframed : p.framed? o v = some page)
      (hdirty : ∀ d, p.descriptor? o v = some d →
        d.backing.isMapped = false ∧ p.has .dirty o v = true)
  | parked {d : Descriptor} {slot : Nat} (hgone : p.framed? o v = none)
      (hd : p.descriptor? o v = some d) (hslot : d.backing.readSlot? = some slot)
      (hpage : p.swap.pageIn slot = page) (hreaches : p.swap.Reaches slot)

/-- A page that is read from a slot belongs to no mapping, and is dirty once it is loaded if there
is a window that it could be loaded from next time. -/
theorem Backing.of_readSlot? {b : Backing} {slot : Nat} (h : b.readSlot? = some slot) :
    b.loadSource = .swap slot ∧ b.slot? = some slot
      ∧ ∀ c, b.loaded? = some c → c.isMapped = false ∧ b.loadsDirty = true := by
  cases b with
  | swapped slot =>
    cases h
    exact ⟨rfl, rfl, nofun⟩
  | privateParked w slot =>
    cases h
    refine ⟨rfl, rfl, fun c hc => ?_⟩
    cases hc
    exact ⟨rfl, rfl⟩
  | anonymous | privateFile w | mappedFile w | mappedParked w slot => cases h

theorem Pager.parked?_of_readSlot? {b : Backing} {slot : Nat} (h : b.readSlot? = some slot)
    (p : Pager n) : p.parked? b = some (p.swap.pageIn slot) := by
  unfold parked?
  rw [(Backing.of_readSlot? h).1]

/-- A dirty page of no mapping is kept in a slot. -/
theorem Keeps.stored_of_dirty {swap swap' : SwapArea} {files files' : Array OpenFile} {page : Page}
    {b b' : Backing} {dirty : Bool} (h : Keeps swap files page b dirty b' swap' files')
    (hb : b = .anonymous ∨ b.isMapped = false ∧ dirty = true) :
    ∃ slot, swap.store page = .ok (.ok slot, swap') ∧ b'.readSlot? = some slot := by
  cases h with
  | written => rcases hb with hb | ⟨hb, _⟩ <;> cases hb
  | dropped => rcases hb with hb | ⟨_, hb⟩ <;> cases hb
  | @stored _ _ slot _ hold hstore =>
    refine ⟨slot, hstore, ?_⟩
    rcases hold with rfl | ⟨w, rfl, _⟩ | ⟨w, rfl, _⟩
    · rfl
    · rfl
    · rcases hb with hb | ⟨hb, _⟩ <;> cases hb

/-! ## Moves -/

/-- No quiet move changes the size of the disk. -/
theorem Quiet.length_disk {S : Array OpenFile → Prop} {p q : Pager n} {f g : Option (Fin n)}
    (move : Quiet S p f q g) :
    q.swap.device.disk.sectors.length = p.swap.device.disk.sectors.length := by
  cases move with
  | evicted _ _ _ _ _ _ _ hkeeps =>
    rcases hkeeps.slot with ⟨hsame, _⟩ | ⟨_, hstore, _⟩
    · exact congrArg (·.device.disk.sectors.length) hsame
    · exact (SwapArea.device_store hstore).2
  | @settled _ _ _ d =>
    show ((p.swap.withReads _).freed? d.backing.slot?).device.disk.sectors.length = _
    cases d.backing.slot? with
    | none => rfl
    | some slot => rfl
  | swept | took | scribbled | returned | pinned | accessed => rfl

/-- The change is that bytes are stored in a page. -/
def Change.IsStore (c : Change) : Prop := ∃ o u start bytes, c = .stored o u start bytes

/-- Storing bytes in pages does not change the size of the disk. -/
theorem Chain.length_disk {S : Array OpenFile → Prop} {p q : Pager n} {f g : Option (Fin n)}
    {cs : List Change} (h : Chain S p f cs q g) (hcs : ∀ c ∈ cs, c.IsStore) :
    q.swap.device.disk.sectors.length = p.swap.device.disk.sectors.length := by
  induction h with
  | refl => rfl
  | quiet _ move ih => exact move.length_disk.trans (ih hcs)
  | visible _ move ih =>
    obtain ⟨_, _, _, _, rfl⟩ := hcs _ (List.mem_append_right _ (List.mem_singleton_self _))
    cases move with
    | stored => exact ih fun c hc => hcs c (List.mem_append_left _ hc)

section

variable {S : Array OpenFile → Prop} {p q : Pager n} {f g : Option (Fin n)} {o : SpaceId} {v : Nat}
  {page : Page}

theorem Pager.SamePage.keptApart (h : SamePage p q o v)
    (hdisk : q.swap.device.disk.sectors.length = p.swap.device.disk.sectors.length)
    (hp : p.KeptApart o v page) : q.KeptApart o v page := by
  cases hp with
  | framed hframed hdirty =>
    refine .framed (h.framed?.trans hframed) fun d hd => ?_
    rw [h.dirty]
    exact hdirty d (h.descriptor?.symm.trans hd)
  | @parked d slot hgone hd hslot hpage hreaches =>
    have hnamed : p.slot? o v = some slot :=
      slot?_eq_some_iff.mpr ⟨d, hd, (Backing.of_readSlot? hslot).2.1⟩
    refine .parked (h.framed?.trans hgone) (h.descriptor?.trans hd) hslot
      ((h.pageIn slot hnamed).trans hpage) ?_
    unfold SwapArea.Reaches at hreaches ⊢
    rwa [hdisk]

/-- A page that is kept apart leaves its frame for a slot, and comes back dirty, or with nothing
that it could be loaded from. -/
theorem Shift.keptApart (h : Shift S p q) (hv : PageAligned v) (hfitted : p.swap.Fitted)
    (hdisk : q.swap.device.disk.sectors.length = p.swap.device.disk.sectors.length)
    (hp : p.KeptApart o v page) : q.KeptApart o v page := by
  cases h with
  | still hpages _ => exact (hpages o v hv).keptApart hdisk hp
  | @evicted o' v' d b held hothers _ hheld hd hkeeps hgone hafter =>
    by_cases hpage : o = o' ∧ v = v'
    · obtain ⟨rfl, rfl⟩ := hpage
      cases hp with
      | framed hframed hdirty =>
        cases hframed.symm.trans hheld
        obtain ⟨slot, hstore, hslot⟩ := hkeeps.stored_of_dirty
          (hd.elim (fun hd => Or.inr (hdirty d hd)) fun hd => Or.inl hd.2)
        exact .parked hgone hafter hslot (SwapArea.store_eq_ok hfitted hstore).2.2.2.2.1
          (SwapArea.reaches_of_store hfitted hstore)
      | parked hnone => cases hnone.symm.trans hheld
    · exact (hothers o v hv hpage).keptApart hdisk hp
  | @loaded o' v' d read hothers _ hnone hd hread _ _ hframed hdirty hafter =>
    by_cases hpage : o = o' ∧ v = v'
    · obtain ⟨rfl, rfl⟩ := hpage
      cases hp with
      | framed hframed' => cases hframed'.symm.trans hnone
      | @parked d' slot _ hd' hslot hheld =>
        cases hd.symm.trans hd'
        obtain rfl : p.swap.pageIn slot = read :=
          Option.some.inj ((parked?_of_readSlot? hslot p).symm.trans hread)
        refine .framed (hheld ▸ hframed) fun e he => ?_
        -- it was read from its slot, so it stays dirty
        obtain ⟨b, hb, rfl⟩ := Option.map_eq_some_iff.mp (hafter.symm.trans he)
        obtain ⟨hmapped, hloads⟩ := (Backing.of_readSlot? hslot).2.2 b hb
        exact ⟨hmapped, hdirty.trans hloads⟩
    · exact (hothers o v hv hpage).keptApart hdisk hp

/-- Storing bytes in a page leaves all pages kept apart. -/
theorem Alters.keptApart {id : SpaceId} {u start : Nat} {bytes : Bytes}
    (h : Alters p (.stored id u start bytes) q) (hv : PageAligned v)
    (hdisk : q.swap.device.disk.sectors.length = p.swap.device.disk.sectors.length)
    (hp : p.KeptApart o v page) :
    q.KeptApart o v ((Change.stored id u start bytes).onPage o v page) := by
  cases h with
  | @stored _ _ _ _ held _ hothers _ _ hheld hafter hframed hdirty =>
    by_cases hpage : o = id ∧ v = u
    · obtain ⟨rfl, rfl⟩ := hpage
      rw [Change.onPage, if_pos ⟨rfl, rfl⟩]
      cases hp with
      | framed hframed' hdirty' =>
        cases hframed'.symm.trans hheld
        exact .framed hframed fun d hd => ⟨(hdirty' d (hafter.symm.trans hd)).1, hdirty⟩
      | parked hnone => cases hnone.symm.trans hheld
    · rw [Change.onPage, if_neg hpage]
      exact (hothers o v hv hpage).keptApart hdisk hp

/-- A page that is kept apart stays so while bytes are stored, in it and in others, and holds what
it held but for these bytes. -/
theorem Chain.keptApart {cs : List Change} (h : Chain S p f cs q g) (hp : p.Agrees f)
    (hv : PageAligned v) (hcs : ∀ c ∈ cs, c.IsStore) (hpage : p.KeptApart o v page) :
    q.KeptApart o v (cs.foldl (Change.onPage o v) page) := by
  induction h with
  | refl => exact hpage
  | quiet h move ih =>
    have hagrees := h.agrees hp
    exact (move.shift hagrees).keptApart hv hagrees.slots.fitted move.length_disk (ih hcs)
  | visible h move ih =>
    obtain ⟨_, _, _, _, rfl⟩ := hcs _ (List.mem_append_right _ (List.mem_singleton_self _))
    have hbefore := ih fun c hc => hcs c (List.mem_append_left _ hc)
    rw [List.foldl_append]
    refine (move.alters (h.agrees hp)).keptApart hv ?_ hbefore
    cases move with
    | stored => rfl

/-! ## Loading -/

theorem Pager.KeptApart.content? (h : p.KeptApart o v page) : p.content? o v = some page := by
  cases h with
  | framed hframed => exact content?_of_framed? hframed
  | parked hgone hd hslot hpage =>
    rw [content?_of_not_framed? hgone, hd, Option.bind_some, parked?_of_readSlot? hslot, hpage]

/-- A page that is kept apart can be loaded: it is in its slot, and the disk has all of it. -/
theorem Pager.KeptApart.not_copyFails (h : p.KeptApart o v page) (hp : p.Agrees none)
    (hv : PageAligned v)
    (hdisk : q.swap.device.disk.sectors.length = p.swap.device.disk.sectors.length)
    {e : PagingError} : ¬ CopyFails p q o v e := by
  intro hfails
  have hgone : p.framed? o v = none := by
    cases hfails with
    | absent _ hresident =>
      exact framed?_of_unmapped (address?_of_not_resident hp.frames hv hresident)
    | unread _ hnone => exact framed?_of_unmapped hnone
  cases h with
  | framed hframed => cases hframed.symm.trans hgone
  | @parked d slot _ hd hslot _ hreaches =>
    cases hfails with
    | absent hnone => cases hnone.symm.trans hd
    | @unread d' _ hd' _ hload =>
      cases hd.symm.trans hd'
      have hsource := (Backing.of_readSlot? hslot).1
      cases hload with
      | short hb => cases hsource.symm.trans hb
      | refused hb hshort =>
        cases hsource.symm.trans hb
        unfold SwapArea.Reaches at hshort hreaches
        rw [hdisk] at hshort
        exact hshort hreaches

end

/-- A copy out of pages that are kept apart does not fail. -/
theorem readChunks_of_keptApart {p : Pager n} (hp : p.Agrees none) {id : SpaceId} {cs : List Chunk}
    (hcs : ∀ c ∈ cs, PageAligned c.upage ∧ ∃ page, p.KeptApart id c.upage page) (bytes : Bytes) :
    ((readChunks id cs bytes).run p).Meets (fun copied _ => copied.result = .ok ())
      (fun _ _ => False) (fun _ => True) := by
  refine (readChunks_meets (E := fun _ _ => False) (I := fun q => q.Agrees none
    ∧ ∀ c ∈ cs, PageAligned c.upage ∧ ∃ page, q.KeptApart id c.upage page) ?_ ⟨hp, hcs⟩ bytes).mono
      (fun _ _ h => h.elim (·.1) fun ⟨_, _, hfalse⟩ => hfalse.elim) (fun _ _ h => h) fun _ h => h
  intro c hc r hr
  obtain ⟨hagrees, hkept⟩ := hr
  refine (readChunk_spec hagrees id c).mono ?_ ?_ fun _ _ => trivial
  · intro _ q h
    refine ⟨h.1.agrees hagrees, fun d hd => ?_⟩
    obtain ⟨hv, page, hapart⟩ := hkept d hd
    exact ⟨hv, page, h.1.chain.keptApart hagrees hv (List.forall_mem_nil _) hapart⟩
  · intro e q h
    obtain ⟨hv, page, hapart⟩ := hkept c hc
    exact hapart.not_copyFails hagrees hv (h.1.chain.length_disk (List.forall_mem_nil _)) h.2

theorem isStore_of_mem_storesOf {id : SpaceId} {cs : List Chunk} {bytes : Bytes} {c : Change}
    (h : c ∈ storesOf id cs bytes) : c.IsStore := by
  obtain ⟨_, _, _, _, hc⟩ := of_mem_storesOf h
  exact ⟨_, _, _, _, hc⟩

/-- The first chunks of a range are parts of pages. -/
theorem pageAligned_of_chunks {address length : Nat} {front rest : List Chunk}
    (h : chunks address length = front ++ rest) {c : Chunk} (hc : c ∈ front) :
    PageAligned c.upage :=
  (bounds_of_mem_chunks (h ▸ List.mem_append_left rest hc)).1

theorem chain_of_writeChunks {p q : Pager n} (hp : p.Agrees none) {id : SpaceId} {cs : List Chunk}
    {bytes : Bytes} (h : (writeChunks id cs bytes).run p = .done () q) :
    Chain (fun _ => True) p none (storesOf id cs bytes) q none := by
  have hspec := writeChunks_spec hp id cs bytes
  rw [h] at hspec
  exact hspec.1.chain fun _ _ => trivial

/-- The page of a chunk was in a frame when the chunk was stored, dirty after it, and writable. All
that the copy did before and after that was to store the other chunks. -/
structure Pager.StoredOnTheWay (p : Pager n) (id : SpaceId) (u : Nat) (t q : Pager n) : Prop where
  before : ∃ cs, (∀ c ∈ cs, c.IsStore) ∧ Chain (fun _ => True) p none cs t none
  framed : ∃ page, t.framed? id u = some page
  dirty : t.has .dirty id u = true
  writable : t.has .writable id u = true
  after : ∃ cs, (∀ c ∈ cs, c.IsStore) ∧ Chain (fun _ => True) t none cs q none

theorem stored_of_writeChunks {p q : Pager n} (hp : p.Agrees none) {id : SpaceId}
    {cs : List Chunk} {bytes : Bytes}
    (h : (writeChunks id cs bytes).run p = .done () q) {c : Chunk} (hc : c ∈ cs) :
    ∃ t, p.StoredOnTheWay id c.upage t q := by
  obtain ⟨front, rest, rfl⟩ := List.append_of_mem hc
  obtain ⟨r, t, hfront, hrun, hrest⟩ := writeChunks_splits h
  have hbefore := chain_of_writeChunks hp hfront
  have hchunk := writeChunk_spec (hbefore.agrees hp) id c
    (c.fits_take (bytes.drop (totalCount front)))
  rw [hrun] at hchunk
  obtain ⟨hleads, hdirty, hwritable, page, hframed⟩ := hchunk
  have hthere := hbefore.trans hleads.chain
  have hafter := chain_of_writeChunks (hthere.agrees hp) hrest
  refine ⟨t, ⟨_, fun d hd => ?_, hthere⟩, ⟨_, hframed⟩, hdirty, hwritable,
    ⟨_, fun _ => isStore_of_mem_storesOf, hafter⟩⟩
  rcases List.mem_append.mp hd with hd | hd
  · exact isStore_of_mem_storesOf hd
  · exact ⟨_, _, _, _, List.mem_singleton.mp hd⟩

theorem Change.IsStore.spares {c : Change} (h : c.IsStore) (K : Nat → Prop) (o : SpaceId)
    (v : Nat) : c.Spares K o v := by
  obtain ⟨_, _, _, _, rfl⟩ := h
  trivial

/-- When a copy to user memory is over, all pages that it stored bytes in are kept apart, unless
they belong to a mapping. -/
theorem keptApart_of_writeChunks {p q : Pager n} (hp : p.Agrees none) {id : SpaceId}
    {address length : Nat} {front rest : List Chunk} {bytes : Bytes} {K : Nat → Prop}
    (hchunks : chunks address length = front ++ rest)
    (hprivate : ∀ c ∈ front, p.IsPrivate K id c.upage)
    (h : (writeChunks id front bytes).run p = .done () q) :
    ∀ c ∈ front, ∃ page, q.KeptApart id c.upage page := by
  intro c hc
  have haligned := pageAligned_of_chunks hchunks hc
  obtain ⟨t, hstored⟩ := stored_of_writeChunks hp h hc
  obtain ⟨ds, hds, hbefore⟩ := hstored.before
  obtain ⟨page, hframed⟩ := hstored.framed
  obtain ⟨ds', hds', hafter⟩ := hstored.after
  have hthere : t.IsPrivate K id c.upage :=
    hbefore.isPrivate hp haligned (fun d hd => (hds d hd).spares K _ _) (hprivate c hc)
  have hapart : t.KeptApart id c.upage page :=
    .framed hframed fun d hd => ⟨hthere.isMapped d hd, hstored.dirty⟩
  exact ⟨_, hafter.keptApart (hbefore.agrees hp) haligned hds' hapart⟩

end DemandPaging

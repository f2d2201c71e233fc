import DemandPaging.Proofs.FileCalls
import DemandPaging.Proofs.FrameOwners
/-!
# The end of a process

A process that exits leaves nothing behind, and the others do not notice
(`Pager.Reachable.exit_exact`). What its space held is `Emptied`, what the others have is
`Untouched`, and the counters of the frame pool and the swap area go down by just what the
space had: the frames are counted by their assignments (`TookDown.size_frames`), the slots by
the descriptors that name them (`SlotsAgree.used_of_left`). What the files are called with is read
off what the exit asks of them (`Pager.exitActions`).
-/

namespace DemandPaging

open Pager PagerAction

variable {n : Nat}

namespace FrameTable

variable {t : FrameTable n}

theorem size_eq_countP (t : FrameTable n) :
    t.size = (List.finRange n).countP fun i => (t.assignments.get i).isSome := by
  have hlist : t.assignments.toList = (List.finRange n).map t.assignments.get := by
    refine List.ext_getElem (by simp) fun i _ _ => ?_
    rw [List.getElem_map, List.getElem_finRange, Vector.getElem_toList]
    rfl
  unfold size
  rw [hlist, List.countP_map]
  rfl

/-- As many frames are owned as there are assignments that say so. -/
theorem length_ownedBy (t : FrameTable n) (owner : SpaceId) :
    (t.ownedBy owner).length
      = (List.finRange n).countP fun i => (t.assignments.get i).any (·.owner = owner) := by
  unfold ownedBy
  rw [List.length_filterMap_eq_countP]
  refine List.countP_congr fun i _ => ?_
  cases t.assignments.get i with
  | none => simp
  | some a =>
    by_cases howner : a.owner = owner
    · simp [howner]
    · simp [howner]

end FrameTable

namespace Pager

/-- The space has no pages, frames and mappings. -/
structure Emptied (p : Pager n) (id : SpaceId) : Prop where
  descriptors : (p.space id).descriptors = .empty
  mappings : (p.space id).mappings.live = .empty
  address? : ∀ u, p.address? id u = none
  owner : ∀ i a, p.assignment? i = some a → a.owner ≠ id

/-- What the space `o` has is as before: its page directory with all flags, its descriptors
and mappings, the assignments of its frames with their pins, the contents of these frames,
and its slots with theirs. -/
structure Untouched (p : Pager n) (o : SpaceId) (q : Pager n) : Prop where
  space : q.space o = p.space o
  assignment? : ∀ i a, a.owner = o → (q.assignment? i = some a ↔ p.assignment? i = some a)
  page : ∀ i a, p.assignment? i = some a → a.owner = o → q.page i = p.page i
  slot : ∀ u slot, p.slot? o u = some slot →
    q.swap.holds slot = .ok true ∧ q.swap.pageIn slot = p.swap.pageIn slot

/-- How many slots a space holds. -/
def slotCount (p : Pager n) (id : SpaceId) : Nat :=
  (p.space id).descriptors.values.countP fun d => d.backing.slot?.isSome

/-- What the exit of a process asks of the files: its mappings are taken down, from the
oldest one on. -/
def exitActions (p : Pager n) (id : SpaceId) : List FileAction :=
  (p.space id).mappings.ids.flatMap (p.unmapActions id)

variable {p q : Pager n} {id : SpaceId}

/-- A space that holds nothing exits without a trace. -/
theorem Emptied.run_exitSpace (h : p.Emptied id) : (exitSpace id).run p = .done () p := by
  have hids : (p.space id).mappings.ids = [] := by
    unfold MappingTable.ids
    rw [h.mappings]
    rfl
  have howned : p.frames.ownedBy id = [] := by
    refine List.eq_nil_iff_forall_not_mem.mpr fun ⟨i, u⟩ hmem => ?_
    obtain ⟨a, ha, howner, _⟩ := FrameTable.mem_ownedBy.mp hmem
    exact h.owner i a ha howner
  have hrelease : (releaseFrames id).run p = .done () p := by
    have hself : p.updateDirectory id (fun d => d) = p :=
      (updateSpace_eq p id _).trans (putSpace_self p id)
    unfold releaseFrames
    simp only [run_bind, run_read, run_update, howned, List.foldl_nil, hself]
    rfl
  have hfree : (p.space id).descriptors.freeSlots p.swap = .ok p.swap := by
    rw [h.descriptors]
    rfl
  have hdrop : (dropDescriptors id).run p = .done () p := by
    rw [run_dropDescriptors hfree, ← h.descriptors, putSpace_self]
  unfold exitSpace
  rw [run_bind, run_read]
  simp only [hids]
  show (releaseFrames id >>= fun _ => dropDescriptors id).run p = _
  rw [run_bind, hrelease]
  exact hdrop

namespace TookDown

theorem slot? {gone : Nat → Prop} (h : p.TookDown id gone q) {o : SpaceId} (ho : o ≠ id) (u : Nat) :
    q.slot? o u = p.slot? o u := by
  rw [Pager.slot?, Pager.slot?, Pager.descriptor?, Pager.descriptor?, h.space o ho]

/-- When all pages of a space are gone, so are its frames. -/
theorem size_frames (h : p.TookDown id (fun _ => True) q) :
    q.frames.size + (p.frames.ownedBy id).length = p.frames.size := by
  have hsplit := List.countP_eq_countP_filter_add (List.finRange n)
    (fun i => (p.frames.assignments.get i).isSome)
    fun i => (p.frames.assignments.get i).any (·.owner = id)
  rw [List.countP_filter, List.countP_filter] at hsplit
  rw [FrameTable.size_eq_countP, FrameTable.size_eq_countP, FrameTable.length_ownedBy, hsplit,
    Nat.add_comm]
  refine congrArg₂ (· + ·) ?_ ?_
  · refine List.countP_congr fun i _ => ?_
    cases p.frames.assignments.get i with
    | none => simp
    | some a => simp
  -- the frames that are left are those of the other spaces
  · refine List.countP_congr fun i _ => ?_
    have hassigned := h.assignment? i
    unfold Pager.assignment? at hassigned
    rw [Option.isSome_iff_exists]
    simp only [hassigned, and_true]
    cases p.frames.assignments.get i with
    | none => simp
    | some a => simp

end TookDown

/-- When one space gives back all its slots, as many are free as it held. -/
theorem SlotsAgree.used_of_left (hp : p.SlotsAgree) (hq : q.SlotsAgree)
    (hgone : ∀ u, q.slot? id u = none)
    (hothers : ∀ o, o ≠ id → ∀ u, q.slot? o u = p.slot? o u) :
    q.swap.used + p.slotCount id = p.swap.used := by
  have hmem : ∀ slot, slot ∈ q.namedSlots ↔ ∃ o u, o ≠ id ∧ p.slot? o u = some slot := by
    intro slot
    rw [mem_namedSlots]
    refine exists_congr fun o => exists_congr fun u => ?_
    by_cases ho : o = id
    · simp [ho, hgone]
    · simp [ho, hothers o ho]
  have hperm : (q.namedSlots ++ slotsOf (p.space id).descriptors.values).Perm p.namedSlots := by
    refine (List.perm_ext_iff_of_nodup ?_ hp.nodup_namedSlots).mpr ?_
    · refine List.nodup_append.mpr ⟨hq.nodup_namedSlots, ?_, ?_⟩
      · exact nodup_slotsOf_values fun u u' d d' slot hd hd' hs hs' =>
          (hp.unique id u id u' slot (slot?_eq_some_iff.mpr ⟨d, hd, hs⟩)
            (slot?_eq_some_iff.mpr ⟨d', hd', hs'⟩)).2
      · rintro slot hslot _ hslot' rfl
        obtain ⟨o, u, ho, hu⟩ := (hmem slot).mp hslot
        obtain ⟨u', hu'⟩ := mem_slotsOf_space.mp hslot'
        exact ho (hp.unique o u id u' slot hu hu').1
    · intro slot
      rw [List.mem_append, hmem, mem_slotsOf_space, mem_namedSlots]
      constructor
      · rintro (⟨o, u, _, hu⟩ | ⟨u, hu⟩)
        · exact ⟨o, u, hu⟩
        · exact ⟨id, u, hu⟩
      · rintro ⟨o, u, hu⟩
        by_cases ho : o = id
        · exact Or.inr ⟨u, ho ▸ hu⟩
        · exact Or.inl ⟨o, u, ho, hu⟩
  have hcount : p.slotCount id = (slotsOf (p.space id).descriptors.values).length := by
    unfold slotCount slotsOf
    rw [List.length_filterMap_eq_countP]
  rw [hp.used_eq, hq.used_eq, length_slotOwners, length_slotOwners, hcount, ← List.length_append]
  exact hperm.length_eq

/-- A page that is dirty in its frame is written back when the process exits, and to the place
in the file that it shows: it belongs to a live mapping, which is taken down. -/
theorem write_mem_exitActions (hp : p.Agrees none) (hlisted : p.Listed) {v : Nat} {d : Descriptor}
    {w : FileWindow} {page : Page} (hd : p.descriptor? id v = some d)
    (hmapped : d.backing.isMapped = true) (hw : d.backing.window? = some w)
    (hpage : p.framed? id v = some page) (hdirty : p.has .dirty id v = true) :
    .write w.source.file w.offset page.bytes ∈ p.exitActions id := by
  obtain ⟨m, fm, hm, hv, _⟩ := hlisted id v d hd hmapped
  obtain ⟨k, hk, rfl⟩ := mem_pageRange.mp hv
  obtain ⟨d', w', hd', _, hw', hsource, hoffset⟩ := hp.mappings.described id m fm k hm hk
  cases hd.symm.trans hd'
  cases hw.symm.trans hw'
  refine List.mem_flatMap.mpr ⟨m, mem_ids_of_mapping? hm, ?_⟩
  unfold unmapActions
  rw [hm]
  refine List.mem_append_left _ (List.mem_filterMap.mpr ⟨k, List.mem_range.mpr hk, ?_⟩)
  rw [writeBack?, if_pos hdirty, hpage, hsource, hoffset]
  rfl

theorem close_mem_exitActions {m : Nat} {fm : FileMapping} (hm : p.mapping? id m = some fm) :
    .close fm.source.file fm.source.handle ∈ p.exitActions id := by
  refine List.mem_flatMap.mpr ⟨m, mem_ids_of_mapping? hm, ?_⟩
  unfold unmapActions
  rw [hm]
  exact List.mem_append_right _ (List.mem_singleton_self _)

/-- What an exit comes to: all pages of the space are gone, the mappings with them, and the
files have been asked for what that takes. -/
theorem Agrees.exits (hp : p.Agrees none) (hid : id < p.spaces.size) :
    ∃ q, (exitSpace id).run p = .done () q ∧ q.Agrees none
      ∧ (p.frames.Counted → q.frames.Counted)
      ∧ p.TookDown id (fun _ => True) q ∧ (∀ m, q.mapping? id m = none)
      ∧ q.files = (p.exitActions id).foldl FileAction.on p.files := by
  have hspec := exitSpace_spec hp hid
  cases hrun : (exitSpace id).run p with
  | failed e q =>
    rw [hrun] at hspec
    exact hspec.elim
  | fatal reason =>
    rw [hrun] at hspec
    exact hspec.elim
  | done u q =>
    rw [hrun] at hspec
    obtain ⟨hvisibly, hmapping⟩ := hspec
    have hchain : Chain (fun _ => True) p none _ q none := hvisibly.chain
    have hall : ∀ c ∈ (p.space id).mappings.ids.flatMap (unmapChanges p id) ++ [.vacated id],
        c.TakesDown id := by
      intro c hc
      rcases List.mem_append.mp hc with hc | hc
      · obtain ⟨m, _, hc⟩ := List.mem_flatMap.mp hc
        exact takesDown_of_mem_unmapChanges hc
      · cases List.mem_singleton.mp hc
        exact rfl
    refine ⟨q, rfl, hchain.agrees hp, hchain.counted hp, ?_, hmapping, ?_⟩
    · refine (hvisibly.tookDown hp hall).congr fun v => iff_true_intro ?_
      exact ⟨.vacated id, List.mem_append_right _ (List.mem_singleton_self _), trivial⟩
    · rw [hvisibly.files hp hall, List.flatMap_append, List.flatMap_assoc]
      simp only [hp.flatMap_unmapChanges, List.flatMap_singleton]
      rw [show p.fileActions (.vacated id) = [] from rfl, List.append_nil]
      rfl

theorem TookDown.emptied (h : p.TookDown id (fun _ => True) q) (hq : q.Agrees none)
    (hmapping : ∀ m, q.mapping? id m = none) : q.Emptied id := by
  refine ⟨KeyedTable.ext fun u => ?_, KeyedTable.ext fun m => hmapping m, fun u => ?_, ?_⟩
  · cases hd : q.descriptor? id u with
    | none => exact hd
    | some d =>
      have haligned := (hq.descriptors.upage id u d hd).1
      exact absurd ((h.vacant u haligned trivial).1.symm.trans hd) (by simp)
  · rw [← address?_pageBase]
    exact (h.vacant _ (pageAligned_pageBase u) trivial).2
  · intro i a ha howner
    exact ((h.assignment? i a).mp ha).2 ⟨howner, trivial⟩

/-- A page that names a slot when others are gone named it before. -/
theorem TookDown.slot?_before {gone : Nat → Prop} (h : p.TookDown id gone q) (hq : q.Agrees none)
    {o : SpaceId} {v slot : Nat} (hv : q.slot? o v = some slot) : p.slot? o v = some slot := by
  by_cases ho : o = id
  · subst ho
    obtain ⟨d, hd, _⟩ := slot?_eq_some_iff.mp hv
    have haligned := (hq.descriptors.upage o v d hd).1
    have hstays : ¬ gone v := fun hgone =>
      absurd ((h.vacant v haligned hgone).1.symm.trans hd) (by simp)
    rw [Pager.slot?, h.descriptor? v hstays] at hv
    exact hv
  · rw [← h.slot? ho]
    exact hv

/-- A slot of a page that is gone is free: the one descriptor that named it is gone. -/
theorem TookDown.holds_eq_false {gone : Nat → Prop} (h : p.TookDown id gone q) (hp : p.SlotsAgree)
    (hq : q.Agrees none) {u slot : Nat} (hgone : q.slot? id u = none)
    (hslot : p.slot? id u = some slot) : q.swap.holds slot = .ok false := by
  have hclaimed := (hp.claimed_iff slot).mpr ⟨id, u, hslot⟩
  have hlength : q.swap.slots.length = p.swap.slots.length := by
    rw [hq.slots.fitted, hp.fitted, h.device]
  refine SwapArea.holds_eq_ok_iff.mpr ⟨hlength ▸ Bitmap.lt_of_isSet hclaimed, ?_⟩
  refine Bool.eq_false_iff.mpr fun hset => ?_
  obtain ⟨o, v, hv⟩ := (hq.slots.claimed_iff slot).mp hset
  obtain ⟨rfl, rfl⟩ := hp.unique o v id u slot (h.slot?_before hq hv) hslot
  exact absurd (hgone.symm.trans hv) (by simp)

theorem TookDown.untouched {gone : Nat → Prop} (h : p.TookDown id gone q) (hq : q.SlotsAgree)
    {o : SpaceId} (ho : o ≠ id) : p.Untouched o q where
  space := h.space o ho
  assignment? i a howner := (h.assignment? i a).trans
    (and_iff_left fun hc => ho (howner.symm.trans hc.1))
  page i _ _ _ := h.page i
  slot u slot hslot :=
    ⟨SwapArea.holds_eq_true_iff.mpr ((hq.claimed_iff slot).mpr ⟨o, u, (h.slot? ho u).trans hslot⟩),
      SwapArea.pageIn_congr fun k _ => by rw [h.device]⟩

/-- What a file is asked to take when the process exits, mapping by mapping. -/
theorem filterMap_asks?_exitActions (k : Nat) :
    (p.exitActions id).filterMap (FileAction.asks? k)
      = (p.space id).mappings.ids.flatMap (p.pagesDueTo id k) := by
  unfold exitActions
  rw [List.filterMap_flatMap]
  exact List.flatMap_congr fun m _ => filterMap_asks?_unmapActions m

/-- Exit returns everything and touches nobody else. In every state between two requests of a
run, and whatever is pinned and however short the files fall, it is carried out; it leaves the
space with no page, frame, mapping or slot; the counters go down by what the space had; and to the
other spaces nothing happens. Exiting once more changes nothing.

Each file is called (`calls`) with the pages of its mappings that are dirty in their frames, and
with nothing else: mapping by mapping from the oldest one on, and page by page, whole and each at
its place, whatever the file answers. So a call is made for every page of a mapping that is dirty
in its frame, and the handles of all mappings are closed. -/
theorem Reachable.exit_exact (hp : p.Reachable) (hid : id < p.spaces.size) :
    ∃ q, ∃ calls : Nat → List WriteCall,
      (exitSpace id).run p = .done () q ∧ (exitSpace id).run q = .done () q
      ∧ q.Emptied id
      ∧ (∀ u slot, p.slot? id u = some slot → q.swap.holds slot = .ok false)
      ∧ q.files = (p.exitActions id).foldl FileAction.on p.files
      ∧ (∀ k, k < p.files.size → (q.file k).writes = (p.file k).writes ++ calls k
          ∧ (calls k).map WriteCall.asked
            = (p.space id).mappings.ids.flatMap (p.pagesDueTo id k))
      ∧ (∀ v d w page, p.descriptor? id v = some d → d.backing.isMapped = true →
          d.backing.window? = some w → p.framed? id v = some page → p.has .dirty id v = true →
          w.source.file < p.files.size
            ∧ ∃ call ∈ calls w.source.file, call.offset = w.offset ∧ call.bytes = page.bytes)
      ∧ (∀ m fm, p.mapping? id m = some fm → fm.source.file < p.files.size
          ∧ ((p.file fm.source.file).handles.Nodup →
            fm.source.handle ∉ (q.file fm.source.file).handles))
      ∧ q.frames.pool.handedOut + (p.frames.ownedBy id).length = p.frames.pool.handedOut
      ∧ q.swap.used + p.slotCount id = p.swap.used
      ∧ ∀ o, o ≠ id → p.Untouched o q := by
  have hagrees := hp.visited.agrees
  have hcounted := hp.visited.counted
  obtain ⟨q, hrun, hq, hqcounted, hdown, hmapping, hfiles⟩ := hagrees.exits hid
  have hemptied := hdown.emptied hq hmapping
  have hgone : ∀ u, q.slot? id u = none := by
    intro u
    rw [slot?, descriptor?, hemptied.descriptors]
    rfl
  refine ⟨q, fun k => callsTo k p.files (p.exitActions id), hrun, hemptied.run_exitSpace,
    hemptied, ?_, hfiles, ?_, ?_, ?_, ?_, ?_, ?_⟩
  · exact fun u slot => hdown.holds_eq_false hagrees.slots hq (hgone u)
  · intro k hk
    refine ⟨?_, (map_asked_callsTo _).trans (filterMap_asks?_exitActions k)⟩
    rw [file, file, hfiles]
    exact writes_foldl hk _
  · intro v d w page hd hmapped hw hpage hdirty
    have hwrite := write_mem_exitActions hagrees hp.listed hd hmapped hw hpage hdirty
    have hasked : (w.offset, page.bytes)
        ∈ (callsTo w.source.file p.files (p.exitActions id)).map WriteCall.asked := by
      rw [map_asked_callsTo]
      exact List.mem_filterMap.mpr ⟨_, hwrite, if_pos rfl⟩
    obtain ⟨call, hcall, heq⟩ := List.mem_map.mp hasked
    obtain ⟨hoffset, hbytes⟩ := Prod.mk.inj heq
    refine ⟨?_, call, hcall, hoffset, hbytes⟩
    obtain ⟨m, fm, hm, _, hsource⟩ := hp.listed id v d hd hmapped
    rw [hw, Option.map_some, Option.some.injEq] at hsource
    exact hsource ▸ hp.showsFiles id m fm hm
  · intro m fm hm
    have hlt := hp.showsFiles id m fm hm
    refine ⟨hlt, fun hnodup => ?_⟩
    rw [file, hfiles]
    exact not_mem_handles_foldl hlt hnodup (close_mem_exitActions hm)
  · rw [show q.frames.pool.handedOut = q.frames.size from hqcounted hcounted,
      show p.frames.pool.handedOut = p.frames.size from hcounted]
    exact hdown.size_frames
  · exact hagrees.slots.used_of_left hq.slots hgone fun o ho => hdown.slot? ho
  · exact fun o ho => hdown.untouched hq.slots ho

/-- Two processes with one number, and a file of two pages that takes one byte and no more. -/
def twins : Pager 3 :=
  small 3 #[{
    contents := .bytes (List.replicate (pageSize + 1) 7)
    medium? := some { takes := fun before _ _ => if before.isEmpty then 1 else 0 } }] #[1, 1]

/-- The first process changes a byte in both pages of the file in memory and pins the first one,
the other process touches its stack. -/
def twinsAtWork : List Event :=
  [.request (.mapFile 0 0 pageSize), .request (.write 0 pageSize [9]),
    .request (.write 0 (2 * pageSize) [8]), .request (.pin 0 pageSize),
    .request (.fault 1 topPage topPage)]

/-- The first process exits, pinned page and all. The file was called twice, although it took
one byte of the first page and none of the second one. Its second handle is closed, one frame is
left, and it is that of the other process. -/
theorem Reachable.exit_exact_twins :
    Run twins twinsAtWork (twins.ran twinsAtWork) ∧ 0 < (twins.ran twinsAtWork).spaces.size
      ∧ ∃ q, (exitSpace 0).run (twins.ran twinsAtWork) = .done () q
        ∧ (exitSpace 0).run q = .done () q
        ∧ ((q.file 0).writes.map fun call => (call.offset, call.bytes.take 1, call.count))
          = [(0, [9], 1), (pageSize, [8], 0)]
        ∧ (q.file 0).data.take 2 = [9, 7] ∧ 1 ∉ (q.file 0).handles ∧ q.frames.pool.handedOut = 1
        ∧ q.address? 0 pageSize = none
        ∧ q.address? 1 topPage = (twins.ran twinsAtWork).address? 1 topPage := by
  have hrun : Run twins twinsAtWork _ := run_ran (by decide +kernel)
  have hstart : twins.IsStart := isStart_small (by decide) _ _
  obtain ⟨hsize, hwrites, hdata, hm, hnodup, howned, hhanded⟩ :
      0 < (twins.ran twinsAtWork).spaces.size
      ∧ (((((twins.ran twinsAtWork).exitActions 0).foldl FileAction.on
        (twins.ran twinsAtWork).files).getD 0 default).writes.map
          fun call => (call.offset, call.bytes.take 1, call.count))
        = [(0, [9], 1), (pageSize, [8], 0)]
      ∧ ((((twins.ran twinsAtWork).exitActions 0).foldl FileAction.on
        (twins.ran twinsAtWork).files).getD 0 default).data.take 2 = [9, 7]
      ∧ (twins.ran twinsAtWork).mapping? 0 0 = some ⟨⟨0, 1⟩, pageSize, 2⟩
      ∧ ((twins.ran twinsAtWork).file 0).handles.Nodup
      ∧ ((twins.ran twinsAtWork).frames.ownedBy 0).length = 2
      ∧ (twins.ran twinsAtWork).frames.pool.handedOut = 3 := by decide +kernel
  obtain ⟨q, calls, hexit, hagain, hemptied, _, hfiles, _, _, hhandles, hframes, _, hothers⟩ :=
    Reachable.exit_exact ⟨_, _, hstart, hrun⟩ hsize
  refine ⟨hrun, hsize, q, hexit, hagain, ?_, ?_, (hhandles 0 _ hm).2 hnodup, by omega,
    hemptied.address? _, ?_⟩
  · rw [file, hfiles, hwrites]
  · rw [file, hfiles, hdata]
  · rw [address?, (hothers 1 (by decide)).space, address?]

end Pager

end DemandPaging

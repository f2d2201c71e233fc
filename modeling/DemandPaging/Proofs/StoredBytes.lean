import DemandPaging.Proofs.Runs
/-!
# The bytes that a copy stores

A copy to user memory stores a prefix of its bytes. `Event.storedByte?` tells which byte an
event stores at an address; a copy that does not fail stores all of them
(`Event.storedByte?_of_done`). The moves of a copy go page by page, and
`foldl_byteAfter_storesOf` puts the pages together.
-/

namespace DemandPaging

open PagerAction

variable {n : Nat}

/-- The byte at the address `a` of the space `id` after a change, given the one before. -/
def Change.byteAfter (id : SpaceId) (a : Nat) (b? : Option UInt8) : Change → Option UInt8
  | .stored o upage start bytes =>
    if o = id ∧ upage + start ≤ a ∧ a < upage + start + bytes.length then
      bytes[a - (upage + start)]?
    else b?
  | _ => b?

theorem Change.byteAfter_stored (id o : SpaceId) (a upage start : Nat) (bytes : Bytes)
    (b? : Option UInt8) :
    (Change.stored o upage start bytes).byteAfter id a b?
      = if o = id ∧ upage + start ≤ a ∧ a < upage + start + bytes.length then
          bytes[a - (upage + start)]?
        else b? := (rfl)

/-- Bytes that are stored in a page are in no other page. -/
theorem Change.byteAfter_of_other_page {id o : SpaceId} {u v start b : Nat} {bytes : Bytes}
    (hu : PageAligned u) (hv : PageAligned v) (hfits : start + bytes.length ≤ pageSize)
    (hne : ¬(id = o ∧ v = u)) (hb : b < pageSize) (b? : Option UInt8) :
    (Change.stored o u start bytes).byteAfter id (v + b) b? = b? := by
  rw [Change.byteAfter_stored, if_neg]
  -- a byte that two aligned pages share makes them the same page
  intro h
  obtain ⟨rfl, hlow, hhigh⟩ := h
  refine hne ⟨rfl, ?_⟩
  unfold PageAligned offsetInPage at hv hu
  unfold pageSize at *
  omega

/-- The chunks of a range store what a copy in one piece would store, as far as they go. -/
theorem foldl_byteAfter_storesOf {o id : SpaceId} {address a : Nat} {front rest : List Chunk}
    {bytes : Bytes} {b? : Option UInt8} (hchunks : chunks address bytes.length = front ++ rest) :
    (storesOf o front bytes).foldl (Change.byteAfter id a) b?
      = if o = id ∧ address ≤ a ∧ a < address + totalCount front then bytes[a - address]?
        else b? := by
  induction front generalizing address bytes b? with
  | nil => exact (if_neg fun hc => Nat.not_lt.mpr hc.2.1 hc.2.2).symm
  | cons c front ih =>
    have hne : bytes.length ≠ 0 := by
      intro hzero
      rw [hzero, chunks_zero] at hchunks
      cases hchunks
    have hsplit := pageBase_add_offsetInPage address
    have hle : firstCount address bytes.length ≤ bytes.length := Nat.min_le_right _ _
    -- the first chunk ends where its page ends, and the rest is the copy of the bytes after it
    rw [chunks_of_ne_zero hne] at hchunks
    obtain ⟨rfl, hrest⟩ := List.cons.inj hchunks
    rw [← List.length_drop] at hrest
    have htotal : totalCount (Chunk.first address bytes.length :: front)
          = firstCount address bytes.length + totalCount front := rfl
    rw [storesOf, List.foldl_cons, Chunk.count_first, ih hrest]
    simp only [Change.byteAfter_stored, Chunk.upage_first, Chunk.start_first, hsplit,
      List.length_take, Nat.min_eq_left hle]
    by_cases hin : o = id ∧ address ≤ a ∧ a < address + (firstCount address bytes.length
        + totalCount front)
    · obtain ⟨ho, hlow, hend⟩ := hin
      rw [if_pos (c := _ ∧ _ ∧ a < address + totalCount (_ :: front)) ⟨ho, hlow, htotal ▸ hend⟩]
      by_cases hfirst : a < address + firstCount address bytes.length
      -- a byte of the first chunk is written by no later one
      · rw [if_neg (by omega), if_pos ⟨ho, hlow, hfirst⟩, List.getElem?_take_of_lt (by omega)]
      · rw [if_pos ⟨ho, by omega, by omega⟩, List.getElem?_drop]
        congr 1
        omega
    · rw [if_neg fun hc => hin ⟨hc.1, by omega, by omega⟩,
        if_neg fun hc => hin ⟨hc.1, by omega, by omega⟩, if_neg (htotal ▸ hin)]

/-- A copy that does not fail stores all of its bytes. -/
theorem storedCount_of_done {id : SpaceId} {cs : List Chunk} {bytes : Bytes} {p q : Pager n}
    (h : (writeChunks id cs bytes).run p = .done () q) :
    storedCount id cs bytes p = totalCount cs := by
  induction cs generalizing bytes p with
  | nil => rfl
  | cons c rest ih =>
    rw [run_writeChunks_cons] at h
    rw [storedCount_cons]
    cases hrun : (writeChunk id c (bytes.take c.count)).run p with
    | done u r =>
      rw [hrun] at h
      exact congrArg (c.count + ·) (ih h)
    | failed e r =>
      rw [hrun] at h
      cases h
    | fatal reason =>
      rw [hrun] at h
      cases h

/-- The byte that an event stores at the address `a` of the space `id`, if it stores one. -/
def Event.storedByte? (p : Pager n) (id : SpaceId) (a : Nat) : Event → Option UInt8
  | .request (.write o address bytes) =>
    if o = id ∧ address ≤ a
        ∧ a < address + (if IsUserRange address bytes.length then
            storedCount o (chunks address bytes.length) bytes p else 0) then
      bytes[a - address]?
    else none
  | _ => none

/-- A write that does not fail stores all of its bytes. -/
theorem Event.storedByte?_of_done {p q : Pager n} {id : SpaceId} {address : Nat} {bytes : Bytes}
    (h : (writeUser id address bytes).run p = .done () q) (i : Nat) :
    (Event.request (.write id address bytes)).storedByte? p id (address + i) = bytes[i]? := by
  unfold writeUser at h
  split at h
  next hrange =>
    show (if id = id ∧ address ≤ address + i ∧ address + i < address
      + (if IsUserRange address bytes.length then
        storedCount id (chunks address bytes.length) bytes p else 0) then
      bytes[address + i - address]? else none) = bytes[i]?
    rw [if_pos hrange, storedCount_of_done h, totalCount_chunks, Nat.add_sub_cancel_left]
    split
    next => rfl
    next hout =>
      have hend : bytes.length ≤ i := Nat.le_of_not_lt fun hi =>
        hout ⟨rfl, Nat.le_add_right _ _, Nat.add_lt_add_left hi _⟩
      rw [List.getElem?_eq_none hend]
  next => cases h

/-- A change that stores nothing leaves every byte. -/
theorem foldl_byteAfter_of_not_stored {cs : List Change} {id : SpaceId} {a : Nat}
    (h : ∀ o u start bytes, Change.stored o u start bytes ∉ cs) (b? : Option UInt8) :
    cs.foldl (Change.byteAfter id a) b? = b? := by
  induction cs generalizing b? with
  | nil => rfl
  | cons c rest ih =>
    have hc : c.byteAfter id a b? = b? := by
      cases c with
      | stored o u start bytes => exact absurd (List.mem_cons_self ..) (h o u start bytes)
      | _ => rfl
    rw [List.foldl_cons, hc]
    exact ih (fun o u start bytes hmem => h o u start bytes (List.mem_cons_of_mem _ hmem)) b?

/-- What the changes of a request make of a byte is what the request stores there. -/
theorem Event.Makes.foldl_byteAfter {p : Pager n} {e : Event} {cs : List Change}
    (h : e.Makes p cs) (id : SpaceId) (a : Nat) (b? : Option UInt8) :
    cs.foldl (Change.byteAfter id a) b? = (e.storedByte? p id a).or b? := by
  by_cases hstores : ∃ o address bytes, e = .request (.write o address bytes)
      ∧ IsUserRange address bytes.length
  · obtain ⟨o, address, bytes, rfl, hrange⟩ := hstores
    cases h with
    | nothing hop => exact absurd hrange hop
    | @stored _ _ _ front rest _ hchunks hcount =>
      have htotal := totalCount_chunks address bytes.length
      rw [hchunks, totalCount_append] at htotal
      rw [foldl_byteAfter_storesOf hchunks]
      unfold Event.storedByte?
      simp only
      rw [if_pos hrange, hcount]
      split
      next hin =>
        rw [List.getElem?_eq_getElem (by omega)]
        rfl
      next => rfl
  -- no other event stores anything
  · have hnone : e.storedByte? p id a = none := by
      unfold Event.storedByte?
      split
      next o address bytes =>
        rw [if_neg fun hrange => hstores ⟨o, address, bytes, rfl, hrange⟩]
        exact if_neg fun hc => Nat.not_lt.mpr hc.2.1 hc.2.2
      next => rfl
    rw [hnone, Option.none_or]
    refine foldl_byteAfter_of_not_stored ?_ b?
    intro o u start part hc
    cases Event.HasMade.causes (Or.inl h) hc with
    | stored hrange => exact hstores ⟨_, _, _, rfl, hrange⟩

end DemandPaging

import DemandPaging.Proofs.StoredBytes
/-!
# The states in the middle of a copy

A copy goes on where its beginning ended (`run_readChunks_append`, `run_writeChunks_append`),
so it stops at one chunk, after those before it (`readChunks_stops`, `writeChunks_stops`), and from
every state that an event passes moves lead to the state after it (`Event.Passes.rest`). After each
chunk that a copy stores the page is dirty, and the copy passes that state
(`Event.Makes.passes_dirty`).
-/

namespace DemandPaging

open Pager PagerAction Outcome

variable {n : Nat}

theorem run_readChunks_append (id : SpaceId) (front rest : List Chunk) (bytes : Bytes)
    (p : Pager n) :
    (readChunks id (front ++ rest) bytes).run p = match (readChunks id front bytes).run p with
      | .done ⟨more, .ok ()⟩ q => (readChunks id rest more).run q
      | .done ⟨more, .error e⟩ q => .done ⟨more, .error e⟩ q
      | .failed e q => .failed e q
      | .fatal reason => .fatal reason := by
  induction front generalizing bytes p with
  | nil => rfl
  | cons c front ih =>
    rw [List.cons_append, run_readChunks_cons, run_readChunks_cons]
    cases (readChunk id c).run p with
    | done more q => exact ih (bytes ++ more) q
    | failed e q => rfl
    | fatal reason => rfl

theorem run_writeChunks_append (id : SpaceId) (front rest : List Chunk) (bytes : Bytes)
    (p : Pager n) :
    (writeChunks id (front ++ rest) bytes).run p = match (writeChunks id front bytes).run p with
      | .done _ q => (writeChunks id rest (bytes.drop (totalCount front))).run q
      | .failed e q => .failed e q
      | .fatal reason => .fatal reason := by
  induction front generalizing bytes p with
  | nil => rfl
  | cons c front ih =>
    rw [List.cons_append, run_writeChunks_cons, run_writeChunks_cons]
    cases (writeChunk id c (bytes.take c.count)).run p with
    | done u q =>
      refine (ih (bytes.drop c.count) q).trans ?_
      rw [List.drop_drop]
      rfl
    | failed e q => rfl
    | fatal reason => rfl

theorem storesOf_append (id : SpaceId) (front rest : List Chunk) (bytes : Bytes) :
    storesOf id (front ++ rest) bytes
      = storesOf id front bytes ++ storesOf id rest (bytes.drop (totalCount front)) := by
  induction front generalizing bytes with
  | nil => rfl
  | cons c front ih =>
    show _ :: storesOf id (front ++ rest) (bytes.drop c.count) = _
    rw [ih, List.drop_drop]
    rfl

theorem storedCount_append {id : SpaceId} {front rest : List Chunk} {bytes : Bytes} {p t : Pager n}
    (h : (writeChunks id front bytes).run p = .done () t) :
    storedCount id (front ++ rest) bytes p
      = totalCount front + storedCount id rest (bytes.drop (totalCount front)) t := by
  induction front generalizing bytes p with
  | nil =>
    cases h
    exact (Nat.zero_add _).symm
  | cons c front ih =>
    rw [run_writeChunks_cons] at h
    rw [List.cons_append, storedCount_cons]
    cases hrun : (writeChunk id c (bytes.take c.count)).run p with
    | done u q =>
      rw [hrun] at h
      show c.count + storedCount id (front ++ rest) (bytes.drop c.count) q = _
      rw [ih h, List.drop_drop, ← Nat.add_assoc]
      rfl
    | failed e q =>
      rw [hrun] at h
      cases h
    | fatal reason =>
      rw [hrun] at h
      cases h

/-- A copy out of user memory that ends with an error does so at a chunk, after those before it. -/
theorem readChunks_stops {id : SpaceId} {cs : List Chunk} {bytes more : Bytes} {p q : Pager n}
    {e : PagingError} (h : (readChunks id cs bytes).run p = .done ⟨more, .error e⟩ q) :
    ∃ front c rest r, cs = front ++ c :: rest
      ∧ (readChunks id front bytes).run p = .done ⟨more, .ok ()⟩ r
      ∧ (readChunk id c).run r = .failed e q := by
  induction cs generalizing bytes p with
  | nil => cases h
  | cons c rest ih =>
    rw [run_readChunks_cons] at h
    cases hrun : (readChunk id c).run p with
    | done first t =>
      rw [hrun] at h
      obtain ⟨front, d, rest', r, rfl, hfront, hfails⟩ := ih h
      refine ⟨c :: front, d, rest', r, rfl, ?_, hfails⟩
      rw [run_readChunks_cons, hrun]
      exact hfront
    | failed e' t =>
      rw [hrun] at h
      cases h
      exact ⟨[], c, rest, p, rfl, rfl, hrun⟩
    | fatal reason =>
      rw [hrun] at h
      cases h

/-- A copy that fails does so at a chunk of which nothing is stored, after those before it. -/
theorem writeChunks_stops {id : SpaceId} {cs : List Chunk} {bytes : Bytes} {p q : Pager n}
    {e : PagingError} (h : (writeChunks id cs bytes).run p = .failed e q) :
    ∃ front c rest r, cs = front ++ c :: rest ∧ (writeChunks id front bytes).run p = .done () r
      ∧ (writeChunk id c ((bytes.drop (totalCount front)).take c.count)).run r = .failed e q
      ∧ storedCount id cs bytes p = totalCount front := by
  induction cs generalizing bytes p with
  | nil => cases h
  | cons c rest ih =>
    rw [run_writeChunks_cons] at h
    rw [storedCount_cons]
    cases hrun : (writeChunk id c (bytes.take c.count)).run p with
    | done u t =>
      rw [hrun] at h
      obtain ⟨front, d, rest', r, rfl, hfront, hfails, hcount⟩ := ih h
      refine ⟨c :: front, d, rest', r, rfl, ?_, ?_, congrArg (c.count + ·) hcount⟩
      · rw [run_writeChunks_cons, hrun]
        exact hfront
      · rw [List.drop_drop] at hfails
        exact hfails
    | failed e' t =>
      rw [hrun] at h
      cases h
      exact ⟨[], c, rest, p, rfl, rfl, hrun, rfl⟩
    | fatal reason =>
      rw [hrun] at h
      cases h

/-- A copy that is over has come to each of its chunks, and gone on from there. -/
theorem writeChunks_splits {id : SpaceId} {front rest : List Chunk} {c : Chunk} {bytes : Bytes}
    {p q : Pager n} (h : (writeChunks id (front ++ c :: rest) bytes).run p = .done () q) :
    ∃ r t, (writeChunks id front bytes).run p = .done () r
      ∧ (writeChunk id c ((bytes.drop (totalCount front)).take c.count)).run r = .done () t
      ∧ (writeChunks id rest ((bytes.drop (totalCount front)).drop c.count)).run t
        = .done () q := by
  rw [run_writeChunks_append] at h
  cases hfront : (writeChunks id front bytes).run p with
  | done u r =>
    rw [hfront] at h
    simp only [run_writeChunks_cons] at h
    cases hrun : (writeChunk id c ((bytes.drop (totalCount front)).take c.count)).run r with
    | done u t =>
      rw [hrun] at h
      exact ⟨r, t, rfl, hrun, h⟩
    | failed e t =>
      rw [hrun] at h
      cases h
    | fatal reason =>
      rw [hrun] at h
      cases h
  | failed e r =>
    rw [hfront] at h
    cases h
  | fatal reason =>
    rw [hfront] at h
    cases h

/-! ## From the middle of an event to its end -/

theorem state?_map {α β : Type} (f : α → β) (x : PagerAction n α) (p : Pager n) :
    ((f <$> x).run p).state? = (x.run p).state? := by
  show ((x >>= fun a => pure (f a)).run p).state? = _
  rw [run_bind]
  cases x.run p with
  | done a q => rfl
  | failed e q => rfl
  | fatal reason => rfl

theorem state?_fetchUser (id : SpaceId) (address length : Nat) (p : Pager n) :
    ((fetchUser id address length).run p).state? = ((readUser id address length).run p).state? := by
  unfold fetchUser
  rw [run_bind]
  cases (readUser id address length).run p with
  | done copied q =>
    obtain ⟨bytes, result⟩ := copied
    cases result with
    | ok u => rfl
    | error e => rfl
  | failed e q => rfl
  | fatal reason => rfl

/-- A copy out of user memory goes on from where its beginning ended. -/
theorem chain_of_readRest {p t q : Pager n} {id : SpaceId} {address length m : Nat}
    (ht : t.Agrees none) (hrange : IsUserRange address length)
    (h : ((readChunks id ((chunks address length).take m) []).run p).state? = some t)
    (hq : ((readUser id address length).run p).state? = some q) :
    Chain (fun _ => True) t none [] q none := by
  rw [readUser_of_range hrange, ← List.take_append_drop m (chunks address length),
    run_readChunks_append] at hq
  revert h hq
  -- the state is between two pages of the copy or at its end, and either way the rest is a copy
  cases (readChunks id ((chunks address length).take m) []).run p with
  | done copied r =>
    intro h hq
    cases h
    obtain ⟨more, result⟩ := copied
    cases result with
    | ok u =>
      have hrest : ((readChunks id (((chunks address length).drop m).take
          ((chunks address length).drop m).length) more).run t).state? = some q := by
        rw [List.take_length]
        exact hq
      exact (through_of_readChunks ht hrest).chain fun _ _ => trivial
    | error e =>
      cases hq
      exact .refl
  | failed e r =>
    intro h hq
    cases h
    cases hq
    exact .refl
  | fatal reason =>
    intro h
    cases h

/-- From each state that an event passes it leads on to its end, by storing what is left. -/
theorem Event.Passes.rest {p t q : Pager n} {e : Event} (hp : p.Agrees none) (he : e.Permitted p)
    (h : e.Passes p t) (hq : e.apply p = some q) :
    ∃ cs ds, e.Makes p (cs ++ ds) ∧ (∀ c ∈ ds, ∃ o u start part, c = .stored o u start part)
      ∧ Chain (fun _ => True) t none ds q none := by
  have ht := h.agrees hp he
  have hnone : ∀ c ∈ ([] : List Change), ∃ o u start part, c = .stored o u start part :=
    fun _ hc => absurd hc List.not_mem_nil
  have hsame : e.apply p = some t → ∃ cs ds, e.Makes p (cs ++ ds)
      ∧ (∀ c ∈ ds, ∃ o u start part, c = .stored o u start part)
      ∧ Chain (fun _ => True) t none ds q none := by
    intro happly
    cases happly.symm.trans hq
    obtain ⟨cs, hmakes, _⟩ := e.through hp he happly
    exact ⟨cs, [], (List.append_nil cs).symm ▸ hmakes, hnone, .refl⟩
  cases e with
  | rewrite file data medium? => exact hsame (congrArg some h.symm)
  | request op =>
    cases h with
    | ended h => exact hsame h
    | read hrange h =>
      refine ⟨[], [], .nothing trivial, hnone, chain_of_readRest ht hrange h ?_⟩
      rw [← state?_map]
      exact hq
    | fetch hrange h =>
      refine ⟨[], [], .nothing trivial, hnone, chain_of_readRest ht hrange h ?_⟩
      rw [← state?_fetchUser, ← state?_map]
      exact hq
    | @write id address m bytes _ hrange h =>
      have happly := hq
      have hq : ((writeUser id address bytes).run p).state? = some q := by
        rw [← state?_map fun _ => Answer.nothing]
        exact hq
      have hsplit := List.take_append_drop m (chunks address bytes.length)
      rw [writeUser_of_range hrange, ← hsplit, run_writeChunks_append] at hq
      revert h hq
      cases hrun : (writeChunks id ((chunks address bytes.length).take m) bytes).run p with
      | done u r =>
        intro h hq
        cases h
        obtain ⟨front, back, hdrop, hthrough, hcount⟩ := through_of_writeChunks ht hq
        have hchunks : chunks address bytes.length
            = ((chunks address bytes.length).take m ++ front) ++ back := by
          rw [List.append_assoc, ← hdrop, hsplit]
        refine ⟨storesOf id ((chunks address bytes.length).take m) bytes, _, ?_, ?_,
          hthrough.chain fun _ _ => trivial⟩
        · rw [← storesOf_append]
          have hcounted : storedCount id ((chunks address bytes.length).take m
              ++ (chunks address bytes.length).drop m) bytes p = _ := storedCount_append hrun
          rw [hsplit, hcount, ← totalCount_append] at hcounted
          exact .stored hrange hchunks hcounted
        · intro c hc
          obtain ⟨d, _, part, _, hstored⟩ := of_mem_storesOf hc
          exact ⟨_, _, _, part, hstored⟩
      | failed e r =>
        intro h hq
        cases h
        cases hq
        exact hsame happly
      | fatal reason =>
        intro h
        cases h

/-! ## Dirty pages -/

/-- Right after a chunk was stored its page is dirty. -/
theorem dirty_of_writeChunks {p q : Pager n} {id : SpaceId} {front : List Chunk} {c : Chunk}
    {bytes : Bytes} (hp : p.Agrees none)
    (h : (writeChunks id (front ++ [c]) bytes).run p = .done () q) :
    q.has .dirty id c.upage = true := by
  obtain ⟨r, t, hfront, hrun, hrest⟩ := writeChunks_splits h
  cases hrest
  have hspec := writeChunks_spec hp id front bytes
  rw [hfront] at hspec
  -- the last chunk is written from the state the earlier ones end in
  have hlast := writeChunk_spec (hspec.1.agrees hp) id c
    (c.fits_take (bytes.drop (totalCount front)))
  rw [hrun] at hlast
  exact hlast.2.1

/-- The chunks that a copy has stored are those that a copy of them alone stores. -/
theorem done_of_storedCount {p : Pager n} {id : SpaceId} {front rest : List Chunk} {bytes : Bytes}
    (hpos : ∀ c ∈ front, 0 < c.count)
    (h : storedCount id (front ++ rest) bytes p = totalCount front) :
    ∃ q, (writeChunks id front bytes).run p = .done () q := by
  induction front generalizing bytes p with
  | nil => exact ⟨p, rfl⟩
  | cons c front ih =>
    have hc := hpos c (List.mem_cons_self ..)
    have htotal : totalCount (c :: front) = c.count + totalCount front := rfl
    rw [List.cons_append, storedCount_cons] at h
    rw [run_writeChunks_cons]
    cases hrun : (writeChunk id c (bytes.take c.count)).run p with
    | done u q =>
      rw [hrun] at h
      exact ih (fun d hd => hpos d (List.mem_cons_of_mem _ hd)) (Nat.add_left_cancel h)
    | failed e q =>
      -- a chunk that failed adds nothing to the count, and every chunk counts for something
      rw [hrun] at h
      simp only at h
      omega
    | fatal reason =>
      rw [hrun] at h
      simp only at h
      omega

/-- An event that stores bytes in a page passes a state in which the page is dirty. -/
theorem Event.Makes.passes_dirty {p : Pager n} {e : Event} {cs : List Change} (hp : p.Agrees none)
    (h : e.Makes p cs) {o : SpaceId} {u start : Nat} {part : Bytes}
    (hc : .stored o u start part ∈ cs) : ∃ t, e.Passes p t ∧ t.has .dirty o u = true := by
  cases Event.HasMade.causes (Or.inl h) hc with
  | @stored _ address bytes _ _ hrange =>
    cases h with
    | nothing => cases hc
    | @stored _ _ _ front rest _ hchunks hcount =>
      obtain ⟨d, hd, _, _, heq⟩ := of_mem_storesOf hc
      obtain ⟨_, hupage, _, _⟩ := Change.stored.inj heq
      rw [hupage]
      have hpos : ∀ c ∈ front, 0 < c.count := fun c hc =>
        (bounds_of_mem_chunks (hchunks ▸ List.mem_append_left rest hc)).2
      rw [hchunks] at hcount
      obtain ⟨q, hrun⟩ := done_of_storedCount hpos hcount
      -- the copy as far as this chunk is a run of its own, and ends with the page dirty
      obtain ⟨before, after, rfl⟩ := List.append_of_mem hd
      rw [List.append_cons, run_writeChunks_append] at hrun
      cases hstarts : (writeChunks o (before ++ [d]) bytes).run p with
      | done u' t =>
        refine ⟨t, .write (m := (before ++ [d]).length) hrange ?_, ?_⟩
        · have hsplit : chunks address bytes.length = (before ++ [d]) ++ (after ++ rest) := by
            rw [hchunks, List.append_cons before, List.append_assoc]
          rw [hsplit, List.take_left' rfl, hstarts]
          rfl
        · exact dirty_of_writeChunks hp hstarts
      | failed e t =>
        rw [hstarts] at hrun
        cases hrun
      | fatal reason =>
        rw [hstarts] at hrun
        cases hrun

end DemandPaging

import DemandPaging.Proofs.UserReads
/-!
# Writing user memory

A copy to user memory goes page by page. It stores bytes only in pages that there are and that may
be written (`rights_of_writeChunks`), and when it fails it has come to a page that is not there, may
not be written or cannot be loaded (`writeUser_stops`). By then it has stored the bytes that belong
before this page, and no others (`Run.stores_of_write`). What was stored can be read back at once
(`StoresUpTo.reads_back`). `Run.copies_exact` says this together with what is known of copies out of
user memory.
-/

namespace DemandPaging

open Pager PagerAction Outcome

variable {n : Nat}

/-! ## Pages that are written -/

section

variable {S : Array OpenFile → Prop} {p q : Pager n} {f g : Option (Fin n)} {cs : List Change}
  {o : SpaceId} {v : Nat}

/-- Storing bytes does not change who may write to a page. -/
theorem Chain.permitsWrites_eq (h : Chain S p f cs q g) (hp : p.Agrees f) (hv : PageAligned v)
    (hcs : ∀ c ∈ cs, c.IsStore) : q.permitsWrites o v = p.permitsWrites o v := by
  refine permitsWrites_of_origin? ?_
  induction h with
  | refl => rfl
  | quiet h move ih => exact ((move.shift (h.agrees hp)).origin? hv).trans (ih hcs)
  | visible h move ih =>
    obtain ⟨id, u, _, _, rfl⟩ := hcs _ (List.mem_append_right _ (List.mem_singleton_self _))
    refine Eq.trans ?_ (ih fun c hc => hcs c (List.mem_append_left _ hc))
    cases move.alters (h.agrees hp) with
    | stored hothers _ _ _ hafter =>
      by_cases hpage : o = id ∧ v = u
      · obtain ⟨rfl, rfl⟩ := hpage
        unfold Pager.origin?
        rw [hafter]
      · exact (hothers o v hv hpage).origin?

/-- A page that is in a frame, and that the space has had all along, may be written if its flag says
so, and may not if it does not. -/
theorem Chain.rights_of_framed (h : Chain S p none cs q none) (hp : p.Agrees none)
    (hv : PageAligned v) (hcs : ∀ c ∈ cs, c.IsStore) (hwrites : p.WritesAgree o v)
    (hframed : (q.framed? o v).isSome = true) :
    p.Owns o v ∧ p.permitsWrites o v = q.has .writable o v := by
  refine ⟨?_, ?_⟩
  · refine (h.owns_iff hp (fun c hc => (hcs c hc).keepsPages) hv).mp ?_
    rw [(h.agrees hp).frames.owns_iff]
    intro hvacant
    rw [hvacant.2] at hframed
    cases hframed
  · rw [← h.permitsWrites_eq hp hv hcs, (h.writesAgree hp hv hwrites).flagged hframed]

/-- A copy stores bytes only in pages that there are, and that may be written. -/
theorem rights_of_writeChunks (hp : p.Agrees none) {id : SpaceId} {address length : Nat}
    {front rest : List Chunk} {bytes : Bytes} (hchunks : chunks address length = front ++ rest)
    (hwrites : ∀ v, PageAligned v → p.WritesAgree id v)
    (h : (writeChunks id front bytes).run p = .done () q) :
    ∀ c ∈ front, p.Owns id c.upage ∧ p.permitsWrites id c.upage = true := by
  intro c hc
  have haligned := pageAligned_of_chunks hchunks hc
  obtain ⟨t, hstored⟩ := stored_of_writeChunks hp h hc
  obtain ⟨ds, hds, hbefore⟩ := hstored.before
  obtain ⟨page, hframed⟩ := hstored.framed
  obtain ⟨howns, hpermits⟩ := hbefore.rights_of_framed hp haligned hds (hwrites _ haligned)
    (by rw [hframed]; rfl)
  exact ⟨howns, hpermits.trans hstored.writable⟩

end

/-! ## The page at which a copy fails -/

/-- A copy to user memory that fails has stored the bytes up to the page that refuses them. -/
theorem writeUser_stops {p q : Pager n} (hp : p.Agrees none) {id : SpaceId} {address : Nat}
    {bytes : Bytes} (hrange : IsUserRange address bytes.length)
    (hwrites : ∀ v, PageAligned v → p.WritesAgree id v) {e : PagingError}
    (h : (writeUser id address bytes).run p = .failed e q) :
    ∃ front c rest r, chunks address bytes.length = front ++ c :: rest
      ∧ (writeChunks id front bytes).run p = .done () r
      ∧ storedCount id (chunks address bytes.length) bytes p = totalCount front
      ∧ Refuses p q (.write id address bytes) id c.upage e := by
  rw [writeUser_of_range hrange] at h
  obtain ⟨front, c, rest, r, hchunks, hfront, hfails, hcount⟩ := writeChunks_stops h
  refine ⟨front, c, rest, r, hchunks, hfront, hcount, ?_⟩
  have hmem : c ∈ chunks address bytes.length :=
    hchunks ▸ List.mem_append_right front (List.mem_cons_self ..)
  have hc := (bounds_of_mem_chunks hmem).1
  have hbefore := chain_of_writeChunks hp hfront
  have hr := hbefore.agrees hp
  have hstores : ∀ d ∈ storesOf id front bytes, d.IsStore := fun _ => isStore_of_mem_storesOf
  have htake := c.fits_take (bytes.drop (totalCount front))
  have hchunk := (writeChunk_blames hr id c htake).and (writeChunk_spec hr id c htake)
  rw [hfails] at hchunk
  obtain ⟨hblames, hleads, hcopy | ⟨rfl, hframed, hflag⟩⟩ := hchunk
  · exact .of_copyFails hp hbefore hstores hc (.write hchunks hfront) hblames hcopy
  · have hthere := hbefore.trans hleads.chain
    rw [List.append_nil] at hthere
    obtain ⟨howns, hpermits⟩ := hthere.rights_of_framed hp hc hstores (hwrites _ hc) hframed
    exact .readOnly rfl howns (hpermits.trans hflag)

/-! ## What is stored -/

/-- Of all that belongs to no mapping, the bytes up to `stop` were stored from `address` on, and
nothing else is different. -/
def StoresUpTo (K : Nat → Prop) (p : Pager n) (id : SpaceId) (address : Nat) (bytes : Bytes)
    (stop : Nat) (q : Pager n) : Prop :=
  ∀ o a, p.IsPrivate K o (pageBase a) → q.userByte? o a
    = if o = id ∧ address ≤ a ∧ a < stop then bytes[a - address]? else p.userByte? o a

/-- What a copy to user memory stores: the bytes that belong into the chunks before the one at which
it failed, or all of them. -/
theorem Run.stores_of_write {s p q : Pager n} {es : List Event} (hs : s.IsStart)
    (hrun : Run s es p) (hkeeps : ∀ e ∈ es, e.KeepsDirty) {id : SpaceId} (hid : id < p.spaces.size)
    {address : Nat} {bytes : Bytes} (hrange : IsUserRange address bytes.length)
    (hq : ((writeUser id address bytes).run p).state? = some q) {front rest : List Chunk}
    (hchunks : chunks address bytes.length = front ++ rest)
    (hcount : storedCount id (chunks address bytes.length) bytes p = totalCount front)
    (howns : ∀ c ∈ front, p.Owns id c.upage) :
    StoresUpTo (s.Unchanged (es ++ [.request (.write id address bytes)])) p id address bytes
      (address + totalCount front) q := by
  intro o a hprivate
  have hp := hrun.agrees hs.agrees
  have he : (Event.request (.write id address bytes)).Permitted p := ⟨hid, trivial⟩
  have happly : (Event.request (.write id address bytes)).apply p = some q :=
    (state?_map (fun _ => Answer.nothing) _ p).trans hq
  have hv := pageAligned_pageBase a
  cases hpage : p.content? o (pageBase a) with
  | none =>
    have hvacant := hp.content?_eq_none_iff.mp hpage
    have hafter : q.content? o (pageBase a) = none := by
      rcases Event.creates_of_vacant hp he happly hv hvacant with hvacant | hcreates
      · exact (Event.agrees hp he happly).content?_eq_none_iff.mpr hvacant
      · cases hcreates
    -- nothing is stored where there is no page
    rw [if_neg]
    · unfold userByte?
      rw [hpage, hafter]
    · rintro ⟨rfl, hlow, hhigh⟩
      obtain ⟨c, hc, hupage⟩ := mem_of_chunks hchunks hlow hhigh
      exact (hp.frames.owns_iff _ _).mp (hupage ▸ howns c hc) hvacant
  | some page =>
    have hfiles : ∀ t, t = p ∨ (Event.request (.write id address bytes)).Passes p t →
        ∀ k, s.Unchanged (es ++ [.request (.write id address bytes)]) k →
          (t.file k).data = (s.file k).data := fun t ht k hk => hk t (hrun.passed_append he ht)
    have hclean : p.IsClean (s.Unchanged (es ++ [.request (.write id address bytes)]))
        (fun w => w.view (s.file w.source.file)) o (pageBase a) :=
      hrun.passed.isClean hs hkeeps (fun t ht k hk => hk t ht.append_right) hv
    obtain ⟨page', hafter, hbytes⟩ := (Event.content_of_private hp he trivial happly hfiles hv
      hprivate hclean hpage).2 nofun
    rw [userByte?_of_content? hafter, userByte?_of_content? hpage,
      hbytes _ (offsetInPage_lt a), pageBase_add_offsetInPage]
    unfold Event.storedByte?
    simp only
    rw [if_pos hrange, hcount]
    have hall := totalCount_chunks address bytes.length
    rw [hchunks, totalCount_append] at hall
    by_cases hin : o = id ∧ address ≤ a ∧ a < address + totalCount front
    · obtain ⟨rfl, hlow, hhigh⟩ := hin
      rw [if_pos ⟨rfl, hlow, hhigh⟩, if_pos ⟨rfl, hlow, hhigh⟩,
        List.getElem?_eq_getElem (by omega : a - address < bytes.length)]
      rfl
    · rw [if_neg hin, if_neg fun hc => hin ⟨hc.1.symm, hc.2⟩]
      rfl

/-- What was stored in pages of no mapping can be read back at once. -/
theorem StoresUpTo.reads_back {p q : Pager n} {K : Nat → Prop} {id : SpaceId} {address : Nat}
    {bytes : Bytes} (hstored : StoresUpTo K p id address bytes (address + bytes.length) q)
    (hp : p.Agrees none) (hrange : IsUserRange address bytes.length)
    (hprivate : ∀ i, i < bytes.length → p.IsPrivate K id (pageBase (address + i)))
    (h : (writeChunks id (chunks address bytes.length) bytes).run p = .done () q) :
    ((readUser id address bytes.length).run q).Meets (fun copied _ => copied = ⟨bytes, .ok ()⟩)
      (fun _ _ => False) (fun _ => True) := by
  have hall : chunks address bytes.length = chunks address bytes.length ++ [] :=
    (List.append_nil _).symm
  have hpages : ∀ c ∈ chunks address bytes.length, p.IsPrivate K id c.upage := by
    intro c hc
    obtain ⟨i, hi, hupage⟩ := exists_of_mem_chunks hc
    exact hupage ▸ hprivate i hi
  have hq := (chain_of_writeChunks hp h).agrees hp
  refine (readUser_of_keptApart hq hrange (keptApart_of_writeChunks hp hall hpages h)).mono ?_
    (fun _ _ h => h) fun _ h => h
  intro copied r hcopied
  obtain ⟨hok, hlen, hread⟩ := hcopied
  have hbytes : copied.bytes = bytes := by
    refine List.ext_getElem? fun i => ?_
    by_cases hi : i < bytes.length
    · rw [hread i hi, hstored id _ (hprivate i hi), if_pos ⟨rfl, by omega, by omega⟩,
        Nat.add_sub_cancel_left]
    · rw [List.getElem?_eq_none (by omega), List.getElem?_eq_none (by omega)]
  obtain ⟨_, _⟩ := copied
  exact Copied.mk.injEq .. ▸ ⟨hbytes, hok⟩

/-! ## Copies -/

/-- **User copies move exactly the right bytes.** Take any run in which no dirty flag is cleared,
and a range of memory of a process in which no page belongs to a mapping; there may be pages in it
that the process does not have. A range that begins at address 0 or ends above `userTop`, however
long it is, is a bad address and nothing is changed. A copy out of the range brings the
bytes in order, and all of them if it is answered without an error. One that ends with an error has
come to a page that the process does not have or that cannot be loaded, and has brought the bytes
before this page. A copy to the range that is done has stored all its bytes there, and changed no
other byte of a page that is anonymous or belongs to a program, wherever it is, so that a copy out
of the range brings them back. One that failed did so at the first page that the process does not
have, may not write to or that cannot be loaded. It has stored the bytes that belong before this
page, and no others.

A page of a program counts as long as nobody changes its file. -/
theorem Run.copies_exact {s p : Pager n} {es : List Event} (hs : s.IsStart) (hrun : Run s es p)
    (hkeeps : ∀ e ∈ es, e.KeepsDirty) {id : SpaceId} (hid : id < p.spaces.size) (address : Nat) :
    (∀ length, address = 0 ∨ userTop < address + length →
        (readUser id address length).run p = .done ⟨[], .error .badAddress⟩ p)
      ∧ (∀ bytes, address = 0 ∨ userTop < address + bytes.length →
        (writeUser id address bytes).run p = .failed .badAddress p)
      ∧ (∀ length, IsUserRange address length →
        (∀ i, i < length → p.IsPrivate
          (s.Unchanged (es ++ [.request (.read id address length)])) id (pageBase (address + i))) →
        ((readUser id address length).run p).Meets
          (fun copied q =>
            (∀ i, i < copied.bytes.length → copied.bytes[i]? = p.userByte? id (address + i))
            ∧ (copied.result = .ok () → copied.bytes.length = length)
            ∧ ∀ e, copied.result = .error e →
              ∃ u, (∃ i, i < length ∧ pageBase (address + i) = u)
                ∧ copied.bytes.length = u - address
                ∧ (∀ a, address ≤ a → a < u → p.Owns id (pageBase a))
                ∧ Refuses p q (.read id address length) id u e)
          (fun _ _ => False) (fun _ => True))
      ∧ ∀ bytes, IsUserRange address bytes.length →
        (∀ i, i < bytes.length → p.IsPrivate
          (s.Unchanged (es ++ [.request (.write id address bytes)])) id (pageBase (address + i))) →
        ((writeUser id address bytes).run p).Meets
          (fun _ q => StoresUpTo (s.Unchanged (es ++ [.request (.write id address bytes)])) p id
              address bytes (address + bytes.length) q
            ∧ ((readUser id address bytes.length).run q).Meets
              (fun copied _ => copied = ⟨bytes, .ok ()⟩) (fun _ _ => False) (fun _ => True))
          (fun e q => ∃ u, (∃ i, i < bytes.length ∧ pageBase (address + i) = u)
            ∧ (∀ a, address ≤ a → a < u →
              p.Owns id (pageBase a) ∧ p.permitsWrites id (pageBase a) = true)
            ∧ Refuses p q (.write id address bytes) id u e
            ∧ StoresUpTo (s.Unchanged (es ++ [.request (.write id address bytes)])) p id address
              bytes u q)
          (fun _ => True) := by
  have hp := hrun.agrees hs.agrees
  have hwrites : ∀ v, PageAligned v → p.WritesAgree id v := fun v hv =>
    (Reachable.visited ⟨s, es, hs, hrun⟩).writesAgree hv
  have hbad : ∀ length, address = 0 ∨ userTop < address + length →
      ¬ IsUserRange address length := by
    intro length hwrong hrange
    rcases hwrong with hzero | hlong
    · exact hrange.1 hzero
    · exact Nat.not_lt.mpr hrange.2 hlong
  refine ⟨fun length hwrong => ?_, fun bytes hwrong => ?_, fun length hrange hprivate => ?_,
    fun bytes hrange hprivate => ?_⟩
  · unfold readUser
    rw [if_neg (hbad length hwrong)]
    rfl
  · unfold writeUser
    rw [if_neg (hbad bytes.length hwrong)]
    rfl
  · have hbrings := readUser_brings hp hrange fun m t ht i hi =>
      hrun.content?_of_read hs hkeeps hid hrange ht (pageAligned_pageBase _) (hprivate i hi)
    cases hread : (readUser id address length).run p with
    | done copied q =>
      rw [hread] at hbrings
      refine ⟨hbrings.1, hbrings.2, fun e he => ?_⟩
      obtain ⟨bytes, _⟩ := copied
      subst he
      exact readUser_stops hp hrange hread
    | failed e q =>
      rw [hread] at hbrings
      exact hbrings
    | fatal reason => trivial
  · cases hwrite : (writeUser id address bytes).run p with
    | done u q =>
      have hchunks : (writeChunks id (chunks address bytes.length) bytes).run p = .done () q := by
        rwa [writeUser_of_range hrange] at hwrite
      have hall : chunks address bytes.length = chunks address bytes.length ++ [] :=
        (List.append_nil _).symm
      have hrights := rights_of_writeChunks hp hall hwrites hchunks
      have hstored := hrun.stores_of_write hs hkeeps hid hrange (congrArg Outcome.state? hwrite)
        hall (storedCount_of_done hchunks) fun c hc => (hrights c hc).1
      rw [totalCount_chunks] at hstored
      exact ⟨hstored, hstored.reads_back hp hrange hprivate hchunks⟩
    | failed e q =>
      obtain ⟨front, c, rest, r, hchunks, hfront, hcount, hrefuses⟩ :=
        writeUser_stops hp hrange hwrites hwrite
      obtain ⟨hupage, hcounted, hbefore⟩ := upage_of_chunks hchunks
      have hrights := rights_of_writeChunks hp hchunks hwrites hfront
      have hstored := hrun.stores_of_write hs hkeeps hid hrange (congrArg Outcome.state? hwrite)
        hchunks hcount fun d hd => (hrights d hd).1
      refine ⟨c.upage, ⟨_, hcounted, hupage.symm⟩, fun a hlow hhigh => ?_, hrefuses, ?_⟩
      · obtain ⟨d, hd, hpage⟩ := mem_of_chunks hchunks hlow ((hbefore a hlow).mpr hhigh)
        exact hpage ▸ hrights d hd
      -- the bytes before the page are those that the chunks before it have
      · intro o a hprivate
        rw [hstored o a hprivate]
        refine if_congr ?_ rfl rfl
        exact and_congr_right' (and_congr_right (hbefore a))
    | fatal reason => trivial

/-- With one frame, four bytes are copied to where two pages of a stack meet. Each of the pages has
to leave its frame for the other, and all four bytes are read back. -/
theorem Run.copies_exact_oneFrame :
    ∃ q, (writeUser 0 (topPage - 2) [1, 2, 3, 4]).run ((oneFrame #[]).ran twoStackPages)
        = .done () q
      ∧ (∀ i, i < 4 → q.userByte? 0 (topPage - 2 + i) = [1, 2, 3, 4][i]?)
      ∧ q.userByte? 0 (topPage + 2) = ((oneFrame #[]).ran twoStackPages).userByte? 0 (topPage + 2)
      ∧ ((readUser 0 (topPage - 2) 4).run q).Meets
        (fun copied _ => copied = ⟨[1, 2, 3, 4], .ok ()⟩) (fun _ _ => False) (fun _ => True)
      ∧ (writeUser 0 0 [1]).run ((oneFrame #[]).ran twoStackPages)
        = .failed .badAddress ((oneFrame #[]).ran twoStackPages) := by
  have hrun : Run (oneFrame #[]) twoStackPages _ := run_ran (by decide +kernel)
  have hkeeps : ∀ e ∈ twoStackPages, e.KeepsDirty := by
    intro e he
    simp only [twoStackPages, List.mem_cons, List.not_mem_nil, or_false] at he
    rcases he with rfl | rfl <;> trivial
  -- the upper page is in a slot, and the lower one is in the frame and has no descriptor yet
  have hstate : 0 < ((oneFrame #[]).ran twoStackPages).spaces.size
      ∧ (((oneFrame #[]).ran twoStackPages).descriptor? 0 nextPage).isNone = true
      ∧ (((oneFrame #[]).ran twoStackPages).descriptor? 0 topPage).all
        (·.backing = .swapped 0) = true := by decide +kernel
  obtain ⟨hid, hnext, htop⟩ := hstate
  have hprivate : ∀ {K : Nat → Prop} {u : Nat}, u = nextPage ∨ u = topPage →
      ((oneFrame #[]).ran twoStackPages).IsPrivate K 0 u := by
    intro K u hu
    have hswapped : ∀ d, ((oneFrame #[]).ran twoStackPages).descriptor? 0 u = some d →
        d.backing = .swapped 0 := by
      intro d hd
      rcases hu with rfl | rfl
      · rw [hd] at hnext
        cases hnext
      · rw [hd, Option.all_some, decide_eq_true_eq] at htop
        exact htop
    refine ⟨fun d hd => ?_, fun d w hd hw => ?_⟩
    · rw [hswapped d hd]
      rfl
    · rw [hswapped d hd] at hw
      cases hw
  have hpages : ∀ i, i < 4 → pageBase (topPage - 2 + i) = nextPage
      ∨ pageBase (topPage - 2 + i) = topPage := by decide
  obtain ⟨_, _, _, hwrite⟩ :=
    Run.copies_exact (isStart_oneFrame #[]) hrun hkeeps hid (topPage - 2)
  have hdone : ((writeUser 0 (topPage - 2) [1, 2, 3, 4]).run
      ((oneFrame #[]).ran twoStackPages)).isDone = true := by decide +kernel
  obtain ⟨_, q, hq⟩ := eq_done hdone
  have hspec := hwrite [1, 2, 3, 4] (by decide) fun i hi => hprivate (hpages i hi)
  rw [hq] at hspec
  obtain ⟨hstored, hread⟩ := hspec
  refine ⟨q, hq, fun i hi => ?_, ?_, hread, ?_⟩
  · rw [hstored 0 _ (hprivate (hpages i hi)), if_pos ⟨rfl, by omega, Nat.add_lt_add_left hi _⟩,
      Nat.add_sub_cancel_left]
  · rw [hstored 0 _ (hprivate (Or.inr (by decide))), if_neg (by decide)]
  · exact (Run.copies_exact (isStart_oneFrame #[]) hrun hkeeps hid 0).2.1 [1] (Or.inl rfl)

end DemandPaging

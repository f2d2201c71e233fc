import DemandPaging.Proofs.HostedMemory
import DemandPaging.Proofs.Requests
/-!
# Calls on a hosted memory

What a call of a process does to the pager is what it does to the memory that the pager hosts
for the process, answer and errors included (`Outcome.Matches`). How often the process is made
to wait for a frame, and where its pages are taken from, is not in the answer.
-/

namespace DemandPaging

open Pager PagerAction Outcome

variable {n : Nat}

/-- An action on the pager ended as a computation on a memory did, and leaves the memory
hosted. -/
def Outcome.Matches {α : Type} (o : Outcome n α) (U : FileUse) (b : SpaceId)
    (result : Except PagingError α × Memory) : Prop :=
  o.Meets (fun a q => result.1 = .ok a ∧ q.Hosts U b result.2)
    (fun e q => result.1 = .error e ∧ q.Hosts U b result.2) (fun _ => True)

namespace Pager.Hosts

variable {p q : Pager n} {U : FileUse} {b : SpaceId} {M : Memory} {v : Nat} {d : Descriptor}
  {page : Page}

theorem leads {o : SpaceId} {u : Nat} (hp : p.Hosts U b M) (h : Leads o u p [] q) :
    q.Hosts U b M :=
  hp.chain h.chain fun _ hc => absurd hc List.not_mem_nil

/-! ## Looking at pages -/

theorem look_framed (hp : p.Hosts U b M) (hv : PageAligned v) (hpage : p.framed? b v = some page) :
    M.look v = some (.ok page, p.has .writable b v) := by
  rw [← (hp.presents.page v hv).seen, seen?_of_framed? hpage]

theorem look_mapped (hp : p.Hosts U b M) (hv : PageAligned v)
    (hmapped : (p.address? b v).isSome = true) :
    ∃ page, M.look v = some (.ok page, p.has .writable b v) := by
  rw [← hp.agrees.frames.isSome_framed?] at hmapped
  obtain ⟨page, hpage⟩ := Option.isSome_iff_exists.mp hmapped
  exact ⟨page, hp.look_framed hv hpage⟩

theorem look_vacant (hp : p.Hosts U b M) (hv : PageAligned v) (hd : p.descriptor? b v = none)
    (hnone : p.address? b v = none) : M.look v = none := by
  rw [← (hp.presents.page v hv).seen, seen?_eq_none_iff]
  exact ⟨framed?_of_unmapped hnone, hd⟩

/-- Where there is no descriptor and no mapping there is no page, and only there. -/
theorem pages_eq_none_iff (hp : p.Hosts U b M) (hv : PageAligned v) :
    M.pages v = none ↔ p.descriptor? b v = none ∧ p.address? b v = none := by
  rw [← Memory.look_eq_none_iff, ← (hp.presents.page v hv).seen, seen?_eq_none_iff]
  refine ⟨fun h => ⟨h.2, hp.agrees.frames.address?_of_not_framed? h.1⟩,
    fun h => ⟨framed?_of_unmapped h.2, h.1⟩⟩

/-- A page that cannot be loaded brings the same error in the memory. That depends on the length
of its file, which is the same before and after, and not on where the process was when the file
was read. -/
theorem look_unread (hp : p.Hosts U b M) (hq : q.Hosts U b M) (hv : PageAligned v)
    (hd : p.descriptor? b v = some d) (hnone : p.address? b v = none) {e : PagingError}
    (h : LoadFails q.files q.swap d.backing e) :
    ∃ writable, M.look v = some (.error e, writable) := by
  refine ⟨d.writable || d.backing.isMapped, ?_⟩
  rw [← (hp.presents.page v hv).seen, seen?_of_not_framed? (framed?_of_unmapped hnone), hd,
    Option.map_some]
  refine congrArg some (Prod.ext ?_ rfl)
  show d.backing.loads p.files p.swap = .error e
  cases h with
  | @short w actual hb hactual hne =>
    have hw : d.backing.window? = some w := by
      rcases d.backing.loadSource_eq with hc | ⟨w', hsource, _, hw⟩ | ⟨slot, hsource, _⟩
      · rw [hc] at hb
        cases hb
      · cases hsource.symm.trans hb
        exact hw
      · rw [hsource] at hb
        cases hb
    have hown := hp.presents.own hv hd hw
    have hlength : (q.file w.source.file).data.length = (p.file w.source.file).data.length :=
      (hq.presents.file _ hown).length.trans (hp.presents.file _ hown).length.symm
    have hactual : actual = ((q.file w.source.file).read w.offset w.readBytes).length := hactual
    rw [(hq.presents.file _ hown).isPlain.read, Bytes.length_slice, hlength] at hactual
    subst hactual
    simp only [Backing.loads, hb]
    exact FileWindow.contents_of_short hne
  | refused _ _ hswap => exact absurd hq.backed hswap

/-! ## Faults -/

theorem handleFault (hp : p.Hosts U b M) (hb : b < p.spaces.size) (address stackPointer : Nat) :
    ((handleFault b address stackPointer).run p).Matches U b
      (M.fault p.config.isNearStack address stackPointer) := by
  have hv := pageAligned_pageBase address
  unfold Memory.fault
  refine (handleFault_spec hp.agrees hb address stackPointer).mono ?_ ?_ fun _ _ => trivial
  · intro _ q h
    obtain ⟨hgood, h⟩ := h
    have hrange : ¬(address = 0 ∨ ¬ IsUserAddress address) := fun hc =>
      hgood (hc.elim Or.inl fun hc => Or.inr (Or.inl hc))
    rw [if_neg hrange]
    rcases h with ⟨hleads, hmapped⟩ | ⟨hd, hnone, hleads⟩
    · have hq := hp.leads hleads
      obtain ⟨page, hlook⟩ := hq.look_mapped hv hmapped
      rw [hlook]
      exact ⟨rfl, hq⟩
    · have hnear : p.config.isNearStack address stackPointer = true := by
        cases hnear : p.config.isNearStack address stackPointer with
        | true => rfl
        | false => exact absurd (Or.inr (Or.inr ⟨hd, hnone, hnear⟩)) hgood
      rw [hp.look_vacant hv hd hnone]
      simp only [hnear, if_true]
      have hq := hp.change hleads.chain trivial
      rw [Change.onMemory_grown] at hq
      exact ⟨trivial, hq⟩
  · intro e q h
    obtain ⟨hleads, ⟨rfl, hbad⟩ | ⟨hd, hzero, huser, hfails⟩⟩ := h
    · have hq := hp.leads hleads
      by_cases hrange : address = 0 ∨ ¬ IsUserAddress address
      · rw [if_pos hrange]
        exact ⟨rfl, hq⟩
      · rw [if_neg hrange]
        rcases hbad with hc | hc | ⟨hd, hnone, hnear⟩
        · exact absurd (Or.inl hc) hrange
        · exact absurd (Or.inr hc) hrange
        · rw [hp.look_vacant hv hd hnone]
          simp only [hnear, Bool.false_eq_true, if_false]
          exact ⟨trivial, hq⟩
    · have hq := hp.leads hleads
      rw [if_neg fun hc => hc.elim hzero fun hc => hc huser]
      cases hfails with
      | notFound hnone =>
        rw [hnone] at hd
        cases hd
      | unread hd hnone hload =>
        obtain ⟨writable, hlook⟩ := hp.look_unread hq hv hd hnone hload
        rw [hlook]
        exact ⟨rfl, hq⟩

/-! ## Copies -/

/-- Why a copy of a page failed is why the page cannot be accessed. -/
theorem access_of_fails (hp : p.Hosts U b M) (hq : q.Hosts U b M) (hv : PageAligned v)
    {e : PagingError} (h : CopyFails p q b v e) : M.access v = .error e := by
  unfold Memory.access
  cases h with
  | absent hd hresident =>
    rw [hp.look_vacant hv hd (address?_of_not_resident hp.agrees.frames hv hresident)]
  | unread hd hnone hload =>
    obtain ⟨writable, hlook⟩ := hp.look_unread hq hv hd hnone hload
    rw [hlook]

theorem access_framed (hp : p.Hosts U b M) (hv : PageAligned v)
    (hpage : p.framed? b v = some page) : M.access v = .ok (page, p.has .writable b v) := by
  unfold Memory.access
  rw [hp.look_framed hv hpage]

theorem readChunks (hp : p.Hosts U b M) (cs : List Chunk) (hcs : ∀ c ∈ cs, PageAligned c.upage)
    (bytes : Bytes) :
    ((readChunks b cs bytes).run p).Matches U b (.ok (M.readChunks cs bytes), M) := by
  induction cs generalizing p bytes with
  | nil => exact ⟨rfl, hp⟩
  | cons c rest ih =>
    have hv := hcs c (List.mem_cons_self ..)
    have hchunk := readChunk_spec hp.agrees b c
    rw [run_readChunks_cons, Memory.readChunks]
    cases hrun : (readChunk b c).run p with
    | done more q =>
      rw [hrun] at hchunk
      obtain ⟨hleads, page, hpage, rfl⟩ := hchunk
      have hq := hp.leads hleads
      rw [hq.access_framed hv hpage]
      exact ih hq (fun c hc => hcs c (List.mem_cons_of_mem _ hc)) _
    | failed e q =>
      rw [hrun] at hchunk
      have hq := hp.leads hchunk.1
      rw [hp.access_of_fails hq hv hchunk.2]
      exact ⟨rfl, hq⟩
    | fatal reason => trivial

theorem readUser (hp : p.Hosts U b M) (address length : Nat) :
    ((readUser b address length).run p).Matches U b (.ok (M.readUser address length), M) := by
  unfold DemandPaging.readUser Memory.readUser
  split
  next => exact hp.readChunks _ (fun c hc => (bounds_of_mem_chunks hc).1) []
  next => exact ⟨rfl, hp⟩

theorem fetchUser (hp : p.Hosts U b M) (address length : Nat) :
    ((fetchUser b address length).run p).Matches U b
      (M.fetchUser address length, M) := by
  unfold DemandPaging.fetchUser Memory.fetchUser
  refine (hp.readUser address length).bind ?_ ?_ fun _ _ => trivial
  · intro copied q h
    obtain ⟨hcopied, hq⟩ := h
    cases hcopied
    cases (M.readUser address length).result with
    | ok u => exact ⟨rfl, hq⟩
    | error e => exact ⟨rfl, hq⟩
  · intro e q h
    cases h.1

theorem writeChunks (hp : p.Hosts U b M) (cs : List Chunk)
    (hcs : ∀ c ∈ cs, PageAligned c.upage) (bytes : Bytes) :
    ((writeChunks b cs bytes).run p).Matches U b (M.writeChunks cs bytes) := by
  induction cs generalizing p M bytes with
  | nil => exact ⟨rfl, hp⟩
  | cons c rest ih =>
    have hv := hcs c (List.mem_cons_self ..)
    have htake := c.fits_take bytes
    have hchunk := writeChunk_spec hp.agrees b c htake
    rw [run_writeChunks_cons, Memory.writeChunks]
    cases hrun : (writeChunk b c (bytes.take c.count)).run p with
    | done u q =>
      rw [hrun] at hchunk
      obtain ⟨hleads, _, hwritable, page, hpage⟩ := hchunk
      have hq := hp.change hleads.chain trivial
      rw [Change.onMemory_stored] at hq
      -- bytes are stored only in a page that there is and that may be written
      have hlook := hq.look_framed hv hpage
      rw [hwritable] at hlook
      have haccess : ∃ old, M.access c.upage = .ok (old, true) := by
        by_cases hthere : ∃ old writable, M.look c.upage = some (.ok old, writable)
        · obtain ⟨old, writable, hold⟩ := hthere
          rw [hp.presents.sound.look_store_self htake hold] at hlook
          have hwritable : writable = true := congrArg Prod.snd (Option.some.inj hlook)
          subst hwritable
          unfold Memory.access
          rw [hold]
          exact ⟨old, rfl⟩
        · have hnot : ∀ old writable, M.look c.upage ≠ some (.ok old, writable) :=
            fun old writable h => hthere ⟨old, writable, h⟩
          rw [Memory.store_eq_self hnot] at hlook
          exact absurd hlook (hnot _ _)
      obtain ⟨old, haccess⟩ := haccess
      rw [haccess]
      exact ih hq (fun c hc => hcs c (List.mem_cons_of_mem _ hc)) _
    | failed e q =>
      rw [hrun] at hchunk
      have hq := hp.leads hchunk.1
      rcases hchunk.2 with hfails | ⟨rfl, hframed, hwritable⟩
      · rw [hp.access_of_fails hq hv hfails]
        exact ⟨rfl, hq⟩
      · obtain ⟨page, hpage⟩ := Option.isSome_iff_exists.mp hframed
        rw [hq.access_framed hv hpage, hwritable]
        exact ⟨rfl, hq⟩
    | fatal reason => trivial

theorem writeUser (hp : p.Hosts U b M) (address : Nat) (bytes : Bytes) :
    ((writeUser b address bytes).run p).Matches U b (M.writeUser address bytes) := by
  unfold DemandPaging.writeUser Memory.writeUser
  split
  next => exact hp.writeChunks _ (fun c hc => (bounds_of_mem_chunks hc).1) bytes
  next => exact ⟨rfl, hp⟩

end Pager.Hosts

end DemandPaging

import DemandPaging.Proofs.HostedCalls
/-!
# Mappings and segments of a hosted memory

Mapping a file, taking a mapping down and describing a segment do to the memory that the pager
hosts what their calls say (`Hosts.mapFile`, `Hosts.unmapFile`, `Hosts.addSegment`). Whether a
range can be mapped or described is told by the pages of the memory, and a file that the process
uses can always be opened once more and written back.
-/

namespace DemandPaging

open Pager PagerAction Outcome

variable {n : Nat}

/-- The live mappings of a space are of files that its process uses so, each of another file. -/
structure Pager.MapsApart (p : Pager n) (U : FileUse) (b : SpaceId) : Prop where
  mapped : ∀ m fm, p.mapping? b m = some fm → U.mapped fm.source.file
  once : ∀ m m' fm fm', p.mapping? b m = some fm → p.mapping? b m' = some fm' →
    fm.source.file = fm'.source.file → m = m'

/-- Whether a file can be mapped depends on its length, and on whether it is a console. -/
theorem mappingFault?_congr {file file' : OpenFile} (hconsole : file.isConsole = file'.isConsole)
    (hlength : file.length = file'.length) (base : Nat) :
    mappingFault? file base = mappingFault? file' base := by
  unfold mappingFault?
  rw [hconsole, hlength]

theorem Visible.mappingFault?_eq_none {p q : Pager n} {f g : Option (Fin n)} {id : SpaceId}
    {fm : FileMapping} (move : Visible p f (.mapped id fm) q g) :
    mappingFault? (p.file fm.source.file) fm.base = none := by
  cases move with
  | mapped _ hfault => exact hfault

namespace Pager.Hosts

variable {p q : Pager n} {U : FileUse} {b : SpaceId} {M : Memory}

theorem mappingFault?_eq (hp : p.Hosts U b M) {k : Nat} (hk : U.own k) (base : Nat) :
    mappingFault? (p.file k) base = mappingFault? (OpenFile.ofBytes (M.files k)) base :=
  mappingFault?_congr (hp.presents.file k hk).isPlain.isConsole
    (hp.presents.file k hk).length_file base

/-- A range is vacant if it has no page of the memory. -/
theorem isVacantRange_eq (hp : p.Hosts U b M) {base : Nat} (hbase : PageAligned base)
    (count : Nat) :
    (p.space b).isVacantRange count base
      = (pageRange base count).all fun u => (M.pages u).isNone := by
  rw [Bool.eq_iff_iff, isVacantRange_iff, List.all_eq_true]
  have hpage : ∀ i, (p.space b).isVacant (base + i * pageSize) = true
      ↔ (M.pages (base + i * pageSize)).isNone = true := fun i => by
    rw [Option.isNone_iff_eq_none, hp.pages_eq_none_iff (hbase.add_mul i)]
    exact isVacant_iff
  constructor
  · intro h u hu
    obtain ⟨i, hi, rfl⟩ := mem_pageRange.mp hu
    exact (hpage i).mp (h i hi)
  · intro h i hi
    exact (hpage i).mpr (h _ (mem_pageRange.mpr ⟨i, hi, rfl⟩))

/-! ## Mapping -/

/-- What a file that was mapped adds to the memory. No page showed it before, if no two mappings
are of one file. -/
theorem of_mapped (hp : p.Hosts U b M) (hlisted : M.Listed) {fm : FileMapping}
    (hmove : Visible p none (.mapped b fm) q none) (hq : q.MapsApart U b) :
    q.Hosts U b (M.addRegion fm.region) := by
  have halters := hmove.alters hp.agrees
  have hothers : q.OthersApart U b := halters.others hp.presents fun _ _ hc => by
    cases hc
    exact Or.inl rfl
  refine ⟨hmove.agrees hp.agrees, ?_, ?_, ?_⟩
  · cases halters with
    | mapped hsame hfault hvacant hafter hmapping hcontents =>
      have hnew := (hmapping b _).trans (if_pos ⟨rfl, rfl⟩)
      refine hp.presents.mapped (hq.mapped _ _ hnew) ?_ hfault hvacant
        (fun u hu hout => hsame b u hu fun hc => hout hc.2) hafter hcontents hothers
      intro v offset hv
      obtain ⟨m, r, hm, hfile, _⟩ := hlisted v _ offset hv
      rw [hp.lists.regions, Option.map_eq_some_iff] at hm
      obtain ⟨old, hold, rfl⟩ := hm
      -- the old mapping and the new one are both live now, under numbers that differ
      have hlt := hp.agrees.mappings.numbered b m old hold
      refine Nat.ne_of_lt hlt (hq.once _ _ _ _ ?_ hnew hfile)
      exact (hmapping b m).trans ((if_neg fun hc => Nat.ne_of_lt hlt hc.2).trans hold)
  · rw [← Change.onMemory_mapped]
    exact hmove.lists hp.lists
  · exact hmove.backed hp.agrees hp.backed

theorem mapFile (hp : p.Hosts U b M) (hb : b < p.spaces.size) (hlisted : M.Listed) {index : Nat}
    (hindex : U.own index) (base : Nat)
    (hafter : ∀ m q, (mapFile b index base).run p = .done m q → q.MapsApart U b) :
    ((mapFile b index base).run p).Matches U b (M.mapFile index base) := by
  have hfault := hp.mappingFault?_eq hindex base
  have hlength := (hp.presents.file index hindex).length_file
  have hspec := mapFile_spec hb index base
  unfold Memory.mapFile
  rw [← hfault, ← hlength]
  cases hrun : (DemandPaging.mapFile b index base).run p with
  | done m q =>
    rw [hrun] at hspec
    obtain ⟨handle, hmove, rfl, hvacant⟩ := hspec
    have hq := hp.of_mapped hlisted hmove (hafter _ q hrun)
    have hclear := hmove.mappingFault?_eq_none
    rw [hp.isVacantRange_eq (of_mappingFault?_eq_none hclear).1] at hvacant
    rw [hclear]
    simp only [hvacant, if_true]
    exact ⟨congrArg Except.ok hp.lists.next, hq⟩
  | failed e q =>
    rw [hrun] at hspec
    obtain ⟨rfl, hfails⟩ := hspec
    cases hfails with
    | fault h =>
      rw [h]
      exact ⟨rfl, hp⟩
    | taken h htaken =>
      rw [h]
      rw [hp.isVacantRange_eq (of_mappingFault?_eq_none h).1] at htaken
      simp only [htaken]
      exact ⟨rfl, hp⟩
    | closed h => exact absurd (hp.presents.file index hindex).isPlain h
  | fatal reason => trivial

/-! ## Taking a mapping down -/

/-- What taking a mapping down changes in the memory. -/
theorem foldl_unmapChanges (hp : p.Hosts U b M) (m : Nat) :
    (unmapChanges p b m).foldl (Change.onMemory b) M = M.unmapFile m := by
  unfold unmapChanges Memory.unmapFile
  rw [hp.lists.regions]
  cases p.mapping? b m with
  | none => rfl
  | some fm =>
    have hdropped : ∀ (us : List Nat) (M : Memory),
        (us.map (.dropped b)).foldl (Change.onMemory b) M = us.foldl (·.setPage · none) M := by
      intro us M
      rw [List.foldl_map]
      simp only [Change.onMemory_dropped]
    rw [List.foldl_append]
    show (fm.pages.map _).foldl (Change.onMemory b) ((Change.unlisted b m).onMemory b M) = _
    rw [Change.onMemory_unlisted, hdropped]
    rfl

theorem unmapFile (hp : p.Hosts U b M) (hb : b < p.spaces.size) (m : Nat) :
    ((unmapFile b m).run p).Matches U b (.ok (), M.unmapFile m) := by
  have hchain : ∀ {q}, p.Unmapped b m q → q.Hosts U b (M.unmapFile m) := fun h => by
    rw [← hp.foldl_unmapChanges m]
    refine hp.chain (h.chain fun _ => True) ?_
    intro c hc
    unfold unmapChanges at hc
    split at hc
    next => cases hc
    next =>
      simp only [List.mem_append, List.mem_cons, List.mem_map, List.not_mem_nil, or_false] at hc
      rcases hc with (rfl | ⟨u, _, rfl⟩) | rfl
      · trivial
      · trivial
      · trivial
  refine (unmapFile_spec hp.agrees hb m).mono (fun _ q h => ⟨rfl, hchain h⟩) ?_ fun _ _ => trivial
  intro e q h
  -- pages of the process can be written back
  obtain ⟨_, fm, hm, hlimited⟩ := h
  have hregion : M.regions m = some fm.region := by
    rw [hp.lists.regions, hm, Option.map_some]
  have hown := U.own_of_mapped (hp.presents.sound.regions hregion)
  exact absurd (hp.presents.file _ hown).isPlain hlimited

/-! ## Segments -/

/-- Of a page that can be described there is a descriptor if there is such a page. -/
theorem contains_eq (hp : p.Hosts U b M) {d : Descriptor} (hd : p.CanDescribe b d) :
    (p.space b).descriptors.contains d.upage = (M.pages d.upage).isSome := by
  have hpage : (p.descriptor? b d.upage).isNone = (M.pages d.upage).isNone := by
    rw [Bool.eq_iff_iff, Option.isNone_iff_eq_none, Option.isNone_iff_eq_none,
      hp.pages_eq_none_iff hd.aligned]
    exact (and_iff_left hd.unmapped).symm
  rw [← Option.not_isNone, ← hpage, Option.not_isNone]
  rfl

theorem addPages (page : Nat → Descriptor) (count i : Nat) (hp : p.Hosts U b M)
    (hb : b < p.spaces.size)
    (hpage : ∀ j, i ≤ j → j < i + count → p.CanDescribe b (page j))
    (huse : ∀ j w, (page j).backing.window? = some w → U.segment w.source.file) :
    (DescriptorTable.addPages page count i (p.space b).descriptors).1
        = (Memory.addPages page count i M).1
      ∧ (p.putSpace b { p.space b with
          descriptors :=
            (DescriptorTable.addPages page count i (p.space b).descriptors).2 }).Hosts U b
        (Memory.addPages page count i M).2 := by
  induction count generalizing p M i with
  | zero =>
    unfold DescriptorTable.addPages Memory.addPages
    rw [putDescriptors_self]
    exact ⟨rfl, hp⟩
  | succ count ih =>
    have hfirst := hpage i (Nat.le_refl _) (by omega)
    unfold Memory.addPages DescriptorTable.addPages DescriptorTable.add
    rw [hp.contains_eq hfirst]
    by_cases hthere : (M.pages (page i).upage).isSome = true
    · rw [if_pos hthere, if_pos hthere, putDescriptors_self]
      exact ⟨rfl, hp⟩
    · rw [if_neg hthere, if_neg hthere]
      have hd : p.descriptor? b (page i).upage = none := by
        rw [← hp.contains_eq hfirst] at hthere
        simpa [KeyedTable.contains, descriptor?] using hthere
      obtain ⟨q, hq⟩ : ∃ q, q = p.putSpace b { p.space b with
        descriptors := (p.space b).descriptors.insert (page i).upage (page i) } := ⟨_, rfl⟩
      have hmove : Visible p none (.described b (page i)) q none := hq ▸ hfirst.visible hb hd
      have hspace : q.space b = { p.space b with
          descriptors := (p.space b).descriptors.insert (page i).upage (page i) } := by
        rw [hq, space_putSpace hb]
      have hqb : b < q.spaces.size := by
        rw [hq]
        show b < (p.spaces.put b _).size
        rwa [Spaces.size_put]
      have hhosts := hp.change (.of_visible (S := fun _ => True) hmove) fun _ => huse i
      rw [Change.onMemory_described] at hhosts
      have hrest := ih (i + 1) hhosts hqb fun j hj hj' =>
        hq ▸ (hpage j (by omega) (by omega)).putSpace hb _
      rw [hspace] at hrest
      rwa [hq, putSpace_putSpace] at hrest

theorem addSegment (hp : p.Hosts U b M) {source : FileRef}
    {offset upage readBytes zeroBytes : Nat} {writable : Bool}
    (hop : (Operation.addSegment b source offset upage readBytes zeroBytes writable).Permitted p)
    (hsource : U.segment source.file) :
    ((addSegment b source offset upage readBytes zeroBytes writable).run p).Matches U b
      (M.addSegment source.file offset upage readBytes zeroBytes writable) := by
  obtain ⟨hb, htop, hunmapped⟩ := hop
  rcases run_addSegment_cases b source offset upage readBytes zeroBytes writable p
    with ⟨result, t, hadd, hrun⟩ | ⟨hrun, _⟩
  case inr =>
    rw [hrun]
    trivial
  rw [hrun]
  unfold DescriptorTable.addSegment at hadd
  unfold Memory.addSegment
  split at hadd
  next hmisaligned =>
    cases hadd
    rw [putDescriptors_self, if_pos hmisaligned]
    exact ⟨rfl, hp⟩
  next haligned =>
    have hupage : PageAligned upage := Decidable.not_not.mp fun h => haligned (Or.inl h)
    obtain ⟨hresult, hhosts⟩ := hp.addPages
      (DescriptorTable.segmentPage source offset upage readBytes writable)
      ((readBytes + zeroBytes) / pageSize) 0 hb (fun j _ hj =>
        canDescribe_segmentPage hupage htop hunmapped (by omega))
      fun j w hw => by
        cases hw
        exact hsource
    -- which handle of the file the segment holds makes no difference to its pages
    have hhandle : Memory.addPages
        (DescriptorTable.segmentPage ⟨source.file, 0⟩ offset upage readBytes writable)
        ((readBytes + zeroBytes) / pageSize) 0 M = Memory.addPages
          (DescriptorTable.segmentPage source offset upage readBytes writable)
          ((readBytes + zeroBytes) / pageSize) 0 M :=
      Memory.addPages_congr (fun _ => rfl) fun _ _ => rfl
    rw [hadd] at hresult hhosts
    rw [if_neg haligned, hhandle]
    cases result with
    | ok u => exact ⟨hresult.symm, hhosts⟩
    | error e => exact ⟨hresult.symm, hhosts⟩

end Pager.Hosts

end DemandPaging

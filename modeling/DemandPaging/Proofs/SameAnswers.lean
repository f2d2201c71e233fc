import DemandPaging.Proofs.CopyProgress
import DemandPaging.Proofs.HostedRuns
/-!
# Neither the frames nor other processes are observed

A pager hosts the empty memory for every process at the start, and from then on the memory that
comes of the calls of the process. In this memory there is nothing of the pager, so a process
that makes the same calls in two runs gets the same answers in both, however many frames and
slots there are and whatever other processes do, and it leaves the same bytes in its files
(`same_answers`).
-/

namespace DemandPaging

open Pager PagerAction Outcome

variable {n : Nat} {U : FileUse} {b : SpaceId}

/-! ## Which mappings are live -/

theorem Pager.MapsApart.of_le {p q : Pager n} (h : p.MapsApart U b)
    (hle : ∀ m fm, q.mapping? b m = some fm → p.mapping? b m = some fm) : q.MapsApart U b where
  mapped m fm hm := h.mapped m fm (hle m fm hm)
  once m m' fm fm' hm hm' := h.once m m' fm fm' (hle m fm hm) (hle m' fm' hm')

/-- Mapping a file of which no mapping is live leaves each mapping with a file of its own. -/
theorem Pager.MapsApart.of_mapped {p q : Pager n} {f g : Option (Fin n)} {fm : FileMapping}
    (h : p.MapsApart U b) (hp : p.Agrees f) (hmove : Visible p f (.mapped b fm) q g)
    (hk : U.mapped fm.source.file)
    (hother : ∀ m old, p.mapping? b m = some old → old.source.file ≠ fm.source.file) :
    q.MapsApart U b ∧ ∀ m new, q.mapping? b m = some new →
      p.mapping? b m = some new ∨ new.source.file = fm.source.file := by
  -- a live mapping is the new one or one of another file
  have hcases : ∀ m new, q.mapping? b m = some new →
      (m = (p.space b).mappings.nextId ∧ new.source.file = fm.source.file)
        ∨ (p.mapping? b m = some new ∧ new.source.file ≠ fm.source.file) := by
    intro m new hm
    cases hmove.alters hp with
    | mapped _ _ _ _ hmapping =>
      rw [hmapping] at hm
      split at hm
      next hself =>
        cases hm
        exact Or.inl ⟨hself.2, rfl⟩
      next => exact Or.inr ⟨hm, hother m new hm⟩
  refine ⟨⟨fun m new hm => ?_, fun m m' new new' hm hm' hsame => ?_⟩, fun m new hm => ?_⟩
  · rcases hcases m new hm with ⟨_, hfile⟩ | ⟨hm, _⟩
    · exact hfile ▸ hk
    · exact h.mapped m new hm
  · rcases hcases m new hm with ⟨hself, hfile⟩ | ⟨hm, hfile⟩
    · rcases hcases m' new' hm' with ⟨hself', _⟩ | ⟨_, hfile'⟩
      · rw [hself, hself']
      · exact absurd (hsame.symm.trans hfile) hfile'
    · rcases hcases m' new' hm' with ⟨_, hfile'⟩ | ⟨hm', _⟩
      · exact absurd (hsame.trans hfile') hfile
      · exact h.once m m' new new' hm hm' hsame
  · exact (hcases m new hm).symm.imp And.left And.right

/-- The file that an event maps into the space `b`, if it does not fail. -/
def Event.mapsFile? (b : SpaceId) : Event → Option Nat
  | .request (.mapFile id file _) => if id = b then some file else none
  | _ => none

/-- A mapping that is live after an event was live before, or the event maps its file. -/
theorem Event.Passes.mapsApart {p r : Pager n} {e : Event} (h : e.Passes p r) (hp : p.Agrees none)
    (he : e.Permitted p) (hapart : p.MapsApart U b)
    (hnew : ∀ k, e.mapsFile? b = some k →
      U.mapped k ∧ ∀ m fm, p.mapping? b m = some fm → fm.source.file ≠ k) :
    r.MapsApart U b ∧ ∀ m fm, r.mapping? b m = some fm →
      p.mapping? b m = some fm ∨ e.mapsFile? b = some fm.source.file := by
  by_cases hmaps : ∃ k base, e = .request (.mapFile b k base)
  · obtain ⟨k, base, rfl⟩ := hmaps
    obtain ⟨hk, hother⟩ := hnew k (if_pos rfl)
    have hb : b < p.spaces.size := he.1
    cases h with
    | ended h =>
      have h : ((mapFile b k base).run p).state? = some r := (state?_map ..).symm.trans h
      refine Outcome.Meets.of_state? (P := fun r => r.MapsApart U b ∧ ∀ m fm,
        r.mapping? b m = some fm → p.mapping? b m = some fm
          ∨ Event.mapsFile? b (.request (.mapFile b k base)) = some fm.source.file)
        ((mapFile_spec hb k base).mono ?_ ?_ fun _ h => h) h
      · rintro m q ⟨handle, hmove, _⟩
        obtain ⟨hr, hlive⟩ := hapart.of_mapped hp hmove hk hother
        refine ⟨hr, fun m fm hm => (hlive m fm hm).imp_right ?_⟩
        intro hfile
        rw [hfile]
        exact if_pos rfl
      · rintro _ q ⟨rfl, _⟩
        exact ⟨hapart, fun m fm hm => Or.inl hm⟩
  · obtain ⟨cs, hmade, hchain⟩ := h.chain (S := fun _ => True) hp he fun _ _ => trivial
    have hold : ∀ m fm, r.mapping? b m = some fm → p.mapping? b m = some fm := by
      intro m fm hm
      rcases hchain.mapping?_before hm with hm | hmem
      · exact hm
      · cases hmade.causes hmem with
        | mapped => exact absurd ⟨_, _, rfl⟩ hmaps
    exact ⟨hapart.of_le hold, fun m fm hm => Or.inl (hold m fm hm)⟩

/-- If a process calls only once for each file to be mapped, no two of its mappings are ever of
one file. -/
theorem Passed.mapsApart {p t : Pager n} {es : List Event} (h : Passed p es t) (hp : p.Agrees none)
    (hapart : p.MapsApart U b) (hnodup : (es.filterMap (Event.mapsFile? b)).Nodup)
    (hes : ∀ k ∈ es.filterMap (Event.mapsFile? b), U.mapped k)
    (hnew : ∀ m fm, p.mapping? b m = some fm →
      fm.source.file ∉ es.filterMap (Event.mapsFile? b)) : t.MapsApart U b := by
  have hfirst : ∀ {e : Event} {es : List Event} {k}, e.mapsFile? b = some k →
      k ∈ (e :: es).filterMap (Event.mapsFile? b) := fun h =>
    List.mem_filterMap.mpr ⟨_, List.mem_cons_self .., h⟩
  induction h with
  | start => exact hapart
  | within he hpasses =>
    refine (hpasses.mapsApart hp he hapart fun k hk => ⟨hes k (hfirst hk), ?_⟩).1
    exact fun m fm hm heq => hnew m fm hm (heq ▸ hfirst hk)
  | @later p q r e es he happly _ ih =>
    obtain ⟨hq, hold⟩ := (Event.passes_of_apply happly).mapsApart hp he hapart fun k hk =>
      ⟨hes k (hfirst hk), fun m fm hm heq => hnew m fm hm (heq ▸ hfirst hk)⟩
    have hrest : ∀ {k}, k ∈ es.filterMap (Event.mapsFile? b) →
        k ∈ (e :: es).filterMap (Event.mapsFile? b) := fun hk => by
      obtain ⟨e', hmem, hk⟩ := List.mem_filterMap.mp hk
      exact List.mem_filterMap.mpr ⟨e', List.mem_cons_of_mem _ hmem, hk⟩
    refine ih (Event.agrees hp he happly) hq ?_ (fun k hk => hes k (hrest hk)) ?_
    · rw [List.filterMap_cons] at hnodup
      split at hnodup
      next => exact hnodup
      next => exact (List.nodup_cons.mp hnodup).2
    · intro m fm hm hmem
      rcases hold m fm hm with hm | hmaps
      · exact hnew m fm hm (hrest hmem)
      · rw [List.filterMap_cons, hmaps] at hnodup
        exact (List.nodup_cons.mp hnodup).1 hmem

/-! ## The start -/

/-- At the start a pager hosts the empty memory for every process. -/
theorem Pager.IsStart.hosts {s : Pager n} (h : s.IsStart) (hbacked : s.swap.Backed)
    {files : Nat → Bytes}
    (hfiles : ∀ k, U.own k → (s.file k).IsPlain ∧ (s.file k).data = files k)
    (hpaged : ∀ k, U.mapped k → (files k).length % pageSize = 0) :
    s.Hosts U b (.empty files) := by
  obtain ⟨_, _, _, _, hspace⟩ := h.fields
  have hnone : ∀ o v, s.descriptor? o v = none ∧ s.framed? o v = none := by
    intro o v
    have haddr : s.address? o v = none := by
      unfold address?
      rw [(hspace o).1]
      rfl
    refine ⟨?_, framed?_of_unmapped haddr⟩
    unfold descriptor?
    rw [(hspace o).2.1]
    rfl
  refine ⟨h.agrees, ?_, ?_, hbacked⟩
  · refine ⟨.empty hpaged, ?_, ?_, ?_⟩
    · intro v _
      refine .of_undescribed (hnone b v).1 ?_
      rw [seen?_eq_none_iff.mpr (hnone b v).symm]
      rfl
    · intro k hk
      obtain ⟨hplain, hdata⟩ := hfiles k hk
      exact ⟨hplain, congrArg List.length hdata, fun i _ => by rw [hdata]; rfl⟩
    · intro o v d w _ _ hd
      rw [(hnone o v).1] at hd
      cases hd
  · refine ⟨fun m => ?_, ?_⟩
    · unfold mapping?
      rw [(hspace b).2.2]
      rfl
    · rw [(hspace b).2.2]
      rfl

/-! ## Two runs -/

/-- A run from the start on, with a swap disk as large as declared, in which a process in the
space `b` uses the files `U`. These hold bytes and have no limits. Nobody else maps or changes
them. Those that the process maps consist of whole pages, and no two mappings are of one file. -/
structure Pager.RunsProcess (s : Pager n) (U : FileUse) (b : SpaceId) (es : List Event)
    (q : Pager n) : Prop where
  start : s.IsStart
  backed : s.swap.Backed
  run : Run s es q
  befits : ∀ e ∈ es, e.Befits U b
  apart : ∀ t, Passed s es t → t.MapsApart U b
  isPlain : ∀ k, U.own k → (s.file k).IsPlain
  paged : ∀ k, U.mapped k → (s.file k).data.length % pageSize = 0

/-- What comes of a run of a process is told by the bytes of its files at the start, by its calls,
and by how far its stack may grow. -/
theorem Pager.RunsProcess.hosts {s q : Pager n} {es : List Event} (h : s.RunsProcess U b es q)
    {files : Nat → Bytes} (hfiles : ∀ k, U.own k → (s.file k).data = files k) :
    ∃ M, Call.performAll s.config.isNearStack (.empty files) (es.filterMap (Event.call? b))
        = (s.answers b es, M) ∧ q.Hosts U b M ∧ M.Listed := by
  refine h.run.hosts (h.start.hosts h.backed (fun k hk => ⟨h.isPlain k hk, hfiles k hk⟩) ?_)
    (.empty files) h.befits h.apart
  intro k hk
  rw [← hfiles k (U.own_of_mapped hk)]
  exact h.paged k hk

/-- A process that makes the same calls in two runs gets the same answers and errors in both, and
every file of it that is not mapped in the end has the same bytes. The runs may differ in the
numbers of frames, slots and revolutions of the clock, and in what other processes do. -/
theorem same_answers {n n' : Nat} {U : FileUse} {b b' : SpaceId} {s q : Pager n} {s' q' : Pager n'}
    {es es' : List Event} (h : s.RunsProcess U b es q) (h' : s'.RunsProcess U b' es' q')
    (hlimit : s'.config.stackLimit = s.config.stackLimit)
    (hslack : s'.config.stackSlack = s.config.stackSlack)
    (hdata : ∀ k, U.own k → (s'.file k).data = (s.file k).data)
    (hcalls : es'.filterMap (Event.call? b') = es.filterMap (Event.call? b)) :
    s'.answers b' es' = s.answers b es
      ∧ (s.answers b es).length = (es.filterMap (Event.call? b)).length
      ∧ ∀ k, U.own k → (∀ m fm, q.mapping? b m = some fm → fm.source.file ≠ k) →
        (q'.file k).data = (q.file k).data := by
  obtain ⟨M', hall', hq', _⟩ := h'.hosts hdata
  obtain ⟨M, hall, hq, hlisted⟩ := h.hosts fun k _ => (rfl : (s.file k).data = _)
  -- both runs come to one memory
  have hnear : s'.config.isNearStack = s.config.isNearStack := by
    unfold PagerConfig.isNearStack
    rw [hlimit, hslack]
  rw [hnear, hcalls, hall] at hall'
  obtain ⟨hanswers, rfl⟩ := Prod.ext_iff.mp hall'
  refine ⟨hanswers.symm, ?_, ?_⟩
  · rw [← Call.length_performAll s.config.isNearStack (.empty fun k => (s.file k).data), hall]
  · intro k hk hfree
    have hfresh : ∀ v offset, M.pages v ≠ some (.shows k offset) := by
      intro v offset hv
      obtain ⟨m, r, hm, hfile, _⟩ := hlisted v k offset hv
      rw [hq.lists.regions, Option.map_eq_some_iff] at hm
      obtain ⟨fm, hm, rfl⟩ := hm
      exact hfree m fm hm hfile
    rw [hq.presents.data_eq hk hfresh, hq'.presents.data_eq hk hfresh]

/-! ## One frame and three -/

/-- The use of the file with the number 0, which is mapped. -/
def firstFileMapped : FileUse where
  own k := k = 0
  segment _ := False
  mapped k := k = 0
  own_of_segment h := h.elim
  own_of_mapped h := h
  apart _ _ h := h

/-- A file is mapped, and a byte is stored in it. -/
def mapAndStore (b : SpaceId) : List Event :=
  [.request (.mapFile b 0 pageSize), .request (.write b (pageSize + 1) [9])]

/-- The byte is read, a bad address is accessed, and the mapping is taken down. -/
def readAndUnmap (b : SpaceId) : List Event :=
  [.request (.read b (pageSize + 1) 1), .request (.fault b 3 0), .request (.unmapFile b 0)]

/-- A file of one page, and another file. -/
def pageAndByte : Array OpenFile := #[.ofBytes (List.replicate pageSize 1), .ofBytes [5]]

/-- These are calls of the process, and its only file is the first. -/
theorem befits_of_mem {e : Event} (he : e ∈ mapAndStore b ∨ e ∈ readAndUnmap b) :
    e.Befits firstFileMapped b := by
  simp only [mapAndStore, readAndUnmap, List.mem_cons, List.not_mem_nil, or_false] at he
  rcases he with (rfl | rfl) | rfl | rfl | rfl
  · exact Or.inl ⟨_, if_pos rfl, rfl⟩
  all_goals exact Or.inl ⟨_, if_pos rfl, trivial⟩

/-- The process in the first space makes its calls, and the other one takes the frame. -/
def besideStack : List Event :=
  mapAndStore 0 ++ .request (.fault 1 topPage topPage) :: readAndUnmap 0

/-- The process in the second space makes them, and the other one maps a file and reads it. -/
def besideMapping : List Event :=
  .request (.mapFile 0 1 pageSize) :: mapAndStore 1
    ++ .request (.read 0 pageSize 1) :: readAndUnmap 1

/-- All that is asked of a run is known if the process maps only the first file, and only once. -/
theorem runsProcess_small {n : Nat} {pids : Array UInt16} {es : List Event}
    (hn : n * pageSize ≤ 0x100000000)
    (hrun : ((small n pageAndByte pids).run? es).isSome = true)
    (hes : ∀ e ∈ es, e.Befits firstFileMapped b) (hmaps : es.filterMap (Event.mapsFile? b) = [0]) :
    (small n pageAndByte pids).RunsProcess firstFileMapped b es
      ((small n pageAndByte pids).ran es) := by
  have hstart := isStart_small hn pageAndByte pids
  have hnone : ∀ m fm, (small n pageAndByte pids).mapping? b m ≠ some fm := by
    intro m fm hm
    obtain ⟨_, _, _, _, hspace⟩ := hstart.fields
    unfold mapping? at hm
    rw [(hspace b).2.2] at hm
    cases hm
  refine ⟨hstart, ?_, run_ran hrun, hes, ?_, ?_, ?_⟩
  · show (16 : UInt64).toNat ≤ (Disk.blank 16).sectors.length
    decide
  · intro t ht
    refine ht.mapsApart hstart.agrees ⟨fun m fm hm => absurd hm (hnone m fm),
      fun m _ fm _ hm => absurd hm (hnone m fm)⟩ ?_ ?_ fun m fm hm => absurd hm (hnone m fm)
    · rw [hmaps]
      decide
    · intro k hk
      rw [hmaps] at hk
      exact List.mem_singleton.mp hk
  · rintro k rfl
    exact ⟨rfl, rfl⟩
  · rintro k rfl
    show (List.replicate pageSize 1 : Bytes).length % pageSize = 0
    rw [List.length_replicate, Nat.mod_self]

/-- With one frame and with three, beside another process that takes the frame and beside one that
maps a file of its own: the calls have the same answers, and the same bytes are left. -/
theorem same_answers_small :
    (small 3 pageAndByte #[1, 2]).answers 1 besideMapping
        = (small 1 pageAndByte #[1, 2]).answers 0 besideStack
      ∧ ((small 1 pageAndByte #[1, 2]).answers 0 besideStack).length = 5
      ∧ (((small 1 pageAndByte #[1, 2]).ran besideStack).file 0).data[1]? = some 9
      ∧ (((small 3 pageAndByte #[1, 2]).ran besideMapping).file 0).data[1]? = some 9 := by
  -- what is looked at in the end of the first run is computed once
  have hend : ((small 1 pageAndByte #[1, 2]).run? besideStack).map
      (fun q => ((q.file 0).data[1]?, (q.space 0).mappings.ids)) = some (some 9, []) := by
    decide +kernel
  obtain ⟨q, hq, hend⟩ := Option.map_eq_some_iff.mp hend
  obtain ⟨hbyte, hids⟩ := Prod.mk.inj hend
  have hran : (small 1 pageAndByte #[1, 2]).ran besideStack = q := by
    unfold ran
    rw [hq, Option.getD_some]
  have hstack : (small 1 pageAndByte #[1, 2]).RunsProcess firstFileMapped 0 besideStack
      ((small 1 pageAndByte #[1, 2]).ran besideStack) := by
    refine runsProcess_small (by decide) (by rw [hq]; rfl) ?_ rfl
    intro e he
    rcases List.mem_append.mp he with he | he
    · exact befits_of_mem (Or.inl he)
    · rcases List.mem_cons.mp he with rfl | he
      · exact Or.inr (by decide : 1 ≠ 0)
      · exact befits_of_mem (Or.inr he)
  have hmapping : (small 3 pageAndByte #[1, 2]).RunsProcess firstFileMapped 1 besideMapping
      ((small 3 pageAndByte #[1, 2]).ran besideMapping) := by
    refine runsProcess_small (by decide) (by decide +kernel) ?_ rfl
    intro e he
    rcases List.mem_append.mp he with he | he
    · rcases List.mem_cons.mp he with rfl | he
      · exact Or.inr (by decide : 0 ≠ 1 ∧ ¬ 1 = 0)
      · exact befits_of_mem (Or.inl he)
    · rcases List.mem_cons.mp he with rfl | he
      · exact Or.inr (by decide : 0 ≠ 1)
      · exact befits_of_mem (Or.inr he)
  obtain ⟨hanswers, hlength, hdata⟩ := same_answers hstack hmapping rfl rfl (fun _ _ => rfl) rfl
  rw [hran] at hdata ⊢
  refine ⟨hanswers, hlength, hbyte, ?_⟩
  rw [hdata 0 rfl ?_, hbyte]
  -- no mapping is left
  intro m fm hm
  have hmem : m ∈ (q.space 0).mappings.ids :=
    List.mem_map.mpr ⟨(m, fm), KeyedTable.mem_bindings_iff.mpr hm, rfl⟩
  rw [hids] at hmem
  cases hmem

end DemandPaging

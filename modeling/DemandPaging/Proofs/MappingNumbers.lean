import DemandPaging.Proofs.Exiting
import DemandPaging.Proofs.CopyProgress
import DemandPaging.Proofs.HostedMemory
import DemandPaging.Proofs.MappedBytes
/-!
# Mappings in step with their pages

A space lists its mappings, and every page that belongs to one has a descriptor that says so.
Between two events of a run the list and the descriptors agree, whatever was loaded, evicted,
described or taken down in the meantime (`Run.mappings_in_step`).

Numbers go up: an event that maps a file answers the next one, and no other event gives out a
number (`Event.numbers`). So a mapping is live from the event that answered its number until it
is unmapped or its process exits (`Run.isSome_mapping?_iff`).
-/

namespace DemandPaging

open Pager PagerAction

variable {n : Nat}

/-! ## Where mappings lie -/

/-- No mapping is empty, and none starts at the null address. -/
def Pager.MapsNonNull (p : Pager n) : Prop :=
  ∀ o m fm, p.mapping? o m = some fm → fm.base ≠ 0 ∧ 0 < fm.pageCount

theorem Chain.mapsNonNull {S : Array OpenFile → Prop} {p q : Pager n} {f g : Option (Fin n)}
    {cs : List Change} (h : Chain S p f cs q g) (hp : p.MapsNonNull) : q.MapsNonNull := by
  induction h with
  | refl => exact hp
  | quiet _ move ih => exact fun o m fm hm => ih o m fm ((move.mapping? o m).symm.trans hm)
  | visible _ move ih =>
    intro o m fm hm
    rcases move.mapping?_before hm with hm | rfl
    · exact ih o m fm hm
    · cases move with
      | mapped _ hfault =>
        obtain ⟨_, _, hlength, hbase, _⟩ := of_mappingFault?_eq_none hfault
        exact ⟨hbase, (pagesFor_spec hlength).2.1⟩

theorem Run.mapsNonNull {p q : Pager n} {es : List Event} (h : Run p es q) (hp : p.Agrees none)
    (hnull : p.MapsNonNull) : q.MapsNonNull := by
  induction h with
  | refl => exact hnull
  | step he happly _ ih =>
    obtain ⟨_, _, hchain⟩ := Event.chain (S := fun _ => True) hp he happly fun _ _ => trivial
    exact ih (hchain.agrees hp) (hchain.mapsNonNull hnull)

/-! ## Numbers -/

namespace Visible

variable {p q : Pager n} {f g : Option (Fin n)} {c : Change} {id : SpaceId}

theorem nextId_of_ne (move : Visible p f c q g) (hmapped : ∀ fm, c ≠ .mapped id fm) :
    (q.space id).mappings.nextId = (p.space id).mappings.nextId := by
  by_cases hunlisted : ∃ m, c = .unlisted id m
  · obtain ⟨m, rfl⟩ := hunlisted
    cases move with
    | unlisted => exact (views_unlisted id m rfl id).2.2
  · rw [move.mappings_of_ne hmapped fun m hc => hunlisted ⟨m, hc⟩]

/-- A new mapping is listed under the next number. -/
theorem mappings_mapped {fm : FileMapping} (move : Visible p f (.mapped id fm) q g) :
    (q.space id).mappings.nextId = (p.space id).mappings.nextId + 1
      ∧ ∀ m, q.mapping? id m
        = if m = (p.space id).mappings.nextId then some fm else p.mapping? id m := by
  cases move with
  | @mapped _ index base handle file hid =>
    refine ⟨?_, fun m => ?_⟩
    · rw [mappings_of_put rfl hid, if_pos rfl]
      rfl
    · unfold mapping?
      rw [mappings_of_put rfl hid, if_pos rfl]
      exact KeyedTable.find?_insert ..

end Visible

theorem Chain.nextId_of_not_mapped {S : Array OpenFile → Prop} {p q : Pager n}
    {f g : Option (Fin n)} {cs : List Change} {id : SpaceId} (h : Chain S p f cs q g)
    (hcs : ∀ fm, .mapped id fm ∉ cs) :
    (q.space id).mappings.nextId = (p.space id).mappings.nextId := by
  induction h with
  | refl => rfl
  | quiet _ move ih => exact (congrArg MappingTable.nextId (move.mappings id)).trans (ih hcs)
  | visible _ move ih =>
    refine (move.nextId_of_ne fun fm hc => ?_).trans
      (ih fun fm hmem => hcs fm (List.mem_append_left _ hmem))
    exact hcs fm (List.mem_append_right _ (List.mem_singleton.mpr hc.symm))

/-- The number that an event answers when it maps a file for the space `id`. -/
def Event.newMapping? (id : SpaceId) (p : Pager n) : Event → Option Nat
  | .request (.mapFile o index base) =>
    if o = id then
      match (mapFile o index base).run p with
      | .done m _ => some m
      | _ => none
    else none
  | _ => none

/-- Numbers that a space is answered in a run, in order. -/
def Pager.newMappings (id : SpaceId) : Pager n → List Event → List Nat
  | _, [] => []
  | p, e :: rest =>
    (e.newMapping? id p).toList ++ match e.apply p with
      | some q => q.newMappings id rest
      | none => []

/-- What an event does to the mappings of a space: it maps a file under the next number, or it
takes mappings down and gives out no number. -/
inductive Event.Numbers (id : SpaceId) (p : Pager n) (e : Event) (q : Pager n) : Prop where
  | added (hnew : e.newMapping? id p = some (p.space id).mappings.nextId)
      (hnext : (q.space id).mappings.nextId = (p.space id).mappings.nextId + 1)
      (hlive : ∀ m, (q.mapping? id m).isSome
        ↔ m = (p.space id).mappings.nextId ∨ (p.mapping? id m).isSome)
      (hstays : ∀ m, ¬ e.TakesDown id m)
  | kept (hnew : e.newMapping? id p = none)
      (hnext : (q.space id).mappings.nextId = (p.space id).mappings.nextId)
      (hlive : ∀ m, (q.mapping? id m).isSome ↔ (p.mapping? id m).isSome ∧ ¬ e.TakesDown id m)

/-- What takes a mapping down leaves none under its number. -/
theorem Event.mapping?_of_takesDown {p q : Pager n} {e : Event} {id : SpaceId} {m : Nat}
    (hp : p.Agrees none) (he : e.Permitted p) (hq : e.apply p = some q)
    (hdown : e.TakesDown id m) : q.mapping? id m = none := by
  rcases hdown with rfl | rfl
  · have hspec : ((unmapFile id m).run p).Meets (fun _ q => q.mapping? id m = none)
        (fun _ q => q.mapping? id m = none) (fun _ => False) :=
      (unmapFile_spec hp he.1 m).mono (fun _ q h => (h.mapping? id m).trans (if_pos ⟨rfl, rfl⟩))
        (fun _ q h => (h.1.mapping? id m).trans (if_pos ⟨rfl, rfl⟩)) fun _ h => h
    exact hspec.of_state? ((state?_map (fun _ => Answer.nothing) _ p).symm.trans hq)
  · have hspec : ((exitSpace id).run p).Meets (fun _ q => q.mapping? id m = none)
        (fun _ q => q.mapping? id m = none) (fun _ => False) :=
      (exitSpace_spec hp he.1).mono (fun _ q h => h.2 m) (fun _ _ h => h.elim) fun _ h => h
    exact hspec.of_state? ((state?_map (fun _ => Answer.nothing) _ p).symm.trans hq)

theorem Event.numbers_of_mapFile {p q : Pager n} {id : SpaceId} {index base : Nat}
    (he : (Event.request (.mapFile id index base)).Permitted p)
    (hq : (Event.request (.mapFile id index base)).apply p = some q) :
    (Event.request (.mapFile id index base)).Numbers id p q := by
  have hstate : ((mapFile id index base).run p).state? = some q :=
    (state?_map Answer.mapping _ p).symm.trans hq
  have hid : id < p.spaces.size := he.1
  have hspec := mapFile_spec hid index base
  have hstays : ∀ m, ¬ (Event.request (.mapFile id index base)).TakesDown id m := by
    rintro m (h | h) <;> cases h
  cases hrun : (mapFile id index base).run p with
  | done m r =>
    rw [hrun] at hspec hstate
    cases hstate
    obtain ⟨handle, hmove, rfl, _⟩ := hspec
    obtain ⟨hnext, hlive⟩ := hmove.mappings_mapped
    refine .added (by simp [newMapping?, hrun]) hnext (fun m => ?_) hstays
    rw [hlive]
    split
    next hm => exact iff_of_true rfl (Or.inl hm)
    next hm => exact (or_iff_right hm).symm
  | failed err r =>
    rw [hrun] at hspec hstate
    cases hstate
    obtain ⟨rfl, _⟩ := hspec
    exact .kept (by simp [newMapping?, hrun]) rfl fun m => (and_iff_left (hstays m)).symm
  | fatal reason =>
    rw [hrun] at hstate
    cases hstate

theorem Event.numbers {p q : Pager n} {e : Event} (hp : p.Agrees none) (he : e.Permitted p)
    (hq : e.apply p = some q) (id : SpaceId) : e.Numbers id p q := by
  by_cases hmaps : ∃ index base, e = .request (.mapFile id index base)
  · obtain ⟨index, base, rfl⟩ := hmaps
    exact numbers_of_mapFile he hq
  · obtain ⟨cs, hmakes, hchain⟩ := e.chain (S := fun _ => True) hp he hq fun _ _ => trivial
    have hmapped : ∀ fm, .mapped id fm ∉ cs := by
      intro fm hmem
      cases Event.HasMade.causes (Or.inl hmakes) hmem with
      | mapped => exact hmaps ⟨_, _, rfl⟩
    have hnew : e.newMapping? id p = none := by
      unfold newMapping?
      split
      next o index base =>
        exact if_neg fun ho => hmaps ⟨index, base, by rw [ho]⟩
      next => rfl
    refine .kept hnew (hchain.nextId_of_not_mapped hmapped) fun m => ?_
    rw [Option.isSome_iff_exists, Option.isSome_iff_exists]
    constructor
    · rintro ⟨fm, hm⟩
      refine ⟨⟨fm, (hchain.mapping?_before hm).resolve_right (hmapped fm)⟩, fun hdown => ?_⟩
      exact absurd (hm.symm.trans (mapping?_of_takesDown hp he hq hdown)) (by simp)
    · rintro ⟨⟨fm, hm⟩, hstays⟩
      refine ⟨fm, hchain.mapping?_of_not_mem hp hm fun hmem => ?_⟩
      cases Event.HasMade.causes (Or.inl hmakes) hmem with
      | unlisted hdown _ => exact hstays hdown

/-- A mapping that is live after an event was mapped by it, or was live and is not taken down. -/
theorem Event.Numbers.isSome_iff {p q : Pager n} {e : Event} {id : SpaceId}
    (h : e.Numbers id p q) (m : Nat) :
    (q.mapping? id m).isSome ↔ e.newMapping? id p = some m
      ∨ (p.mapping? id m).isSome ∧ ¬ e.TakesDown id m := by
  cases h with
  | added hnew _ hlive hstays =>
    rw [hlive, hnew, and_iff_left (hstays m), Option.some_inj]
    exact or_congr_left eq_comm
  | kept hnew _ hlive =>
    rw [hlive, hnew]
    simp

/-! ## Runs -/

namespace Run

variable {p q : Pager n} {es : List Event} {id : SpaceId}

/-- The numbers of a run are new, go up, and are below the number that comes next. -/
theorem newMappings_ascending (h : Run p es q) (hp : p.Agrees none) :
    (p.space id).mappings.nextId ≤ (q.space id).mappings.nextId
      ∧ (∀ m ∈ p.newMappings id es,
        (p.space id).mappings.nextId ≤ m ∧ m < (q.space id).mappings.nextId)
      ∧ (p.newMappings id es).Pairwise (· < ·) := by
  induction h with
  | refl => exact ⟨Nat.le_refl _, fun m hm => absurd hm List.not_mem_nil, List.Pairwise.nil⟩
  | step he happly _ ih =>
    obtain ⟨hle, hlater, hpairwise⟩ := ih (Event.agrees hp he happly)
    unfold newMappings
    rw [happly]
    cases Event.numbers hp he happly id with
    | added hnew hnext =>
      rw [hnew]
      rw [hnext] at hle hlater
      refine ⟨Nat.le_of_succ_le hle, fun m hm => ?_,
        List.pairwise_cons.mpr ⟨fun m hm => (hlater m hm).1, hpairwise⟩⟩
      rcases List.mem_cons.mp hm with rfl | hm
      · exact ⟨Nat.le_refl _, hle⟩
      · exact ⟨Nat.le_of_succ_le (hlater m hm).1, (hlater m hm).2⟩
    | kept hnew hnext =>
      rw [hnew]
      rw [hnext] at hle hlater
      exact ⟨hle, hlater, hpairwise⟩

/-- A mapping that is live after a run was live before and has not been taken down since, or it
was mapped on the way. -/
theorem isSome_mapping?_iff (h : Run p es q) (hp : p.Agrees none) (m : Nat) :
    (q.mapping? id m).isSome ↔ ((p.mapping? id m).isSome ∧ ∀ e ∈ es, ¬ e.TakesDown id m)
      ∨ ∃ front e back r, es = front ++ e :: back ∧ Run p front r
          ∧ e.newMapping? id r = some m ∧ ∀ e' ∈ back, ¬ e'.TakesDown id m := by
  induction h with
  | refl =>
    refine ⟨fun h => Or.inl ⟨h, fun _ he => absurd he List.not_mem_nil⟩, ?_⟩
    rintro (h | ⟨front, e, back, _, heq, _⟩)
    · exact h.1
    · exact absurd heq (by simp)
  | @step p q t e es he happly _ ih =>
    rw [ih (Event.agrees hp he happly), (Event.numbers hp he happly id).isSome_iff m]
    constructor
    · rintro (⟨hnew | ⟨hlive, hstays⟩, hrest⟩ | ⟨front, e', back, r, rfl, hfront, hnew, hback⟩)
      · exact Or.inr ⟨[], e, es, p, rfl, .refl, hnew, hrest⟩
      · exact Or.inl ⟨hlive, List.forall_mem_cons.mpr ⟨hstays, hrest⟩⟩
      · exact Or.inr ⟨e :: front, e', back, r, rfl, .step he happly hfront, hnew, hback⟩
    · rintro (⟨hlive, hall⟩ | ⟨front, e', back, r, heq, hfront, hnew, hback⟩)
      · obtain ⟨hstays, hrest⟩ := List.forall_mem_cons.mp hall
        exact Or.inl ⟨Or.inr ⟨hlive, hstays⟩, hrest⟩
      · cases hfront with
        | refl =>
          cases heq
          exact Or.inl ⟨Or.inl hnew, hback⟩
        | step he' happly' hfront =>
          cases heq
          cases happly.symm.trans happly'
          exact Or.inr ⟨_, e', back, r, rfl, hfront, hnew, hback⟩

end Run

/-- The mappings of a space and the descriptors of its pages say the same. -/
structure Pager.MappingsInStep (p : Pager n) (id : SpaceId) : Prop where
  placed : ∀ m fm, p.mapping? id m = some fm → PageAligned fm.base ∧ fm.base ≠ 0
    ∧ 0 < fm.pageCount ∧ fm.base + fm.pageCount * pageSize ≤ userTop
  apart : ∀ m m' fm fm', p.mapping? id m = some fm → p.mapping? id m' = some fm' → m ≠ m' →
    ∀ u ∈ fm.pages, u ∉ fm'.pages
  described : ∀ m fm i, p.mapping? id m = some fm → i < fm.pageCount →
    ∃ d w, p.descriptor? id (fm.base + i * pageSize) = some d ∧ d.backing.isMapped = true
      ∧ d.backing.window? = some w ∧ w.source = fm.source ∧ w.offset = i * pageSize
  listed : ∀ u d, p.descriptor? id u = some d → d.backing.isMapped = true →
    ∃! m, ∃ fm, p.mapping? id m = some fm ∧ u ∈ fm.pages

/-- **Mappings and descriptors stay in step.** After each event of a run the pages of the live
mappings of a space lie apart in user space, each described by its own place in the file of its
mapping, and every page that says that it belongs to a mapping belongs to one that is live. The
numbers that the space is answered go up, and a mapping is live exactly from the event that
answered its number until it is unmapped or the process exits. -/
theorem Run.mappings_in_step {s p : Pager n} {es : List Event} (hs : s.IsStart)
    (hrun : Run s es p) (id : SpaceId) :
    p.MappingsInStep id
      ∧ (s.newMappings id es).Pairwise (· < ·)
      ∧ ∀ m, (p.mapping? id m).isSome ↔ ∃ front e back r, es = front ++ e :: back
          ∧ Run s front r ∧ e.newMapping? id r = some m ∧ ∀ e' ∈ back, ¬ e'.TakesDown id m := by
  have hp := hrun.agrees hs.agrees
  have hlisted := hrun.listed hs.agrees hs.listed
  have hnull : p.MapsNonNull := hrun.mapsNonNull hs.agrees fun o m fm hm =>
    absurd ((hs.mapping?_eq_none o m).symm.trans hm) (by simp)
  refine ⟨⟨?_, ?_, fun m fm i => hp.mappings.described id m fm i, ?_⟩,
    (hrun.newMappings_ascending hs.agrees).2.2, fun m => ?_⟩
  · intro m fm hm
    obtain ⟨haligned, htop⟩ := hp.mappings.placed id m fm hm
    obtain ⟨hbase, hcount⟩ := hnull id m fm hm
    exact ⟨haligned, hbase, hcount, htop⟩
  · exact fun m m' fm fm' hm hm' hne u hu hu' =>
      hne (hp.mappings.disjoint id m m' fm fm' u hm hm' hu hu')
  · intro u d hd hmapped
    obtain ⟨m, fm, hm, hu, _⟩ := hlisted id u d hd hmapped
    refine ⟨m, ⟨fm, hm, hu⟩, ?_⟩
    rintro m' ⟨fm', hm', hu'⟩
    exact hp.mappings.disjoint id m' m fm' fm u hm' hm hu' hu
  · rw [hrun.isSome_mapping?_iff hs.agrees, hs.mapping?_eq_none]
    simp

/-- A file of one byte. -/
def oneByte : Array OpenFile := #[{ contents := .bytes [7] }]

/-- The file is mapped, unmapped and mapped once more. -/
def mappedTwice : List Event :=
  [.request (.mapFile 0 0 pageSize), .request (.unmapFile 0 0), .request (.mapFile 0 0 pageSize)]

/-- The second mapping of a file is another one: the first number stays dead. -/
theorem Run.mappings_in_step_oneFrame :
    (oneFrame oneByte).IsStart
      ∧ Run (oneFrame oneByte) mappedTwice ((oneFrame oneByte).ran mappedTwice)
      ∧ ((oneFrame oneByte).ran mappedTwice).MappingsInStep 0
      ∧ (oneFrame oneByte).newMappings 0 mappedTwice = [0, 1]
      ∧ (((oneFrame oneByte).ran mappedTwice).mapping? 0 1).isSome := by
  have hrun : Run (oneFrame oneByte) mappedTwice _ := run_ran (by decide +kernel)
  obtain ⟨hstep, _, hlive⟩ := mappings_in_step (isStart_oneFrame oneByte) hrun 0
  refine ⟨isStart_oneFrame oneByte, hrun, hstep, by decide +kernel, (hlive 1).mpr ?_⟩
  have hfront : Run (oneFrame oneByte) (mappedTwice.take 2)
      ((oneFrame oneByte).ran (mappedTwice.take 2)) := run_ran (by decide +kernel)
  exact ⟨_, .request (.mapFile 0 0 pageSize), [], _, rfl, hfront, by decide +kernel, by simp⟩

end DemandPaging

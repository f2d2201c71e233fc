import DemandPaging.Proofs.HostedMappings
import DemandPaging.Proofs.Runs
/-!
# Runs of a hosted memory

The calls of a process end as they do in the memory that the pager hosts for it (`Run.hosts`).
Events that are no calls of the process leave its memory alone, if nobody else maps or changes
its files.
-/

namespace DemandPaging

open Pager PagerAction Outcome

variable {n : Nat}

/-! ## Calls and answers -/

/-- The call that a request is, whoever makes it. -/
def Operation.call? : Operation → Option Call
  | .fault _ address stackPointer => some (.fault address stackPointer)
  | .read _ address length => some (.read address length)
  | .fetch _ address length => some (.fetch address length)
  | .write _ address bytes => some (.write address bytes)
  | .mapFile _ file base => some (.mapFile file base)
  | .unmapFile _ mapping => some (.unmapFile mapping)
  | .addSegment _ source offset upage readBytes zeroBytes writable =>
    some (.addSegment source.file offset upage readBytes zeroBytes writable)
  | .load .. | .pin .. | .unpin .. | .setAccessed .. | .setDirty .. | .exit .. => none

/-- The call that an event is of the space `b`, if it is one. -/
def Event.call? (b : SpaceId) : Event → Option Call
  | .request op => if op.space = b then op.call? else none
  | .rewrite .. => none

/-- The answer or error that an action ends with. -/
def Outcome.answer? {α : Type} : Outcome n α → Option (Except PagingError α)
  | .done a _ => some (.ok a)
  | .failed e _ => some (.error e)
  | .fatal _ => none

/-- The answer or error that an event ends with, if it is a call of the space `b`. -/
def Event.answer? (p : Pager n) (b : SpaceId) (e : Event) : Option (Except PagingError Answer) :=
  match e with
  | .request op => (e.call? b).bind fun _ => (op.perform.run p).answer?
  | .rewrite .. => none

theorem Event.answer?_eq_none {p : Pager n} {b : SpaceId} (e : Event) (h : e.call? b = none) :
    e.answer? p b = none := by
  cases e with
  | rewrite => rfl
  | request op =>
    unfold answer?
    rw [h]
    rfl

/-- The answers and errors that the calls of the space `b` end with, in order. -/
def Pager.answers (b : SpaceId) : Pager n → List Event → List (Except PagingError Answer)
  | _, [] => []
  | p, e :: rest =>
    (e.answer? p b).toList ++ match e.apply p with
      | some q => q.answers b rest
      | none => []

/-- A call uses files of the process, and a segment is of a file that it uses for segments. -/
def Call.Uses (U : FileUse) : Call → Prop
  | .mapFile file _ => U.own file
  | .addSegment file _ _ _ _ _ => U.segment file
  | _ => True

/-- An event leaves the memory of the space `b` alone: it neither is a call of `b` nor ends it, no
dirty flag of its pages is set or cleared, and nobody else maps or changes a file that it uses. Its
pages may be loaded and pinned, and accesses to them noted. -/
def Event.LeavesAlone (U : FileUse) (b : SpaceId) : Event → Prop
  | .request (.mapFile id file _) => id ≠ b ∧ ¬ U.own file
  | .request (.load ..) | .request (.pin ..) | .request (.unpin ..)
  | .request (.setAccessed ..) => True
  | .request op => op.space ≠ b
  | .rewrite file _ _ => ¬ U.own file

/-- An event is a call of the space `b`, or leaves its memory alone. -/
def Event.Befits (U : FileUse) (b : SpaceId) (e : Event) : Prop :=
  (∃ c, e.call? b = some c ∧ c.Uses U) ∨ e.LeavesAlone U b

theorem Event.LeavesAlone.call?_eq_none {U : FileUse} {b : SpaceId} {e : Event}
    (h : e.LeavesAlone U b) : e.call? b = none := by
  cases e with
  | rewrite => rfl
  | request op =>
    cases op with
    | load | pin | unpin | setAccessed | setDirty | exit => exact ite_self none
    | mapFile => exact if_neg h.1
    | fault | read | fetch | write | unmapFile | addSegment => exact if_neg h

/-! ## One event -/

/-- What is made of an answer is made of it in the memory too. -/
theorem Outcome.Matches.map {α β : Type} {p : Pager n} {x : PagerAction n α} {U : FileUse}
    {b : SpaceId} {result : Except PagingError α × Memory} (h : (x.run p).Matches U b result)
    (f : α → β) :
    ((x >>= fun a => pure (f a)).run p).Matches U b (result.1.map f, result.2) := by
  refine Outcome.Meets.bind h ?_ ?_ fun _ _ => trivial
  · intro a q h
    exact ⟨by rw [h.1]; rfl, h.2⟩
  · intro e q h
    exact ⟨by rw [h.1]; rfl, h.2⟩

/-- What is done for another process changes nothing in the memory of this one. -/
theorem Event.Causes.leavesAlone {p : Pager n} {U : FileUse} {b : SpaceId} {e : Event} {c : Change}
    (hc : e.Causes p c) (he : e.LeavesAlone U b) :
    c.Suits U b ∧ ∀ M : Memory, c.onMemory b M = M := by
  have hdown : ∀ {id m}, e.TakesDown id m → id ≠ b := by
    intro id m h
    rcases h with rfl | rfl
    · exact he
    · exact he
  cases hc with
  | grown | stored => exact ⟨trivial, fun M => if_neg he⟩
  | mapped => exact ⟨he, fun M => if_neg he.1⟩
  | unlisted h | dropped h => exact ⟨trivial, fun M => if_neg (hdown h)⟩
  | closed => exact ⟨trivial, fun M => rfl⟩
  | described => exact ⟨fun hid => absurd hid he, fun M => if_neg he⟩
  | dirtied | vacated | rewritten => exact ⟨he, fun M => rfl⟩

namespace Pager.Hosts

variable {p q : Pager n} {U : FileUse} {b : SpaceId} {M : Memory}

/-- Events that leave the memory of a process alone. -/
theorem leftAlone (hp : p.Hosts U b M) {e : Event} (he : e.Permitted p)
    (halone : e.LeavesAlone U b) (happly : e.apply p = some q) : q.Hosts U b M := by
  obtain ⟨cs, hmakes, hchain⟩ := e.chain (S := fun _ => True) hp.agrees he happly fun _ _ => trivial
  have hcs : ∀ c ∈ cs, c.Suits U b ∧ ∀ M : Memory, c.onMemory b M = M := fun c hc =>
    (Event.HasMade.causes (Or.inl hmakes) hc).leavesAlone halone
  have hsame : ∀ cs : List Change, (∀ c ∈ cs, ∀ M : Memory, c.onMemory b M = M) →
      cs.foldl (Change.onMemory b) M = M := by
    intro cs
    induction cs with
    | nil => exact fun _ => rfl
    | cons c rest ih =>
      intro h
      rw [List.foldl_cons, h c (List.mem_cons_self ..)]
      exact ih fun c hc => h c (List.mem_cons_of_mem _ hc)
  rw [← hsame cs fun c hc => (hcs c hc).2]
  exact hp.chain hchain fun c hc => (hcs c hc).1

/-- A call ends as it does in the memory. -/
theorem perform (hp : p.Hosts U b M) (hlisted : M.Listed) {op : Operation} {c : Call}
    (hop : op.Permitted p) (hspace : op.space = b) (hc : op.call? = some c) (huses : c.Uses U)
    (hafter : ∀ a q, op.perform.run p = .done a q → q.MapsApart U b) :
    (op.perform.run p).Matches U b (c.perform p.config.isNearStack M) := by
  have hb : b < p.spaces.size := hspace ▸ hop.1
  subst hspace
  cases op with
  | load | pin | unpin | setAccessed | setDirty | exit => cases hc
  | fault id address stackPointer =>
    cases hc
    exact (hp.handleFault hb address stackPointer).map fun _ => Answer.nothing
  | read id address length =>
    cases hc
    exact (hp.readUser address length).map Answer.copied
  | fetch id address length =>
    cases hc
    exact (hp.fetchUser address length).map Answer.bytes
  | write id address bytes =>
    cases hc
    exact (hp.writeUser address bytes).map fun _ => Answer.nothing
  | mapFile id file base =>
    cases hc
    refine (hp.mapFile hb hlisted huses base fun m q hdone => hafter (.mapping m) q ?_).map
      Answer.mapping
    exact run_bind_eq_done_iff.mpr ⟨m, q, hdone, rfl⟩
  | unmapFile id mapping =>
    cases hc
    exact (hp.unmapFile hb mapping).map fun _ => Answer.nothing
  | addSegment id source offset upage readBytes zeroBytes writable =>
    cases hc
    exact (hp.addSegment hop huses).map fun _ => Answer.nothing

/-- The numbers of the mappings are below the next one. -/
theorem numbered (hp : p.Hosts U b M) (m : Nat) (r : Region) (hm : M.regions m = some r) :
    m < M.nextRegion := by
  rw [hp.lists.regions, Option.map_eq_some_iff] at hm
  obtain ⟨fm, hfm, _⟩ := hm
  rw [hp.lists.next]
  exact hp.agrees.mappings.numbered b m fm hfm

/-- An event that is a call ends as the call does in the memory. -/
theorem event (hp : p.Hosts U b M) (hlisted : M.Listed) {e : Event} {c : Call}
    (he : e.Permitted p) (hcall : e.call? b = some c) (huses : c.Uses U)
    (happly : e.apply p = some q) (hafter : q.MapsApart U b) :
    e.answer? p b = some (c.perform p.config.isNearStack M).1
      ∧ q.Hosts U b (c.perform p.config.isNearStack M).2 := by
  cases e with
  | rewrite => cases hcall
  | request op =>
    obtain ⟨hspace, hc⟩ : op.space = b ∧ op.call? = some c := by
      simpa [Event.call?] using hcall
    have happly : (op.perform.run p).state? = some q := happly
    have hperform := hp.perform hlisted he hspace hc huses fun a r hdone => by
      rw [hdone] at happly
      cases happly
      exact hafter
    unfold Event.answer?
    simp only [hcall, Option.bind_some]
    revert happly hperform
    cases op.perform.run p with
    | done a r =>
      intro happly h
      cases happly
      exact ⟨congrArg some h.1.symm, h.2⟩
    | failed err r =>
      intro happly h
      cases happly
      exact ⟨congrArg some h.1.symm, h.2⟩
    | fatal reason =>
      intro happly
      cases happly

end Pager.Hosts

/-! ## Runs -/

theorem Event.config_eq {p q : Pager n} {e : Event} (hp : p.Agrees none) (he : e.Permitted p)
    (happly : e.apply p = some q) : q.config = p.config := by
  obtain ⟨_, _, hchain⟩ := e.chain (S := fun _ => True) hp he happly fun _ _ => trivial
  exact hchain.config_eq

/-- The calls of a process end as they do in the memory that the pager hosts for it. -/
theorem Run.hosts {p q : Pager n} {U : FileUse} {b : SpaceId} {M : Memory} {es : List Event}
    (hrun : Run p es q) (hp : p.Hosts U b M) (hlisted : M.Listed)
    (hes : ∀ e ∈ es, e.Befits U b) (hapart : ∀ t, Passed p es t → t.MapsApart U b) :
    ∃ M', Call.performAll p.config.isNearStack M (es.filterMap (Event.call? b))
        = (p.answers b es, M') ∧ q.Hosts U b M' ∧ M'.Listed := by
  induction hrun generalizing M with
  | refl => exact ⟨M, rfl, hp, hlisted⟩
  | @step p r q e es he happly rest ih =>
    have hconfig := Event.config_eq hp.agrees he happly
    have hes' : ∀ e ∈ es, e.Befits U b := fun e hmem => hes e (List.mem_cons_of_mem _ hmem)
    have hapart' : ∀ t, Passed r es t → t.MapsApart U b := fun t ht =>
      hapart t (.later he happly ht)
    have hr : r.MapsApart U b := hapart r (.later he happly .start)
    rw [Pager.answers, happly]
    rcases hes e (List.mem_cons_self ..) with ⟨c, hcall, huses⟩ | halone
    · obtain ⟨hanswer, hhosts⟩ := hp.event hlisted he hcall huses happly hr
      obtain ⟨M', hall, hq, hlisted'⟩ :=
        ih hhosts (hlisted.perform hp.numbered _ c) hes' hapart'
      refine ⟨M', ?_, hq, hlisted'⟩
      rw [hconfig] at hall
      rw [List.filterMap_cons, hcall]
      simp only [Call.performAll, hall, hanswer]
      rfl
    · obtain ⟨M', hall, hq, hlisted'⟩ := ih (hp.leftAlone he halone happly) hlisted hes' hapart'
      refine ⟨M', ?_, hq, hlisted'⟩
      have hnone := halone.call?_eq_none
      rw [hconfig] at hall
      rw [List.filterMap_cons, hnone, e.answer?_eq_none hnone]
      exact hall

end DemandPaging

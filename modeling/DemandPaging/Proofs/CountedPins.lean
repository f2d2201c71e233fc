import DemandPaging.Proofs.PinnedPages
/-!
# Pins are counted

A request that is no request to pin or unpin leaves the pins of every page as they were, and what
comes into a frame has none (`Pager.PinsKept`), however the request ends. So the pins of a page
that has a frame are those that were set since it came into one, less those that were taken back
(`Pager.IsStart.pins_counted`).

Only requests that were carried out count (`Pager.countDone`). A page that leaves its frame in the
middle of a copy and comes back has no pins at that moment, so it does not matter whether the count
starts before or after (`Pager.CameIn`).
-/

namespace DemandPaging

open Pager PagerAction Outcome

variable {n : Nat} {p q r t : Pager n} {o : SpaceId} {v : Nat} {i j : Fin n} {a b : Assignment}

/-! ## Requests that set no pins -/

/-- Whether an event is no request to pin or unpin a page. -/
def Event.SetsNoPins : Event → Prop
  | .request (.pin ..) | .request (.unpin ..) => False
  | _ => True

namespace Pager

/-- A page that has a frame before and after has the same pins, and one that has none before has no
pins after. -/
structure PinsKept (p q : Pager n) : Prop where
  same : ∀ i j a b, p.assignment? i = some a → q.assignment? j = some b → b.owner = a.owner →
    b.upage = a.upage → b.pins = a.pins
  fresh : ∀ j b, q.assignment? j = some b →
    (∀ i a, p.assignment? i = some a → ¬(a.owner = b.owner ∧ a.upage = b.upage)) → b.pins = 0

/-- Where the same frames are pinned the pages have kept their pins. -/
theorem SamePins.pinsKept (h : p.SamePins q) (hp : p.FramesAgree none) (hq : q.FramesAgree none) :
    p.PinsKept q := by
  have hback : ∀ j b, q.assignment? j = some b → b.pins ≠ 0 → p.assignment? j = some b :=
    fun j b hj hpins =>
      (pinned?_eq_some_iff.mp ((h j).symm.trans (pinned?_eq_some_iff.mpr ⟨hj, hpins⟩))).1
  have hon : ∀ i a, p.assignment? i = some a → a.pins ≠ 0 → q.assignment? i = some a :=
    fun i a hi hpins =>
      (pinned?_eq_some_iff.mp ((h i).trans (pinned?_eq_some_iff.mpr ⟨hi, hpins⟩))).1
  constructor
  · intro i j a b hi hj howner hupage
    by_cases ha : a.pins = 0
    · by_cases hb : b.pins = 0
      · rw [ha, hb]
      · have hij := hp.eq_of_same_page (hback j b hj hb) hi howner hupage
        subst hij
        cases hi.symm.trans (hback j b hj hb)
        rfl
    · have hij := hq.eq_of_same_page hj (hon i a hi ha) howner hupage
      subst hij
      cases hj.symm.trans (hon j a hi ha)
      rfl
  · intro j b hj hnone
    by_cases hb : b.pins = 0
    · exact hb
    · exact absurd ⟨rfl, rfl⟩ (hnone j b (hback j b hj hb))

/-- What is left when pages are taken down is as it was. -/
theorem TookDown.pinsKept {id : SpaceId} {gone : Nat → Prop} (h : p.TookDown id gone q)
    (hp : p.FramesAgree none) : p.PinsKept q := by
  have hback : ∀ j b, q.assignment? j = some b → p.assignment? j = some b := fun j b hj =>
    ((h.assignment? j b).mp hj).1
  constructor
  · intro i j a b hi hj howner hupage
    have hij := hp.eq_of_same_page (hback j b hj) hi howner hupage
    subst hij
    cases hi.symm.trans (hback j b hj)
    rfl
  · exact fun j b hj hnone => absurd ⟨rfl, rfl⟩ (hnone j b (hback j b hj))

end Pager

theorem unmapFile_tookDown (hp : p.Agrees none) {id : SpaceId} (hid : id < p.spaces.size) (m : Nat) :
    ((unmapFile id m).run p).Meets (fun _ q => ∃ gone, p.TookDown id gone q)
      (fun _ q => ∃ gone, p.TookDown id gone q) (fun _ => False) := by
  have hdown : ∀ {q}, p.Unmapped id m q → ∃ gone, p.TookDown id gone q := fun hq =>
    ⟨_, hq.visibly.tookDown hp fun c => takesDown_of_mem_unmapChanges⟩
  exact (unmapFile_spec hp hid m).mono (fun _ _ h => hdown h) (fun _ _ h => hdown h.1)
    fun _ h => h

theorem exitSpace_tookDown (hp : p.Agrees none) {id : SpaceId} (hid : id < p.spaces.size) :
    ((exitSpace id).run p).Meets (fun _ q => ∃ gone, p.TookDown id gone q)
      (fun _ q => ∃ gone, p.TookDown id gone q) (fun _ => False) := by
  obtain ⟨q, hrun, _, _, hdown, _⟩ := hp.exits hid
  rw [hrun]
  exact ⟨_, hdown⟩

/-- What a request that takes pages down leaves. -/
theorem Operation.Passes.tookDown {op : Operation} (h : op.Passes p q) (hp : p.Agrees none)
    (hop : op.Permitted p) (hdown : ¬ op.LeavesPins) (hsets : (Event.request op).SetsNoPins) :
    ∃ gone, p.TookDown op.space gone q := by
  cases op with
  | unmapFile id m =>
    cases h with
    | ended h => exact ((unmapFile_tookDown hp hop.1 m).map fun _ => Answer.nothing).of_state? h
  | exit id =>
    cases h with
    | ended h => exact ((exitSpace_tookDown hp hop.1).map fun _ => Answer.nothing).of_state? h
  | pin | unpin => exact hsets.elim
  | _ => exact absurd trivial hdown

/-- In each state that it passes, an event that sets no pins has kept them. -/
theorem Event.Passes.pinsKept {e : Event} (h : e.Passes p q) (hp : p.Agrees none)
    (he : e.Permitted p) (hsets : e.SetsNoPins) : p.PinsKept q := by
  have hq := (h.agrees hp he).frames
  cases e with
  | rewrite file data medium? =>
    cases h
    exact SamePins.pinsKept (fun _ => rfl) hp.frames hq
  | request op =>
    by_cases hleaves : op.LeavesPins
    · exact (Operation.Passes.samePins hp he hleaves h).pinsKept hp.frames hq
    · obtain ⟨gone, hdown⟩ := Operation.Passes.tookDown h hp he hleaves hsets
      exact hdown.pinsKept hp.frames

/-! ## The count -/

namespace Event

/-- Whether an event was carried out. -/
def isDone (p : Pager n) : Event → Bool
  | .request op => (op.perform.run p).isDone
  | .rewrite .. => true

/-- Whether an event is a request to pin the page. -/
def isPin (o : SpaceId) (v : Nat) : Event → Bool
  | .request (.pin id upage) => id = o ∧ upage = v
  | _ => false

/-- Whether an event is a request to take a pin of the page back. -/
def isUnpin (o : SpaceId) (v : Nat) : Event → Bool
  | .request (.unpin id upage) => id = o ∧ upage = v
  | _ => false

/-- One for an event of the kind asked for that is carried out. -/
def oneDone (asks : Event → Bool) (p : Pager n) (e : Event) : Nat :=
  if asks e = true ∧ e.isDone p = true then 1 else 0

end Event

/-- How many of the events of a run are of the kind asked for and are carried out. -/
def Pager.countDone (asks : Event → Bool) : Pager n → List Event → Nat
  | _, [] => 0
  | p, e :: es => e.oneDone asks p + match e.apply p with
    | some q => q.countDone asks es
    | none => 0

theorem Event.SetsNoPins.oneDone {e : Event} (h : e.SetsNoPins) (p : Pager n) :
    e.oneDone (Event.isPin o v) p = 0 ∧ e.oneDone (Event.isUnpin o v) p = 0 := by
  cases e with
  | rewrite => exact ⟨rfl, rfl⟩
  | request op =>
    cases op with
    | pin | unpin => exact h.elim
    | _ => exact ⟨rfl, rfl⟩

/-- The page of a frame gets a pin if that is asked for and done. -/
theorem pin_counted (hp : p.FramesAgree none) (hi : p.assignment? i = some a) (id : SpaceId)
    (upage : Nat) :
    ((pin id upage).run p).Meets
      (fun _ q => q.HoldsPins i a (if id = a.owner ∧ upage = a.upage then 1 else 0))
      (fun _ q => q.HoldsPins i a 0) (fun _ => False) := by
  refine ((pin_spec p id upage).and (pin_held hp hi id upage)).mono (fun _ _ h => h.2) ?_
    fun _ h => h.1
  intro _ q h
  obtain ⟨⟨_, rfl, _⟩, _⟩ := h
  exact .of_same hi

/-- It loses a pin if that is asked for and done. -/
theorem unpin_counted (hp : p.FramesAgree none) (hi : p.assignment? i = some a) (id : SpaceId)
    (upage : Nat) :
    ((unpin id upage).run p).Meets
      (fun _ q => q.HoldsPins i a (if id = a.owner ∧ upage = a.upage then -1 else 0))
      (fun _ q => q.HoldsPins i a 0) (fun _ => False) := by
  unfold unpin
  simp only [run_bind, run_read]
  split
  next => exact .of_same hi
  next k c hsome =>
    obtain ⟨hk, rfl, rfl⟩ := of_resident? hsome
    split
    next => exact .of_same hi
    next hpins =>
      refine hp.holdsPins_assign hi hk ?_
      intro hc
      subst hc
      omega

/-- What is answered in the end changes neither the state nor whether the action is done. -/
theorem run_bind_answer {α β : Type} (x : PagerAction n α) {f : α → PagerAction n β}
    (hf : ∀ a q, ∃ b, (f a).run q = .done b q) (p : Pager n) :
    ((x >>= f).run p).state? = (x.run p).state?
      ∧ ((x >>= f).run p).isDone = (x.run p).isDone := by
  rw [run_bind]
  cases x.run p with
  | done a q =>
    obtain ⟨b, hb⟩ := hf a q
    simp only [hb]
    exact ⟨rfl, rfl⟩
  | failed e q => exact ⟨rfl, rfl⟩
  | fatal reason => exact ⟨rfl, rfl⟩

theorem Event.apply_pin (p : Pager n) (id : SpaceId) (upage : Nat) :
    (Event.request (.pin id upage)).apply p = ((pin id upage).run p).state?
      ∧ (Event.request (.pin id upage)).isDone p = ((pin id upage).run p).isDone :=
  run_bind_answer (pin id upage)
    (f := fun i => Answer.frame <$> PagerAction.read fun p => p.frames.pool.frameAddress i)
    (fun _ _ => ⟨_, rfl⟩) p

theorem Event.apply_unpin (p : Pager n) (id : SpaceId) (upage : Nat) :
    (Event.request (.unpin id upage)).apply p = ((unpin id upage).run p).state?
      ∧ (Event.request (.unpin id upage)).isDone p = ((unpin id upage).run p).isDone :=
  run_bind_answer (unpin id upage) (f := fun _ => pure Answer.nothing) (fun _ _ => ⟨_, rfl⟩) p

/-- What a request does to the pins of a frame it does only if it is carried out. -/
theorem Outcome.Meets.holdsPins {α : Type} {outcome : Outcome n α} {more : Int} {X : Fatal → Prop}
    (h : outcome.Meets (fun _ q => q.HoldsPins i a more) (fun _ q => q.HoldsPins i a 0) X)
    (hq : outcome.state? = some q) :
    q.HoldsPins i a (if outcome.isDone = true then more else 0) := by
  cases outcome with
  | done answer r =>
    cases hq
    exact h
  | failed e r =>
    cases hq
    exact h
  | fatal reason => cases hq

theorem Event.holdsPins_of_pin {id : SpaceId} {upage : Nat} (hp : p.FramesAgree none)
    (hi : p.assignment? i = some a) (happly : (Event.request (.pin id upage)).apply p = some q) :
    q.HoldsPins i a ((Event.request (.pin id upage)).oneDone (Event.isPin a.owner a.upage) p) := by
  obtain ⟨hstate, hdone⟩ := Event.apply_pin p id upage
  have hholds := (pin_counted hp hi id upage).holdsPins (hstate.symm.trans happly)
  by_cases hpage : id = a.owner ∧ upage = a.upage
  · obtain ⟨rfl, rfl⟩ := hpage
    simpa [Event.oneDone, Event.isPin, hdone, apply_ite] using hholds
  · simpa [Event.oneDone, Event.isPin, hpage] using hholds

theorem Event.holdsPins_of_unpin {id : SpaceId} {upage : Nat} (hp : p.FramesAgree none)
    (hi : p.assignment? i = some a) (happly : (Event.request (.unpin id upage)).apply p = some q) :
    q.HoldsPins i a
      (-(Event.request (.unpin id upage)).oneDone (Event.isUnpin a.owner a.upage) p) := by
  obtain ⟨hstate, hdone⟩ := Event.apply_unpin p id upage
  have hholds := (unpin_counted hp hi id upage).holdsPins (hstate.symm.trans happly)
  by_cases hpage : id = a.owner ∧ upage = a.upage
  · obtain ⟨rfl, rfl⟩ := hpage
    simpa [Event.oneDone, Event.isUnpin, hdone, apply_ite] using hholds
  · simpa [Event.oneDone, Event.isUnpin, hpage] using hholds

/-- What an event makes of the pins of a page that has a frame before and after. -/
theorem Event.pins_step {e : Event} (hp : p.Agrees none) (he : e.Permitted p)
    (happly : e.apply p = some q) (hi : p.resident? o v = some (i, a))
    (hj : q.resident? o v = some (j, b)) :
    b.pins + e.oneDone (Event.isUnpin o v) p = a.pins + e.oneDone (Event.isPin o v) p := by
  replace ⟨hi, rfl, rfl⟩ := of_resident? hi
  by_cases hsets : e.SetsNoPins
  · obtain ⟨hj, howner, hupage⟩ := of_resident? hj
    have hkept := (Event.passes_of_apply happly).pinsKept hp he hsets
    rw [(hsets.oneDone p).1, (hsets.oneDone p).2, hkept.same i j a b hi hj howner hupage]
  -- what a request has made of the frame is found again in the state after it
  have hafter : ∀ {more : Int}, q.HoldsPins i a more → (b.pins : Int) = a.pins + more := by
    intro more ⟨pins, hpins, hcount⟩
    have hresident := resident?_of_assigned (Event.agrees hp he happly).frames hpins
    cases hresident.symm.trans hj
    exact hcount
  cases e with
  | rewrite => exact absurd trivial hsets
  | request op =>
    cases op with
    | pin id upage =>
      have hcount := hafter (Event.holdsPins_of_pin hp.frames hi happly)
      have hnone : (Event.request (.pin id upage)).oneDone (Event.isUnpin a.owner a.upage) p = 0 :=
        rfl
      omega
    | unpin id upage =>
      have hcount := hafter (Event.holdsPins_of_unpin hp.frames hi happly)
      have hnone : (Event.request (.unpin id upage)).oneDone (Event.isPin a.owner a.upage) p = 0 :=
        rfl
      omega
    | _ => exact absurd trivial hsets

/-! ## What comes into a frame -/

/-- Other pins for the page of a frame give no frame to another page. -/
theorem Pager.Backs.of_assign {pins : Nat} (hi : p.assignment? i = some a)
    (h : (p.assign i (some { a with pins := pins })).Backs j o v) : p.Backs j o v := by
  obtain ⟨b, hj, howner, hupage⟩ := h
  rw [assignment?_assign] at hj
  split at hj
  next hji =>
    cases hj
    exact ⟨a, hji ▸ hi, howner, hupage⟩
  next => exact ⟨b, hj, howner, hupage⟩

theorem pin_backs (p : Pager n) (id : SpaceId) (upage : Nat) :
    ((pin id upage).run p).Meets (fun _ q => ∀ j o v, q.Backs j o v → p.Backs j o v)
      (fun _ q => ∀ j o v, q.Backs j o v → p.Backs j o v) (fun _ => False) := by
  refine (pin_spec p id upage).mono ?_ ?_ fun _ h => h
  · intro i q ⟨a, hi, _, _, hq⟩ j o v hj
    exact .of_assign hi (hq ▸ hj)
  · intro _ q ⟨_, hq, _⟩ j o v hj
    exact hq ▸ hj

theorem unpin_backs (p : Pager n) (id : SpaceId) (upage : Nat) :
    ((unpin id upage).run p).Meets (fun _ q => ∀ j o v, q.Backs j o v → p.Backs j o v)
      (fun _ q => ∀ j o v, q.Backs j o v → p.Backs j o v) (fun _ => False) := by
  refine (unpin_spec p id upage).mono ?_ ?_ fun _ h => h
  · intro _ q ⟨i, a, hi, _, _, hq⟩ j o v hj
    exact .of_assign hi (hq ▸ hj)
  · intro _ q ⟨hq, _⟩ j o v hj
    exact hq ▸ hj

/-- A page that has pins after an event had its frame before, and all the time. -/
theorem Event.backs_of_pins {e : Event} (hp : p.Agrees none) (he : e.Permitted p)
    (happly : e.apply p = some q) (hj : q.assignment? j = some b) (hpins : b.pins ≠ 0) :
    p.Backs j b.owner b.upage ∧ ∀ t, e.Passes p t → t.Backs j b.owner b.upage := by
  have hbacks : q.Backs j b.owner b.upage := ⟨b, hj, rfl, rfl⟩
  cases e with
  | rewrite file data medium? =>
    cases happly
    refine ⟨hbacks, fun t ht => ?_⟩
    cases ht
    exact hbacks
  | request op =>
    by_cases hleaves : op.LeavesPins
    · have hpinned := pinned?_eq_some_iff.mpr ⟨hj, hpins⟩
      rw [Operation.Passes.samePins hp he hleaves (.ended happly) j] at hpinned
      refine ⟨⟨b, (pinned?_eq_some_iff.mp hpinned).1, rfl, rfl⟩, fun t ht => ?_⟩
      rw [← Operation.Passes.samePins hp he hleaves ht j] at hpinned
      exact ⟨b, (pinned?_eq_some_iff.mp hpinned).1, rfl, rfl⟩
    -- the other requests pass no state but their last one
    · have hended : ∀ t, op.Passes p t → t.Backs j b.owner b.upage := by
        intro t ht
        cases ht with
        | ended h =>
          cases h.symm.trans happly
          exact hbacks
        | _ => exact absurd trivial hleaves
      refine ⟨?_, hended⟩
      cases op with
      | pin id upage =>
        rw [(Event.apply_pin p id upage).1] at happly
        exact (pin_backs p id upage).of_state? happly j _ _ hbacks
      | unpin id upage =>
        rw [(Event.apply_unpin p id upage).1] at happly
        exact (unpin_backs p id upage).of_state? happly j _ _ hbacks
      | unmapFile | exit =>
        obtain ⟨gone, hdown⟩ := Operation.Passes.tookDown (.ended happly) hp he hleaves trivial
        exact ⟨b, ((hdown.assignment? j b).mp hj).1, rfl, rfl⟩
      | _ => exact absurd trivial hleaves

/-! ## Along a run -/

namespace Pager

/-- The page has a frame in each state between the events. -/
def StaysIn (p : Pager n) (o : SpaceId) (v : Nat) (es : List Event) : Prop :=
  ∀ mid more r, es = mid ++ more → Run p mid r → (r.resident? o v).isSome = true

/-- In a run the page came into a frame with an event that ends in the state `q`: before the event
or in a state on the way it had none. `rest` are the events after this one, and the page has a frame
in each state between them. -/
def CameIn (s : Pager n) (es : List Event) (o : SpaceId) (v : Nat) (q : Pager n)
    (rest : List Event) : Prop :=
  ∃ front e p, es = front ++ e :: rest ∧ Run s front p ∧ e.Permitted p ∧ e.apply p = some q
    ∧ (p.resident? o v = none ∨ ∃ t, e.Passes p t ∧ t.resident? o v = none) ∧ q.StaysIn o v rest

variable {s : Pager n} {e : Event} {es rest : List Event}

theorem StaysIn.resident? (h : p.StaysIn o v es) : ∃ i a, p.resident? o v = some (i, a) := by
  obtain ⟨⟨i, a⟩, hi⟩ := Option.isSome_iff_exists.mp (h [] es p rfl .refl)
  exact ⟨i, a, hi⟩

theorem StaysIn.tail (h : p.StaysIn o v (e :: es)) (he : e.Permitted p)
    (happly : e.apply p = some q) : q.StaysIn o v es := fun mid more r hsplit hrun =>
  h (e :: mid) more r (congrArg (e :: ·) hsplit) (.step he happly hrun)

theorem StaysIn.cons (happly : e.apply p = some q) (h : q.StaysIn o v es)
    (hp : (p.resident? o v).isSome = true) : p.StaysIn o v (e :: es) := by
  intro mid more r hsplit hrun
  cases hrun with
  | refl => exact hp
  | step he' happly' hrun =>
    rw [List.cons_append, List.cons.injEq] at hsplit
    obtain ⟨rfl, hsplit⟩ := hsplit
    cases happly.symm.trans happly'
    exact h _ more r hsplit hrun

end Pager

section Counted

variable {s : Pager n} {e : Event} {es rest : List Event}

/-- A run goes on from where its first events led. -/
theorem Run.of_append (h : Run p (es ++ rest) r) (hfront : Run p es q) : Run q rest r := by
  induction hfront with
  | refl => exact h
  | step he happly _ ih =>
    cases h with
    | step he' happly' h =>
      cases happly.symm.trans happly'
      exact ih h

/-- A page that has a frame in the end had it from the beginning, or came into one. -/
theorem Run.stays_or_cameIn (hrun : Run p es q) (hq : (q.resident? o v).isSome = true) :
    p.StaysIn o v es ∨ ∃ r rest, p.CameIn es o v r rest := by
  induction hrun with
  | refl =>
    left
    intro mid more r hsplit hrun
    rw [(List.append_eq_nil_iff.mp hsplit.symm).1] at hrun
    cases hrun
    exact hq
  | @step p t q e es he happly hrun ih =>
    rcases ih hq with hstays | ⟨r, rest, front, e', p', rfl, hfront, hcame⟩
    · cases hp : p.resident? o v with
      | some found => exact Or.inl (hstays.cons happly (Option.isSome_of_eq_some hp))
      | none => exact Or.inr ⟨t, es, [], e, p, rfl, .refl, he, happly, Or.inl hp, hstays⟩
    · exact Or.inr ⟨r, rest, e :: front, e', p', rfl, .step he happly hfront, hcame⟩

/-- The pins that a page has after events are those before, and the difference of the requests
that were carried out. -/
theorem Run.pins_along (hrun : Run p es q) (hp : p.Agrees none) (hstays : p.StaysIn o v es)
    (hi : p.resident? o v = some (i, a)) (hj : q.resident? o v = some (j, b)) :
    b.pins + p.countDone (Event.isUnpin o v) es = a.pins + p.countDone (Event.isPin o v) es := by
  induction hrun generalizing i a with
  | refl =>
    cases hi.symm.trans hj
    rfl
  | @step p t q e es he happly hrun ih =>
    have hrest := hstays.tail he happly
    obtain ⟨k, c, hk⟩ := hrest.resident?
    have hstep := Event.pins_step hp he happly hi hk
    have hcount := ih (Event.agrees hp he happly) hrest hk hj
    unfold countDone
    rw [happly]
    simp only
    omega

/-- A page has no pins when it has come into a frame. -/
theorem Event.pins_eq_zero (hp : p.Agrees none) (he : e.Permitted p) (happly : e.apply p = some q)
    (hcame : p.resident? o v = none ∨ ∃ t, e.Passes p t ∧ t.resident? o v = none)
    (hj : q.resident? o v = some (j, b)) : b.pins = 0 := by
  replace ⟨hj, rfl, rfl⟩ := of_resident? hj
  refine Decidable.byContradiction fun hpins => ?_
  obtain ⟨hbefore, hall⟩ := Event.backs_of_pins hp he happly hj hpins
  have hresident : ∀ {t : Pager n}, t.Agrees none → t.Backs j b.owner b.upage →
      t.resident? b.owner b.upage ≠ none := by
    intro t ht ⟨c, hc, howner, hupage⟩ hnone
    rw [← howner, ← hupage, resident?_of_assigned ht.frames hc] at hnone
    cases hnone
  rcases hcame with hnone | ⟨t, ht, hnone⟩
  · exact hresident hp hbefore hnone
  · exact hresident (ht.agrees hp he) (hall t ht) hnone

/-- Where no page has pins, none gets any unless that is asked for. -/
theorem Event.Passes.no_pins (h : e.Passes p q) (hp : p.Agrees none) (he : e.Permitted p)
    (hasks : ∀ id u, e ≠ .request (.pin id u))
    (hzero : ∀ i a, p.assignment? i = some a → a.pins = 0) :
    ∀ j b, q.assignment? j = some b → b.pins = 0 := by
  intro j b hj
  by_cases hsets : e.SetsNoPins
  · have hkept := h.pinsKept hp he hsets
    by_cases hbefore : ∃ i a, p.assignment? i = some a ∧ a.owner = b.owner ∧ a.upage = b.upage
    · obtain ⟨i, a, hi, howner, hupage⟩ := hbefore
      rw [hkept.same i j a b hi hj howner.symm hupage.symm, hzero i a hi]
    · exact hkept.fresh j b hj fun i a hi hpage => hbefore ⟨i, a, hi, hpage⟩
  · cases e with
    | rewrite => exact absurd trivial hsets
    | request op =>
      cases op with
      | pin id u => exact absurd rfl (hasks id u)
      | unpin id upage =>
        cases h with
        | ended happly =>
          have hstate := (Event.apply_unpin p id upage).1.symm.trans happly
          obtain ⟨a, hi, howner, hupage⟩ :=
            (unpin_backs p id upage).of_state? hstate j _ _ ⟨b, hj, rfl, rfl⟩
          obtain ⟨pins, hpins, hcount⟩ := Event.holdsPins_of_unpin hp.frames hi happly
          cases hj.symm.trans hpins
          rw [hzero j a hi] at hcount
          simp only
          omega
      | _ => exact absurd trivial hsets

/-- Taking back a pin of a page that has a frame is refused exactly when it has none. -/
theorem run_unpin_eq_failed_iff (hi : p.resident? o v = some (i, a)) :
    (unpin o v).run p = .failed .invalidState p ↔ a.pins = 0 := by
  unfold unpin
  simp only [run_bind, run_read, hi]
  by_cases hpins : a.pins = 0
  · rw [if_pos hpins]
    exact iff_of_true rfl hpins
  · rw [if_neg hpins]
    exact iff_of_false (fun h => nomatch h) hpins

/-- What events brought the page into its frame, the run went on from there. -/
theorem Pager.CameIn.goes_on (h : s.CameIn es o v q rest) (hs : s.Agrees none) (hrun : Run s es p) :
    q.Agrees none ∧ Run q rest p ∧ q.StaysIn o v rest
      ∧ ∀ j b, q.resident? o v = some (j, b) → b.pins = 0 := by
  obtain ⟨front, e, r, rfl, hfront, he, happly, hcame, hstays⟩ := h
  have hr := hfront.agrees hs
  refine ⟨Event.agrees hr he happly, ?_, hstays, fun j b hj =>
    Event.pins_eq_zero hr he happly hcame hj⟩
  cases hrun.of_append hfront with
  | step he' happly' hrest =>
    cases happly.symm.trans happly'
    exact hrest

/-- **Pins are balanced.** In every state of a run: a request that is no request to pin or unpin,
however it ends and wherever it has got to, has left the pins of each page that has a frame before
and after, and what came into a frame has none. A page that has a frame came into one at some time
in the run, and its pins are the number of its pins that were set since, less those that were
taken back. Taking one back is refused exactly when this number is zero. And in a run without
requests to pin a page every frame may be reclaimed, in each state on the way. -/
theorem Pager.IsStart.pins_counted (hs : s.IsStart) (hrun : Run s es p) :
    (∀ (e : Event) q, e.Permitted p → e.SetsNoPins → e.Passes p q → p.PinsKept q)
      ∧ (∀ o v i a, p.resident? o v = some (i, a) →
        (∃ q rest, s.CameIn es o v q rest)
          ∧ ∀ q rest, s.CameIn es o v q rest →
            a.pins + q.countDone (Event.isUnpin o v) rest = q.countDone (Event.isPin o v) rest
              ∧ ((unpin o v).run p = .failed .invalidState p
                ↔ q.countDone (Event.isPin o v) rest = q.countDone (Event.isUnpin o v) rest))
      ∧ ((∀ id u, Event.request (.pin id u) ∉ es) →
        ∀ t, Passed s es t → ∀ i a, t.assignment? i = some a → a.isCandidate = true) := by
  have hagrees := hrun.agrees hs.agrees
  refine ⟨fun e q he hsets hpasses => hpasses.pinsKept hagrees he hsets, ?_, ?_⟩
  · intro o v i a hi
    refine ⟨(hrun.stays_or_cameIn (Option.isSome_of_eq_some hi)).resolve_left fun hstays => ?_, ?_⟩
    -- at the start no page has a frame
    · obtain ⟨j, b, hj⟩ := hstays.resident?
      exact absurd ((hs.fields.2.2.1 j).symm.trans (of_resident? hj).1) (by simp)
    · intro q rest hcame
      obtain ⟨hq, hrest, hstays, hzero⟩ := hcame.goes_on hs.agrees hrun
      obtain ⟨j, b, hj⟩ := hstays.resident?
      have hcount := hrest.pins_along hq hstays hj hi
      rw [hzero j b hj, Nat.zero_add] at hcount
      refine ⟨hcount, (run_unpin_eq_failed_iff hi).trans ?_⟩
      omega
  · intro hasks t ht i a hi
    have hpins : a.pins = 0 := by
      refine ht.preserves (I := fun q => ∀ i a, q.assignment? i = some a → a.pins = 0)
        (P := fun e => ∀ id u, e ≠ .request (.pin id u)) (H := fun _ => True)
        (fun hp he hasks _ hpasses hzero => hpasses.no_pins hp he hasks hzero) hs.agrees
        (fun e he id u h => hasks id u (h ▸ he)) (fun _ _ => trivial) ?_ i a hi
      intro i a hi
      exact absurd ((hs.fields.2.2.1 i).symm.trans hi) (by simp)
    unfold Assignment.isCandidate
    rw [hpins, (ht.agrees hs.agrees).frames.evicting i a hi]
    rfl

/-- The top page of a stack is touched, pinned twice and unpinned once. -/
def pinnedOnce : List Event :=
  topTouched ++ [.request (.pin 0 topPage), .request (.pin 0 topPage), .request (.unpin 0 topPage)]

/-- Two pins that were set and one that was taken back leave one, and it can be taken back. In the
run without them the frame may be reclaimed. -/
theorem Pager.IsStart.pins_counted_small :
    Run (small 2 #[] #[1]) pinnedOnce ((small 2 #[] #[1]).ran pinnedOnce)
      ∧ ((small 2 #[] #[1]).ran pinnedOnce).resident? 0 topPage = some (0, ⟨0, topPage, 1, false⟩)
      ∧ (∃ q rest, (small 2 #[] #[1]).CameIn pinnedOnce 0 topPage q rest
        ∧ 1 + q.countDone (Event.isUnpin 0 topPage) rest = q.countDone (Event.isPin 0 topPage) rest
        ∧ (unpin 0 topPage).run ((small 2 #[] #[1]).ran pinnedOnce)
          ≠ .failed .invalidState ((small 2 #[] #[1]).ran pinnedOnce))
      ∧ Run (small 2 #[] #[1]) topTouched ((small 2 #[] #[1]).ran topTouched)
      ∧ ∃ a, ((small 2 #[] #[1]).ran topTouched).assignment? 0 = some a ∧ a.isCandidate = true := by
  have hstart : (small 2 #[] #[1]).IsStart := isStart_small (by decide) _ _
  have hpinned : Run (small 2 #[] #[1]) pinnedOnce _ := run_ran (by decide +kernel)
  have htouched : Run (small 2 #[] #[1]) topTouched _ := run_ran (by decide +kernel)
  have hresident : ((small 2 #[] #[1]).ran pinnedOnce).resident? 0 topPage
      = some (0, ⟨0, topPage, 1, false⟩) := by decide +kernel
  refine ⟨hpinned, hresident, ?_, htouched, ?_⟩
  · obtain ⟨⟨q, rest, hcame⟩, hcounts⟩ := (pins_counted hstart hpinned).2.1 0 topPage 0 _ hresident
    obtain ⟨hcount, hrefused⟩ := hcounts q rest hcame
    refine ⟨q, rest, hcame, hcount, fun hfailed => ?_⟩
    have hequal := hrefused.mp hfailed
    simp only at hcount
    omega
  · have hassigned : ((small 2 #[] #[1]).ran topTouched).assignment? 0
        = some ⟨0, topPage, 0, false⟩ := by decide +kernel
    have hasks : ∀ id u, Event.request (.pin id u) ∉ topTouched := by simp [topTouched]
    exact ⟨_, hassigned, (pins_counted hstart htouched).2.2 hasks _ htouched.passed 0 _ hassigned⟩

end Counted

end DemandPaging

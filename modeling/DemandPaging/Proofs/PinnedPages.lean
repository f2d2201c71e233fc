import DemandPaging.Proofs.Exiting
import DemandPaging.Proofs.PageOrigins
import DemandPaging.Proofs.Pins
import DemandPaging.Proofs.StayingPages
/-!
# Pages that are pinned

A pin keeps a page in its frame (`Pager.Reachable.pin_holds`): from the request that sets it on,
through whatever any process does, as long as pins of the page are not taken back more often
than they are set (`pinBalance`) and the page is not released.

`Event.Passes.held` is the step: it says what an event makes of the assignment of a pinned frame.
Faults and copies leave the pins of all frames as they were, those of their own page included;
what a request takes down is another page.
-/

namespace DemandPaging

open Pager PagerAction Outcome

variable {n : Nat}

/-! ## Where the frames lie -/

section Base

variable {S : Array OpenFile → Prop} {p q : Pager n} {f g : Option (Fin n)}

theorem Quiet.base (move : Quiet S p f q g) : q.frames.pool.base = p.frames.pool.base := by
  cases move with
  | took _ _ _ _ h =>
    obtain ⟨_, _, _, hbase, _⟩ := FrameTable.takeFree_eq_some h
    exact hbase
  | _ => rfl

theorem Visible.base {c : Change} (move : Visible p f c q g) :
    q.frames.pool.base = p.frames.pool.base := by
  cases move with
  | vacated => exact (FrameTable.pool_foldl_without _ _).1
  | _ => rfl

theorem Chain.base {cs : List Change} (h : Chain S p f cs q g) :
    q.frames.pool.base = p.frames.pool.base := by
  induction h with
  | refl => rfl
  | quiet _ move ih => exact move.base.trans ih
  | visible _ move ih => exact move.base.trans ih

/-- The frames of the pool stay where they are. -/
theorem Passed.frameAddress {es : List Event} (h : Passed p es q) (hp : p.Agrees none)
    (i : Fin n) : q.frameAddress i = p.frameAddress i := by
  refine frameAddress_congr ?_ i
  refine h.preserves (I := fun r => r.frames.pool.base = p.frames.pool.base) (P := fun _ => True)
    (H := fun _ => True) (fun hp he _ _ hpasses hr => ?_) hp (fun _ _ => trivial)
    (fun _ _ => trivial) rfl
  obtain ⟨cs, _, hchain⟩ := hpasses.chain (S := fun _ => True) hp he fun _ _ => trivial
  exact hchain.base.trans hr

end Base

/-! ## Pins of one page -/

/-- How many more pins a page has after an event, if it is pinned before and not released. -/
def Event.pinChange (o : SpaceId) (v : Nat) : Event → Int
  | .request (.pin id upage) => if id = o ∧ upage = v then 1 else 0
  | .request (.unpin id upage) => if id = o ∧ upage = v then -1 else 0
  | _ => 0

/-- How many more pins of a page events set than they take back. -/
def pinBalance (o : SpaceId) (v : Nat) : List Event → Int
  | [] => 0
  | e :: es => e.pinChange o v + pinBalance o v es

theorem Operation.LeavesPins.pinChange {op : Operation} (h : op.LeavesPins) (o : SpaceId)
    (v : Nat) : (Event.request op).pinChange o v = 0 := by
  cases op with
  | pin | unpin | unmapFile | exit => exact h.elim
  | _ => rfl

section Held

variable {p q t : Pager n} {i j : Fin n} {a b : Assignment}

/-- The frame has the assignment `a` but for its pins, of which there are so many more. -/
def Pager.HoldsPins (p : Pager n) (i : Fin n) (a : Assignment) (more : Int) : Prop :=
  ∃ pins : Nat, p.assignment? i = some { a with pins := pins } ∧ (pins : Int) = a.pins + more

theorem Pager.HoldsPins.of_same (hi : p.assignment? i = some a) : p.HoldsPins i a 0 :=
  ⟨a.pins, hi, (Int.add_zero _).symm⟩

/-- Changing the pins of a page changes the assignment of the frame of this page. -/
theorem Pager.FramesAgree.holdsPins_assign (hp : p.FramesAgree none) (hi : p.assignment? i = some a)
    (hj : p.assignment? j = some b) {pins : Nat} {more : Int}
    (hpins : b = a → (pins : Int) = a.pins + more) :
    (p.assign j (some { b with pins := pins })).HoldsPins i a
      (if b.owner = a.owner ∧ b.upage = a.upage then more else 0) := by
  have hafter := assignment?_assign p j i (some { b with pins := pins })
  by_cases hij : i = j
  · subst hij
    cases hi.symm.trans hj
    rw [if_pos rfl] at hafter
    rw [if_pos ⟨rfl, rfl⟩]
    exact ⟨pins, hafter, hpins rfl⟩
  · rw [if_neg hij, hi] at hafter
    rw [if_neg]
    · exact .of_same hafter
    · rintro ⟨howner, hupage⟩
      exact hij (hp.eq_of_same_page hi hj howner.symm hupage.symm)

theorem pin_held (hp : p.FramesAgree none) (hi : p.assignment? i = some a) (id : SpaceId)
    (upage : Nat) :
    ((pin id upage).run p).Meets
      (fun _ q => q.HoldsPins i a ((Event.request (.pin id upage)).pinChange a.owner a.upage))
      (fun _ q => q.HoldsPins i a ((Event.request (.pin id upage)).pinChange a.owner a.upage))
      (fun _ => False) := by
  unfold Event.pinChange
  refine (pin_spec p id upage).mono ?_ ?_ fun _ h => h
  · rintro j q ⟨b, hj, rfl, rfl, rfl⟩
    refine hp.holdsPins_assign hi hj ?_
    rintro rfl
    rfl
  · rintro _ q ⟨_, rfl, hnone⟩
    simp only
    -- the page is resident, so it is another one that is not
    rw [if_neg]
    · exact .of_same hi
    · rintro ⟨rfl, rfl⟩
      rw [resident?_of_assigned hp hi] at hnone
      cases hnone

theorem unpin_held (hp : p.FramesAgree none) (hi : p.assignment? i = some a) (hpins : a.pins ≠ 0)
    (id : SpaceId) (upage : Nat) :
    ((unpin id upage).run p).Meets
      (fun _ q => q.HoldsPins i a ((Event.request (.unpin id upage)).pinChange a.owner a.upage))
      (fun _ q => q.HoldsPins i a ((Event.request (.unpin id upage)).pinChange a.owner a.upage))
      (fun _ => False) := by
  unfold Event.pinChange
  refine (unpin_spec p id upage).mono ?_ ?_ fun _ h => h
  · rintro _ q ⟨j, b, hj, rfl, rfl, rfl⟩
    refine hp.holdsPins_assign hi hj ?_
    rintro rfl
    omega
  · rintro _ q ⟨rfl, hzero⟩
    simp only
    rw [if_neg]
    · exact .of_same hi
    · rintro ⟨rfl, rfl⟩
      exact hpins (hzero i a (resident?_of_assigned hp hi))

/-- What is taken down is not the page, unless that was asked for. -/
theorem Pager.TookDown.holdsPins {id : SpaceId} {gone : Nat → Prop} (h : p.TookDown id gone q)
    (hi : p.assignment? i = some a) (hkept : ¬(a.owner = id ∧ gone a.upage)) :
    q.HoldsPins i a 0 := .of_same ((h.assignment? i a).mpr ⟨hi, hkept⟩)

/-- What takes pages down and takes this one removes it. -/
theorem Change.Takes.removes {c : Change} {o : SpaceId} {v : Nat} (h : c.Takes v)
    (hdown : c.TakesDown o) : c.Removes o v := by
  cases c with
  | dropped id upage =>
    cases hdown
    cases h
    exact Or.inl rfl
  | vacated id =>
    cases hdown
    exact Or.inr rfl
  | _ => exact h.elim

theorem unmapFile_held (hp : p.Agrees none) (hi : p.assignment? i = some a) {id : SpaceId}
    (hid : id < p.spaces.size) (m : Nat)
    (hreleases : ¬ (Event.request (.unmapFile id m)).Releases p a.owner a.upage) :
    ((unmapFile id m).run p).Meets (fun _ q => q.HoldsPins i a 0) (fun _ q => q.HoldsPins i a 0)
      (fun _ => False) := by
  have hdown : ∀ {q}, p.Unmapped id m q → q.HoldsPins i a 0 := by
    intro q hq
    refine (hq.visibly.tookDown hp fun c => takesDown_of_mem_unmapChanges).holdsPins hi ?_
    rintro ⟨rfl, c, hc, htakes⟩
    exact hreleases ((Event.causes_of_mem_unmapChanges (Or.inl rfl) hc).releases
      (htakes.removes (takesDown_of_mem_unmapChanges hc)))
  exact (unmapFile_spec hp hid m).mono (fun _ _ h => hdown h) (fun _ _ h => hdown h.1)
    fun _ h => h

theorem exitSpace_held (hp : p.Agrees none) (hi : p.assignment? i = some a) {id : SpaceId}
    (hid : id < p.spaces.size)
    (hreleases : ¬ (Event.request (.exit id)).Releases p a.owner a.upage) :
    ((exitSpace id).run p).Meets (fun _ q => q.HoldsPins i a 0) (fun _ q => q.HoldsPins i a 0)
      (fun _ => False) := by
  obtain ⟨q, hrun, _, _, hdown, _⟩ := hp.exits hid
  rw [hrun]
  refine hdown.holdsPins hi ?_
  rintro ⟨rfl, _⟩
  exact hreleases .exited

/-- An event that does not release a pinned page leaves it in its frame, and changes its pins
only if it is a request to do so. -/
theorem Event.Passes.held {e : Event} (h : e.Passes p t) (hp : p.Agrees none) (he : e.Permitted p)
    (hi : p.assignment? i = some a) (hpins : a.pins ≠ 0)
    (hreleases : ¬ e.Releases p a.owner a.upage) :
    t.HoldsPins i a (e.pinChange a.owner a.upage) := by
  cases e with
  | rewrite file data medium? =>
    cases h
    exact .of_same hi
  | request op =>
    have hid := he.1
    by_cases hleaves : op.LeavesPins
    · have hsame := Operation.Passes.samePins hp he hleaves h i
      rw [pinned?_eq_some_iff.mpr ⟨hi, hpins⟩] at hsame
      rw [hleaves.pinChange]
      exact .of_same (pinned?_eq_some_iff.mp hsame).1
    -- the other requests pass no state but their last one
    · have hended : (op.perform.run p).Meets
          (fun _ q => q.HoldsPins i a ((Event.request op).pinChange a.owner a.upage))
          (fun _ q => q.HoldsPins i a ((Event.request op).pinChange a.owner a.upage))
          (fun _ => False) := by
        cases op with
        | pin id upage =>
          exact (pin_held hp.frames hi id upage).bind (fun _ _ h => h) (fun _ _ h => h)
            fun _ h => h
        | unpin id upage =>
          exact (unpin_held hp.frames hi hpins id upage).map _
        | unmapFile id m =>
          exact (unmapFile_held hp hi hid m hreleases).map _
        | exit id =>
          exact (exitSpace_held hp hi hid hreleases).map _
        | _ => exact absurd trivial hleaves
      cases h with
      | ended h => exact hended.of_state? h
      | _ => exact absurd trivial hleaves

/-- A pinned page stays in its frame, and its pins are counted, until an event releases it or
its last pin is taken back. -/
theorem Passed.held {es : List Event} (h : Passed p es t) (hp : p.Agrees none)
    (hi : p.assignment? i = some a)
    (hreleases : ∀ front e rest q, es = front ++ e :: rest → Run p front q →
      ¬ e.Releases q a.owner a.upage)
    (hheld : ∀ m, 0 < a.pins + pinBalance a.owner a.upage (es.take m)) :
    ∃ m, t.HoldsPins i a (pinBalance a.owner a.upage (es.take m)) := by
  have hpins : a.pins ≠ 0 := by
    have hzero := hheld 0
    rw [List.take_zero, pinBalance] at hzero
    omega
  induction h generalizing a with
  | start => exact ⟨0, .of_same hi⟩
  | within he h =>
    refine ⟨1, ?_⟩
    rw [List.take_succ_cons, List.take_zero, pinBalance, pinBalance, Int.add_zero]
    exact h.held hp he hi hpins (hreleases [] _ _ _ rfl .refl)
  | @later p q t e es he happly _ ih =>
    obtain ⟨pins, hq, hcount⟩ := (Event.passes_of_apply happly).held hp he hi hpins
      (hreleases [] _ _ _ rfl .refl)
    have hnext : ∀ m, (a.pins : Int) + pinBalance a.owner a.upage ((e :: es).take (m + 1))
        = pins + pinBalance a.owner a.upage (es.take m) := by
      intro m
      rw [List.take_succ_cons, pinBalance, hcount, Int.add_assoc]
    have hfirst := hheld 1
    rw [hnext 0, List.take_zero, pinBalance] at hfirst
    obtain ⟨m, k, hk, hcount'⟩ := ih (a := { a with pins := pins }) (Event.agrees hp he happly) hq
      (Run.forall_tail he happly hreleases) (fun m => hnext m ▸ hheld (m + 1))
      (by simp only; omega)
    exact ⟨m + 1, k, hk, hcount'.trans (hnext m).symm⟩

end Held

/-! ## What a pinned frame holds -/

/-- The event is a copy to user memory that brings the byte to this place. -/
def Event.Brings (o : SpaceId) (a : Nat) (y : UInt8) (e : Event) : Prop :=
  ∃ address bytes, e = .request (.write o address bytes) ∧ address ≤ a
    ∧ bytes[a - address]? = some y

theorem Event.brings_of_storedByte? {p : Pager n} {e : Event} {o : SpaceId} {a : Nat} {y : UInt8}
    (h : e.storedByte? p o a = some y) : e.Brings o a y := by
  unfold Event.storedByte? at h
  split at h
  next id address bytes =>
    obtain ⟨⟨rfl, hlow, _⟩, hbyte⟩ := Option.ite_none_right_eq_some.mp h
    exact ⟨address, bytes, rfl, hlow, hbyte⟩
  next => cases h

/-- By the time that an event passes a state a byte is what it was, or what the event brings. -/
theorem Event.HasMade.byte_or_brings {p : Pager n} {e : Event} {cs : List Change}
    (h : e.HasMade p cs) (o : SpaceId) (a : Nat) (b? : Option UInt8) :
    cs.foldl (Change.byteAfter o a) b? = b?
      ∨ ∃ y, e.Brings o a y ∧ cs.foldl (Change.byteAfter o a) b? = some y := by
  rcases h with hmakes | ⟨id, address, bytes, front, rest, rfl, _, hchunks, rfl⟩
  · rw [hmakes.foldl_byteAfter]
    cases hy : e.storedByte? p o a with
    | none => exact Or.inl rfl
    | some y => exact Or.inr ⟨y, Event.brings_of_storedByte? hy, rfl⟩
  · have htotal := totalCount_chunks address bytes.length
    rw [hchunks, totalCount_append] at htotal
    rw [foldl_byteAfter_storesOf hchunks]
    split
    next hin =>
      obtain ⟨rfl, hlow, hhigh⟩ := hin
      have hbyte := List.getElem?_eq_getElem (l := bytes) (i := a - address) (by omega)
      exact Or.inr ⟨_, ⟨address, bytes, rfl, hlow, hbyte⟩, hbyte⟩
    next => exact Or.inl rfl

section Backs

variable {p q t : Pager n} {o : SpaceId} {v : Nat} {i : Fin n}

/-- The frame is assigned to the page. -/
def Pager.Backs (p : Pager n) (i : Fin n) (o : SpaceId) (v : Nat) : Prop :=
  ∃ a, p.assignment? i = some a ∧ a.owner = o ∧ a.upage = v

theorem Pager.Backs.framed? (h : p.Backs i o v) (hp : p.FramesAgree none) :
    p.framed? o v = some (p.page i) := by
  obtain ⟨a, hi, rfl, rfl⟩ := h
  exact hp.framed?_of_assigned hi (by simp)

theorem Pager.Backs.pageAligned (h : p.Backs i o v) (hp : p.FramesAgree none) : PageAligned v := by
  obtain ⟨a, hi, rfl, rfl⟩ := h
  exact (hp.upage i a hi).1

/-- What an event changes in a frame that stays with its page are bytes that it copies there. -/
theorem Event.Passes.byte_or_brings {e : Event} (h : e.Passes p t) (hp : p.Agrees none)
    (he : e.Permitted p) (hfirst : p.Backs i o v) (hbacks : ∀ s, e.Passes p s → s.Backs i o v)
    {j : Nat} (hj : j < pageSize) :
    (t.page i).bytes[j]? = (p.page i).bytes[j]?
      ∨ ∃ y, e.Brings o (v + j) y ∧ (t.page i).bytes[j]? = some y := by
  have hframed : ∀ s, e.Passes p s → s.framed? o v = some (s.page i) := fun s hs =>
    (hbacks s hs).framed? (hs.agrees hp he).frames
  obtain ⟨cs, hmade, hthrough⟩ := h.through hp he
  obtain ⟨page, hpage, hbytes, _⟩ := Event.HasMade.framed?_of_stays hp he hmade hthrough
    (hfirst.pageAligned hp.frames) (fun s hs => Option.isSome_of_eq_some (hframed s hs))
    (hfirst.framed? hp.frames)
  cases hpage.symm.trans (hframed t h)
  rw [hbytes j hj]
  exact hmade.byte_or_brings o (v + j) _

/-- After a run a frame that stayed with its page holds what was copied there last. -/
theorem Run.byte_eq_lastStored? {es : List Event} (hrun : Run p es t) (hp : p.Agrees none)
    (hbacks : ∀ s, Passed p es s → s.Backs i o v) {j : Nat} (hj : j < pageSize) :
    (t.page i).bytes[j]? = (p.lastStored? o (v + j) es).or (p.page i).bytes[j]? := by
  have hframed : ∀ s, Passed p es s → s.framed? o v = some (s.page i) := fun s hs =>
    (hbacks s hs).framed? (hs.agrees hp).frames
  obtain ⟨page, hpage, hbytes, _⟩ := hrun.framed?_of_stays hp
    ((hbacks p .start).pageAligned hp.frames) (fun s hs => Option.isSome_of_eq_some (hframed s hs))
    (hframed p .start)
  cases hpage.symm.trans (hframed t hrun.passed)
  exact hbytes j hj

end Backs

namespace Pager

/-- A pin holds the page in place. After a request that pinned a page, and through any events on
any spaces, as long as the page is not released and its pins are not taken back more often than
they are set: in each state on the way the page is mapped to the frame that the request answered,
and this frame is assigned to the page and pinned; what an event changes in the frame are bytes
that it copies to the page for its own process; and after each run the frame holds what was
copied last. -/
theorem Reachable.pin_holds {p q : Pager n} {o : SpaceId} {v : Nat} {i : Fin n} {es : List Event}
    (hp : p.Reachable) (hpin : (pin o v).run p = .done i q)
    (hreleases : ∀ front e rest r, es = front ++ e :: rest → Run q front r → ¬ e.Releases r o v)
    (hheld : ∀ m, 0 ≤ pinBalance o v (es.take m)) :
    (∀ t, Passed q es t → t.address? o v = some (p.frameAddress i)
        ∧ ∃ pins, t.assignment? i = some ⟨o, v, pins + 1, false⟩)
      ∧ (∀ front e rest r t, es = front ++ e :: rest → Run q front r → e.Permitted r →
          e.Passes r t → ∀ j, j < pageSize → (t.page i).bytes[j]? = (r.page i).bytes[j]?
            ∨ ∃ y, e.Brings o (v + j) y ∧ (t.page i).bytes[j]? = some y)
      ∧ ∀ t, Run q es t → ∀ j, j < pageSize →
          (t.page i).bytes[j]? = (q.lastStored? o (v + j) es).or (p.page i).bytes[j]? := by
  have hagrees := hp.visited.agrees
  have hspec := pin_spec p o v
  rw [hpin] at hspec
  obtain ⟨a, hi, rfl, rfl, hq⟩ := hspec
  have hpage : q.page i = p.page i := by
    rw [hq]
    rfl
  have hassigned : q.assignment? i = some { a with pins := a.pins + 1 } := by
    rw [hq, assignment?_assign, if_pos rfl]
  have hmove : Quiet (fun _ => True) p none q none := hq ▸ .pinned hi
  have hq := hmove.agrees hagrees
  -- the first pin is never taken back
  have hholds : ∀ t, Passed q es t →
      ∃ pins, t.assignment? i = some { a with pins := pins + 1 } := by
    intro t ht
    obtain ⟨m, pins, hpins, hcount⟩ := ht.held hq hassigned hreleases fun m => by
      have hbalance := hheld m
      simp only
      omega
    have hbalance := hheld m
    cases pins with
    | zero =>
      simp only at hcount
      omega
    | succ pins => exact ⟨pins, hpins⟩
  have hbacks : ∀ t, Passed q es t → t.Backs i a.owner a.upage := fun t ht => by
    obtain ⟨pins, hpins⟩ := hholds t ht
    exact ⟨_, hpins, rfl, rfl⟩
  refine ⟨?_, ?_, ?_⟩
  · intro t ht
    obtain ⟨pins, hpins⟩ := hholds t ht
    have hframes := (ht.agrees hq).frames
    have hevicting : a.evicting = false := hagrees.frames.evicting i a hi
    have haddress : t.frameAddress i = p.frameAddress i :=
      (ht.frameAddress hq i).trans (frameAddress_congr hmove.base i)
    exact ⟨(hframes.mapped i _ hpins (by simp)).trans (congrArg some haddress), pins,
      hevicting ▸ hpins⟩
  · intro front e rest r t hsplit hrun he hpasses j hj
    subst hsplit
    exact hpasses.byte_or_brings (hrun.agrees hq) he (hbacks r (.append_left hrun .start))
      (fun s hs => hbacks s (.append_left hrun (.within he hs))) hj
  · intro t hrun j hj
    rw [← hpage]
    exact hrun.byte_eq_lastStored? hq hbacks hj

/-- Two frames, of which one holds the top page of a stack. -/
def stackTouched : Pager 2 := (small 2 #[] #[1]).ran [.request (.fault 0 topPage topPage)]

/-- Two more pages of the stack are touched, and the top page is written to, pinned once more,
loaded and unpinned. -/
def stackUsed : List Event :=
  [.request (.fault 0 nextPage nextPage),
    .request (.fault 0 (nextPage - pageSize) (nextPage - pageSize)),
    .request (.write 0 topPage [7, 8]), .request (.pin 0 topPage), .request (.load 0 topPage),
    .request (.unpin 0 topPage)]

/-- While the top page of a stack is pinned the other pages share the second frame: it is the page
below that is evicted. The bytes that are written to the top page are in the first frame. -/
theorem Reachable.pin_holds_small :
    ∃ q t, (pin 0 topPage).run stackTouched = .done 0 q ∧ Run q stackUsed t
      ∧ t.address? 0 topPage = some 0 ∧ t.address? 0 nextPage = none
      ∧ (t.page 0).bytes[1]? = some 8 := by
  have hstart : Run (small 2 #[] #[1]) _ stackTouched := run_ran (by decide +kernel)
  have hreachable : stackTouched.Reachable := ⟨_, _, isStart_small (by decide) _ _, hstart⟩
  obtain ⟨q, hq⟩ : ∃ q, q = stackTouched.assign 0 (some ⟨0, topPage, 1, false⟩) := ⟨_, rfl⟩
  have hpin : (pin 0 topPage).run stackTouched = .done 0 q := by
    have hresident : stackTouched.resident? 0 topPage = some (0, ⟨0, topPage, 0, false⟩) := by
      decide +kernel
    unfold pin
    simp only [run_bind, run_read, hresident]
    exact hq ▸ rfl
  obtain ⟨hruns, hframe, hevicted, hstored⟩ : (q.run? stackUsed).isSome = true
      ∧ stackTouched.frameAddress 0 = 0
      ∧ (q.ran stackUsed).address? 0 nextPage = none
      ∧ q.lastStored? 0 (topPage + 1) stackUsed = some 8 := by
    subst hq
    decide +kernel
  have hrun := run_ran hruns
  have hreleases : ∀ front e rest r, stackUsed = front ++ e :: rest → Run q front r →
      ¬ e.Releases r 0 topPage := by
    intro front e rest r hsplit _ hreleases
    have he : e ∈ stackUsed := hsplit ▸ List.mem_append_right _ (List.mem_cons_self ..)
    simp only [stackUsed, List.mem_cons, List.not_mem_nil, or_false] at he
    rcases he with rfl | rfl | rfl | rfl | rfl | rfl <;> cases hreleases
  have hheld : ∀ m, 0 ≤ pinBalance 0 topPage (stackUsed.take m) := by
    intro m
    by_cases hm : m < 6
    · exact (by decide : ∀ m, m < 6 → 0 ≤ pinBalance 0 topPage (stackUsed.take m)) m hm
    · rw [List.take_of_length_le (Nat.not_lt.mp hm)]
      decide
  obtain ⟨hstays, _, hbytes⟩ := Reachable.pin_holds hreachable hpin hreleases hheld
  refine ⟨q, _, hpin, hrun, ?_, hevicted, ?_⟩
  · rw [(hstays _ hrun.passed).1, hframe]
  · rw [hbytes _ hrun 1 (by decide), hstored]
    rfl

end Pager

end DemandPaging

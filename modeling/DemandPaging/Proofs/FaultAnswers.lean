import DemandPaging.Proofs.OwnedPages
import DemandPaging.Proofs.Pins
import DemandPaging.Proofs.RepeatedLoads
import DemandPaging.Proofs.WritablePages
/-!
# What a fault is answered

A fault is answered by where it is: well if the process has the page, wherever the page is and
whatever the stack pointer is; and if it does not have it, well just where the stack grows. Then
the page is in a frame, may be written as it should be, and is pinned as often as before
(`Visited.handles_fault`).
-/

namespace DemandPaging

open Pager PagerAction Outcome

variable {n : Nat}

/-- Whether the stack grows to an address, in words of 64 bits: sums that do not fit in one are cut
off. -/
def PagerConfig.GrowsStackTo (c : PagerConfig) (address stackPointer : Nat) : Prop :=
  stackPointer ≤ min (address + c.stackSlack) (UInt64.size - 1) ∧ userTop - c.stackLimit ≤ address

theorem PagerConfig.isNearStack_iff (c : PagerConfig) (address : Nat) {stackPointer : Nat}
    (hpointer : stackPointer < UInt64.size) :
    c.isNearStack address stackPointer = true ↔ c.GrowsStackTo address stackPointer := by
  unfold isNearStack GrowsStackTo
  rw [Bool.and_eq_true, decide_eq_true_iff, decide_eq_true_iff]
  exact and_congr_left' (by omega)

/-- An access is wrong if the address is none of user space, or the process does not have the page
and the stack does not grow there. -/
theorem badAccess_iff {p : Pager n} {id : SpaceId} {address stackPointer : Nat}
    (hpointer : stackPointer < UInt64.size) :
    BadAccess p id address stackPointer ↔ address = 0 ∨ ¬ IsUserAddress address
      ∨ ¬ p.Owns id (pageBase address) ∧ ¬ p.config.GrowsStackTo address stackPointer := by
  unfold BadAccess Pager.Owns
  rw [← p.config.isNearStack_iff address hpointer, Bool.not_eq_true, not_or, not_not, not_not,
    and_assoc]

/-- **What a fault is answered.** It is done only if the address is one of user space, and the
process has the page or the stack grows there. Then the page is mapped to a frame that is assigned
to it; it may be written just if it is one of the stack, of a mapping or of a writable segment;
nothing was done if it was mapped before, and else it is not pinned; all other pins are as they
were; and the same fault again does nothing. It fails with `badAddress` only if the access was
wrong, and never if the process has the page; then nothing has changed. With any other error the
process has the page, and it could not be loaded. -/
theorem Pager.Visited.handles_fault {p : Pager n} (hp : p.Visited) {id : SpaceId}
    (hid : id < p.spaces.size) (address : Nat) {stackPointer : Nat}
    (hpointer : stackPointer < UInt64.size) :
    ((handleFault id address stackPointer).run p).Meets
      (fun _ q => address ≠ 0 ∧ IsUserAddress address
        ∧ (p.Owns id (pageBase address) ∨ p.config.GrowsStackTo address stackPointer)
        ∧ (∃ i a, q.assignment? i = some a ∧ a.owner = id ∧ a.upage = pageBase address
            ∧ q.address? id (pageBase address) = some (q.frameAddress i)
            ∧ (q = p ∨ p.address? id (pageBase address) = none ∧ a.pins = 0))
        ∧ q.has .writable id (pageBase address) = p.permitsWrites id (pageBase address)
        ∧ p.SamePins q
        ∧ (handleFault id address stackPointer).run q = .done () q)
      (fun e q => e = .badAddress ∧ q = p
            ∧ (address = 0 ∨ ¬ IsUserAddress address
              ∨ ¬ p.Owns id (pageBase address) ∧ ¬ p.config.GrowsStackTo address stackPointer)
          ∨ e ≠ .badAddress ∧ address ≠ 0 ∧ IsUserAddress address
            ∧ p.Owns id (pageBase address))
      (OutOfFrames p id (pageBase address)) := by
  have hagrees := hp.agrees
  have haligned := pageAligned_pageBase address
  refine (((handleFault_serves hagrees hid address stackPointer).and
    (handleFault_spec hagrees hid address stackPointer)).and
    ((handleFault_pins hagrees hid address stackPointer).and (.self _ p))).mono ?_ ?_
    fun _ h => h.1.1
  · intro _ q h
    obtain ⟨⟨⟨hgood, hserved⟩, _, hleads⟩, hpins, hrun⟩ := h
    rw [badAccess_iff hpointer] at hgood
    simp only [not_or, not_and_or, not_not] at hgood
    obtain ⟨hzero, huser, hpage⟩ := hgood
    obtain ⟨cs, hchain⟩ : ∃ cs, Chain (fun _ => True) p none cs q none :=
      hleads.elim (fun h => ⟨_, h.1.chain⟩) fun h => ⟨_, h.2.2.chain⟩
    have hq := hchain.agrees hagrees
    have hmapped := hserved.isMapped hagrees hq haligned
    obtain ⟨i, a, ha, howner, hupage, hbefore⟩ := hserved.assigned hagrees haligned
    have haddr : q.address? id (pageBase address) = some (q.frameAddress i) := by
      rw [← howner, ← hupage]
      exact hq.frames.mapped i a ha (by simp)
    have hwrites := (hchain.writesAgree hagrees haligned (hp.writesAgree haligned)).flagged
      (by rwa [hq.frames.isSome_framed?])
    rw [permitsWrites_of_origin? hserved.origin?] at hwrites
    exact ⟨hzero, huser, hpage, ⟨i, a, ha, howner, hupage, haddr, hbefore⟩, hwrites, hpins,
      run_handleFault_of_mapped hq (by rwa [address?_pageBase] at hmapped) hzero stackPointer⟩
  · intro e q h
    obtain ⟨⟨hserves, _, hfails⟩, _⟩ := h
    rcases hserves with ⟨rfl, hwrong, rfl⟩ | hunread
    · exact Or.inl ⟨rfl, rfl, (badAccess_iff hpointer).mp hwrong⟩
    · have hne := hunread.ne_badAddress
      obtain ⟨hd, hzero, huser, _⟩ := hfails.resolve_left fun h => hne h.1
      exact Or.inr ⟨hne, hzero, huser, Or.inl (Option.isSome_iff_ne_none.mp hd)⟩

/-- With one frame, the top page of a stack was sent to a slot by the page below it. A fault in it
brings it back though the stack pointer is far above, and it may be written. -/
theorem Pager.Visited.handles_fault_oneFrame :
    ∃ q, (handleFault 0 topPage (UInt64.size - 1)).run ((oneFrame #[]).ran twoStackPages)
        = .done () q
      ∧ (∃ a, q.assignment? 0 = some a ∧ a.upage = topPage ∧ a.pins = 0)
      ∧ q.has .writable 0 topPage = true
      ∧ (handleFault 0 topPage (UInt64.size - 1)).run q = .done () q := by
  have hreach : ((oneFrame #[]).ran twoStackPages).Reachable :=
    ⟨_, _, isStart_oneFrame #[], run_ran (by decide +kernel)⟩
  have hid : 0 < ((oneFrame #[]).ran twoStackPages).spaces.size := by decide +kernel
  have hgone : ((oneFrame #[]).ran twoStackPages).address? 0 topPage = none := by decide +kernel
  have hdone : ((handleFault 0 topPage (UInt64.size - 1)).run
      ((oneFrame #[]).ran twoStackPages)).isDone = true := by decide +kernel
  obtain ⟨_, q, hrun⟩ := eq_done hdone
  have hspec := hreach.visited.handles_fault hid topPage
    (by decide : UInt64.size - 1 < UInt64.size)
  rw [hrun] at hspec
  obtain ⟨_, _, _, ⟨i, a, ha, _, hupage, hmapped, hbefore⟩, hwritable, _, hagain⟩ := hspec
  rw [Subsingleton.elim i 0] at ha
  have hpins : a.pins = 0 := by
    rcases hbefore with rfl | ⟨_, hpins⟩
    · exact absurd (hgone.symm.trans hmapped) (by simp)
    · exact hpins
  exact ⟨q, hrun, ⟨a, ha, hupage, hpins⟩, hwritable.trans (by decide +kernel), hagain⟩

end DemandPaging

/-!
# Ticket locks

A lock that serves whoever comes first: to lock is to draw the next ticket and
wait until it is being served. A guard is the ticket that is being served; giving
it back serves the next one. The lock is free when nobody holds a ticket.

In the kernel this is the `TicketMutex` inside `Mutex`, as far as one thread can tell. The
wait is left out: `draw` is the first half of `lock`, and `serves` is what ends the other.
-/

namespace DemandPaging

/-- A value that one holder at a time may use. -/
structure TicketLock (α : Type) where
  value : α
  nextTicket : Nat := 0
  nowServing : Nat := 0

namespace TicketLock

variable {α : Type}

/-- Whether someone holds a ticket. -/
def isLocked (l : TicketLock α) : Bool := l.nowServing != l.nextTicket

/-- Draw a ticket, without waiting for it. -/
def draw (l : TicketLock α) : Nat × TicketLock α :=
  (l.nextTicket, { l with nextTicket := l.nextTicket + 1 })

/-- Whether the holder of a ticket may use the value. -/
def serves (l : TicketLock α) (ticket : Nat) : Bool := l.nowServing == ticket

/-- Draw a ticket only if it is served at once. -/
def tryLock (l : TicketLock α) : Option (Nat × TicketLock α) :=
  if l.isLocked then none else some l.draw

/-- Give a ticket back and serve the next one. -/
def unlock (l : TicketLock α) (ticket : Nat) : TicketLock α := { l with nowServing := ticket + 1 }

/-- Replace the value. -/
def write (l : TicketLock α) (value : α) : TicketLock α := { l with value := value }

/-- The lock in one line; the value is shown only while nobody holds it. -/
def describe (l : TicketLock α) (text : α → String) : String :=
  if l.isLocked then "Mutex \x7b <locked> \x7d" else "Mutex \x7b data: " ++ text l.value ++ " \x7d"

/-- A ticket drawn from a free lock is served at once, and giving it back leaves
the lock free. -/
theorem serves_of_tryLock {l m : TicketLock α} {ticket : Nat} (h : l.tryLock = some (ticket, m)) :
    m.serves ticket = true ∧ m.isLocked = true ∧ (m.unlock ticket).isLocked = false := by
  unfold tryLock at h
  split at h
  next => cases h
  next hfree =>
    cases h
    have heq : l.nowServing = l.nextTicket := by simpa [isLocked] using hfree
    refine ⟨by simp [serves, heq], ?_, by simp [isLocked, unlock]⟩
    simp only [isLocked, heq, bne_iff_ne]
    omega

end TicketLock

end DemandPaging

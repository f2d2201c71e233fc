import DemandPaging.Frames.Table
import DemandPaging.Word
/-!
# Choosing a page to evict

The clock: a hand goes round the frames. It passes over frames that are
unassigned, pinned, or being evicted. A frame whose page was accessed since the
hand last came by gets a second chance, which costs it the accessed flag; the
first other frame is the victim. The hand stops one frame further on and stays
there until the next search.

How many frames the hand looks at is settled beforehand, and that number is a word: if
going round so often would take more steps than a word can count, the search stops the
system, or looks at as many frames as the word then says.

In the kernel `search` is `select_victim`.
-/

namespace DemandPaging.SecondChance

variable {n : Nat}

/-- The assignment of the frame under the hand, if the frame may be reclaimed. -/
def candidate? (assignments : Vector (Option Assignment) n) (hand : Nat) :
    Option (Fin n × Assignment) :=
  if h : hand < n then
    match assignments[hand] with
    | some a => if a.isCandidate then some (⟨hand, h⟩, a) else none
    | none => none
  else none

/-- Move the hand for at most `steps` frames. Answers the victim, where the hand
stopped, and the spaces with the accessed flags that were taken away. -/
def sweep (assignments : Vector (Option Assignment) n) :
    (steps hand : Nat) → Spaces → Option (Fin n) × Nat × Spaces
  | 0, hand, spaces => (none, hand, spaces)
  | steps + 1, hand, spaces =>
    match candidate? assignments hand with
    | none => sweep assignments steps ((hand + 1) % n) spaces
    | some (i, a) =>
      if (spaces.lookup a.owner).directory.accessed a.upage then
        sweep assignments steps ((hand + 1) % n)
          (spaces.update a.owner fun s =>
            { s with directory := s.directory.setFlag .accessed a.upage false })
      else (some i, (hand + 1) % n, spaces)

/-- Search for a victim, going round at most `revolutions` times. -/
def search (overflow : Overflow) (assignments : Vector (Option Assignment) n)
    (revolutions hand : Nat) (spaces : Spaces) :
    Except Fatal (Option (Fin n) × Nat × Spaces) :=
  match overflow.word (n * revolutions) with
  | .ok steps => .ok (sweep assignments steps hand spaces)
  | .error fatal => .error fatal

end DemandPaging.SecondChance

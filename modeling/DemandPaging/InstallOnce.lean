import DemandPaging.Failure
/-!
# The system-wide instance

A place that is filled once, when the system starts, and read from then on. To
fill it again, or to read it before, is fatal.

In the kernel the two are the functions `install` and `get` of the system.
-/

namespace DemandPaging

/-- A place for one value. -/
structure InstallOnce (α : Type) where
  content? : Option α := none

namespace InstallOnce

variable {α : Type}

/-- Fill the place. -/
def install (c : InstallOnce α) (value : α) : Except Fatal (InstallOnce α) :=
  match c.content? with
  | none => .ok ⟨some value⟩
  | some _ => .error .installedTwice

/-- Read the place. -/
def get (c : InstallOnce α) : Except Fatal α :=
  match c.content? with
  | some value => .ok value
  | none => .error .notInstalled

theorem get_of_install {c d : InstallOnce α} {value : α} (h : c.install value = .ok d) :
    d.get = .ok value := by
  unfold install at h
  split at h
  next => cases h; rfl
  next => cases h

end InstallOnce

end DemandPaging

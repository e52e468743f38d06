import FragmentSynthesis.Faults

/-!
Changes that go through a tree in a fixed order and stop at the first fault. What was changed
before the fault stays changed, and nothing is changed after it.
-/

namespace FragmentSynthesis.StoppingChanges

open FragmentSynthesis.Faults

/-- A computation that carries the fault at which it stopped, if it did. -/
abbrev Stopping := StateM (Option Fault)

/-- Stops at a fault, unless an earlier one did. -/
def stop (fault : Fault) : Stopping Unit :=
  modify fun stopped => stopped.or (some fault)

/-- The changed value, or the old one after a fault. -/
def change {α : Type} (old new : α) : Stopping α := do
  match ← get with
  | none => return new
  | some _ => return old

/-- The result of all changes and the fault that stopped them. -/
def finish {α : Type} (x : Stopping α) : α × Option Fault :=
  x.run none

@[simp] theorem run_change_none {α : Type} (old new : α) :
    (change old new).run none = (new, none) := rfl

/-- What follows a change that was not stopped goes on with its result. -/
theorem run_bind_none {α β : Type} {x : Stopping α} {a : α} (h : x.run none = (a, none))
    (next : α → Stopping β) : (x >>= next).run none = (next a).run none := by
  rw [StateT.run_bind, h]
  rfl

end FragmentSynthesis.StoppingChanges

import MachineInterface.Breakpoint.Basic
import MachineInterface.Table

/-!
# The breakpoint board

The breakpoints that stand, by location, and the locations for which one is on its way.

* `reserve?_eq_none_iff`: a location can be reserved exactly when it is free.
* `mem_takeSource_kept`: clearing a file keeps the breakpoints of all others.
-/

namespace MachineInterface

/-- Installed breakpoints and reserved locations. -/
structure Board where
  installed : Table Location Breakpoint := {}
  reserved : List Location := []
  deriving Repr, DecidableEq

namespace Board

/-- Whether a location has no breakpoint and none is on its way. -/
def isFree (b : Board) (l : Location) : Bool := !b.installed.contains l && !b.reserved.contains l

/-- The board with a free location reserved. -/
def reserve? (b : Board) (l : Location) : Option Board :=
  if b.isFree l then some { b with reserved := l :: b.reserved } else none

/-- A location can be reserved exactly when it is free. -/
theorem reserve?_eq_none_iff {b : Board} {l : Location} :
    b.reserve? l = none ↔ b.isFree l = false := by
  unfold reserve?
  split <;> simp_all

/-- The board with a reservation ended, and with the breakpoint that came of it. -/
def settle (b : Board) (l : Location) (outcome : Option Breakpoint) : Board :=
  { installed := match outcome with
      | some bp => b.installed.insert l bp
      | none => b.installed
    reserved := b.reserved.filter (· ≠ l) }

/-- The breakpoint at a location. -/
def get? (b : Board) (l : Location) : Option Breakpoint := b.installed.get? l

/-- A breakpoint by its number. -/
def byId? (b : Board) (id : UInt32) : Option Breakpoint := b.installed.values.find? (·.id = id)

/-- The board without the breakpoint at a location. -/
def remove (b : Board) (l : Location) : Board := { b with installed := b.installed.erase l }

/-- Breakpoints by number. -/
def sortById (bps : List Breakpoint) : List Breakpoint := bps.mergeSort (·.id ≤ ·.id)

/-- The breakpoints whose file is `source`, by number, and the board without them. -/
def takeSource (b : Board) (source : Option String) : List Breakpoint × Board :=
  (sortById (b.installed.values.filter (·.file = source)),
    { b with installed := ⟨b.installed.entries.filter (·.2.file ≠ source)⟩ })

/-- Clearing a file keeps the breakpoints of all others. -/
theorem mem_takeSource_kept {b : Board} {source : Option String} {e : Location × Breakpoint} :
    e ∈ (b.takeSource source).2.installed.entries ↔
      e ∈ b.installed.entries ∧ e.2.file ≠ source := by
  simp [takeSource]

/-- The breakpoints that stand, by number. -/
def toList (b : Board) : List Breakpoint := sortById b.installed.values

/-- The number of breakpoints that stand. -/
def size (b : Board) : Nat := b.installed.size

end Board

end MachineInterface

import MachineInterface.Record.Basic
import MachineInterface.Text.Numeral

/-!
# Registers

The debugger lists the names of all registers once and their values by number.

* `name_ne_empty`: a register that is shown has a name.
-/

namespace MachineInterface

open Text

/-- A register and its value. -/
structure Register where
  number : UInt32
  name : String
  value : String
  deriving Repr, DecidableEq

namespace Register

/-- The register that an entry of a list of values describes, if the register has a name. -/
def ofValue? (names : List String) (v : Value) : Option Register := do
  let number ← (← v.lookupText? "number") |> Numeral.readUInt32?
  let name ← (names[number.toNat]?).filter (!·.isEmpty)
  return { number, name, value := (v.lookupText? "value").getD "" }

/-- A register that is shown has a name. -/
theorem name_ne_empty {names : List String} {v : Value} {r : Register}
    (h : ofValue? names v = some r) : r.name ≠ "" := by
  simp only [ofValue?, Option.bind_eq_bind, Option.bind_eq_some_iff, Option.filter_eq_some_iff,
    Option.pure_def, Option.some.injEq] at h
  obtain ⟨_, _, _, _, name, ⟨_, hname⟩, rfl⟩ := h
  rintro rfl
  simp at hname

end Register

end MachineInterface

import MachineInterface.Text.Numeral

/-!
# Log levels

How much a log keeps. A level is written as a word in any case, or as its number.

* `ofText?_text`: every level is read back from its word.
* `ofText?_number`: every level is read from its place among all levels.
-/

namespace MachineInterface

open Text

/-- How much a log keeps. -/
inductive LogLevel where
  | off
  | error
  | warn
  | info
  | debug
  | trace
  deriving Repr, DecidableEq

namespace LogLevel

/-- The levels from the least to the most. -/
def all : List LogLevel := [off, error, warn, info, debug, trace]

/-- The word for a level. -/
def text : LogLevel → String
  | off => "off"
  | error => "error"
  | warn => "warn"
  | info => "info"
  | debug => "debug"
  | trace => "trace"

/-- A text in lower case, for its ASCII letters. -/
def lower (s : String) : String := String.ofList (s.toList.map Char.toLower)

/-- The level that a word or a number stands for. -/
def ofText? (s : String) : Option LogLevel :=
  ((Numeral.readNat? 10 6 s.toList).bind (all[·]?)).or (all.find? (·.text = lower s))

/-- Every level is read back from its word. -/
theorem ofText?_text (level : LogLevel) : ofText? level.text = some level := by
  cases level <;> rfl

/-- Every level is read from its place among all levels. -/
theorem ofText?_number : ["0", "1", "2", "3", "4", "5"].map ofText? = all.map some := rfl

end LogLevel

end MachineInterface

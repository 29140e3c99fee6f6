import MachineInterface.Text.Numeral

/-!
# Hit counts

A breakpoint may ask to stop only after some hits. The debugger knows two such rules; any other
request stops once.

* `modifiers_breakAfter_zero`: a count of zero asks for nothing.
-/

namespace MachineInterface

open Text

/-- How many hits pass before a breakpoint stops the program. -/
inductive HitPolicy where
  /-- Ignore the first hits, then stop on each. -/
  | skipFirst (count : UInt32)
  /-- Stop once, after some hits. -/
  | breakAfter (count : UInt32)
  /-- A request that the debugger cannot follow. -/
  | unsupported (text : String)
  deriving Repr, DecidableEq

namespace HitPolicy

/-- The first run of digits of a text. -/
def firstDigits (cs : List Char) : List Char :=
  (cs.dropWhile (!Numeral.isDigit ·)).takeWhile Numeral.isDigit

/-- The number that the first run of digits stands for. -/
def firstNumber? (cs : List Char) : Option UInt32 :=
  (Numeral.readNat? 10 0x100000000 (firstDigits cs)).map UInt32.ofNat

/-- The policy that a text asks for: a number, or a number after a greater-than sign. -/
def ofText (text : String) : HitPolicy :=
  match text.toList with
  | '>' :: rest => ((firstNumber? rest).map skipFirst).getD (unsupported text)
  | cs =>
    if firstDigits cs = cs then ((firstNumber? cs).map breakAfter).getD (unsupported text)
    else unsupported text

/-- The options of the command that inserts a breakpoint, each followed by a space. -/
def modifiers : HitPolicy → String
  | skipFirst count => "-i " ++ toString count.toNat ++ " "
  | breakAfter count => if count = 0 then "" else "-t -i " ++ toString count.toNat ++ " "
  | unsupported _ => "-t "

/-- A count of zero asks for nothing. -/
@[simp] theorem modifiers_breakAfter_zero : (breakAfter 0).modifiers = "" := rfl

end HitPolicy

end MachineInterface

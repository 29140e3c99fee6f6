import MachineInterface.Record.Basic
import MachineInterface.Text.CString

/-!
# Writing a record

The line that a debugger prints for a record. Every text is quoted; names and words stand bare.

* `printFields_append`, `printItems_append`: what follows a comma is printed piece by piece.
-/

namespace MachineInterface

open Text

namespace Value

/-- A text as a quoted constant. -/
def printText (text : String) : List Char := '"' :: CString.encodeChars text.toList ++ ['"']

/-- The name of an item with its equals sign. -/
def printKey : Option String → List Char
  | none => []
  | some name => name.toList ++ ['=']

mutual

/-- A value as the debugger prints it. -/
def print : Value → List Char
  | const text => printText text
  | tuple [] => ['{', '}']
  | tuple ((name, v) :: fields) =>
    '{' :: name.toList ++ '=' :: print v ++ printFields fields ++ ['}']
  | list [] => ['[', ']']
  | list ((name, v) :: items) => '[' :: printKey name ++ print v ++ printItems items ++ [']']

/-- Fields as the debugger prints them, each after a comma. -/
def printFields : List Field → List Char
  | [] => []
  | (name, v) :: fields => ',' :: name.toList ++ '=' :: print v ++ printFields fields

/-- Items as the debugger prints them, each after a comma. -/
def printItems : List Item → List Char
  | [] => []
  | (name, v) :: items => ',' :: printKey name ++ print v ++ printItems items

end

theorem printFields_append (xs ys : List Field) :
    printFields (xs ++ ys) = printFields xs ++ printFields ys := by
  induction xs with
  | nil => simp [printFields]
  | cons x xs ih => simp [printFields, ih]

theorem printItems_append (xs ys : List Item) :
    printItems (xs ++ ys) = printItems xs ++ printItems ys := by
  induction xs with
  | nil => simp [printItems]
  | cons x xs ih => simp [printItems, ih]

end Value

/-- The number of a command as the debugger prints it. -/
def printToken (token : Option UInt64) : List Char :=
  (token.map fun t => Nat.toDigits 10 t.toNat).getD []

/-- The line for a result. -/
def ResultRecord.print (r : ResultRecord) : List Char :=
  printToken r.token ++ '^' :: r.outcome.text.toList ++ Value.printFields r.fields

/-- The line for a notice. -/
def Notice.print (n : Notice) : List Char :=
  printToken n.token ++ n.kind.sign :: n.event.toList ++ Value.printFields n.fields

/-- The line for a record. -/
def Record.print : Record → List Char
  | result r => r.print
  | notice n => n.print
  | stream kind text => kind.sign :: Value.printText text
  | unhandled line => line.toList

end MachineInterface

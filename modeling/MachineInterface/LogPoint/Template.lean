import MachineInterface.Text.Blank
import MachineInterface.Text.Cut
import MachineInterface.Text.Quote

/-!
# Log templates

The message of a log point holds expressions in braces. In the template of a message a marker stands
for each expression that the debugger can print; the values replace the markers in order.

* `fillChars_nil`: without values, a template is shown as it stands.
* `fillChars_of_not_mem`: a text without markers is not changed.
-/

namespace MachineInterface

open Text

namespace LogTemplate

/-- What stands for a value until it is known: the object replacement character, U+FFFC. -/
def marker : Char := Char.ofNat 0xFFFC

/-- Whether a character may stand in an expression that is printed on a hit. -/
def isPrintableChar (c : Char) : Bool :=
  Numeral.isAlphanumeric c || c == '-' || c == '_' || c == '.' || c == '>' || c == '&' || c == '*'
    || c == '[' || c == ']'

/-- Whether an expression is simple enough to be printed on a hit. -/
def isPrintable (expression : List Char) : Bool :=
  !expression.isEmpty && expression.all isPrintableChar

end LogTemplate

/-- A message with a marker for each expression, and the expressions in order. -/
structure LogTemplate where
  text : List Char
  expressions : List String
  deriving Repr, DecidableEq

namespace LogTemplate

/-- A template with one more character in front. -/
def push (c : Char) (t : LogTemplate) : LogTemplate := { t with text := c :: t.text }

/--
The template of a message. A placeholder goes from a brace to the first closing brace after it; one
whose content cannot be printed stays as it is.
-/
def ofChars : List Char → LogTemplate
  | [] => ⟨[], []⟩
  | c :: cs =>
    if c = '{' then
      match _hcut : cut? '}' cs with
      | some (content, after) =>
        let t := ofChars after
        if isPrintable content then ⟨marker :: t.text, String.ofList content :: t.expressions⟩
        else { t with text := '{' :: content ++ '}' :: t.text }
      | none => (ofChars cs).push c
    else (ofChars cs).push c
termination_by cs => cs.length
decreasing_by
  · have := length_lt_of_cut? _hcut
    simp only [List.length_cons]
    omega
  · simp
  · simp

/-- The template of a message. -/
def ofMessage (message : String) : LogTemplate := ofChars message.toList

/-- The command that makes a breakpoint print each expression on a hit. -/
def breakCommands (t : LogTemplate) (id : UInt32) : String :=
  "break-commands " ++ toString id.toNat
    ++ String.join (t.expressions.map fun e => " \"print " ++ Quote.escape e ++ "\"")

/-! ## Filling -/

/-- A text with its markers replaced in order; where a value is unknown the marker stays. -/
def fillChars : List Char → List (Option String) → List Char
  | [], _ => []
  | c :: cs, values =>
    if c = marker then
      match values with
      | some value :: values => value.toList ++ fillChars cs values
      | none :: values => marker :: fillChars cs values
      | [] => marker :: fillChars cs []
    else c :: fillChars cs values

/-- The message with the values known so far. -/
def fill (t : LogTemplate) (values : List (Option String)) : String :=
  String.ofList (fillChars t.text values)

/-- A text without markers is not changed. -/
theorem fillChars_of_not_mem {cs : List Char} (h : marker ∉ cs) (values : List (Option String)) :
    fillChars cs values = cs := by
  induction cs with
  | nil => rfl
  | cons c cs ih =>
    simp only [List.mem_cons, not_or] at h
    simp [fillChars, Ne.symm h.1, ih h.2]

/-- Without values, a template is shown as it stands. -/
theorem fillChars_nil (cs : List Char) : fillChars cs [] = cs := by
  induction cs with
  | nil => rfl
  | cons c cs ih => by_cases h : c = marker <;> simp [fillChars, h, ih]

/-! ## Printed values -/

/-- The value in a line that prints one: a dollar sign, digits, an equals sign, and the value. -/
def printedValue? (line : String) : Option String :=
  match dropTrailingBlanks line.toList with
  | '$' :: rest =>
    match (rest.dropWhile Numeral.isDigit).dropWhile (· == ' ') with
    | '=' :: rest => some (String.ofList (trimChars (rest.takeWhile (· != '\n'))))
    | _ => none
  | _ => none

end LogTemplate

end MachineInterface

import MachineInterface.Record.Reader
import MachineInterface.Text.Blank

/-!
# Kinds of lines

A line of the debugger's output is a record, the prompt, or text that the program or the debugger
printed by the way.

* `not_couldBeOutput_of_sign`: a number and a record's sign make a line a record.
-/

namespace MachineInterface

open Text

namespace Line

/-- The line after the number at its start. -/
def dropToken (cs : List Char) : List Char := cs.dropWhile Numeral.isDigit

/-- Whether a character is the sign of a record. -/
def isSign (c : Char) : Bool :=
  c == '*' || c == '+' || c == '=' || c == '~' || c == '@' || c == '&' || c == '^'

/-- Whether a line is plain output: what follows its number is not the sign of a record. -/
def couldBeOutput (line : String) : Bool := !((dropToken line.toList).head?.map isSign).getD false

/-- Whether a line is the debugger's prompt. -/
def isPrompt (line : String) : Bool :=
  "(gdb)".toList.isPrefixOf (dropToken (dropBlanks line.toList))

/--
Whether the start of a line can be shown at once: nothing that follows makes it a record. A run of
digits may still turn out to be the number of one.
-/
def isFlushable (text : String) : Bool :=
  couldBeOutput text && !text.toList.all Numeral.isDigit

/-- What a line of the debugger's output is. -/
inductive Kind where
  /-- Text to pass on as it is. -/
  | passthrough (text : String)
  | prompt
  | record (record : Record)
  deriving Repr, DecidableEq

/-- What a line of the debugger's output is. -/
def classify (line : String) : Kind :=
  if couldBeOutput line then
    if isPrompt line then .prompt else .passthrough line
  else .record (Record.ofLine line)

/-- A number and a record's sign make a line a record. -/
theorem not_couldBeOutput_of_sign {digits rest : List Char} {c : Char}
    (hd : ∀ d ∈ digits, Numeral.isDigit d = true) (hc : isSign c = true) :
    couldBeOutput (String.ofList (digits ++ c :: rest)) = false := by
  have hn : Numeral.isDigit c = false := by
    simp only [isSign, Bool.or_eq_true, beq_iff_eq] at hc
    rcases hc with (((((h | h) | h) | h) | h) | h) | h <;> subst h <;> decide
  have hdrop : dropToken (digits ++ c :: rest) = c :: rest := by
    induction digits with
    | nil => simp [dropToken, hn]
    | cons d ds ih =>
      have := ih fun x hx => hd x (List.mem_cons_of_mem _ hx)
      simpa [dropToken, hd d List.mem_cons_self] using this
  simp [couldBeOutput, hdrop, hc]

end Line

end MachineInterface

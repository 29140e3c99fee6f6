import MachineInterface.Config.Basic
import MachineInterface.Text.Quote

/-!
# The debugger's command line

How the debugger is started: as a program with arguments, and as a line for a shell on another
machine.

* `quoteChars_of_plain`: a plain word stands for itself.
-/

namespace MachineInterface

open Text

/-- A program to start on this machine. -/
structure LocalCommand where
  program : String
  args : List String
  /-- Where the program runs. -/
  cwd : Option String := none
  env : TextMap := .empty
  deriving DecidableEq

/-- The command for a reader. -/
def LocalCommand.display (c : LocalCommand) : String := " ".intercalate (c.program :: c.args)

/-! ## Words of a shell -/

namespace Shell

/-- Whether a character means nothing to a shell. -/
def isPlain (c : Char) : Bool := Numeral.isAlphanumeric c || "-_./=:@%+,".toList.contains c

/-- What stands for a character between single quotes. -/
def quoteChar (c : Char) : List Char := if c = '\'' then "'\\''".toList else [c]

/-- A text as one word of a shell. -/
def quoteChars (cs : List Char) : List Char :=
  if cs ≠ [] ∧ cs.all isPlain = true then cs else '\'' :: cs.flatMap quoteChar ++ ['\'']

/-- A text as one word of a shell. -/
def quote (word : String) : String := String.ofList (quoteChars word.toList)

/-- Texts as a line of a shell. -/
def line (words : List String) : String := " ".intercalate (words.map quote)

/-- A plain word stands for itself. -/
theorem quoteChars_of_plain {cs : List Char} (hne : cs ≠ []) (h : cs.all isPlain = true) :
    quoteChars cs = cs := by
  simp [quoteChars, hne, h]

end Shell

namespace DebuggerConfig

/-- The debugger's program. -/
def program (d : DebuggerConfig) : String := d.path.getD d.flavor.defaultProgram

/-- The debugger's arguments, and after them some more. -/
def argv (d : DebuggerConfig) (trailing : List String) : List String :=
  d.args.getD d.flavor.defaultArgs ++ d.extraArgs ++ trailing

/-- How to start the debugger on this machine. -/
def localCommand (d : DebuggerConfig) (cwd : Option String) (trailing : List String) :
    LocalCommand :=
  { program := d.program, args := d.argv trailing, cwd, env := d.env }

/-- The line that starts the debugger in a shell. -/
def shellCommand (d : DebuggerConfig) (trailing : List String) : String :=
  Shell.line (d.program :: d.argv trailing)

end DebuggerConfig

end MachineInterface

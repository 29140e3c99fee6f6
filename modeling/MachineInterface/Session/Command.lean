import MachineInterface.Text.Quote

/-!
# Texts of commands

How a line that a user types becomes a command, and how a program's path is completed.

* `Command.userInput_of_dash`: a line that starts with a hyphen is a command itself.
* `Target.joinChars_of_rooted`: a path from the root stays as it is.
-/

namespace MachineInterface

open Text

namespace Command

/-- A text without one hyphen at its start. -/
def dropDash (cs : List Char) : List Char :=
  match cs with
  | '-' :: rest => rest
  | rest => rest

/-- A command with or without its hyphen, as it is sent. -/
def ofInput (text : String) : String := String.ofList (dropDash text.toList)

/-- The options that choose a thread and a frame; thread zero chooses neither. -/
def frameOptions (thread level : UInt32) : String :=
  if thread = 0 then ""
  else "--thread " ++ toString thread.toNat ++ " --frame " ++ toString level.toNat ++ " "

/-- What stands for a character in a line for the console. -/
def consoleChar (c : Char) : List Char :=
  if c = '\\' ∨ c = '"' ∨ c = '\'' then ['\\', c] else [c]

/-- The command for a line that a user types: a command itself, or a line for the console. -/
def userInput (text : String) (thread level : UInt32) : String :=
  match text.toList with
  | '-' :: rest => String.ofList rest
  | cs =>
    "interpreter-exec " ++ frameOptions thread level ++ "console \""
      ++ String.ofList (cs.flatMap consoleChar) ++ "\""

/-- A line that starts with a hyphen is a command itself. -/
theorem userInput_of_dash (rest : List Char) (thread level : UInt32) :
    userInput (String.ofList ('-' :: rest)) thread level = String.ofList rest := by
  simp [userInput]

end Command

/-! ## Paths of programs -/

namespace Target

/-- Whether a path starts at a root or at a drive, in the syntax that knows drives. -/
def isDrivePath (cs : List Char) : Bool :=
  match cs with
  | '\\' :: _ => true
  | '/' :: _ => true
  | d :: ':' :: s :: _ => Numeral.isAlphanumeric d && !Numeral.isDigit d && (s == '\\' || s == '/')
  | _ => false

/-- A path without its trailing separators. -/
def dropTrailing (isSeparator : Char → Bool) (cs : List Char) : List Char :=
  (cs.reverse.dropWhile isSeparator).reverse

/-- A path taken from a directory. The directory shows which syntax both are in. -/
def joinChars (directory path : List Char) : List Char :=
  if directory.head? = some '/' then
    if path.head? = some '/' then path else dropTrailing (· == '/') directory ++ '/' :: path
  else if isDrivePath path || directory.isEmpty then path
  else dropTrailing (fun c => c == '\\' || c == '/') directory ++ '\\' :: path

/-- A path taken from a directory. -/
def join (directory path : String) : String :=
  String.ofList (joinChars directory.toList path.toList)

/-- A path from the root stays as it is. -/
theorem joinChars_of_rooted (directory rest : List Char) :
    joinChars directory ('/' :: rest) = '/' :: rest := by
  simp [joinChars, isDrivePath]

end Target

end MachineInterface

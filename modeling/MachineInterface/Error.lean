/-!
# Errors

Why an operation failed, and how that is worded.

* `message_eq_display`: only a failed command is worded without its command.
* `isMissingVariable_iff`: the messages by which the debugger says that it knows no object.
-/

namespace MachineInterface

/-- Why an operation failed. -/
inductive Error where
  /-- The debugger answered a command with an error. -/
  | command (message : String) (command : String)
  /-- The debugger could not be started. -/
  | launch (detail : String)
  /-- The debugger has gone. -/
  | sessionClosed
  /-- No debugger was started. -/
  | notConnected
  /-- The debugger's answer lacks something or has it in the wrong form. -/
  | decode (command : String) (detail : String)
  /-- Memory was read at an address that was not asked for. -/
  | memoryAddressMismatch (expected actual : UInt64)
  | unsupported (detail : String)
  | invalidArgument (detail : String)
  /-- A line could not be written. -/
  | io (detail : String)
  deriving Repr, DecidableEq

namespace Error

/-- The error in full. -/
def display : Error → String
  | command message text => message ++ " (from " ++ text ++ ")"
  | launch detail => "could not start debugger: " ++ detail
  | sessionClosed => "debugger session closed"
  | notConnected => "debugger is not running"
  | decode text detail => "malformed response to `" ++ text ++ "`: " ++ detail
  | memoryAddressMismatch expected actual =>
    "memory read error: expected address " ++ toString expected ++ ", got " ++ toString actual
  | unsupported detail => "unsupported: " ++ detail
  | invalidArgument detail => "invalid argument: " ++ detail
  | io detail => "io error: " ++ detail

/-- The error for a reader who knows what was asked. -/
def message : Error → String
  | command message _ => message
  | e => e.display

/-- The command that failed. -/
def command? : Error → Option String
  | command _ text => some text
  | decode text _ => some text
  | _ => none

/-- Whether the debugger says that it knows no variable object of a name. -/
def isMissingVariable : Error → Bool
  | command message _ =>
    message == "Variable object not found"
      || "does not exist".toList.isSuffixOf message.toList
  | _ => false

/-- A variable object is missing by two wordings of the debugger, and by no other failure. -/
theorem isMissingVariable_iff {e : Error} : e.isMissingVariable = true ↔
    ∃ message text, e = command message text ∧
      (message = "Variable object not found" ∨ "does not exist".toList <:+ message.toList) := by
  cases e with
  | command message text =>
    rw [isMissingVariable, Bool.or_eq_true, beq_iff_eq, List.isSuffixOf_iff_suffix]
    constructor
    · exact fun h => ⟨message, text, rfl, h⟩
    · rintro ⟨message, text, ⟨⟩, h⟩
      exact h
  | _ => simp [isMissingVariable]

/-- Only a failed command is worded without its command. -/
theorem message_eq_display {e : Error} (h : ∀ m c, e ≠ command m c) : e.message = e.display := by
  cases e
  case command m c => exact absurd rfl (h m c)
  all_goals rfl

/-! ## Causes that several operations share -/

/-- A breakpoint was described without a place. -/
def noLocation : Error := invalidArgument "breakpoint needs a raw location or a file and line"

/-- A debugger was started on a session that has one. -/
def alreadyStarted : Error := invalidArgument "session already has a debugger"

/-- The answer to a command lacks the value at a path. -/
def missing (command path : String) : Error := decode command ("missing " ++ path)

/-- The value at a path of the answer to a command cannot be read. -/
def malformed (command path : String) : Error := decode command ("malformed " ++ path)

/-- The value at a path of the answer to a command is no list. -/
def notList (command path : String) : Error := decode command (path ++ " is not a list")

/-- The debugger stopped reading. -/
def brokenPipe : Error := io "broken pipe"

end Error

end MachineInterface

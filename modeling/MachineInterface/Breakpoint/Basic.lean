import MachineInterface.Breakpoint.HitPolicy
import MachineInterface.Error
import MachineInterface.Record.Basic
import MachineInterface.Text.Quote

/-!
# Breakpoints

Where a breakpoint is placed, what a front end asks for, and what the debugger has accepted.

* `location?_of_raw`: a raw place wins over a file and a line.
-/

namespace MachineInterface

open Text

/-- Where a breakpoint is placed. Two breakpoints at one location are the same breakpoint. -/
inductive Location where
  /-- A place in the debugger's own words. -/
  | raw (text : String)
  | source (file : String) (line : UInt32)
  deriving Repr, DecidableEq

/-- The location as an argument of a command. -/
def Location.argument : Location → String
  | raw text => Quote.quoted text
  | source file line => "\"" ++ Quote.escape file ++ ":" ++ toString line.toNat ++ "\""

/-- A breakpoint as a front end asks for it. -/
structure Descriptor where
  file : Option String := none
  line : Option UInt32 := none
  raw : Option String := none
  condition : Option String := none
  /-- How many hits to pass over. -/
  hitCondition : Option String := none
  /-- A message to print instead of stopping. -/
  logMessage : Option String := none
  deriving Repr, DecidableEq

/-- The text of an optional entry that is not empty. -/
def nonEmpty (entry : Option String) : Option String := entry.filter (!·.isEmpty)

/-- An empty entry counts as an absent one. -/
theorem nonEmpty_eq (entry : Option String) :
    nonEmpty entry = if entry.getD "" = "" then none else some (entry.getD "") := by
  cases entry with
  | none => rfl
  | some text =>
    by_cases h : text = ""
    · subst h
      rfl
    · simp [nonEmpty, h]

namespace Descriptor

/-- The place that a descriptor names. -/
def location? (d : Descriptor) : Option Location :=
  match d.raw, d.file, d.line with
  | some raw, _, _ => some (.raw raw)
  | none, some file, some line => some (.source file line)
  | none, _, _ => none

/-- The place that a descriptor names, or why there is none. -/
def location (d : Descriptor) : Except Error Location :=
  match d.location? with
  | some location => .ok location
  | none => .error .noLocation

/-- A raw place wins over a file and a line. -/
theorem location?_of_raw {d : Descriptor} {raw : String} (h : d.raw = some raw) :
    d.location? = some (.raw raw) := by
  simp [location?, h]

/-- The policy for hits, if the descriptor asks for one. -/
def hitPolicy? (d : Descriptor) : Option HitPolicy := (nonEmpty d.hitCondition).map HitPolicy.ofText

end Descriptor

/-- The command that inserts a breakpoint. -/
def insertCommand (location : Location) (policy : Option HitPolicy) : String :=
  "break-insert -f " ++ (policy.map HitPolicy.modifiers).getD "" ++ location.argument

/-- A breakpoint that the debugger has accepted. -/
structure Breakpoint where
  /-- The debugger's number. -/
  id : UInt32
  location : Location
  /-- The file that was asked for, or else the one that the debugger found. -/
  file : Option String
  line : Option UInt32
  condition : Option String
  logMessage : Option String
  deriving Repr, DecidableEq

/-- The breakpoint that the debugger's answer to an insert describes. -/
def Breakpoint.ofAnswer (command : String) (location : Location) (d : Descriptor)
    (answer : ResultRecord) : Except Error Breakpoint :=
  match (answer.text? "bkpt.number").bind Numeral.readUInt32? with
  | none => .error (.missing command "bkpt.number")
  | some id =>
    .ok {
      id, location
      file := d.file <|> answer.text? "bkpt.file"
      line := (answer.text? "bkpt.line").bind Numeral.readUInt32?
      condition := d.condition
      logMessage := d.logMessage }

/-- What came of the wish to add a breakpoint. -/
inductive Addition where
  | added (breakpoint : Breakpoint)
  /-- The location has a breakpoint, or one is on its way. -/
  | alreadyInstalled
  /-- The breakpoint stands, but without its condition or its message. -/
  | degraded (breakpoint : Breakpoint) (failure : Error)
  deriving Repr, DecidableEq

namespace Addition

/-- The breakpoint that now stands. -/
def breakpoint? : Addition → Option Breakpoint
  | added b => some b
  | degraded b _ => some b
  | alreadyInstalled => none

/-- Whether a breakpoint was installed. -/
def isNew (a : Addition) : Bool := a.breakpoint?.isSome

end Addition

end MachineInterface

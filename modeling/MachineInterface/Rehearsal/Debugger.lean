import MachineInterface.Rehearsal.Script

/-!
# Scripted debuggers

A debugger without a program, which answers by a script. Without a rule it answers as a debugger
would that succeeds in everything.
-/

namespace MachineInterface

open Text

/-- How a scripted debugger behaves. -/
inductive Manner where
  /-- Rules come first, also when it is asked to end. It can misbehave on its own. -/
  | plain
  /-- It ends when it is asked to, whatever the rules say. -/
  | obedient
  /-- There are no rules: everything is done. -/
  | agreeable
  deriving Repr, DecidableEq

/-- Whether a debugger may print what is not a whole line, and may stop reading. -/
def Manner.misbehaves : Manner → Bool
  | .plain => true
  | .obedient | .agreeable => false

/-- A debugger that answers by a script. -/
structure ScriptedDebugger where
  manner : Manner := .plain
  script : Script := {}
  /-- The lines that it has read. -/
  heard : List Heard := []
  ended : Bool := false
  deriving Repr, DecidableEq

namespace ScriptedDebugger

/-- A line as it is read, without the carriage returns that ended it. -/
def readLine (manner : Manner) (line : List Char) : List Char :=
  match manner with
  | .plain => if line.getLast? = some '\r' then line.dropLast else line
  | _ => (line.reverse.dropWhile (· == '\r')).reverse

/-- The features that a scripted debugger lists. -/
def features : String :=
  "[\"frozen-varobjs\",\"pending-breakpoints\",\"thread-info\",\"data-read-memory-bytes\","
    ++ "\"exec-run-start-option\"]"

/-- The commands after which the program runs. -/
def runningCommands : List String :=
  ["exec-run", "exec-continue", "exec-next", "exec-step", "exec-finish", "exec-jump"]

/-- The result of a command for which there is no rule. -/
def defaultBody (name : String) : String :=
  if name = "list-features" then "done,features=" ++ features
  else if runningCommands.contains name then "running"
  else "done"

/-- The lines that answer a line, and the debugger after it. -/
def respond (d : ScriptedDebugger) (h : Heard) : List String × ScriptedDebugger :=
  let exit : List String × ScriptedDebugger := ([h.result "exit"], { d with ended := true })
  match d.manner with
  | .plain =>
    match d.script.answer h with
    | some (lines, script) => (lines, { d with script })
    | none => if h.asksToExit then exit else ([h.result (defaultBody h.name)], d)
  | .obedient =>
    if h.asksToExit then exit
    else match d.script.answer h with
      | some (lines, script) => (lines, { d with script })
      | none => ([h.result (defaultBody h.name)], d)
  | .agreeable => if h.asksToExit then exit else ([h.result "done"], d)

/-- A line is read and answered, unless the debugger has ended. -/
def hear (d : ScriptedDebugger) (line : List Char) : List String × ScriptedDebugger :=
  if d.ended then ([], d)
  else
    let h := Heard.ofLine (String.ofList (readLine d.manner line))
    respond { d with heard := d.heard ++ [h] } h

/-- Lines are read and answered one after another. -/
def hearAll (d : ScriptedDebugger) : List (List Char) → List String × ScriptedDebugger
  | [] => ([], d)
  | line :: rest =>
    let (first, d) := d.hear line
    let (others, d) := d.hearAll rest
    (first ++ others, d)

end ScriptedDebugger

end MachineInterface

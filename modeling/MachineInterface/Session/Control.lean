import MachineInterface.Session.BringUp

/-!
# Running the program

Starting, going on, stopping, jumping, and ending the debugger.

* `Motion.command_injective`: no two ways of going on have one command.
-/

namespace MachineInterface

open Text

/-- A way of going on. -/
inductive Motion where
  | continue
  | next
  | step
  /-- Up to the end of the function. -/
  | finish
  deriving Repr, DecidableEq

/-- The command of a way of going on. -/
def Motion.command : Motion → String
  | .continue => "exec-continue"
  | .next => "exec-next"
  | .step => "exec-step"
  | .finish => "exec-finish"

/-- No two ways of going on have one command. -/
theorem Motion.command_injective {m n : Motion} (h : m.command = n.command) : m = n := by
  revert h
  cases m <;> cases n <;> decide

namespace Session

/-- Whether an answer says that the program runs. -/
def saysRunning (r : ResultRecord) : Bool := r.outcome = .running

/-! ## Starting -/

/-- A breakpoint that stops once is set at an entry. -/
def setEntryBreakpoint (entry : String) : CallM Unit := do
  discard (CallM.ask ("break-insert -t -f " ++ entry))

/-- The program was started: a stop that came before is told again, as a pause. -/
def markStarted (s : Session) : Session :=
  let pause : Stop := { reason := .pause, allThreadsStopped := true }
  let crashed := s.crashed
  let s := { s with started := true, crashed := false }
  if crashed then s.emit (.stopped pause) else s

/-- The program is started, if wished with a stop at its entry; whether it runs. -/
def start (stopAtEntry : Bool) : CallM Bool := do
  let knowsOption ← CallM.read (·.hasFeature "exec-run-start-option")
  if stopAtEntry && !knowsOption then setEntryBreakpoint "main"
  CallM.modify (·.emitLine .console "Running executable")
  let answer ← CallM.ask (if stopAtEntry && knowsOption then "exec-run --start" else "exec-run")
  CallM.modify markStarted
  return saysRunning answer

/-! ## Going on -/

/-- Whether the target can run backwards. It is asked once. -/
def supportsReverse : CallM Bool := do
  match ← CallM.read (·.targetFeatures) with
  | some features => return features.contains "reverse"
  | none =>
    let features ← match ← CallM.attempt (CallM.ask "list-target-features") with
      | .ok answer => pure (listed answer)
      | .error (.command _ _) => pure []
      | .error e => throw e
    CallM.modify fun s => { s with targetFeatures := some features }
    return features.contains "reverse"

/-- The program goes on, if wished backwards; whether it runs. -/
def move (motion : Motion) (backwards : Bool) : CallM Bool := do
  let command := motion.command
  if backwards then
    if ← supportsReverse then
      return saysRunning (← CallM.ask (command ++ " --reverse"))
    else
      throw (.unsupported
        ("reverse execution (" ++ command ++ ") is not supported by this target"))
  else return saysRunning (← CallM.ask command)

/-- The program is interrupted; whether the debugger agreed. -/
def interrupt : CallM Bool := do
  return (← CallM.ask "exec-interrupt").outcome = .done

/-- The program goes on at a line, of the current file if none is named; whether it runs. -/
def goto (file : Option String) (line : UInt32) : CallM Bool := do
  let place := match nonEmpty file with
    | some file => (Location.source file line).argument
    | none => "\"" ++ toString line.toNat ++ "\""
  discard (CallM.ask ("break-insert -t " ++ place))
  return saysRunning (← CallM.ask ("exec-jump " ++ place))

/-- A variable of the program is given a value. -/
def changeVariable (name value : String) : CallM Unit := do
  discard (CallM.ask ("gdb-set var " ++ name ++ "=" ++ value))

/-! ## Ending -/

/-- The debugger is to be ended by force. -/
def kill (s : Session) : Session := { s with killRequested := true }

/-- A debugger that has not ended is to be ended by force. -/
def killIfAlive (s : Session) : Session := if s.isClosed then s else s.kill

/-- A last line is written; the debugger is killed if it does not end within the grace period. -/
def endWith (line : String) : CallM Unit := do
  CallM.write line
  let ended ← ExceptT.lift (Call.ending false .done)
  unless ended do
    CallM.modify killIfAlive
    discard (ExceptT.lift (Call.ending true .done))

/-- The debugger is asked to quit. -/
def stopDebugger : CallM Unit := endWith "-gdb-exit"

/-- The debugger is asked to leave the program alone, and then ended. -/
def detach : CallM Unit := endWith "-target-detach"

/-! ## Plain commands -/

/-- A command with or without its hyphen. -/
def sendInput (text : String) (tolerant : Bool) : CallM ResultRecord :=
  CallM.send (Command.ofInput text) tolerant

/-- A line that a user types. -/
def sendUserInput (text : String) (thread level : UInt32) : CallM ResultRecord :=
  CallM.ask (Command.userInput text thread level)

end Session

end MachineInterface

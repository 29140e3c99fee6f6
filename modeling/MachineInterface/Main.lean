import MachineInterface.Event.Report
import MachineInterface.Session.Dispatch

/-!
# The program

Standard input is what a debugger prints; each event that it implies is reported in a line.
-/

namespace MachineInterface

/-- The events of a session that were not reported yet are reported. -/
def reportFrom (output : IO.FS.Stream) (reported : Nat) (s : Session) : IO Unit := do
  for e in s.events.drop reported do
    output.putStrLn e.report
  output.flush

/-- The debugger's output is read up to its end. -/
partial def watch (input output : IO.FS.Stream) (s : Session) : IO Unit := do
  let bytes ← input.read 8192
  if bytes.isEmpty then
    reportFrom output s.events.length s.finish
  else
    let next := s.receive bytes.toList
    reportFrom output s.events.length next
    watch input output next

end MachineInterface

open MachineInterface in
/-- A debugger is watched. -/
def main : IO Unit := do
  watch (← IO.getStdin) (← IO.getStdout) { link := .open }

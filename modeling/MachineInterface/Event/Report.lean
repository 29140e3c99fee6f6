import MachineInterface.Event
import MachineInterface.Text.JsonString

/-!
# Reports

An event as a line of JSON, for a front end that reads lines.

* `object_nil`: an object may be empty.
-/

namespace MachineInterface

open Text

namespace Report

/-- The words that JSON has for nothing and for truth. -/
def none : String := "null"

/-- A truth value. -/
def bool (b : Bool) : String := if b then "true" else "false"

/-- A number. -/
def number (n : UInt32) : String := toString n.toNat

/-- A value that may be absent. -/
def optional {α : Type} (write : α → String) (value : Option α) : String :=
  (value.map write).getD none

/-- An entry that is left out when its value is absent. -/
def entry? {α : Type} (name : String) (write : α → String) (value : Option α) :
    List (String × String) :=
  (value.map fun v => (name, write v)).toList

/-- An object with entries whose values are written already. -/
def object (entries : List (String × String)) : String :=
  "\x7b" ++ ",".intercalate (entries.map fun e => JsonString.encode e.1 ++ ":" ++ e.2) ++ "\x7d"

theorem object_nil : object [] = "\x7b\x7d" := rfl

end Report

open Report in
/-- The entries of a stop. -/
def Stop.entries (s : Stop) : List (String × String) :=
  [("reason", JsonString.encode s.reason.text), ("thread_id", optional number s.threadId),
    ("all_threads_stopped", bool s.allThreadsStopped)]
    ++ entry? "breakpoint_id" number s.breakpointId
    ++ entry? "signal_name" JsonString.encode s.signalName
    ++ entry? "raw_reason" JsonString.encode s.rawReason

namespace Event

/-- The word for a kind of event. -/
def kind : Event → String
  | launchError _ => "launch_error"
  | quit => "quit"
  | debugReady => "debug_ready"
  | running _ => "running"
  | stopped _ => "stopped"
  | exited _ => "exited"
  | threadCreated _ => "thread_created"
  | threadExited _ => "thread_exited"
  | message _ _ => "message"
  | unexpectedResult _ _ _ => "unexpected_result"

open Report in
/-- The entries of an event after its kind. -/
def entries : Event → List (String × String)
  | launchError text => [("message", JsonString.encode text)]
  | quit => []
  | debugReady => []
  | running threadId => [("thread_id", optional JsonString.encode threadId)]
  | stopped stop => stop.entries
  | exited code => [("exit_code", optional (fun n : Int => toString n) code)]
  | threadCreated id => [("id", number id)]
  | threadExited id => [("id", number id)]
  | message channel text =>
    [("channel", JsonString.encode channel.text), ("text", JsonString.encode text)]
  | unexpectedResult token outcome text =>
    [("token", optional (fun n : UInt64 => toString n.toNat) token),
      ("class", JsonString.encode outcome), ("message", optional JsonString.encode text)]

/-- An event as a line of JSON. -/
def report (e : Event) : String :=
  Report.object (("event", JsonString.encode e.kind) :: e.entries)

end Event

end MachineInterface

/-!
# Events

What a session tells its front end, in the order in which it happened.

* `Event.getLast?_endLine`: a line event ends with a newline.
-/

namespace MachineInterface

/-- Where the program is, as far as the debugger has said. -/
inductive RunState where
  | initializing
  | running
  | stopped
  | terminated
  deriving Repr, DecidableEq, Inhabited

/-- The word for a run state. -/
def RunState.text : RunState → String
  | initializing => "initializing"
  | running => "running"
  | stopped => "stopped"
  | terminated => "terminated"

/-- Why the program stopped. -/
inductive StopReason where
  | breakpoint
  | watchpoint
  | step
  | signal
  /-- A stop that came before the program was started. -/
  | pause
  /-- A reason that is absent or not known. -/
  | exception
  deriving Repr, DecidableEq, Inhabited

/-- The word for a reason. -/
def StopReason.text : StopReason → String
  | breakpoint => "breakpoint"
  | watchpoint => "watchpoint"
  | step => "step"
  | signal => "signal"
  | pause => "pause"
  | exception => "exception"

/-- Where a message comes from. -/
inductive Channel where
  /-- Text outside of records. -/
  | stdout
  | stderr
  | console
  | target
  | log
  deriving Repr, DecidableEq, Inhabited

/-- The word for a channel. -/
def Channel.text : Channel → String
  | stdout => "stdout"
  | stderr => "stderr"
  | console => "console"
  | target => "target"
  | log => "log"

/-- A stop of the program. -/
structure Stop where
  reason : StopReason
  threadId : Option UInt32 := none
  allThreadsStopped : Bool
  breakpointId : Option UInt32 := none
  signalName : Option String := none
  /-- The debugger's word for the reason. -/
  rawReason : Option String := none
  deriving Repr, DecidableEq

/-- What a session tells its front end. -/
inductive Event where
  | launchError (message : String)
  /-- The debugger has gone. -/
  | quit
  /-- The debugger is set up. -/
  | debugReady
  | running (threadId : Option String)
  | stopped (stop : Stop)
  | exited (code : Option Int)
  | threadCreated (id : UInt32)
  | threadExited (id : UInt32)
  | message (channel : Channel) (text : String)
  /-- A result that nobody waits for. -/
  | unexpectedResult (token : Option UInt64) (outcome : String) (message : Option String)
  deriving Repr, DecidableEq

/-- A text with a newline at its end. -/
def Event.endLine (text : String) : String :=
  if text.toList.getLast? = some '\n' then text else text ++ "\n"

/-- A message that is a whole line. -/
def Event.line (channel : Channel) (text : String) : Event := message channel (endLine text)

/-- A line event ends with a newline. -/
theorem Event.getLast?_endLine (text : String) : (endLine text).toList.getLast? = some '\n' := by
  unfold endLine
  split
  · assumption
  · simp

end MachineInterface

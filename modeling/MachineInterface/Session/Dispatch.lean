import MachineInterface.Line.Kind
import MachineInterface.Session.State

/-!
# The debugger's output

What a session makes of each line that the debugger prints, and of the debugger's end.

* `runState_setRunState_of_terminated`: a program that has ended stays ended.
* `link_finish`: after the debugger's end the session is closed.
-/

namespace MachineInterface

open Text

namespace Session

/-! ## The state of the program -/

/-- The session with another run state, unless the program has ended. -/
def setRunState (s : Session) (next : RunState) : Session :=
  if s.runState = .terminated then s else { s with runState := next }

theorem runState_setRunState_of_terminated {s : Session} (h : s.runState = .terminated)
    (next : RunState) : s.setRunState next = s := by
  simp [setRunState, h]

/-- The program stopped. -/
def stop (s : Session) (stop : Stop) : Session := (s.setRunState .stopped).emit (.stopped stop)

/-- The program stopped for no known reason. -/
def stopUnknown (s : Session) (stop : Stop) : Session :=
  let s := { s with crashed := s.crashed || !s.started }
  let s := s.setRunState .stopped
  if s.quit then s else s.emit (.stopped stop)

/-- The program ended. -/
def exited (s : Session) (code : Option Int) : Session :=
  { s with quit := true, runState := .terminated }.emit (.exited code)

/-- The debugger ended. That is told once. -/
def onQuit (s : Session) : Session :=
  let told := s.quitEmitted
  let s := { s with quit := true, runState := .terminated, quitEmitted := true }
  if told then s else s.emit .quit

/-! ## Notices -/

/-- A number of 32 bits with blanks around it. -/
def number? (text : Option String) : Option UInt32 :=
  text.bind fun t => Numeral.readUInt32? (trim t)

/-- The code of a program that ended; after a zero in front, its digits are octal. -/
def exitCode? (text : String) : Option Int :=
  match text.toList with
  | '0' :: c :: rest => Numeral.readInt? 8 0x80000000 (c :: rest)
  | cs => Numeral.readInt? 10 0x80000000 cs

/-- The reason of a stop that the debugger names, as far as it needs nothing but to be told. -/
def plainReason? (reason : String) : Option StopReason :=
  if ["watchpoint-trigger", "read-watchpoint-trigger", "access-watchpoint-trigger"].contains reason
  then some .watchpoint
  else if ["function-finished", "location-reached", "end-stepping-range", "watchpoint-scope",
    "solib-event", "syscall-entry", "syscall-return", "fork", "vfork", "exec"].contains reason
  then some .step
  else none

/-- The stop that a notice tells of. -/
def stopOf (n : Notice) (reason : StopReason) : Stop :=
  { reason
    threadId := number? (n.text? "thread-id")
    allThreadsStopped := n.text? "stopped-threads" = some "all"
    rawReason := n.text? "reason" }

/-- A breakpoint was hit; the message of a log point follows the stop. -/
def handleHit (s : Session) (n : Notice) : Session :=
  let id := number? (n.text? "bkptno")
  let s := s.stop { stopOf n .breakpoint with breakpointId := id }
  match id with
  | none => s
  | some id =>
    let (message, logPoints) := s.logPoints.onHit id
    { s with logPoints }.emitLine? .console message

/-- The program stopped or ended. -/
def handleStopped (s : Session) (n : Notice) : Session :=
  match n.text? "reason" with
  | none => s.stopUnknown (stopOf n .exception)
  | some reason =>
    if reason = "breakpoint-hit" then s.handleHit n
    else if reason = "signal-received" then
      s.stop { stopOf n .signal with signalName := n.text? "signal-name" }
    else if reason = "exited-normally" then s.exited (some 0)
    else if reason = "exited" then
      let code := (n.text? "exit-code").getD ""
      (s.emitLine .stderr ("Program exited with code " ++ code)).exited (exitCode? code)
    else match plainReason? reason with
      | some kind => s.stop (stopOf n kind)
      | none =>
        (s.emitLine .console
          ("Not implemented stop reason (assuming exception): " ++ reason)).stopUnknown
            (stopOf n .exception)

/-- A notice arrived. -/
def handleNotice (s : Session) (n : Notice) : Session :=
  match n.kind with
  | .exec =>
    if n.event = "running" then (s.setRunState .running).emit (.running (n.text? "thread-id"))
    else if n.event = "stopped" then s.handleStopped n
    else s
  | .status => s
  | .notify =>
    match number? (n.text? "id") with
    | none => s
    | some id =>
      if n.event = "thread-created" then s.emit (.threadCreated id)
      else if n.event = "thread-exited" then s.emit (.threadExited id)
      else s

/-! ## Results and streams -/

/-- A result arrived in a line. -/
def handleResult (s : Session) (r : ResultRecord) (line : String) : Session :=
  let (resolution, exchange) := s.exchange.resolve r
  let s := { s with exchange }
  match resolution with
  | .completed => s
  | .suppressed command _ =>
    s.emitLine .stderr ("WARNING: Error executing command '" ++ command ++ "'")
  | .unmatched r =>
    let s := if r.outcome = .error then s.emitLine .stderr (r.message?.getD line) else s
    s.emit (.unexpectedResult r.token r.outcome.text r.message?)

/-- The channel on which a stream is told. -/
def channel : StreamKind → Channel
  | .console => .console
  | .target => .target
  | .log => .log

/-- A piece of a stream arrived; on the console it may bring a value for a log point. -/
def handleStream (s : Session) (kind : StreamKind) (text : String) : Session :=
  let s := s.emitLine (channel kind) text
  if kind = .console then
    let (message, logPoints) := s.logPoints.onConsole text
    { s with logPoints }.emitLine? .console message
  else s

/-! ## Lines -/

/-- A line arrived. -/
def handleLine (s : Session) (line : String) : Session :=
  match Line.classify line with
  | .passthrough text => s.emitLine .stdout text
  | .prompt => s
  | .record (.result r) => s.handleResult r line
  | .record (.notice n) => s.handleNotice n
  | .record (.stream kind text) => s.handleStream kind text
  | .record (.unhandled _) => s

/-- The start of a line that can be no record is told at once. -/
def flush (s : Session) : Session :=
  match s.output.takePartial? Line.isFlushable with
  | some (text, output) => { s with output }.emit (.message .stdout text)
  | none => s

/-- Bytes arrived. -/
def receive (s : Session) (chunk : List UInt8) : Session :=
  let (lines, output) := s.output.push chunk
  (lines.foldl handleLine { s with output }).flush

/--
The debugger ended: what it left is read, and every caller that waits is told.

The session is marked as closed, the commands in flight fail, the way to write is dropped and the
end is told, all in one section: calls are suspended at their waits alone, so that none comes between
these. The mark is looked at where commands are numbered, hence a command that did come between them
would be refused as after the end, see `issue_of_closed`; a raw line could still be written, to
nobody.
-/
def finish (s : Session) : Session :=
  let s := match s.output.takeAll? with
    | some (line, output) => handleLine { s with output } line
    | none => s
  { s with link := .closed, exchange := s.exchange.failAll .sessionClosed }.onQuit

/-- The debugger could not be started. -/
def launchFailed (s : Session) (detail : String) : Session := (s.emit (.launchError detail)).onQuit

theorem link_onQuit (s : Session) : s.onQuit.link = s.link := by
  unfold onQuit
  dsimp only
  split <;> rfl

/-- After the debugger's end the session is closed. -/
theorem link_finish (s : Session) : s.finish.link = .closed := by
  rw [finish, link_onQuit]

end Session

end MachineInterface

import MachineInterface.Breakpoint.Board
import MachineInterface.Config.Basic
import MachineInterface.Event
import MachineInterface.Exchange
import MachineInterface.Line.Buffer
import MachineInterface.LogPoint.Queue
import MachineInterface.Variable.Registry

/-!
# Sessions

What is known of one debugger: the commands in flight, the state that its output implies, and what
was told to the front end and written to the debugger so far.

* `issue_of_closed`, `issue_of_none`: without a debugger nothing is written and no number is used.
* `events_emit`: telling an event appends it.
-/

namespace MachineInterface

/-- The way to the debugger. -/
inductive Link where
  /-- No debugger was started. -/
  | none
  | open
  /-- The debugger runs but does not read any more. -/
  | deaf
  /-- The debugger has gone. -/
  | closed
  deriving Repr, DecidableEq

/-- Something written to the debugger. -/
inductive Outgoing where
  /-- A command under its number. -/
  | command (token : UInt64) (text : String)
  /-- A line as it is. -/
  | raw (line : String)
  deriving Repr, DecidableEq

/-- The characters that are written. -/
def Outgoing.wire : Outgoing → String
  | command token text => Exchange.wire token text
  | raw line => line ++ "\n"

/-- All that is known of one debugger. -/
structure Session where
  config : Config := {}
  link : Link := .none
  exchange : Exchange := {}
  /-- Whether the debugger is to be ended by force. -/
  killRequested : Bool := false
  runState : RunState := .initializing
  /-- Whether the program was started. -/
  started : Bool := false
  /-- Whether the program stopped for no known reason before it was started. -/
  crashed : Bool := false
  /-- Whether the program or the debugger has ended. -/
  quit : Bool := false
  /-- Whether the end of the debugger was told. -/
  quitEmitted : Bool := false
  features : List String := []
  /-- What the target can do, once it was asked. -/
  targetFeatures : Option (List String) := none
  /-- The names of the registers, once they were asked for. -/
  registerNames : Option (List String) := none
  board : Board := {}
  logPoints : LogPoints := {}
  registry : Registry := {}
  /-- The line that the debugger has started to print. -/
  output : LineBuffer := {}
  /-- What was told to the front end, in order. -/
  events : List Event := []
  /-- What was written to the debugger, in order. -/
  outbox : List Outgoing := []
  deriving DecidableEq

namespace Session

/-- Whether the debugger has gone. -/
def isClosed (s : Session) : Bool := s.link = .closed

/-- Whether the debugger knows a feature. -/
def hasFeature (s : Session) (feature : String) : Bool := s.features.contains feature

/-! ## Events -/

/-- The session after an event was told. -/
def emit (s : Session) (e : Event) : Session := { s with events := s.events ++ [e] }

/-- The session after a line was told. -/
def emitLine (s : Session) (channel : Channel) (text : String) : Session :=
  s.emit (.line channel text)

@[simp] theorem events_emit (s : Session) (e : Event) : (s.emit e).events = s.events ++ [e] := rfl

/-- The session after a line was told, if there is one. -/
def emitLine? (s : Session) (channel : Channel) : Option String → Session
  | some text => s.emitLine channel text
  | none => s

/-! ## Writing -/

/--
A command is numbered and written. The number of a command that cannot be written is used up, and
its caller receives the failure.

Writing never waits: a debugger that reads takes at once what is written to it, so that neither a
full pipe nor another caller that writes holds a command back between its number and its writing.
-/
def issue (command : String) (tolerant : Bool) (s : Session) : Except Error Nat × Session :=
  match s.link with
  | .none => (.error .notConnected, s)
  | .closed => (.error .sessionClosed, s)
  | .open =>
    let ((ticket, token), exchange) := s.exchange.register command tolerant
    (.ok ticket, { s with exchange, outbox := s.outbox ++ [.command token command] })
  | .deaf =>
    let ((ticket, token), exchange) := s.exchange.register command tolerant
    (.ok ticket, { s with exchange := exchange.cancel token .brokenPipe })

/-- Commands are numbered and written, up to the first that has no debugger to go to. -/
def issueAll : List (String × Bool) → Session → Except Error (List Nat) × Session
  | [], s => (.ok [], s)
  | (command, tolerant) :: rest, s =>
    match s.issue command tolerant with
    | (.error e, s) => (.error e, s)
    | (.ok ticket, s) =>
      let (tickets, s) := issueAll rest s
      (tickets.map (ticket :: ·), s)

/-- A line is written as it is. As for commands, a debugger that reads takes it at once. -/
def write (line : String) (s : Session) : Except Error Unit × Session :=
  match s.link with
  | .none | .closed => (.error .notConnected, s)
  | .open => (.ok (), { s with outbox := s.outbox ++ [.raw line] })
  | .deaf => (.error .brokenPipe, s)

/-- After the end of the debugger nothing is written and no number is used. -/
theorem issue_of_closed {s : Session} (h : s.link = .closed) (command : String) (tolerant : Bool) :
    s.issue command tolerant = (.error .sessionClosed, s) := by
  simp [issue, h]

/-- Before the start of a debugger nothing is written and no number is used. -/
theorem issue_of_none {s : Session} (h : s.link = .none) (command : String) (tolerant : Bool) :
    s.issue command tolerant = (.error .notConnected, s) := by
  simp [issue, h]

/-- A started debugger is taken on, unless the session has had one. -/
def connect (s : Session) : Except Error Unit × Session :=
  match s.link with
  | .none => (.ok (), { s with link := .open })
  | _ => (.error .alreadyStarted, s)

end Session

end MachineInterface

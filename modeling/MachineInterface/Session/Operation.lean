import MachineInterface.Session.Breakpoints
import MachineInterface.Session.Control
import MachineInterface.Session.Variables

/-!
# Operations

All that a front end can ask of a session, and the call of each.

* `advance_call_of_launched`: a debugger that can be started is set up like any other one.
* `advance_call_of_launchFailure`: one that cannot is reported, and the call ends.
-/

namespace MachineInterface

/-- Something that a front end asks of a session. -/
inductive Operation where
  /-- Sets up a debugger that was started elsewhere. -/
  | bringUp (l : Launch)
  | startLocal (host : Host) (l : Launch)
  | startSsh (host : Host) (a : SshArgs) (l : Launch)
  | start (stopAtEntry : Bool)
  | setEntryBreakpoint (entry : String)
  | supportsReverse
  | move (motion : Motion) (backwards : Bool)
  | interrupt
  | goto (file : Option String) (line : UInt32)
  | changeVariable (name value : String)
  | stopDebugger
  | detach
  /-- Several breakpoints are added by as many calls side by side. -/
  | addBreakpoint (d : Descriptor)
  | removeBreakpoint (d : Descriptor)
  | clearBreakpoints (source : Option String)
  | breakpoints
  | features
  | threads
  | stack (first count thread : UInt32)
  | stackVariables (thread level : UInt32)
  | registers
  | evaluate (expression : String) (thread level : UInt32)
  | readMemory (reference : String) (offset : Int) (count : UInt64)
  | completions (text : String)
  | createVariable (expression : String) (name : Option String) (thread level : UInt32)
  | updateVariable (name : String)
  | listChildren (name : String)
  | assignVariable (name expression : String)
  | evaluateVariable (name : String)
  | memoryReference (o : VariableObject)
  | scopes (frame : FrameId)
  | expand (handle : Handle)
  | send (command : String) (tolerant : Bool)
  | sendInput (text : String) (tolerant : Bool)
  | sendUserInput (text : String) (thread level : UInt32)
  | write (line : String)

namespace Operation

/-- What an operation gives. -/
@[reducible] def Answer : Operation → Type
  | bringUp _ | startLocal _ _ | startSsh _ _ _ | setEntryBreakpoint _ | changeVariable _ _
  | stopDebugger | detach | clearBreakpoints _ | write _ => Except Error Unit
  | start _ | supportsReverse | move _ _ | interrupt | goto _ _ | removeBreakpoint _ =>
    Except Error Bool
  | addBreakpoint _ => Except Error Addition
  | breakpoints => List Breakpoint
  | features => List String
  | threads => Except Error (List Thread)
  | stack _ _ _ => Except Error (List Frame)
  | stackVariables _ _ => Except Error (List StackVariable)
  | registers => Except Error (List Register)
  | evaluate _ _ _ | assignVariable _ _ | evaluateVariable _ => Except Error String
  | readMemory _ _ _ => Except Error MemoryRead
  | completions _ => Except Error (List String)
  | createVariable _ _ _ _ => Except Error VariableObject
  | updateVariable _ => Except Error (List Handle)
  | listChildren _ => Except Error (List VariableObject)
  | memoryReference _ => Option String
  | scopes _ => List Scope
  | expand _ => Except Error (List Variable)
  | send _ _ | sendInput _ _ | sendUserInput _ _ _ => Except Error ResultRecord

/-- The call of an operation. -/
def call : (op : Operation) → Call op.Answer
  | bringUp l => (Session.bringUp l).run
  | startLocal host l => (Session.startLocal host l).run
  | startSsh host a l => (Session.startSsh host a l).run
  | start stopAtEntry => (Session.start stopAtEntry).run
  | setEntryBreakpoint entry => (Session.setEntryBreakpoint entry).run
  | supportsReverse => Session.supportsReverse.run
  | move motion backwards => (Session.move motion backwards).run
  | interrupt => Session.interrupt.run
  | goto file line => (Session.goto file line).run
  | changeVariable name value => (Session.changeVariable name value).run
  | stopDebugger => Session.stopDebugger.run
  | detach => Session.detach.run
  | addBreakpoint d => (Session.addBreakpoint d).run
  | removeBreakpoint d => (Session.removeBreakpoint d).run
  | clearBreakpoints source => (Session.clearBreakpoints source).run
  | breakpoints => Call.read Session.breakpoints
  | features => Call.read (·.features)
  | threads => Session.threads.run
  | stack first count thread => (Session.stack first count thread).run
  | stackVariables thread level => (Session.stackVariables thread level).run
  | registers => Session.registers.run
  | evaluate expression thread level => (Session.evaluate expression thread level).run
  | readMemory reference offset count => (Session.readMemory reference offset count).run
  | completions text => (Session.completions text).run
  | createVariable expression name thread level =>
    (Session.createVariable expression name thread level).run
  | updateVariable name => (Session.updateVariable name).run
  | listChildren name => (Session.listChildren name).run
  | assignVariable name expression => (Session.assignVariable name expression).run
  | evaluateVariable name => (Session.evaluateVariable name).run
  | memoryReference o => Session.memoryReference o
  | scopes frame => Call.locked (Session.scopes frame)
  | expand handle => (Session.expand handle).run
  | send command tolerant => (CallM.send command tolerant).run
  | sendInput text tolerant => (Session.sendInput text tolerant).run
  | sendUserInput text thread level => (Session.sendUserInput text thread level).run
  | write line => (CallM.write line).run

/-! ## Launches -/

/-- Why something could not be started. -/
def failure? : Except String Unit → Option String
  | .ok () => none
  | .error detail => some detail

/-- Why the debugger that an operation is to start cannot be started. -/
def launchFailure? (config : Config) : Operation → Option String
  | startLocal host l =>
    let cwd := if l.cwd.isEmpty then none else some l.cwd
    failure? (host.startLocal (config.debugger.localCommand cwd l.trailingArgs))
  | startSsh host a _ => failure? (host.startSsh a)
  | _ => none

/-- The call of an operation whose debugger, if it starts one, has been started. -/
def course : (op : Operation) → Call op.Answer
  | startLocal _ l => (Session.bringUp l).run
  | startSsh _ _ l => (Session.bringUp l).run
  | op => op.call

variable {s : Session}

theorem advance_bringUpStarted_of_none {started : Except String Unit} (h : failure? started = none)
    (l : Launch) :
    (Session.bringUpStarted started l).run.advance s = (Session.bringUp l).run.advance s := by
  cases started with
  | ok _ => rfl
  | error _ => cases h

theorem advance_bringUpStarted_of_some {started : Except String Unit} {detail : String}
    (h : failure? started = some detail) (l : Launch) :
    (Session.bringUpStarted started l).run.advance s =
      (.done (.error (.launch detail)), s.launchFailed detail) := by
  cases started with
  | ok _ => cases h
  | error _ =>
    cases h
    rfl

/-- A debugger that can be started is set up like one that was started elsewhere. -/
theorem advance_call_of_launched {op : Operation} (h : op.launchFailure? s.config = none) :
    op.call.advance s = op.course.advance s := by
  cases op with
  | startLocal host l => exact advance_bringUpStarted_of_none h l
  | startSsh host a l => exact advance_bringUpStarted_of_none h l
  | _ => rfl

/-- A debugger that cannot be started is reported, and the call ends. -/
theorem advance_call_of_launchFailure {op : Operation} {detail : String}
    (h : op.launchFailure? s.config = some detail) :
    ∃ a, op.call.advance s = (.done a, s.launchFailed detail) := by
  cases op with
  | startLocal host l => exact ⟨_, advance_bringUpStarted_of_some h l⟩
  | startSsh host a l => exact ⟨_, advance_bringUpStarted_of_some h l⟩
  | _ => cases h

end Operation

end MachineInterface

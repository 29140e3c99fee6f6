import MachineInterface.Frame
import MachineInterface.Memory.Read
import MachineInterface.Record.Answer
import MachineInterface.Register
import MachineInterface.Session.Call
import MachineInterface.Session.Command
import MachineInterface.Thread

/-!
# Looking into the program

Threads, stacks, registers, expressions and memory of a program that has stopped.

* `lastLevel?_eq_some_iff`: the window of a stack that is listed.
-/

namespace MachineInterface

open Text

/-! ## Windows of a stack -/

/--
The last level of the window of a stack that starts at `start`: `count` levels, or all of them where
`count` is zero, as far as the stack is deep. A window without levels has no last one.
-/
def Frame.lastLevel? (depth start count : UInt32) : Option UInt32 :=
  let stop := if count = 0 then depth.toNat else min depth.toNat (start.toNat + count.toNat)
  if start.toNat < stop then some (UInt32.ofNat (stop - 1)) else none

theorem Frame.lastLevel?_eq_some_iff {depth start count last : UInt32} (h : count ≠ 0) :
    lastLevel? depth start count = some last ↔
      start ≤ last ∧ last.toNat + 1 = min depth.toNat (start.toNat + count.toNat) := by
  have hd := depth.toNat_lt
  simp only [lastLevel?, h, if_false, UInt32.le_iff_toNat_le]
  split
  · rw [Option.some.injEq, ← UInt32.toNat_inj, UInt32.toNat_ofNat']
    omega
  · simp only [reduceCtorEq, false_iff]
    omega

/-- A variable of a frame. -/
structure StackVariable where
  name : String
  value : Option String
  typeName : Option String
  deriving Repr, DecidableEq

/-- The variable that an entry of a list describes. -/
def StackVariable.ofValue? (v : Value) : Option StackVariable :=
  (v.lookupText? "name").map fun name => {
    name
    value := v.lookupText? "value"
    typeName := v.lookupText? "type" }

namespace Session

/-! ## Threads and stacks -/

/-- What the debugger says when it cannot list threads because one runs. -/
def threadRunning : String := "Selected thread is running."

/-- The threads of the program; none are known while the selected one runs. -/
def threads : CallM (List Thread) := do
  match ← CallM.attempt (CallM.ask "thread-info") with
  | .ok answer => return (answer.elements "threads").filterMap Thread.ofValue?
  | .error (.command message command) =>
    if message = threadRunning then return [] else throw (.command message command)
  | .error e => throw e

/-- A command about a thread; thread zero is the one that the debugger has selected. -/
def threadCommand (command : String) (thread : UInt32) : String :=
  if thread = 0 then command else command ++ " --thread " ++ toString thread.toNat

/-- The number of levels of a stack. -/
def stackDepth (thread : UInt32) : CallM UInt32 := do
  let command := threadCommand "stack-info-depth" thread
  match Numeral.readUInt32? (← (← CallM.ask command).require command "depth") with
  | some depth => return depth
  | none => throw (.malformed command "depth")

/-- The frames of a stack from level `start` on: `count` of them, or all where `count` is zero. -/
def stack (start count thread : UInt32) : CallM (List Frame) := do
  match Frame.lastLevel? (← stackDepth thread) start count with
  | none => return []
  | some last =>
    let answer ← CallM.ask (threadCommand "stack-list-frames" thread ++ " "
      ++ toString start.toNat ++ " " ++ toString last.toNat)
    return (answer.elements "stack").filterMap Frame.ofValue?

/-- The variables of a frame. -/
def stackVariables (thread level : UInt32) : CallM (List StackVariable) := do
  let answer ← CallM.ask ("stack-list-variables --thread " ++ toString thread.toNat ++ " --frame "
    ++ toString level.toNat ++ " --simple-values")
  return (answer.elements "variables").filterMap StackVariable.ofValue?

/-! ## Registers -/

/-- The names of the registers by number. They are asked once. -/
def nameRegisters : CallM (List String) := do
  match ← CallM.read (·.registerNames) with
  | some names => return names
  | none =>
    let command := "data-list-register-names"
    let answer ← CallM.ask command
    let names := (← answer.requireList command "register-names").map fun v => v.text?.getD ""
    CallM.modify fun s => { s with registerNames := some names }
    return names

/-- The registers that have names, and their values. -/
def registers : CallM (List Register) := do
  let names ← nameRegisters
  let command := "data-list-register-values N"
  let answer ← CallM.ask command
  return (← answer.requireList command "register-values").filterMap (Register.ofValue? names)

/-! ## Expressions and memory -/

/-- The value of an expression in a frame. -/
def evaluate (expression : String) (thread level : UInt32) : CallM String := do
  let command := "data-evaluate-expression " ++ Command.frameOptions thread level ++ expression
  (← CallM.ask command).require command "value"

/-- The bytes of memory at a reference and an offset, as far as they can be read. -/
def readMemory (reference : String) (offset : Int) (count : UInt64) : CallM MemoryRead := do
  let address ← Address.resolve reference offset
  if count = 0 then return { address }
  let command := Address.readCommand address count
  let answer ← CallM.send command true
  match answer.accepted command with
  | .ok answer => MemoryRead.ofAnswer command address count answer
  | .error e => if e.message = Memory.unreadableMessage then return { address } else throw e

/-- The lines with which the debugger would complete a line of user input. -/
def completions (text : String) : CallM (List String) := do
  let command := "complete " ++ Quote.quoted text
  let answer ← (← CallM.send command true).accepted command
  return (answer.elements "matches").filterMap Value.text?

end Session

end MachineInterface

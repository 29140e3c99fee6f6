import MachineInterface.Rehearsal.Debugger
import MachineInterface.Session.Call

/-!
# Rehearsals

A session and a scripted debugger run in rounds. In a round every call that can go on does so, in
the order in which the answers came; then the debugger answers all that was written, and its output
is read. Only when nothing can happen any more does time pass.
-/

namespace MachineInterface

open Text

/-! ## Reading -/

/-- How many bytes are read at once. -/
def chunkSize : Nat := 8192

/-- Bytes in the pieces in which they are read. -/
def chunks : List UInt8 → List (List UInt8)
  | [] => []
  | b :: bytes => (b :: bytes.take (chunkSize - 1)) :: chunks (bytes.drop (chunkSize - 1))
termination_by bytes => bytes.length
decreasing_by
  simp only [List.length_drop, List.length_cons]
  omega

/-- The debugger's output is read. -/
def Session.hear (bytes : List UInt8) (s : Session) : Session := (chunks bytes).foldl receive s

/-- The lines of what was written; each is ended by a newline. -/
def Outgoing.lines (o : Outgoing) : List (List Char) := (o.wire.toList.splitOn '\n').dropLast

/-! ## Calls on a stage -/

/-- Where a waiting call stands in the order of those that can go on. -/
def Call.turn? {α : Type} (s : Session) : Call α → Option Nat
  | .done _ => none
  | .step _ _ => some 0
  | .reply ticket _ _ =>
    (s.exchange.completions.findIdx? (·.ticket = ticket)).map (· + 1)
  | .ending _ _ => if s.isClosed then some 0 else none

/-- Calls that together give one answer. -/
structure Job (α : Type) where
  /-- The positions of the calls on the stage. -/
  calls : List Nat
  gather : List α → α

/-- A session, a scripted debugger, and calls under way. -/
structure Stage (α : Type) : Type 1 where
  session : Session
  debugger : Option ScriptedDebugger := none
  /-- How much of what was written has been read. -/
  read : Nat := 0
  /-- All calls so far, less those that were given up. -/
  calls : List (Option (Call α)) := []
  /-- The jobs in the background. -/
  background : List (Job α) := []

namespace Stage

variable {α : Type}

/-- A call on the stage. -/
def call? (st : Stage α) (i : Nat) : Option (Call α) := (st.calls[i]?).join

/-- The calls that can go on, in their order. -/
def ready (st : Stage α) : List Nat :=
  let turns := st.calls.zipIdx.filterMap fun (call, i) =>
    (call.bind (Call.turn? st.session)).map (·, i)
  (turns.mergeSort fun a b => a.1 ≤ b.1).map (·.2)

/-- A call goes on until it has to wait. -/
def goOn (st : Stage α) (i : Nat) : Stage α :=
  match st.call? i with
  | some call =>
    let (call, session) := call.advance st.session
    { st with session, calls := st.calls.set i (some call) }
  | none => st

/-- Whether the debugger has ended or is to end, and the session has not learned of it. -/
def isEnding (st : Stage α) (d : ScriptedDebugger) : Bool :=
  (d.ended || st.session.killRequested) && !st.session.isClosed

/-- The debugger answers all that was written, and its output is read, up to its end. -/
def exchangeLines (st : Stage α) : Stage α :=
  match st.debugger with
  | none => st
  | some d =>
    let (output, d) := d.hearAll ((st.session.outbox.drop st.read).flatMap Outgoing.lines)
    let bytes := output.flatMap fun line => Utf8.encode line ++ [LineBuffer.newline]
    let st := { st with read := st.session.outbox.length, session := st.session.hear bytes }
    if st.isEnding d then
      { st with debugger := some { d with ended := true }, session := st.session.finish }
    else { st with debugger := some d }

/-- One round. -/
def round (st : Stage α) : Stage α := (st.ready.foldl goOn st).exchangeLines

/-- Whether nothing can happen unless time passes. -/
def isIdle (st : Stage α) : Bool :=
  st.ready.isEmpty && match st.debugger with
    | none => true
    | some d => st.read == st.session.outbox.length && !st.isEnding d

/-- Rounds until nothing can happen unless time passes, at most so many. -/
def settleWithin : (rounds : Nat) → Stage α → Stage α
  | 0, st => st
  | rounds + 1, st => if st.isIdle then st else settleWithin rounds st.round

/-- More rounds than a rehearsal takes. -/
def manyRounds : Nat := 1000000

/-- Rounds until nothing can happen unless time passes. -/
def settle (st : Stage α) : Stage α := st.settleWithin manyRounds

/-- The oldest grace period passes, if there is one. -/
def expire? (st : Stage α) : Option (Stage α) :=
  let isImpatient (call : Option (Call α)) : Bool := call.any Call.isImpatient
  (st.calls.findIdx? isImpatient).map fun i =>
    { st with calls := st.calls.set i ((st.call? i).map Call.expire) }

/-! ## Jobs -/

/-- New calls for one job. -/
def enter (st : Stage α) (calls : List (Call α)) (gather : List α → α) : Job α × Stage α :=
  (⟨(List.range calls.length).map (st.calls.length + ·), gather⟩,
    { st with calls := st.calls ++ calls.map some })

/-- What a job gives once all its calls are done. -/
def result? (st : Stage α) (j : Job α) : Option α :=
  (j.calls.mapM fun i => (st.call? i).bind Call.result?).map j.gather

/-- Time passes until some jobs are done or nothing can happen any more; so many periods at most. -/
def waitWithin : (periods : Nat) → List (Job α) → Stage α → Stage α
  | 0, _, st => st
  | periods + 1, jobs, st =>
    let st := st.settle
    if jobs.all fun j => (st.result? j).isSome then st
    else match st.expire? with
      | some st => waitWithin periods jobs st
      | none => st

/-- A call is given up. -/
def giveUp (st : Stage α) (i : Nat) : Stage α :=
  match st.call? i with
  | some call => { st with session := call.drop st.session, calls := st.calls.set i none }
  | none => st

/-- What a job gives; a job that is not done is given up. -/
def collect (st : Stage α) (j : Job α) : Option α × Stage α :=
  match st.result? j with
  | some a => (some a, st)
  | none => (none, j.calls.foldl giveUp st)

/-- What several jobs give. -/
def collectAll (st : Stage α) : List (Job α) → List (Option α) × Stage α
  | [] => ([], st)
  | j :: jobs =>
    let (first, st) := st.collect j
    let (others, st) := st.collectAll jobs
    (first :: others, st)

/-- Calls are made and awaited together. -/
def perform (st : Stage α) (calls : List (Call α)) (gather : List α → α) : Option α × Stage α :=
  let (job, st) := st.enter calls gather
  (waitWithin manyRounds [job] st).collect job

/-- Calls are made in the background. -/
def start (st : Stage α) (calls : List (Call α)) (gather : List α → α) : Stage α :=
  let (job, st) := st.enter calls gather
  settle { st with background := st.background ++ [job] }

/-- The jobs in the background are awaited, in the order in which they were started. -/
def join (st : Stage α) : List (Option α) × Stage α :=
  let jobs := st.background
  let waited : Stage α := waitWithin manyRounds jobs { st with background := [] }
  waited.collectAll jobs

/-! ## Acting on the debugger -/

/-- A debugger is put on the stage, unless there was one before. -/
def bring (st : Stage α) (d : ScriptedDebugger) : Stage α :=
  { st with debugger := st.debugger.or (some d) }

/-- What the debugger prints on its own is read. -/
def output (st : Stage α) (bytes : List UInt8) : Stage α :=
  match st.debugger with
  | some d =>
    if d.ended then st else settle { st with session := st.session.hear bytes }
  | none => st

/-- The debugger prints a line on its own. -/
def printLine (st : Stage α) (line : String) : Stage α :=
  st.output (Utf8.encode line ++ [LineBuffer.newline])

/-- Whether the debugger may print what is not a whole line, and may stop reading. -/
def misbehaves (st : Stage α) : Bool := st.debugger.any (·.manner.misbehaves)

/-- The debugger prints any bytes on its own, if it may. -/
def print (st : Stage α) (bytes : List UInt8) : Stage α :=
  if st.misbehaves then st.output bytes else st

/-- The debugger ends on its own. -/
def endDebugger (st : Stage α) : Stage α :=
  let debugger := st.debugger.map fun d => { d with ended := true }
  settle { st with debugger }

/-- The debugger stops reading, if it may. -/
def stopReading (st : Stage α) : Stage α :=
  if st.misbehaves && st.session.link == .open then
    { st with session := { st.session with link := .deaf } }
  else st

/-- The debugger goes on with other rules. -/
def replaceRules (st : Stage α) (rules : List Rule) : Stage α :=
  let debugger := st.debugger.map fun d => { d with script := { d.script with rules } }
  { st with debugger }

end Stage

end MachineInterface

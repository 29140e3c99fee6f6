import MachineInterface.Session.Call

/-!
# Breakpoints of a session

Adding, removing and clearing breakpoints. A location is reserved while its breakpoint is on its
way, and the reservation ends with the call, however the call ends.

* `reserve_of_not_free`: a location that is taken is not reserved and nothing changes.
-/

namespace MachineInterface

namespace Session

/-! ## Adding -/

/-- A location is reserved; whether it was free. -/
def reserve (l : Location) (s : Session) : Bool × Session :=
  match s.board.reserve? l with
  | some board => (true, { s with board })
  | none => (false, s)

/-- A location that is taken is not reserved and nothing changes. -/
theorem reserve_of_not_free {s : Session} {l : Location} (h : s.board.isFree l = false) :
    reserve l s = (false, s) := by
  simp [reserve, Board.reserve?_eq_none_iff.2 h]

/-- A reservation ends, with the breakpoint that came of it. -/
def settle (l : Location) (outcome : Option Breakpoint) (s : Session) : Session :=
  { s with board := s.board.settle l outcome }

/-- What is told when a request about hits cannot be followed. -/
def unsupportedHits (text : String) : String :=
  "Unsupported break count expression: '" ++ text ++ "'. Only supports 'X' for breaking once after "
    ++ "X times or '>X' for ignoring the first X breaks"

/-- The notice about a request for hits, if one is due. -/
def warnHits (policy : Option HitPolicy) (s : Session) : Session :=
  match policy with
  | some (.unsupported text) => s.emitLine .stderr (unsupportedHits text)
  | _ => s

/-- The condition of a breakpoint is set, if there is one. -/
def setCondition (id : UInt32) (condition : Option String) : CallM Unit :=
  match nonEmpty condition with
  | some c => discard (CallM.ask ("break-condition " ++ toString id.toNat ++ " " ++ c))
  | none => return

/-- The message of a log point is set, if there is one. -/
def setLogMessage (id : UInt32) (message : Option String) : CallM Unit :=
  match nonEmpty message with
  | some m => do
    let template := LogTemplate.ofMessage m
    unless template.expressions.isEmpty do discard (CallM.ask (template.breakCommands id))
    CallM.modify fun s => { s with logPoints := s.logPoints.register id template }
  | none => return

/-- The first failure of two attempts. -/
def firstFailure (a b : Except Error Unit) : Option Error :=
  match a, b with
  | .error e, _ => some e
  | .ok _, .error e => some e
  | .ok _, .ok _ => none

/-- A breakpoint is inserted at a reserved location, and then given its condition and message. -/
def install (l : Location) (d : Descriptor) : CallM Addition := do
  let policy := d.hitPolicy?
  CallM.modify (warnHits policy)
  let command := insertCommand l policy
  let answer ← CallM.ask command
  let breakpoint ← Breakpoint.ofAnswer command l d answer
  let condition ← CallM.attempt (setCondition breakpoint.id d.condition)
  let message ← CallM.attempt (setLogMessage breakpoint.id d.logMessage)
  match firstFailure condition message with
  | some failure => return .degraded breakpoint failure
  | none => return .added breakpoint

/-- The breakpoint that an attempt has left standing. -/
def standing (outcome : Except Error Addition) : Option Breakpoint :=
  match outcome with
  | .ok addition => addition.breakpoint?
  | .error _ => none

/-- A breakpoint is added, unless its location is taken. -/
def addBreakpoint (d : Descriptor) : CallM Addition := do
  let l ← d.location
  if ← ExceptT.lift (Call.locked (reserve l)) then
    let outcome ← ExceptT.lift ((install l d).run.holding (settle l none))
    CallM.modify (settle l (standing outcome))
    outcome
  else return .alreadyInstalled

/-- One call for each breakpoint to add. The calls run side by side, begun in any order. -/
def addBreakpoints (ds : List Descriptor) : List (CallM Addition) := ds.map addBreakpoint

/--
The results of so many calls that ran side by side, in the order of their places. The calls are
joined in any order, each with its place. A place for which none was joined, since its call broke
off, has the result of a closed session.
-/
def gather {α : Type} (count : Nat) (joined : List (Nat × Except Error α)) :
    List (Except Error α) :=
  (joined.foldl (fun slots e => slots.set e.1 (some e.2)) (List.replicate count none)).map
    (·.getD (.error .sessionClosed))

/-! ## Removing -/

/-- The command that deletes a breakpoint. -/
def deleteCommand (id : UInt32) : String := "break-delete " ++ toString id.toNat

/-- A location and the template of a breakpoint are given up. -/
def forget (l : Location) (id : UInt32) (s : Session) : Session :=
  { s with board := s.board.remove l, logPoints := s.logPoints.remove id }

/-- The breakpoint at a location is deleted; whether there was one and the debugger agreed. -/
def removeBreakpoint (d : Descriptor) : CallM Bool := do
  let l ← d.location
  match ← CallM.read (·.board.get? l) with
  | none => return false
  | some breakpoint =>
    let answer ← CallM.ask (deleteCommand breakpoint.id)
    if answer.outcome = .done then
      CallM.modify (forget l breakpoint.id)
      return true
    else return false

/-- The breakpoints of a file are taken from the board, together with their templates. -/
def takeSource (source : Option String) (s : Session) : List Breakpoint × Session :=
  let (taken, board) := s.board.takeSource source
  (taken, { s with board, logPoints := taken.foldl (fun l b => l.remove b.id) s.logPoints })

/-- Deletes are written, each on its own: the tickets of those that were, and the first failure. -/
def issueDeletes : List Breakpoint → CallM (List Nat × Option Error)
  | [] => return ([], none)
  | b :: rest => do
    let written ← CallM.attempt (CallM.locked (issue (deleteCommand b.id) false))
    let (tickets, failure) ← issueDeletes rest
    match written with
    | .ok ticket => return (ticket :: tickets, failure)
    | .error e => return (tickets, some e)

/-- The answers to some commands are awaited; the first failure among them. -/
def awaitAll : List Nat → CallM (Option Error)
  | [] => return none
  | ticket :: rest => do
    let answer ← CallM.attempt (CallM.await ticket)
    let failure ← awaitAll rest
    match answer with
    | .ok _ => return failure
    | .error e => return some e

/-- The breakpoints of a file are cleared, those at raw locations where no file is given. -/
def clearBreakpoints (source : Option String) : CallM Unit := do
  let taken ← ExceptT.lift (Call.locked (takeSource source))
  let (tickets, unwritten) ← issueDeletes taken
  let unanswered ← awaitAll tickets
  match unwritten.or unanswered with
  | some e => throw e
  | none => return

/-- The breakpoints that stand, by number. -/
def breakpoints (s : Session) : List Breakpoint := s.board.toList

end Session

end MachineInterface

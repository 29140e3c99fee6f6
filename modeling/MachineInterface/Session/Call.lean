import MachineInterface.Session.Dispatch

/-!
# Calls

A call of the front end is a sequence of sections that each change the session at once, with waits
between them: for the answer to a command, or for the end of the debugger. Between two sections
other calls may run.

* `bind_assoc`: sequences of calls can be regrouped.
* `advance_eq_self_of_waiting`: a call that waits does not move by itself.
-/

namespace MachineInterface

/-- A call that gives an `α`. -/
inductive Call (α : Type) : Type 1 where
  | done (a : α)
  /-- A section that changes the session at once. -/
  | step {β : Type} (run : Session → β × Session) (next : β → Call α)
  /--
  A wait for the answer to the command with a ticket. When the caller gives up, the session is
  released from what the call holds.
  -/
  | reply (ticket : Nat) (release : Session → Session) (next : Reply → Call α)
  /--
  A wait for the end of the debugger, told whether it came. A patient wait knows no other end; any
  other one ends with the grace period.
  -/
  | ending (patient : Bool) (next : Bool → Call α)

namespace Call

variable {α β γ : Type}

/-- A call followed by another that depends on what it gives. -/
def bind : Call α → (α → Call β) → Call β
  | done a, f => f a
  | step run next, f => step run fun b => (next b).bind f
  | reply ticket release next, f => reply ticket release fun r => (next r).bind f
  | ending patient next, f => ending patient fun b => (next b).bind f

instance : Monad Call where
  pure := done
  bind := bind

/-- A single section. -/
def locked (run : Session → α × Session) : Call α := step run done

/-- A single section that only changes the session. -/
def modify (f : Session → Session) : Call Unit := locked fun s => ((), f s)

/-- A single section that only looks at the session. -/
def read (f : Session → α) : Call α := locked fun s => (f s, s)

/-- A call during which the session holds something, from which a given-up call releases it. -/
def holding (release : Session → Session) : Call α → Call α
  | done a => done a
  | step run next => step run fun b => (next b).holding release
  | reply ticket inner next => reply ticket (release ∘ inner) fun r => (next r).holding release
  | ending patient next => ending patient fun b => (next b).holding release

/-- Sequences of calls can be regrouped. -/
theorem bind_assoc (c : Call α) (f : α → Call β) (g : β → Call γ) :
    (c.bind f).bind g = c.bind fun a => (f a).bind g := by
  induction c with
  | done a => rfl
  | step run next ih => simp only [bind, ih]
  | reply ticket release next ih => simp only [bind, ih]
  | ending patient next ih => simp only [bind, ih]

/-! ## Running -/

/-- A call after the sections that it can run before it has to wait, and the session after these. -/
def advance : Call α → Session → Call α × Session
  | done a, s => (done a, s)
  | step run next, s => (next (run s).1).advance (run s).2
  | reply ticket release next, s =>
    match s.exchange.reply? ticket with
    | some r => (next r).advance s
    | none => (reply ticket release next, s)
  | ending patient next, s =>
    if s.isClosed then (next true).advance s else (ending patient next, s)

/-- Whether a call waits for an end that the grace period may replace. -/
def isImpatient : Call α → Bool
  | ending false _ => true
  | _ => false

/-- A call after its grace period has passed. -/
def expire : Call α → Call α
  | ending false next => next false
  | c => c

/-- What a call gives once it is done. -/
def result? : Call α → Option α
  | done a => some a
  | _ => none

/-- The session after a caller gave up. -/
def drop : Call α → Session → Session
  | reply ticket release _, s => release { s with exchange := s.exchange.abandon ticket }
  | _, s => s

/-- A call that waits for an answer does not move by itself. -/
theorem advance_eq_self_of_waiting {s : Session} {ticket : Nat}
    (h : s.exchange.reply? ticket = none) (release : Session → Session) (next : Reply → Call α) :
    (reply ticket release next).advance s = (reply ticket release next, s) := by
  simp [advance, h]

end Call

/-- A call that may fail. -/
abbrev CallM := ExceptT Error Call

namespace CallM

variable {α : Type}

/-- A section that may fail. -/
def locked (run : Session → Except Error α × Session) : CallM α := ExceptT.mk (Call.locked run)

/-- The answer to the command with a ticket. -/
def await (ticket : Nat) : CallM ResultRecord := ExceptT.mk (.reply ticket id .done)

/-- A command is written and its answer awaited. -/
def send (command : String) (tolerant : Bool) : CallM ResultRecord := do
  await (← locked (Session.issue command tolerant))

/-- A command whose failure ends the call is written and its answer awaited. -/
def ask (command : String) : CallM ResultRecord := send command false

/-- A line is written as it is. -/
def write (line : String) : CallM Unit := locked (Session.write line)

/-- A section that only changes the session. -/
def modify (f : Session → Session) : CallM Unit := ExceptT.lift (Call.modify f)

/-- A section that only looks at the session. -/
def read (f : Session → α) : CallM α := ExceptT.lift (Call.read f)

/-- What a call gives, or why it fails. -/
def attempt (c : CallM α) : CallM (Except Error α) := ExceptT.lift c.run

end CallM

end MachineInterface

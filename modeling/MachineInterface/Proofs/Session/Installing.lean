import MachineInterface.Proofs.Session.Finales

/-!
# The course of an addition

An addition that has reserved its location waits for up to three answers: to the insert, to its
condition and to the print commands of its message. What it leaves in the session comes with its
last section.

* `advance_addCondition`, `advance_addMessage`: how far an addition goes in one section.
* `advance_enclose_done`, `advance_enclose_waits`: the reservation ends with the addition.
-/

namespace MachineInterface

theorem Descriptor.location_of_some {d : Descriptor} {l : Location} (h : d.location? = some l) :
    d.location = .ok l := by
  simp only [location, h]

namespace Session

open Call

variable {s u : Session} {l : Location} {d : Descriptor}

/-! ## Answers to wait for -/

/-- The command that sets the condition of a breakpoint. -/
def conditionCommand (id : UInt32) (condition : String) : String :=
  "break-condition " ++ toString id.toNat ++ " " ++ condition

/-- What an addition gives once its breakpoint has a condition and a message, or lacks them. -/
def concluded (b : Breakpoint) (condition message : Except Error Unit) : Addition :=
  match firstFailure condition message with
  | some failure => .degraded b failure
  | none => .added b

/-- What is left of an addition once the condition is set or not. -/
def addMessage (b : Breakpoint) (d : Descriptor) (condition : Except Error Unit) :
    CallM Addition := do
  let message ← CallM.attempt (setLogMessage b.id d.logMessage)
  return concluded b condition message

/-- What is left of an addition once the breakpoint is inserted. -/
def addCondition (b : Breakpoint) (d : Descriptor) : CallM Addition := do
  let condition ← CallM.attempt (setCondition b.id d.condition)
  addMessage b d condition

theorem addCondition_eq (b : Breakpoint) (d : Descriptor) : addCondition b d = (do
    let condition ← CallM.attempt (setCondition b.id d.condition)
    let message ← CallM.attempt (setLogMessage b.id d.logMessage)
    match firstFailure condition message with
    | some failure => return .degraded b failure
    | none => return .added b) := by
  refine congrArg (_ >>= ·) (funext fun condition => congrArg (_ >>= ·) (funext fun message => ?_))
  unfold concluded
  cases firstFailure condition message <;> rfl

/-- An addition that waits for the answer to its insert. -/
def awaitInsert (ticket : Nat) (l : Location) (d : Descriptor) : Call (Except Error Addition) :=
  .reply ticket id fun
    | .ok answer =>
      match Breakpoint.ofAnswer (insertCommand l d.hitPolicy?) l d answer with
      | .ok b => (addCondition b d).run
      | .error e => .done (.error e)
    | .error e => .done (.error e)

/-- An addition that waits for the answer to its condition. -/
def awaitCondition (ticket : Nat) (b : Breakpoint) (d : Descriptor) :
    Call (Except Error Addition) :=
  .reply ticket id fun r => (addMessage b d (r.map fun _ => ())).run

/-- An addition that waits for the answer to the print commands of its message. -/
def awaitMessage (ticket : Nat) (b : Breakpoint) (condition : Except Error Unit)
    (template : LogTemplate) : Call (Except Error Addition) :=
  .reply ticket id fun
    | .ok _ => .step
      (fun s => ((), { s with logPoints := s.logPoints.register b.id template }))
      fun _ => .done (.ok (concluded b condition (.ok ())))
    | .error e => .done (.ok (concluded b condition (.error e)))

/-! ## Sections -/

/-- A command is written, and the call that it belongs to waits for the answer. -/
theorem advance_issue {α : Type} (hopen : s.link = .open)
    (hr : s.exchange.reply? s.exchange.issued = none) {command : String}
    {next : Except Error Nat → Call α} {release : Session → Session} {rest : Reply → Call α}
    (hnext : next (.ok s.exchange.issued) = .reply s.exchange.issued release rest) :
    (Call.step (Session.issue command false) next).advance s =
      (.reply s.exchange.issued release rest, (s.issue command false).2) := by
  have hissue := issue_of_open hopen command false
  have hwait : (s.issue command false).2.exchange.reply? s.exchange.issued = none := by
    rw [hissue]
    exact hr
  rw [Call.advance, show (s.issue command false).1 = .ok s.exchange.issued by rw [hissue], hnext]
  exact advance_eq_self_of_waiting hwait release rest

theorem advance_addMessage_none (h : nonEmpty d.logMessage = none) (b : Breakpoint)
    (condition : Except Error Unit) (s : Session) :
    (addMessage b d condition).run.advance s = (.done (.ok (concluded b condition (.ok ()))), s) := by
  unfold addMessage setLogMessage
  rw [h]
  rfl

theorem advance_addMessage_plain {m : String} (h : nonEmpty d.logMessage = some m)
    (hplain : (LogTemplate.ofMessage m).expressions.isEmpty = true) (b : Breakpoint)
    (condition : Except Error Unit) (s : Session) : (addMessage b d condition).run.advance s =
      (.done (.ok (concluded b condition (.ok ()))),
        { s with logPoints := s.logPoints.register b.id (.ofMessage m) }) := by
  unfold addMessage setLogMessage
  simp only [h, hplain, if_true]
  rfl

theorem advance_addMessage_asked {m : String} (h : nonEmpty d.logMessage = some m)
    (hasks : (LogTemplate.ofMessage m).expressions.isEmpty = false) (hopen : s.link = .open)
    (hr : s.exchange.reply? s.exchange.issued = none) (b : Breakpoint)
    (condition : Except Error Unit) : (addMessage b d condition).run.advance s =
      (awaitMessage s.exchange.issued b condition (.ofMessage m),
        (s.issue ((LogTemplate.ofMessage m).breakCommands b.id) false).2) := by
  unfold addMessage setLogMessage
  simp only [h, hasks, Bool.false_eq_true, if_false]
  refine advance_issue hopen hr (congrArg (Call.reply _ id) (funext fun r => ?_))
  cases r <;> rfl

theorem advance_addCondition_none (h : nonEmpty d.condition = none) (b : Breakpoint)
    (s : Session) :
    (addCondition b d).run.advance s = (addMessage b d (.ok ())).run.advance s := by
  unfold addCondition setCondition
  rw [h]
  rfl

theorem advance_addCondition_asked {c : String} (h : nonEmpty d.condition = some c)
    (hopen : s.link = .open) (hr : s.exchange.reply? s.exchange.issued = none) (b : Breakpoint) :
    (addCondition b d).run.advance s = (awaitCondition s.exchange.issued b d,
      (s.issue (conditionCommand b.id c) false).2) := by
  unfold addCondition setCondition
  rw [h]
  refine advance_issue hopen hr (congrArg (Call.reply _ id) (funext fun r => ?_))
  cases r <;> rfl

/-- An addition writes its insert first. -/
theorem advance_install (hopen : s.link = .open)
    (hr : s.exchange.reply? s.exchange.issued = none) (l : Location) (d : Descriptor) :
    ∃ events, (install l d).run.advance s = (awaitInsert s.exchange.issued l d,
      (issue (insertCommand l d.hitPolicy?) false { s with events }).2) := by
  obtain ⟨events, hwarn⟩ := warnHits_eq s d.hitPolicy?
  refine ⟨events, ?_⟩
  unfold install
  rw [CallM.advance_modify_bind, hwarn]
  refine advance_issue (s := { s with events }) hopen hr ?_
  refine congrArg (Call.reply _ id) (funext fun r => ?_)
  cases r with
  | error e => rfl
  | ok answer =>
    refine (CallM.run_except_bind _ _).trans ?_
    dsimp only
    cases Breakpoint.ofAnswer (insertCommand l d.hitPolicy?) l d answer with
    | error e => rfl
    | ok b => exact congrArg ExceptT.run (addCondition_eq b d).symm

/-! ## The reservation -/

/-- An addition with the reservation that ends with it. -/
def enclose (l : Location) (c : Call (Except Error Addition)) : Call (Except Error Addition) :=
  (c.holding (settle l none)).bind fun outcome =>
    .step (fun s => ((), settle l (standing outcome) s)) fun _ => .done outcome

theorem run_addReserved (l : Location) (d : Descriptor) :
    (addReserved l d).run = enclose l (install l d).run := by
  unfold addReserved
  rw [CallM.run_lift_bind]
  rfl

/-- The reservation ends with the addition. -/
theorem advance_enclose_done {c : Call (Except Error Addition)} {r : Except Error Addition}
    (h : c.advance s = (.done r, u)) (l : Location) :
    (enclose l c).advance s = (.done r, settle l (standing r) u) := by
  rw [enclose, advance_bind, advance_holding, h]
  rfl

/-- As long as an addition waits, its location stays reserved. -/
theorem advance_enclose_waits {c c' : Call (Except Error Addition)} {ticket : Nat}
    {release : Session → Session} {next : Reply → Call (Except Error Addition)}
    (h : c.advance s = (c', u)) (hc : c' = .reply ticket release next) (l : Location) :
    (enclose l c).advance s = (enclose l c', u) := by
  subst hc
  rw [enclose, advance_bind, advance_holding, h]
  exact advance_eq_self_of_waiting (reply?_of_advance h) _ _

/-- An addition to a free location reserves it and writes the insert. -/
theorem advance_addBreakpoint_free (hopen : s.link = .open)
    (hr : s.exchange.reply? s.exchange.issued = none) (hl : d.location = .ok l)
    (hfree : s.board.isFree l = true) :
    let command := insertCommand l d.hitPolicy?
    ∃ events, (addBreakpoint d).run.advance s = (enclose l (awaitInsert s.exchange.issued l d),
      { s with
        board := s.board.withReserved l
        events
        exchange := (s.exchange.register command false).2
        outbox := s.outbox ++ [.command s.exchange.freeToken command] }) := by
  obtain ⟨events, hinstall⟩ :=
    advance_install (s := { s with board := s.board.withReserved l }) hopen hr l d
  refine ⟨events, ?_⟩
  have hissue := issue_of_open (s := { s with board := s.board.withReserved l, events }) hopen
    (insertCommand l d.hitPolicy?) false
  rw [advance_addBreakpoint hl hfree, reserve_of_isFree hfree, run_addReserved]
  exact (advance_enclose_waits hinstall rfl l).trans (congrArg (fun r => (_, r.2)) hissue)

end Session

end MachineInterface

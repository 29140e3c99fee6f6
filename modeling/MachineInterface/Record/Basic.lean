import MachineInterface.Record.Path

/-!
# Records

What a debugger says in one line of the interface: the result of a command, an asynchronous notice,
or a piece of a text stream.

* `Outcome.ofText?_text`, `Outcome.text_of_ofText?`: outcomes and their words correspond.
-/

namespace MachineInterface

/-- How a command ended. -/
inductive Outcome where
  | done
  | running
  | connected
  | error
  | exit
  deriving Repr, DecidableEq, Inhabited

namespace Outcome

/-- The word for an outcome. -/
def text : Outcome → String
  | done => "done"
  | running => "running"
  | connected => "connected"
  | error => "error"
  | exit => "exit"

/-- The outcome that a word stands for. -/
def ofText? (s : String) : Option Outcome :=
  if s = "done" then some done
  else if s = "running" then some running
  else if s = "connected" then some connected
  else if s = "error" then some error
  else if s = "exit" then some exit
  else none

@[simp] theorem ofText?_text (o : Outcome) : ofText? o.text = some o := by cases o <;> rfl

theorem text_of_ofText? {s : String} {o : Outcome} (h : ofText? s = some o) : s = o.text := by
  unfold ofText? at h
  repeat' split at h
  all_goals simp_all
  all_goals subst h; rfl

end Outcome

/-- What an asynchronous notice is about. -/
inductive NoticeKind where
  /-- Execution of the program. -/
  | exec
  /-- Progress of a slow operation. -/
  | status
  /-- Anything else worth knowing. -/
  | notify
  deriving Repr, DecidableEq, Inhabited

/-- Where a piece of text comes from. -/
inductive StreamKind where
  /-- The debugger's console. -/
  | console
  /-- The program under the debugger. -/
  | target
  /-- The debugger's own log. -/
  | log
  deriving Repr, DecidableEq, Inhabited

/-- The sign that starts a notice. -/
def NoticeKind.sign : NoticeKind → Char
  | exec => '*'
  | status => '+'
  | notify => '='

/-- The sign that starts a piece of a stream. -/
def StreamKind.sign : StreamKind → Char
  | console => '~'
  | target => '@'
  | log => '&'

/-- The result of a command. -/
structure ResultRecord where
  /-- The number of the command, if the line carried one that fits. -/
  token : Option UInt64
  outcome : Outcome
  fields : List Field
  deriving Repr, DecidableEq

/-- The constant at a path of a result. -/
def ResultRecord.text? (r : ResultRecord) (path : String) : Option String :=
  Field.lookupText? r.fields path

/-- The message of a failed command. -/
def ResultRecord.message? (r : ResultRecord) : Option String := r.text? "msg"

/-- An asynchronous notice. -/
structure Notice where
  token : Option UInt64
  kind : NoticeKind
  /-- What happened. -/
  event : String
  fields : List Field
  deriving Repr, DecidableEq

/-- The constant at a path of a notice. -/
def Notice.text? (n : Notice) (path : String) : Option String := Field.lookupText? n.fields path

/-- What one line of the interface says. -/
inductive Record where
  | result (record : ResultRecord)
  | notice (record : Notice)
  | stream (kind : StreamKind) (text : String)
  /-- A line that follows no rule. -/
  | unhandled (line : String)
  deriving Repr, DecidableEq

/-- The fields of a result or a notice. -/
def Record.fields? : Record → Option (List Field)
  | result r => some r.fields
  | notice n => some n.fields
  | _ => none

end MachineInterface

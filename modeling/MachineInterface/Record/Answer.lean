import MachineInterface.Error
import MachineInterface.Record.Basic

/-!
# What an answer has to hold

A caller needs certain entries in the answer to its command; where one is missing, the error names
the command and the entry.

* `require_eq_ok_iff`: a required entry is given exactly when the answer holds it.
-/

namespace MachineInterface.ResultRecord

/-- The elements of the list at a path; there are none where no list is. -/
def elements (r : ResultRecord) (path : String) : List Value :=
  ((Field.lookup? r.fields path).map Value.elements).getD []

/-- The constant that the answer to a command has to hold. -/
def require (r : ResultRecord) (command path : String) : Except Error String :=
  match r.text? path with
  | some text => .ok text
  | none => .error (.missing command path)

/-- A required entry is given exactly when the answer holds it. -/
theorem require_eq_ok_iff {r : ResultRecord} {command path text : String} :
    r.require command path = .ok text ↔ r.text? path = some text := by
  unfold require
  split <;> simp_all

/-- The elements of the list that the answer to a command has to hold. -/
def requireList (r : ResultRecord) (command path : String) : Except Error (List Value) :=
  match (Field.lookup? r.fields path).bind Value.items? with
  | some items => .ok (items.map (·.2))
  | none => .error (.notList command path)

/-- The answer to a command whose errors were to be passed on as answers, unless it is one. -/
def accepted (r : ResultRecord) (command : String) : Except Error ResultRecord :=
  if r.outcome = .error then .error (.command (r.message?.getD "") command) else .ok r

end MachineInterface.ResultRecord

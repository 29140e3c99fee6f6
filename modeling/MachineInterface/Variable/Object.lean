import MachineInterface.Memory.Address
import MachineInterface.Record.Basic
import MachineInterface.Text.Cut

/-!
# Variable objects

A variable object stands in the debugger for an expression whose value is followed over time.

* `isSet_eq_false_iff`: the texts of a flag that is not set.
* `name_apply`: a change keeps the name.
-/

namespace MachineInterface

open Text

/-- An expression that the debugger follows. -/
structure VariableObject where
  /-- The debugger's name for the object. -/
  name : String
  expression : String := ""
  childCount : UInt32 := 0
  typeName : Option String := none
  value : Option String := none
  threadId : Option String := none
  frozen : Bool := false
  dynamic : Bool := false
  displayHint : Option String := none
  hasMore : Bool := false
  deriving Repr, DecidableEq

/-- How a variable can serve as a memory reference. -/
inductive MemoryHint where
  | none
  /-- A text that starts with the address. -/
  | literal (reference : String)
  /-- An expression whose value starts with the address. -/
  | addressOf (expression : String)
  deriving Repr, DecidableEq

namespace VariableObject

/-- Whether a flag is set. -/
def isSet (flag : Option String) : Bool :=
  match flag with
  | none => false
  | some text => text != "" && text != "0" && text != "false"

/-- A flag is set by every text but three. -/
theorem isSet_eq_false_iff {flag : Option String} :
    isSet flag = false ↔ flag = none ∨ flag = some "" ∨ flag = some "0" ∨ flag = some "false" := by
  cases flag with
  | none => simp [isSet]
  | some text =>
    simp only [isSet, bne, Bool.and_eq_false_iff, Bool.not_eq_false', beq_iff_eq, or_assoc,
      reduceCtorEq, Option.some.injEq, false_or]

/-- The object that an entry of the debugger describes. -/
def ofValue? (v : Value) : Option VariableObject :=
  (v.lookupText? "name").map fun name => {
    name
    expression := (v.lookupText? "exp").getD ""
    childCount := ((v.lookupText? "numchild").bind Numeral.readUInt32?).getD 0
    typeName := v.lookupText? "type"
    value := v.lookupText? "value"
    threadId := v.lookupText? "thread-id"
    frozen := isSet (v.lookupText? "frozen")
    dynamic := isSet (v.lookupText? "dynamic")
    displayHint := v.lookupText? "displayhint"
    hasMore := isSet (v.lookupText? "has_more") }

/-- The type after a change, if the change gives a new one. -/
def newType? (change : Value) : Option String :=
  if isSet (change.lookupText? "type_changed") then change.lookupText? "new_type" else none

/-- The object after a change that the debugger reports. -/
def apply (o : VariableObject) (change : Value) : VariableObject :=
  { o with
    value := change.lookupText? "value"
    typeName := newType? change <|> o.typeName
    dynamic := isSet (change.lookupText? "dynamic")
    displayHint := change.lookupText? "displayhint"
    hasMore := isSet (change.lookupText? "has_more") }

/-- A change keeps the name. -/
@[simp] theorem name_apply (o : VariableObject) (change : Value) :
    (o.apply change).name = o.name := rfl

/-- Whether the object has parts to look into. -/
def isCompound (o : VariableObject) : Bool :=
  0 < o.childCount || o.value == some "\x7b...\x7d"
    || (o.dynamic && (o.displayHint == some "array" || o.displayHint == some "map"))

/--
The part of a printed value that starts with an address. A value in braces has its address after the
closing brace.
-/
def addressText? (value : String) : Option String := do
  let text ← match value.toList with
    | '{' :: rest => (cut? '}' rest).map fun p => String.ofList (trimChars p.2)
    | _ => some value
  (Address.ofReference? text).map fun _ => text

/-- How the object can serve as a memory reference. The value of an array shows no address. -/
def memoryHint (o : VariableObject) : MemoryHint :=
  let value := (o.value.getD "").toList
  if value.isEmpty then .none
  else if value.head? = some '[' ∧ value.getLast? = some ']' then
    .addressOf ("&(" ++ o.expression ++ ")")
  else match addressText? (String.ofList value) with
    | some reference => .literal reference
    | none => .none

end VariableObject

end MachineInterface

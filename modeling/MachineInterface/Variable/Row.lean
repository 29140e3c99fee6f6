import MachineInterface.Register
import MachineInterface.Variable.Registry

/-!
# Variables view

What a front end shows of a frame: its scopes, and the rows of a scope or of a compound variable.

* `eq_ofFailure_iff`: the row of a variable that cannot be followed, entry by entry.
* `handle_ofObject`: a row can be expanded exactly when its object is compound.
-/

namespace MachineInterface

/-- A scope of a frame, as it is shown. -/
structure Scope where
  name : String
  kind : ScopeKind
  handle : Handle
  deriving Repr, DecidableEq

/-- The name under which a kind of scope is shown. -/
def ScopeKind.title : ScopeKind → String
  | locals => "Locals"
  | registers => "Registers"

/-- A row of the view. -/
structure Variable where
  name : String
  /-- The name of the variable object behind the row. -/
  evaluateName : Option String := none
  value : String
  typeName : Option String := none
  /-- Set when the row can be expanded. -/
  handle : Option Handle := none
  memoryReference : Option String := none
  deriving Repr, DecidableEq

namespace Variable

/-- The row of a register. -/
def ofRegister (r : Register) : Variable := { name := r.name, value := r.value }

/-- The row of a variable that cannot be followed. -/
def ofFailure (name message : String) : Variable := { name, value := "<" ++ message ++ ">" }

/--
The row of a variable that cannot be followed shows the failure in angle brackets, and nothing leads
on from it.
-/
theorem eq_ofFailure_iff {row : Variable} {name message : String} : row = ofFailure name message ↔
    row.name = name ∧ row.value = "<" ++ message ++ ">" ∧ row.evaluateName = none ∧
      row.typeName = none ∧ row.handle = none ∧ row.memoryReference = none := by
  constructor
  · rintro rfl
    exact ⟨rfl, rfl, rfl, rfl, rfl, rfl⟩
  · obtain ⟨_, _, _, _, _, _⟩ := row
    rintro ⟨rfl, rfl, rfl, rfl, rfl, rfl⟩
    rfl

/-- The row of an object under its handle. -/
def ofObject (o : VariableObject) (handle : Handle) (memoryReference : Option String) : Variable :=
  { name := o.expression
    evaluateName := some o.name
    value := o.value.getD "<unknown>"
    typeName := o.typeName
    handle := if o.isCompound then some handle else none
    memoryReference }

/-- A row can be expanded exactly when its object is compound. -/
theorem handle_ofObject (o : VariableObject) (handle : Handle) (memoryReference : Option String) :
    (ofObject o handle memoryReference).handle.isSome = o.isCompound := by
  cases h : o.isCompound <;> simp [ofObject, h]

end Variable

end MachineInterface

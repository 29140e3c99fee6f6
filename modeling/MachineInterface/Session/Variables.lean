import MachineInterface.Session.Inspection
import MachineInterface.Variable.Row

/-!
# Variables of a session

Variable objects in the debugger, and the rows that a front end shows of them. A row is described
again under the same handle each time that it is shown.

* `objectName_inj`: two locals of one scope have objects of different names.
-/

namespace MachineInterface

open Text

namespace Session

/-! ## Variable objects -/

/-- An object is created for an expression in a frame. Without a name the debugger chooses one. -/
def createVariable (expression : String) (name : Option String) (thread level : UInt32) :
    CallM VariableObject := do
  let command := "var-create " ++ Command.frameOptions thread level
    ++ Quote.argument (name.getD "-") ++ " @ " ++ Quote.quoted expression
  match VariableObject.ofValue? (.tuple (← CallM.ask command).fields) with
  | some object => return object
  | none => throw (.missing command "name")

/-- The known objects follow the changes that the debugger reports. -/
def applyChanges (changes : List Value) (s : Session) : List Handle × Session :=
  let (handles, registry) := s.registry.applyAll changes
  (handles.filterMap id, { s with registry })

/-- An object, or all of them for `*`, is brought up to date; the handles of those that changed. -/
def updateVariable (name : String) : CallM (List Handle) := do
  let answer ← CallM.ask ("var-update --all-values " ++ Quote.argument name)
  ExceptT.lift (Call.locked (applyChanges (answer.elements "changelist")))

/-- The parts of an object. -/
def listChildren (name : String) : CallM (List VariableObject) := do
  let answer ← CallM.ask ("var-list-children --all-values " ++ Quote.argument name)
  return (answer.elements "children").filterMap VariableObject.ofValue?

/-- An object is given a value; the value that it then has. -/
def assignVariable (name expression : String) : CallM String := do
  let command := "var-assign " ++ Quote.argument name ++ " " ++ expression
  (← CallM.ask command).require command "value"

/-- The value of an object. -/
def evaluateVariable (name : String) : CallM String := do
  let command := "var-evaluate-expression " ++ Quote.argument name
  (← CallM.ask command).require command "value"

/-- A memory reference for the value of an object, if it has one. -/
def memoryReference (o : VariableObject) : Call (Option String) := do
  match o.memoryHint with
  | .none => return none
  | .literal reference => return some reference
  | .addressOf expression =>
    return (← (evaluate expression 0 0).run).toOption.bind VariableObject.addressText?

/-! ## Rows -/

/-- The scopes of a frame, each under its handle. -/
def scopes (frame : FrameId) (s : Session) : List Scope × Session :=
  let key (kind : ScopeKind) : ScopeKey := ⟨kind, frame.thread, frame.level⟩
  let (locals, registry) := s.registry.scopeHandle (key .locals)
  let (registers, registry) := registry.scopeHandle (key .registers)
  ([⟨ScopeKind.locals.title, .locals, locals⟩, ⟨ScopeKind.registers.title, .registers, registers⟩],
    { s with registry })

/-- The registry follows an object; its handle. -/
def track (o : VariableObject) (s : Session) : Handle × Session :=
  let (handle, registry) := s.registry.track o
  (handle, { s with registry })

/-- The row of an object, which is followed from now on. -/
def describe (o : VariableObject) : Call Variable := do
  let reference ← memoryReference o
  let handle ← Call.locked (track o)
  return .ofObject o handle reference

/-- The name of the object behind a local of a scope. -/
def objectName (scope : Handle) (name : String) : String :=
  "var_" ++ toString scope.toNat ++ "_" ++ name

/-- Two locals of one scope have objects of different names. -/
theorem objectName_inj {scope : Handle} {name other : String}
    (h : objectName scope name = objectName scope other) : name = other := by
  have := congrArg String.toList h
  simp only [objectName, String.toList_append, List.append_cancel_left_eq] at this
  exact String.toList_inj.1 this

/-- A known object, brought up to date, unless the debugger has lost it. -/
def refresh (name : String) : CallM (Option VariableObject) := do
  if (← CallM.read (·.registry.byName? name)).isNone then return none
  match ← CallM.attempt (updateVariable name) with
  | .ok _ => CallM.read (·.registry.byName? name)
  | .error e => if e.isMissingVariable then return none else throw e

/-- The object behind a local, up to date; it is created when the debugger does not know it. -/
def objectOfLocal (scope : Handle) (key : ScopeKey) (name : String) : CallM VariableObject := do
  let object := objectName scope name
  match ← refresh object with
  | some o => return o
  | none =>
    let o ← createVariable name (some object) key.thread key.level
    return { o with expression := name }

/-- The row of a local. -/
def rowOfLocal (scope : Handle) (key : ScopeKey) (name : String) : Call Variable := do
  match ← (objectOfLocal scope key name).run with
  | .ok o => describe o
  | .error e => return .ofFailure name e.message

/-- The rows of a scope. -/
def rowsOfScope (scope : Handle) (key : ScopeKey) : CallM (List Variable) := do
  match key.kind with
  | .registers => return (← registers).map .ofRegister
  | .locals =>
    (← stackVariables key.thread key.level).mapM fun v => ExceptT.lift (rowOfLocal scope key v.name)

/-- The rows of a scope or of a compound variable; a handle that stands for neither has none. -/
def expand (handle : Handle) : CallM (List Variable) := do
  match ← CallM.read (·.registry.entry? handle) with
  | none => return []
  | some (.scope key) => rowsOfScope handle key
  | some (.object o) => (← listChildren o.name).mapM fun child => ExceptT.lift (describe child)

end Session

end MachineInterface

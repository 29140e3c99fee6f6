import MachineInterface.Table
import MachineInterface.Variable.Object

/-!
# Variable handles

A front end refers to scopes and to variable objects by numbers that stay the same over refreshes.

* `scopeHandle_again`: asking for the handle of a scope again gives the same handle and changes
  nothing.
-/

namespace MachineInterface

/-- What a scope shows. -/
inductive ScopeKind where
  | locals
  | registers
  deriving Repr, DecidableEq

/-- The word for a kind of scope. -/
def ScopeKind.text : ScopeKind → String
  | locals => "locals"
  | registers => "registers"

/-- A scope of a frame. -/
structure ScopeKey where
  kind : ScopeKind
  thread : UInt32
  level : UInt32
  deriving Repr, DecidableEq

/-- The scope as text. -/
def ScopeKey.text (k : ScopeKey) : String :=
  k.kind.text ++ ":" ++ toString k.thread.toNat ++ ":" ++ toString k.level.toNat

/-- A number for a scope or an object; zero stands for neither. -/
abbrev Handle := UInt32

/-- What a handle stands for. -/
inductive HandleEntry where
  | scope (key : ScopeKey)
  | object (object : VariableObject)
  deriving Repr, DecidableEq

/-- What the handles of a session stand for, and the handles by scope and by object name. -/
structure Registry where
  /-- The next handle, once it is above zero. -/
  next : Handle := 0
  entries : Table Handle HandleEntry := {}
  scopes : Table ScopeKey Handle := {}
  objects : Table String Handle := {}
  deriving Repr, DecidableEq

namespace Registry

/-- The handle for the next new entry. -/
def fresh (r : Registry) : Handle := if r.next = 0 then 1 else r.next

/-- The handle after a handle; the largest is followed by itself. -/
def successor (h : Handle) : Handle := if h = 0xFFFFFFFF then h else h + 1

/-- The registry with a new entry. -/
def allocate (r : Registry) (e : HandleEntry) : Registry :=
  { r with next := successor r.fresh, entries := r.entries.insert r.fresh e }

/-- The handle of a scope, which is new when the scope is. -/
def scopeHandle (r : Registry) (key : ScopeKey) : Handle × Registry :=
  match r.scopes.get? key with
  | some handle => (handle, r)
  | none =>
    (r.fresh, { r.allocate (.scope key) with scopes := r.scopes.insert key r.fresh })

/-- Asking for the handle of a scope again gives the same handle and changes nothing. -/
theorem scopeHandle_again (r : Registry) (key : ScopeKey) :
    (r.scopeHandle key).2.scopeHandle key = r.scopeHandle key := by
  cases h : r.scopes.get? key with
  | some handle => simp [scopeHandle, h]
  | none => simp [scopeHandle, h, Table.get?_insert]

/-- The handle of an object, which is new when its name is. The object replaces what was known. -/
def track (r : Registry) (o : VariableObject) : Handle × Registry :=
  match r.objects.get? o.name with
  | some handle => (handle, { r with entries := r.entries.insert handle (.object o) })
  | none =>
    (r.fresh, { r.allocate (.object o) with objects := r.objects.insert o.name r.fresh })

/-- What a handle stands for. -/
def entry? (r : Registry) (h : Handle) : Option HandleEntry := r.entries.get? h

/-- The object that a handle stands for. -/
def object? (r : Registry) (h : Handle) : Option VariableObject :=
  match r.entry? h with
  | some (.object o) => some o
  | _ => none

theorem entry?_of_object? {r : Registry} {n : Handle} {o : VariableObject}
    (h : r.object? n = some o) : r.entry? n = some (.object o) := by
  unfold object? at h
  split at h
  · rename_i hentry
    cases h
    exact hentry
  · cases h

/-- The handle of an object by its name. -/
def handle? (r : Registry) (name : String) : Option Handle := r.objects.get? name

/-- An object by its name. -/
def byName? (r : Registry) (name : String) : Option VariableObject :=
  (r.handle? name).bind r.object?

/-- The registry after a change to an object, and the object's handle if it is known. -/
def apply (r : Registry) (change : Value) : Option Handle × Registry :=
  match (change.lookupText? "name").bind r.handle? with
  | none => (none, r)
  | some handle =>
    match r.object? handle with
    | some o =>
      (some handle, { r with entries := r.entries.insert handle (.object (o.apply change)) })
    | none => (some handle, r)

/-- The registry after a list of changes, and for each change its object's handle if it is known. -/
def applyAll (r : Registry) : List Value → List (Option Handle) × Registry
  | [] => ([], r)
  | change :: changes =>
    let (handle, r) := r.apply change
    let (handles, r) := r.applyAll changes
    (handle :: handles, r)

/-- The number of entries. -/
def size (r : Registry) : Nat := r.entries.size

end Registry

end MachineInterface

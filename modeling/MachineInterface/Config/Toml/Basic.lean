/-!
# Settings documents

The tree that a TOML document stands for. Of a table it is kept how it came to be, since that
decides what a later line may add to it.

* `descend_nil`: at the end of a path the table itself is changed.
-/

namespace MachineInterface.Toml

/-- How a table came to be. -/
inductive Origin where
  /-- By a header of its own. -/
  | header
  /-- By the header of a table below it. -/
  | implied
  /-- By a dotted key. -/
  | dotted
  /-- In braces. -/
  | inlined
  /-- By a dotted key in braces. -/
  | inlinedDotted
  deriving Repr, DecidableEq

namespace Origin

/-- Whether a dotted key made the table. -/
def isDotted : Origin → Bool
  | dotted | inlinedDotted => true
  | _ => false

/-- Whether a dotted key may reach into the table. -/
def isOpen : Origin → Bool
  | implied | dotted | inlinedDotted => true
  | _ => false

/-- Whether the table stands in braces. -/
def isInline : Origin → Bool
  | inlined | inlinedDotted => true
  | _ => false

end Origin

/-- A value of a document. -/
inductive Node where
  | text (s : String)
  | integer (n : Int)
  | float
  | boolean (b : Bool)
  /-- A date or a time, as it is written in full. -/
  | datetime (s : String)
  | array (items : List Node)
  | table (origin : Origin) (entries : List (String × Node))
  /-- Tables under one repeated header. -/
  | tables (items : List (List (String × Node)))
  deriving Repr, Inhabited

/-- Values by key, in the order in which the keys were first written. -/
abbrev Entries := List (String × Node)

namespace Entries

/-- The entries with the value of a key replaced in its place. -/
def replace (key : String) (v : Node) : Entries → Entries
  | [] => []
  | e :: es => if e.1 = key then (key, v) :: es else e :: replace key v es

/-- The entries without a key. -/
def erase (key : String) (es : Entries) : Entries := es.filter (·.1 ≠ key)

/-- The entries with a new key at the end. -/
def add (key : String) (v : Node) (es : Entries) : Entries := es ++ [(key, v)]

/-- The entries with a value under a new key; none when the key is taken. -/
def define? (key : String) (v : Node) (es : Entries) : Option Entries :=
  if (es.lookup key).isSome then none else some (add key v es)

end Entries

/-- How a path that goes down from a table treats the tables on its way. -/
structure Descent where
  /-- How a table that the path makes comes to be. -/
  made : Origin
  /-- Whether the path may go through a table. -/
  passes : Origin → Bool
  /-- Whether the path may go through the last table under a repeated header. -/
  passesTables : Bool

/-- The way of a header. -/
def Descent.header : Descent := ⟨.implied, fun o => !o.isInline, true⟩

/-- The way of a dotted key. -/
def Descent.dotted : Descent := ⟨.dotted, fun o => !o.isInline && o.isOpen, true⟩

/-- The way of a dotted key in braces. -/
def Descent.inlined : Descent := ⟨.inlinedDotted, Origin.isOpen, false⟩

/--
The entries after a change to the table at the end of a path, and what the change gives. The change
is told whether a dotted key made that table.
-/
def descend {α : Type} (d : Descent) (change : Bool → Entries → Option (α × Entries)) :
    (path : List String) → (isDotted : Bool) → Entries → Option (α × Entries)
  | [], isDotted, es => change isDotted es
  | key :: path, _, es =>
    match es.lookup key with
    | none =>
      (descend d change path d.made.isDotted []).map fun (a, sub) =>
        (a, es.add key (.table d.made sub))
    | some (.table origin sub) =>
      if d.passes origin then
        (descend d change path origin.isDotted sub).map fun (a, sub) =>
          (a, es.replace key (.table origin sub))
      else none
    | some (.tables items) =>
      match d.passesTables, items.getLast? with
      | true, some last =>
        (descend d change path false last).map fun (a, last) =>
          (a, es.replace key (.tables (items.dropLast ++ [last])))
      | _, _ => none
    | some _ => none

/-- At the end of a path the table itself is changed. -/
@[simp] theorem descend_nil {α : Type} (d : Descent)
    (change : Bool → Entries → Option (α × Entries)) (isDotted : Bool) (es : Entries) :
    descend d change [] isDotted es = change isDotted es := rfl

/--
The entries with a value under a dotted key. The table that holds the last part of the key must have
been made by a dotted key exactly when the key has parts before it.
-/
def assign? (d : Descent) (path : List String) (key : String) (v : Node) (es : Entries) :
    Option Entries :=
  (descend d (fun isDotted es =>
    if isDotted = path.isEmpty then none else (es.define? key v).map ((), ·)) path false es).map
    (·.2)

/-! ## Documents -/

/-- What is known of a document up to some line. -/
structure Document where
  /-- The tables that are finished. -/
  root : Entries := []
  /-- The table of the last header. -/
  current : Entries := []
  /-- The last header, from the last part to the first; none before the first header. -/
  header : Option (List String × String) := none
  /-- Whether the last header was a repeated one. -/
  repeated : Bool := false

namespace Document

/-- A table put at its place: at the end of those under a repeated header, or alone. -/
def place? (repeated : Bool) (key : String) (table parent : Entries) : Option Entries :=
  if repeated then
    match parent.lookup key with
    | none => some (parent.add key (.tables [table]))
    | some (.tables items) => some (parent.replace key (.tables (items ++ [table])))
    | some _ => none
  else parent.define? key (.table .header table)

/-- The tables of a document once the table of its last header is finished. -/
def finish? (d : Document) : Option Entries :=
  match d.header with
  | none => some d.current
  | some (path, key) =>
    (descend .header (fun _ es => (place? d.repeated key d.current es).map ((), ·)) path false
      d.root).map (·.2)

/-- The document after a header. -/
def open? (d : Document) (path : List String) (key : String) : Option Document := do
  let root ← d.finish?
  let (current, root) ← descend .header (fun _ es =>
    match es.lookup key with
    | none => some ([], es)
    | some (.table .implied sub) => some (sub, es.erase key)
    | some _ => none) path false root
  return { root, current, header := some (path, key), repeated := false }

/-- The document after a repeated header. -/
def openRepeated? (d : Document) (path : List String) (key : String) : Option Document := do
  let root ← d.finish?
  let (_, root) ← descend .header (fun _ es =>
    match es.lookup key with
    | none => some ((), es)
    | some (.tables _) => some ((), es)
    | some _ => none) path false root
  return { root, current := [], header := some (path, key), repeated := true }

/-- The document with a value under a key of the last header's table. -/
def assign? (d : Document) (path : List String) (key : String) (v : Node) : Option Document :=
  (Toml.assign? .dotted path key v d.current).map fun current => { d with current }

end Document

end MachineInterface.Toml

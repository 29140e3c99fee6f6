import MachineInterface.Record.Value
import MachineInterface.Text.Cut
import MachineInterface.Text.Numeral

/-!
# Paths into a value

A path such as `memory[0].contents` is a list of segments: a name, which may be absent, and
positions in brackets.

* `resolve?_append`: a path of two parts is followed part by part.
-/

namespace MachineInterface

open Text

/-- One step of a path. No name means that the positions apply to the value itself. -/
structure Segment where
  name : String
  positions : List Nat
  deriving Repr, DecidableEq

/-- A way from a value to one below it. -/
abbrev Path := List Segment

namespace Segment

/--
The positions in brackets at the start of a text; what does not start with a bracket is not read.
-/
def readPositions? : List Char → Option (List Nat)
  | '[' :: rest =>
    match _h : cut? ']' rest with
    | some (digits, after) => do
      let position ← Numeral.readNat? 10 0x10000000000000000 digits
      return position :: (← readPositions? after)
    | none => none
  | _ => some []
termination_by cs => cs.length
decreasing_by
  have := length_lt_of_cut? _h
  simp only [List.length_cons]
  omega

/-- The segment that a text without a point stands for. -/
def ofChars? (cs : List Char) : Option Segment :=
  (readPositions? (cs.dropWhile (· != '['))).map (⟨String.ofList (cs.takeWhile (· != '[')), ·⟩)

end Segment

/-- The path that a text stands for; points separate the segments. -/
def Path.ofChars? (cs : List Char) : Option Path := (cs.splitOn '.').mapM Segment.ofChars?

namespace Value

/-- The value one segment further down. -/
def step? (v : Value) (s : Segment) : Option Value := do
  let named ← if s.name.isEmpty then some v else v.get? s.name
  s.positions.foldlM (fun w i => w.at? i) named

/-- The value at the end of a path. -/
def resolve? (v : Value) (p : Path) : Option Value := p.foldlM step? v

/-- A path of two parts is followed part by part. -/
theorem resolve?_append (v : Value) (p q : Path) :
    v.resolve? (p ++ q) = (v.resolve? p).bind (·.resolve? q) := by
  simp only [resolve?, List.foldlM_append]
  rfl

/-- The value at a path given as text. -/
def lookupChars? (v : Value) (path : List Char) : Option Value :=
  (Path.ofChars? path).bind v.resolve?

/-- The value at a path given as text. -/
def lookup? (v : Value) (path : String) : Option Value := v.lookupChars? path.toList

/-- The constant at a path given as text. -/
def lookupText? (v : Value) (path : String) : Option String := (v.lookup? path).bind text?

end Value

namespace Field

/--
The value at a path below some fields. The text up to the first point or bracket names the field;
the rest, less one leading point, is a path below it.
-/
def lookup? (fields : List Field) (path : String) : Option Value := do
  let isEnd : Char → Bool := fun c => c == '.' || c == '['
  let root ← find? (String.ofList (path.toList.takeWhile (!isEnd ·))) fields
  let rest := match path.toList.dropWhile (!isEnd ·) with
    | '.' :: rest => rest
    | rest => rest
  if rest.isEmpty then some root else root.lookupChars? rest

/-- The constant at a path below some fields. -/
def lookupText? (fields : List Field) (path : String) : Option String :=
  (lookup? fields path).bind Value.text?

end Field

end MachineInterface

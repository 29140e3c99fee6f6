import MachineInterface.Config.Log.Pattern.Reader
import MachineInterface.Text.Binary64

/-!
# Subjects of log directives

The messages that a directive is about: those of a target, inside a span, or with a field.

* `FieldFilter.ofText?_of_not_mem`: a text without an equals sign is the name of a field.
* `brackets_eq_empty_iff`: brackets are written where there is a span or a field.
-/

namespace MachineInterface

open Text

/-! ## Fields -/

/-- What the value of a field has to be. -/
inductive FieldValue where
  | boolean (b : Bool)
  | real (x : Binary64)
  | natural (n : Nat)
  | integer (n : Int)
  /-- A pattern for the text of the value, as it is written. -/
  | pattern (s : String)
  deriving Repr, DecidableEq

namespace FieldValue

/--
The value that a text stands for: a truth value, a whole number of 64 bits, a number with a binary
point, or else a pattern.
-/
def ofText? (s : String) : Option FieldValue :=
  if s = "true" then some (boolean true)
  else if s = "false" then some (boolean false)
  else
    ((Numeral.readNat? 10 0x10000000000000000 s.toList).map natural).or
      (((Numeral.readInt? 10 0x8000000000000000 s.toList).map integer).or
        (((Binary64.ofText? s).map real).or
          (if Pattern.isPattern s then some (pattern s) else none)))

/-- The value as text. -/
def text : FieldValue → String
  | boolean b => toString b
  | real x => x.text
  | natural n => toString n
  | integer n => toString n
  | pattern s => s

/-- Where a value stands among values of other kinds. -/
def rank : FieldValue → Nat
  | boolean _ => 0
  | real .nan => 2
  | real _ => 1
  | natural _ => 3
  | integer _ => 4
  | pattern _ => 5

/-- The order of values: by kind, and then within the kind. -/
def order (a b : FieldValue) : Ordering :=
  (compare a.rank b.rank).then (match a, b with
    | boolean x, boolean y => compare x y
    | real x, real y => x.order y
    | natural x, natural y => compare x y
    | integer x, integer y => compare x y
    | pattern x, pattern y => compare x y
    | _, _ => .eq)

end FieldValue

/-- A field of messages, and what its value has to be where that matters. -/
structure FieldFilter where
  name : String
  value : Option FieldValue
  deriving Repr, DecidableEq

namespace FieldFilter

/-- The field that a text stands for. A second equals sign ends the value. -/
def ofText? (s : String) : Option FieldFilter :=
  match s.toList.splitOn '=' with
  | [] | [[]] => none
  | [name] => some ⟨String.ofList name, none⟩
  | name :: value :: _ =>
    (FieldValue.ofText? (String.ofList value)).map fun value => ⟨String.ofList name, some value⟩

/-- A text without an equals sign is the name of a field. -/
theorem ofText?_of_not_mem {s : String} (hs : s ≠ "") (h : '=' ∉ s.toList) :
    ofText? s = some ⟨s, none⟩ := by
  rw [ofText?, List.splitOn_eq_singleton h]
  split
  · simp_all
  · simp_all
  · rename_i heq
    rw [← List.singleton_inj.1 heq, String.ofList_toList]
  · simp_all

/-- The field as text. -/
def text (f : FieldFilter) : String :=
  match f.value with
  | some value => f.name ++ "=" ++ value.text
  | none => f.name

/-- The order of fields: those without a value first, then by name and value. -/
def order (a b : FieldFilter) : Ordering :=
  match a.value, b.value with
  | none, none => compare a.name b.name
  | none, some _ => .lt
  | some _, none => .gt
  | some x, some y => (compare a.name b.name).then (x.order y)

end FieldFilter

/-! ## Subjects -/

/-- The messages that a directive is about; what is left out does not matter. -/
structure LogSubject where
  target : Option String := none
  span : Option String := none
  field : Option FieldFilter := none
  deriving Repr, DecidableEq

namespace LogSubject

/-- Whether it can be told of a message once and for all that it belongs to the subject. -/
def isStatic (s : LogSubject) : Bool := s.span.isNone && (s.field.bind (·.value)).isNone

/-- The span and the field in brackets. -/
def brackets (s : LogSubject) : String :=
  if s.span.isSome || s.field.isSome then
    let field := (s.field.map fun f => "\x7b" ++ f.text ++ "\x7d").getD ""
    "[" ++ s.span.getD "" ++ field ++ "]"
  else ""

/-- Brackets are written where there is a span or a field. -/
theorem brackets_eq_empty_iff {s : LogSubject} :
    s.brackets = "" ↔ s.span = none ∧ s.field = none := by
  unfold brackets
  split
  · rename_i h
    have : ("[" ++ s.span.getD "" ++ (s.field.map fun f => "\x7b" ++ f.text ++ "\x7d").getD ""
        ++ "]").toList ≠ [] := by simp
    rw [← String.toList_eq_nil_iff]
    refine ⟨fun h => absurd h this, fun hn => ?_⟩
    simp [hn.1, hn.2] at h
  · simp_all

/-- The subject as text. -/
def text (s : LogSubject) : String := s.target.getD "" ++ s.brackets

/--
How much a subject narrows the messages down: by the length of its target, by its span and by its
field. Among equals the texts decide.
-/
def order (a b : LogSubject) : Ordering :=
  let fields : Ordering := match a.field, b.field with
    | some x, some y => x.order y
    | _, _ => .eq
  (compare (a.target.map (·.utf8ByteSize)) (b.target.map (·.utf8ByteSize))).then
    ((compare a.span.isSome b.span.isSome).then
      ((compare a.field.isSome b.field.isSome).then
        ((compare a.target b.target).then ((compare a.span b.span).then fields))))

/-- Whether two subjects are the same; zeros of either sign are. -/
def isSame (a b : LogSubject) : Bool := a.order b == .eq

end LogSubject

end MachineInterface

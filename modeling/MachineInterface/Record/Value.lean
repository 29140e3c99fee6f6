/-!
# Values of a record

A value is a constant, a tuple of named values, or a list whose items may carry a name.

* `elements_list`, `elements_tuple`: only a list has elements.
-/

namespace MachineInterface

/-- A value in a record of the debugger. -/
inductive Value where
  /-- A quoted text. -/
  | const (text : String)
  /-- Named values in braces. -/
  | tuple (fields : List (String × Value))
  /-- Items in brackets, each bare or with a name. -/
  | list (items : List (Option String × Value))
  deriving Repr, Inhabited, BEq

/-- A named value. -/
abbrev Field := String × Value

/-- An item of a list, with its name if it has one. -/
abbrev Item := Option String × Value

namespace Value

/-! ## Equality -/

mutual

/-- Whether two values are the same. -/
def same : Value → Value → Bool
  | const s, const t => s == t
  | tuple xs, tuple ys => sameFields xs ys
  | list xs, list ys => sameItems xs ys
  | _, _ => false

/-- Whether two field lists are the same. -/
def sameFields : List Field → List Field → Bool
  | [], [] => true
  | (n, v) :: xs, (m, w) :: ys => n == m && same v w && sameFields xs ys
  | _, _ => false

/-- Whether two item lists are the same. -/
def sameItems : List Item → List Item → Bool
  | [], [] => true
  | (n, v) :: xs, (m, w) :: ys => n == m && same v w && sameItems xs ys
  | _, _ => false

end

mutual

theorem same_iff : ∀ v w : Value, same v w = true ↔ v = w
  | const s, const t => by simp [same]
  | tuple xs, tuple ys => by simp [same, sameFields_iff xs ys]
  | list xs, list ys => by simp [same, sameItems_iff xs ys]
  | const _, tuple _ => by simp [same]
  | const _, list _ => by simp [same]
  | tuple _, const _ => by simp [same]
  | tuple _, list _ => by simp [same]
  | list _, const _ => by simp [same]
  | list _, tuple _ => by simp [same]

theorem sameFields_iff : ∀ xs ys : List Field, sameFields xs ys = true ↔ xs = ys
  | [], [] => by simp [sameFields]
  | [], _ :: _ => by simp [sameFields]
  | _ :: _, [] => by simp [sameFields]
  | (n, v) :: xs, (m, w) :: ys => by
    simp [sameFields, same_iff v w, sameFields_iff xs ys, and_assoc]

theorem sameItems_iff : ∀ xs ys : List Item, sameItems xs ys = true ↔ xs = ys
  | [], [] => by simp [sameItems]
  | [], _ :: _ => by simp [sameItems]
  | _ :: _, [] => by simp [sameItems]
  | (n, v) :: xs, (m, w) :: ys => by
    simp [sameItems, same_iff v w, sameItems_iff xs ys, and_assoc]

end

instance : DecidableEq Value := fun v w => decidable_of_iff _ (same_iff v w)

/-! ## Views -/

/-- The text of a constant. -/
def text? : Value → Option String
  | const text => some text
  | _ => none

/-- The fields of a tuple. -/
def fields? : Value → Option (List Field)
  | tuple fields => some fields
  | _ => none

/-- The items of a list. -/
def items? : Value → Option (List Item)
  | list items => some items
  | _ => none

/-- The values of a list without their names; a value that is no list has none. -/
def elements (v : Value) : List Value := (v.items?.getD []).map (·.2)

@[simp] theorem elements_list (items : List Item) : (list items).elements = items.map (·.2) := rfl

@[simp] theorem elements_tuple (fields : List Field) : (tuple fields).elements = [] := rfl

@[simp] theorem elements_const (text : String) : (const text).elements = [] := rfl

end Value

/-- The first of some fields that has a name. -/
def Field.find? (name : String) (fields : List Field) : Option Value := fields.lookup name

namespace Value

/-- The first field or keyed item with a name. -/
def get? (name : String) : Value → Option Value
  | const _ => none
  | tuple fields => Field.find? name fields
  | list items => items.lookup (some name)

/-- The value at a position, in a tuple or a list. -/
def at? (i : Nat) : Value → Option Value
  | const _ => none
  | tuple fields => (fields[i]?).map (·.2)
  | list items => (items[i]?).map (·.2)

end Value

end MachineInterface

import MachineInterface.Config.Log.Pattern.Escape

/-!
# Classes of characters

The brackets of a pattern. A class has members, ranges, named classes and classes in it, and two
classes may be joined by an operator. Every class and every operator makes the pattern higher.

* `joinedHeight_singleton`: one part alone does not make a pattern higher.
* `OpenClass.height_lt_close`: a class is higher than what it holds.
-/

namespace MachineInterface.Pattern

/-! ## Heights -/

/-- The height of parts that stand together; one part alone is no higher. -/
def joinedHeight : List Nat → Nat
  | [] => 0
  | [h] => h
  | hs => hs.foldl max 0 + 1

/-- One part alone does not make a pattern higher. -/
theorem joinedHeight_singleton (h : Nat) : joinedHeight [h] = h := rfl

/-- A class of which the closing bracket has not been read. -/
structure OpenClass where
  /-- The heights of the members since the last operator. -/
  members : List Nat := []
  /-- The height of all in front of the last operator. -/
  left : Option Nat := none
  deriving Repr, DecidableEq

namespace OpenClass

/-- The class with one more member. -/
def add (height : Nat) (c : OpenClass) : OpenClass := { c with members := height :: c.members }

/-- The height of what the class holds. -/
def height (c : OpenClass) : Nat :=
  match c.left with
  | some left => max left (joinedHeight c.members) + 1
  | none => joinedHeight c.members

/-- The class after an operator. -/
def operate (c : OpenClass) : OpenClass := ⟨[], some c.height⟩

/-- The height of the class once it is closed. -/
def close (c : OpenClass) : Nat := c.height + 1

/-- A class is higher than what it holds. -/
theorem height_lt_close (c : OpenClass) : c.height < c.close := Nat.lt_succ_self _

end OpenClass

/-! ## Parts of a class -/

/-- The names of classes. -/
def classNames : List String :=
  ["alnum", "alpha", "ascii", "blank", "cntrl", "digit", "graph", "lower", "print", "punct",
    "space", "upper", "word", "xdigit"]

/-- A named class after its bracket, such as `:alpha:]`, and whether it is negated. -/
def readNamed? : List Char → Option (Bool × List Char)
  | ':' :: cs =>
    let (negated, cs) := match cs with
      | '^' :: rest => (true, rest)
      | rest => (false, rest)
    let name := cs.takeWhile (· != ':')
    match cs.drop name.length with
    | ':' :: ']' :: rest =>
      if classNames.contains (String.ofList name) then some (negated, rest) else none
    | _ => none
  | _ => none

/-- The number of hyphens at the start of a class, and what follows. -/
def readHyphens (f : Flags) : (fuel : Nat) → List Char → Nat × List Char
  | fuel + 1, '-' :: cs =>
    let (count, rest) := readHyphens f fuel (skip f cs)
    (count + 1, rest)
  | _, cs => (0, cs)

/--
The opening of a class after its bracket. Hyphens at the start are members, and so is a bracket. A
class of bytes is not negated, because it would hold bytes that are parts of characters.
-/
def openClass? (f : Flags) (cs : List Char) : Option (OpenClass × List Char) :=
  let go (cs : List Char) : OpenClass × List Char :=
    match readHyphens f cs.length cs with
    | (0, ']' :: rest) => (OpenClass.add 0 {}, skip f rest)
    | (count, rest) => (⟨List.replicate count 0, none⟩, rest)
  match skip f cs with
  | '^' :: rest => if f.unicode then some (go (skip f rest)) else none
  | rest => some (go rest)

/-- Whether two atoms are the ends of a range. -/
def isRange (f : Flags) (first last : Atom) : Bool :=
  first.isMember f && last.isMember f &&
    match first.character?, last.character? with
    | some a, some b => a ≤ b
    | _, _ => false

/-- What follows a member or a range. -/
def afterMember? (f : Flags) (cs : List Char) : Option (List Char) := do
  let (first, rest) ← readAtom? f cs
  let rest := skip f rest
  let single := if first.isMember f then some rest else none
  match rest with
  | '-' :: cs =>
    if peek? f cs = some ']' || peek? f cs = some '-' then single
    else
      let (last, rest) ← readAtom? f (skip f cs)
      if isRange f first last then some rest else none
  | _ => single

/-! ## Reading -/

/-- The height of the outermost of some open classes once it is closed, and what follows it. -/
def readClasses? (f : Flags) : (fuel : Nat) → (inner : OpenClass) → (outer : List OpenClass) →
    List Char → Option (Nat × List Char)
  | 0, _, _, _ => none
  | fuel + 1, inner, outer, cs =>
    match skip f cs with
    | [] => none
    | '[' :: rest =>
      match readNamed? rest with
      | some (negated, rest) =>
        if negated && !f.unicode then none else readClasses? f fuel (inner.add 0) outer rest
      | none => (openClass? f rest).bind fun p => readClasses? f fuel p.1 (inner :: outer) p.2
    | ']' :: rest =>
      match outer with
      | [] => some (inner.close, rest)
      | parent :: outer => readClasses? f fuel (parent.add inner.close) outer rest
    | '&' :: '&' :: rest | '-' :: '-' :: rest | '~' :: '~' :: rest =>
      readClasses? f fuel inner.operate outer rest
    | rest => (afterMember? f rest).bind (readClasses? f fuel (inner.add 0) outer)

/-- The height of the class after its bracket, and what follows it. -/
def readClass? (f : Flags) (cs : List Char) : Option (Nat × List Char) :=
  (openClass? f cs).bind fun p => readClasses? f (cs.length + 1) p.1 [] p.2

end MachineInterface.Pattern

import MachineInterface.Text.Utf8

/-!
# Line buffer

Bytes arrive in chunks that may end anywhere. The buffer gives the lines that a chunk completes and
keeps the rest.

* `push_append`: two chunks give the same lines and the same rest as one.
-/

namespace MachineInterface

open Text

/-- The bytes after the last newline. -/
structure LineBuffer where
  rest : List UInt8 := []
  deriving Repr, DecidableEq

namespace LineBuffer

/-- The byte of a newline. -/
def newline : UInt8 := 0x0A

/-- The byte of a carriage return. -/
def carriageReturn : UInt8 := 0x0D

/-- A line without one carriage return at its end. -/
def dropReturn (line : List UInt8) : List UInt8 :=
  if line.getLast? = some carriageReturn then line.dropLast else line

/-- The pieces that newlines end, and the bytes after the last newline. -/
def split : List UInt8 → List (List UInt8) × List UInt8
  | [] => ([], [])
  | b :: bytes =>
    let (pieces, rest) := split bytes
    if b = newline then ([] :: pieces, rest)
    else match pieces with
      | [] => ([], b :: rest)
      | piece :: pieces => ((b :: piece) :: pieces, rest)

/-- What follows the last newline goes on with the bytes that come next. -/
theorem split_append (xs ys : List UInt8) :
    split (xs ++ ys) =
      ((split xs).1 ++ (split ((split xs).2 ++ ys)).1, (split ((split xs).2 ++ ys)).2) := by
  induction xs with
  | nil => rfl
  | cons b xs ih =>
    simp only [List.cons_append, split, ih]
    by_cases h : b = newline
    · simp [h]
    · cases hp : (split xs).1 with
      | nil => simp [h, split]
      | cons p ps => simp [h]

/-- The lines that a chunk completes, and the buffer after it. -/
def push (buffer : LineBuffer) (chunk : List UInt8) : List String × LineBuffer :=
  let (pieces, rest) := split (buffer.rest ++ chunk)
  (pieces.map fun piece => Utf8.decode (dropReturn piece), ⟨rest⟩)

/--
The started line, if it is valid text and `accept` takes it, and the buffer after it. A line that
stops inside a character is kept.
-/
def takePartial? (accept : String → Bool) (buffer : LineBuffer) : Option (String × LineBuffer) :=
  if buffer.rest.isEmpty then none
  else ((Utf8.decode? buffer.rest).filter accept).map (·, {})

/-- The started line, whatever it holds, and the buffer after it. -/
def takeAll? (buffer : LineBuffer) : Option (String × LineBuffer) :=
  if buffer.rest.isEmpty then none else some (Utf8.decode buffer.rest, {})

/-- Two chunks give the same lines and the same rest as one. -/
theorem push_append (buffer : LineBuffer) (xs ys : List UInt8) :
    buffer.push (xs ++ ys) =
      ((buffer.push xs).1 ++ ((buffer.push xs).2.push ys).1, ((buffer.push xs).2.push ys).2) := by
  simp [push, ← List.append_assoc, split_append (buffer.rest ++ xs) ys]

end LineBuffer

end MachineInterface

import MachineInterface.Config.Toml.Quoted
import MachineInterface.Config.Toml.Scalar

/-!
# Reading a settings document

A document is a sequence of lines: a header, a key with its value, a comment, or nothing. Values in
brackets and braces nest, so their reader carries a bound; the length of the text is always enough.

* `Entries.ofDocument?`: the tables of a document, or nothing where a rule is broken.
-/

namespace MachineInterface.Toml

open Text

namespace Reader

/-! ## Blanks and comments -/

/-- Whether a character is a blank within a line. -/
def isGap (c : Char) : Bool := c == ' ' || c == '\t'

/-- The text after its leading blanks. -/
def dropGap (cs : List Char) : List Char := cs.dropWhile isGap

/-- The text after a comment at its start, if there is one. -/
def dropComment (cs : List Char) : List Char :=
  match cs with
  | '#' :: rest => rest.dropWhile Quoted.isTextual
  | rest => rest

/-- The text after the rest of a line that holds nothing more, or a comment. -/
def endLine? (cs : List Char) : Option (List Char) :=
  match dropComment (dropGap cs) with
  | [] => some []
  | '\n' :: rest => some rest
  | '\r' :: '\n' :: rest => some rest
  | _ => none

/-- The text after blanks, line ends and comments. A comment ends with its line. -/
def dropLines? : (inComment : Bool) → List Char → Option (List Char)
  | false, ' ' :: rest => dropLines? false rest
  | false, '\t' :: rest => dropLines? false rest
  | _, '\n' :: rest => dropLines? false rest
  | _, '\r' :: '\n' :: rest => dropLines? false rest
  | false, '#' :: rest => dropLines? true rest
  | true, c :: rest => if Quoted.isTextual c then dropLines? true rest else none
  | true, [] => none
  | false, rest => some rest

/-! ## Keys -/

/-- How deep values may nest, and how many parts a key may have. -/
def depthLimit : Nat := 80

/-- Whether a character may stand in a key without quotes. -/
def isKey (c : Char) : Bool := Numeral.isAlphanumeric c || c == '_' || c == '-'

/-- One part of a key, and the text after it. -/
def keyPart? (cs : List Char) : Option (String × List Char) :=
  match cs with
  | '"' :: rest => (Quoted.basic? rest).map fun p => (String.ofList p.1, p.2)
  | '\'' :: rest => (Quoted.literal? rest).map fun p => (String.ofList p.1, p.2)
  | _ =>
    match cs.takeWhile isKey with
    | [] => none
    | part => some (String.ofList part, cs.dropWhile isKey)

/-- The parts of a key with points between them, and the text after it; at most `bound` parts. -/
def keyParts? : (bound : Nat) → List Char → Option (List String × List Char)
  | 0, _ => none
  | bound + 1, cs => do
    let (part, rest) ← keyPart? (dropGap cs)
    match dropGap rest with
    | '.' :: rest =>
      let (parts, rest) ← keyParts? bound rest
      return (part :: parts, rest)
    | rest => return ([part], rest)

/-- A key, as the parts before the last, the last, and the text after the key. -/
def key? (cs : List Char) : Option (List String × String × List Char) := do
  let (parts, rest) ← keyParts? (depthLimit - 1) cs
  return (parts.dropLast, ← parts.getLast?, rest)

/-! ## Values -/

mutual

/-- A value and the text after it. -/
def value? : (bound depth : Nat) → List Char → Option (Node × List Char)
  | 0, _, _ => none
  | bound + 1, depth, cs =>
    match cs with
    | '"' :: _ => (Quoted.any? cs).map fun p => (.text (String.ofList p.1), p.2)
    | '\'' :: _ => (Quoted.any? cs).map fun p => (.text (String.ofList p.1), p.2)
    | '[' :: rest => do
      if depthLimit ≤ depth + 1 then none
      else
        let (items, rest) ← items? bound (depth + 1) (← dropLines? false rest)
        return (.array items, rest)
    | '{' :: rest => do
      if depthLimit ≤ depth + 1 then none
      else
        let (entries, rest) ← match dropGap rest with
          | '}' :: rest => some ([], rest)
          | rest => pairs? bound (depth + 1) [] rest
        return (.table .inlined entries, rest)
    | _ => do
      let (token, rest) := Scalar.splitToken cs
      return (← Scalar.ofToken? token, rest)

/-- The items of an array from one item on, and the text after the closing bracket. -/
def items? : (bound depth : Nat) → List Char → Option (List Node × List Char)
  | 0, _, _ => none
  | bound + 1, depth, cs =>
    match cs with
    | ']' :: rest => some ([], rest)
    | _ => do
      let (item, rest) ← value? bound depth cs
      match ← dropLines? false rest with
      | ',' :: rest =>
        let (items, rest) ← items? bound depth (← dropLines? false rest)
        return (item :: items, rest)
      | ']' :: rest => return ([item], rest)
      | _ => none

/-- The entries of a table in braces from one key on, and the text after the closing brace. -/
def pairs? : (bound depth : Nat) → Entries → List Char → Option (Entries × List Char)
  | 0, _, _, _ => none
  | bound + 1, depth, entries, cs => do
    let (path, key, rest) ← key? cs
    let rest ← Scalar.expect? '=' rest
    let (v, rest) ← value? bound depth (dropGap rest)
    let entries ← assign? .inlined path key v entries
    match dropGap rest with
    | ',' :: rest => pairs? bound depth entries rest
    | '}' :: rest => return (entries, rest)
    | _ => none

end

/-! ## Lines -/

/-- A header after its first bracket, and the document after it. -/
def header? (d : Document) (cs : List Char) : Option (Document × List Char) :=
  match cs with
  | '[' :: rest => do
    let (path, key, rest) ← key? rest
    let rest ← Scalar.expect? ']' rest
    let rest ← Scalar.expect? ']' rest
    return (← d.openRepeated? path key, ← endLine? rest)
  | _ => do
    let (path, key, rest) ← key? cs
    let rest ← Scalar.expect? ']' rest
    return (← d.open? path key, ← endLine? rest)

/-- A key with its value, and the document after it. -/
def assignment? (d : Document) (cs : List Char) : Option (Document × List Char) := do
  let (path, key, rest) ← key? cs
  let rest ← Scalar.expect? '=' rest
  let (v, rest) ← value? (rest.length + 1) 0 (dropGap rest)
  return (← d.assign? path key v, ← endLine? rest)

/-- The document after the lines of a text; each takes at least one character. -/
def lines? : (bound : Nat) → Document → List Char → Option Document
  | 0, _, _ => none
  | bound + 1, d, cs =>
    match dropGap cs with
    | [] => some d
    | '#' :: rest => do lines? bound d (← endLine? ('#' :: rest))
    | '\n' :: rest => lines? bound d rest
    | '\r' :: '\n' :: rest => lines? bound d rest
    | '[' :: rest => do
      let (d, rest) ← header? d rest
      lines? bound d rest
    | rest => do
      let (d, rest) ← assignment? d rest
      lines? bound d rest

/-- The text after a byte order mark at its start. -/
def dropMark (cs : List Char) : List Char :=
  match cs with
  | [] => []
  | c :: rest => if c.toNat = 0xFEFF then rest else c :: rest

end Reader

/-- The tables of a document. -/
def Entries.ofDocument? (text : String) : Option Entries :=
  let cs := Reader.dropMark text.toList
  (Reader.lines? (cs.length + 1) {} cs).bind Document.finish?

end MachineInterface.Toml

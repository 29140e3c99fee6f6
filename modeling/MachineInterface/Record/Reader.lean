import MachineInterface.Record.Basic
import MachineInterface.Text.CString
import MachineInterface.Text.Numeral

/-!
# Reading a record

A line is an optional number, a sign, and what the sign asks for: an outcome or an event with
fields, or one constant. Values nest, so their reader carries a bound on its depth and length; the
length of the text is always enough.

* `Record.ofLine`: the record of a line. Every line has one; a line that follows no rule is
  `unhandled`.
-/

namespace MachineInterface

open Text

/-! ## Values -/

namespace Value

/-- Whether a character ends a name. -/
def endsName (c : Char) : Bool := c == '=' || c == ',' || c == '}' || c == ']'

/-- A name that is not empty, and the text after the equals sign that follows it. -/
def readName? (cs : List Char) : Option (String × List Char) :=
  match cs.takeWhile (!endsName ·), cs.dropWhile (!endsName ·) with
  | c :: name, '=' :: rest => some (String.ofList (c :: name), rest)
  | _, _ => none

/-- A constant after its opening quote. -/
def readConst? (cs : List Char) : Option (Value × List Char) :=
  (CString.body? cs).map fun p => (const (CString.decodeChars p.1), p.2)

/-- Whether a character starts a value. -/
def startsValue (c : Char) : Bool := c == '"' || c == '{' || c == '['

mutual

/-- A value and the text after it. -/
def read? : (bound : Nat) → List Char → Option (Value × List Char)
  | 0, _ => none
  | _ + 1, '"' :: rest => readConst? rest
  | _ + 1, '{' :: '}' :: rest => some (tuple [], rest)
  | n + 1, '{' :: rest => (readFields? n rest).map fun p => (tuple p.1, p.2)
  | _ + 1, '[' :: ']' :: rest => some (list [], rest)
  | n + 1, '[' :: rest => (readItems? n rest).map fun p => (list p.1, p.2)
  | _ + 1, _ => none

/-- The fields of a tuple up to its closing brace, and the text after the brace. -/
def readFields? : (bound : Nat) → List Char → Option (List Field × List Char)
  | 0, _ => none
  | n + 1, cs => do
    let (name, rest) ← readName? cs
    let (value, rest) ← read? n rest
    match rest with
    | ',' :: rest =>
      let (fields, rest) ← readFields? n rest
      return ((name, value) :: fields, rest)
    | '}' :: rest => return ([(name, value)], rest)
    | _ => none

/-- The items of a list up to its closing bracket, and the text after the bracket. -/
def readItems? : (bound : Nat) → List Char → Option (List Item × List Char)
  | 0, _ => none
  | n + 1, cs => do
    let (name, rest) ←
      if (cs.head?.map startsValue).getD false then some (none, cs)
      else (readName? cs).map fun p => (some p.1, p.2)
    let (value, rest) ← read? n rest
    match rest with
    | ',' :: rest =>
      let (items, rest) ← readItems? n rest
      return ((name, value) :: items, rest)
    | ']' :: rest => return ([(name, value)], rest)
    | _ => none

end

/-- Fields that each follow a comma, up to the end of the text. -/
def readTrailingFields? : (bound : Nat) → List Char → Option (List Field)
  | _, [] => some []
  | n + 1, ',' :: cs => do
    let (name, rest) ← readName? cs
    let (value, rest) ← read? n rest
    let fields ← readTrailingFields? n rest
    return (name, value) :: fields
  | _, _ => none

end Value

/-! ## Records -/

namespace Record

/-- The word up to the first comma, and the fields after it. -/
def readBody? (cs : List Char) : Option (String × List Field) := do
  let fields ← Value.readTrailingFields? (cs.length + 1) (cs.dropWhile (· != ','))
  return (String.ofList (cs.takeWhile (· != ',')), fields)

/-- The result that follows a caret. -/
def readResult? (token : Option UInt64) (cs : List Char) : Option Record := do
  let (word, fields) ← readBody? cs
  let outcome ← Outcome.ofText? word
  return result ⟨token, outcome, fields⟩

/-- The notice that follows its sign. -/
def readNotice? (token : Option UInt64) (kind : NoticeKind) (cs : List Char) : Option Record := do
  let (word, fields) ← readBody? cs
  if word.isEmpty then none else return notice ⟨token, kind, word, fields⟩

/-- The piece of a stream that follows its sign. -/
def readStream? (kind : StreamKind) : List Char → Option Record
  | '"' :: cs =>
    match CString.body? cs with
    | some (body, []) => some (stream kind (CString.decodeChars body))
    | _ => none
  | _ => none

/-- The record that a line without trailing carriage returns stands for. -/
def ofChars? (cs : List Char) : Option Record :=
  let token := Numeral.readUInt64? 10 (cs.takeWhile Numeral.isDigit)
  match cs.dropWhile Numeral.isDigit with
  | '^' :: rest => readResult? token rest
  | '*' :: rest => readNotice? token .exec rest
  | '+' :: rest => readNotice? token .status rest
  | '=' :: rest => readNotice? token .notify rest
  | '~' :: rest => readStream? .console rest
  | '@' :: rest => readStream? .target rest
  | '&' :: rest => readStream? .log rest
  | _ => none

/-- A line without its trailing carriage returns. -/
def dropReturns (cs : List Char) : List Char := (cs.reverse.dropWhile (· == '\r')).reverse

/-- The record of a line. -/
def ofLine (line : String) : Record :=
  let cs := dropReturns line.toList
  (ofChars? cs).getD (unhandled (String.ofList cs))

end Record

end MachineInterface

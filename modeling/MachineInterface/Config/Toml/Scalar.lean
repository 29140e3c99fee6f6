import MachineInterface.Config.Toml.Basic
import MachineInterface.Text.Numeral

/-!
# Plain values of a settings document

Truth values, numbers, dates and times: what is written without quotes or brackets. `ofToken?` gives
the value of such a word, by its form.
-/

namespace MachineInterface.Toml.Scalar

open Text

/-! ## Digits -/

/-- Digits without the underscores between them; an underscore stands between two digits. -/
def digits? (isDigit : Char → Bool) : List Char → Option (List Char)
  | [] => none
  | [c] => if isDigit c then some [c] else none
  | c :: '_' :: rest => if isDigit c then (digits? isDigit rest).map (c :: ·) else none
  | c :: rest => if isDigit c then (digits? isDigit rest).map (c :: ·) else none

/-- Whether a character is a digit of a base. -/
def isDigitOf (base : Nat) (c : Char) : Bool := (Numeral.digitValue? base c).isSome

/-- A sign at the start of a text, as whether it is a minus, and the text after it. -/
def splitSign : List Char → Bool × List Char
  | '-' :: rest => (true, rest)
  | '+' :: rest => (false, rest)
  | rest => (false, rest)

/-- The digits of a decimal number: no zero stands in front of another digit. -/
def decimalDigits? (cs : List Char) : Option (List Char) :=
  (digits? Numeral.isDigit cs).filter fun ds => ds.length == 1 || ds.head? != some '0'

/-- A decimal number of 64 bits. -/
def decimal? (cs : List Char) : Option Node := do
  let (negative, rest) := splitSign cs
  let ds ← decimalDigits? rest
  let n ← Numeral.readInt? 10 0x8000000000000000 (if negative then '-' :: ds else ds)
  return .integer n

/-- A number in another base, which has no sign. -/
def based? (base : Nat) (cs : List Char) : Option Node := do
  let ds ← digits? (isDigitOf base) cs
  let n ← Numeral.readNat? base 0x8000000000000000 ds
  return .integer n

/-! ## Numbers with a point or an exponent -/

/-- The least number that is too large for 64 bits with a binary point. -/
def floatLimit : Nat := Nat.pow 2 1024 - Nat.pow 2 970

/-- Whether `mantissa` times ten to the power of `exponent` is too large. -/
def isTooLarge (mantissa : Nat) (exponent : Int) : Bool :=
  let size : Int := (Nat.toDigits 10 mantissa).length + exponent
  if mantissa = 0 then false
  else if 320 < size then true
  else if size < 300 then false
  else if 0 ≤ exponent then floatLimit ≤ mantissa * Nat.pow 10 exponent.toNat
  else floatLimit * Nat.pow 10 (-exponent).toNat ≤ mantissa

/-- The exponent after its letter. -/
def exponent? (cs : List Char) : Option Int := do
  let (negative, rest) := splitSign cs
  let n ← (digits? Numeral.isDigit rest).bind (Numeral.value? 10)
  return if negative then -(n : Int) else n

/-- Whether a character starts an exponent. -/
def isExponent (c : Char) : Bool := c == 'e' || c == 'E'

/-- A number with a point or an exponent. A positive one that is too large is refused. -/
def float? (cs : List Char) : Option Node := do
  let (negative, rest) := splitSign cs
  if rest = "inf".toList ∨ rest = "nan".toList then return .float
  let whole := rest.takeWhile fun c => c != '.' && !isExponent c
  let ds ← decimalDigits? whole
  let tail := rest.drop whole.length
  let fraction := tail.takeWhile (!isExponent ·)
  let fs ← match fraction with
    | [] => some []
    | _ :: fs => digits? Numeral.isDigit fs
  let exponent ← match tail.drop fraction.length with
    | [] => if fraction.isEmpty then none else some 0
    | _ :: es => exponent? es
  let mantissa ← Numeral.value? 10 (ds ++ fs)
  if !negative && isTooLarge mantissa (exponent - fs.length) then none else return .float

/-! ## Dates and times -/

/-- A number of so many digits that lies between two bounds, and the text after it. -/
def field? (size least most : Nat) (cs : List Char) : Option (Nat × List Char) := do
  let ds := cs.take size
  if ds.length ≠ size ∨ ds.all Numeral.isDigit = false then none
  else
    let n ← Numeral.value? 10 ds
    if least ≤ n ∧ n ≤ most then return (n, cs.drop size) else none

/-- The text after a character that has to come. -/
def expect? (c : Char) : List Char → Option (List Char)
  | x :: rest => if x = c then some rest else none
  | [] => none

/-- The number of days of a month. -/
def daysIn (year month : Nat) : Nat :=
  if month = 2 then
    if year % 4 = 0 ∧ (year % 100 ≠ 0 ∨ year % 400 = 0) then 29 else 28
  else if month = 4 ∨ month = 6 ∨ month = 9 ∨ month = 11 then 30
  else 31

/-- A date as text, and the text after it. -/
def date? (cs : List Char) : Option (List Char × List Char) := do
  let (year, rest) ← field? 4 0 9999 cs
  let rest ← expect? '-' rest
  let (month, rest) ← field? 2 1 12 rest
  let rest ← expect? '-' rest
  let (_, rest) ← field? 2 1 (daysIn year month) rest
  return (cs.take 10, rest)

/-- The parts of a second as text: nine digits at most, without zeros at the end. -/
def fractionText (ds : List Char) : List Char :=
  let kept := ((ds.take 9).reverse.dropWhile (· == '0')).reverse
  if kept.isEmpty then [] else '.' :: kept

/-- A time as text, and the text after it. -/
def time? (cs : List Char) : Option (List Char × List Char) := do
  let (_, rest) ← field? 2 0 23 cs
  let rest ← expect? ':' rest
  let (_, rest) ← field? 2 0 59 rest
  let rest ← expect? ':' rest
  let (_, rest) ← field? 2 0 60 rest
  match rest with
  | '.' :: rest =>
    let ds := rest.takeWhile Numeral.isDigit
    if ds.isEmpty then none
    else return (cs.take 8 ++ fractionText ds, rest.drop ds.length)
  | rest => return (cs.take 8, rest)

/-- The distance of a time from universal time as text, and the text after it. -/
def offset? (cs : List Char) : Option (List Char × List Char) :=
  match cs with
  | 'Z' :: rest | 'z' :: rest => some (['Z'], rest)
  | '+' :: rest | '-' :: rest => do
    let (hours, rest) ← field? 2 0 23 rest
    let rest ← expect? ':' rest
    let (minutes, rest) ← field? 2 0 59 rest
    let text := if hours = 0 ∧ minutes = 0 then "+00:00".toList else cs.take 6
    return (text, rest)
  | _ => none

/-- A date, a time, or both. -/
def datetime? (cs : List Char) : Option Node := do
  match date? cs with
  | some (date, []) => return .datetime (String.ofList date)
  | some (date, delimiter :: rest) =>
    if delimiter ≠ 'T' ∧ delimiter ≠ 't' ∧ delimiter ≠ ' ' then none
    else
      let (time, rest) ← time? rest
      let text := date ++ 'T' :: time
      if rest.isEmpty then return .datetime (String.ofList text)
      else
        let (offset, rest) ← offset? rest
        if rest.isEmpty then return .datetime (String.ofList (text ++ offset)) else none
  | none =>
    let (time, rest) ← time? cs
    if rest.isEmpty then return .datetime (String.ofList time) else none

/-! ## Words -/

/-- The value of a word, by its form. -/
def ofToken? (cs : List Char) : Option Node :=
  match cs with
  | '0' :: 'x' :: rest => based? 16 rest
  | '0' :: 'o' :: rest => based? 8 rest
  | '0' :: 'b' :: rest => based? 2 rest
  | _ =>
    if cs = "true".toList then some (.boolean true)
    else if cs = "false".toList then some (.boolean false)
    else ((datetime? cs).or (float? cs)).or (decimal? cs)

/-- Whether a character may stand in such a word. -/
def isToken (c : Char) : Bool :=
  Numeral.isAlphanumeric c || c == '+' || c == '-' || c == '_' || c == '.' || c == ':'

/-- The word at the start of a text, and the text after it. A space may join a date and a time. -/
def splitToken (cs : List Char) : List Char × List Char :=
  let word := cs.takeWhile isToken
  match date? word, cs.drop word.length with
  | some (_, []), ' ' :: rest =>
    let time := rest.takeWhile isToken
    if (time? time).isSome then (word ++ ' ' :: time, rest.drop time.length)
    else (word, ' ' :: rest)
  | _, rest => (word, rest)

end MachineInterface.Toml.Scalar

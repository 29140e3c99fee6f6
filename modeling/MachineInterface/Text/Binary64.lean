import MachineInterface.Text.Numeral

/-!
# Numbers with a binary point

Numbers of 64 bits with a binary point. A decimal number is read as the nearest of them, and each is
written with the fewest digits that are read as the same number.

* `ofDecimal?_shortest?`: what is written for a magnitude is read as this magnitude.
-/

namespace MachineInterface.Text

/-- A number `mantissa * base ^ exponent` of some base. -/
structure Scaled where
  mantissa : Nat
  exponent : Int
  deriving Repr, DecidableEq

namespace Scaled

/-- The numerator and the denominator of a number. -/
def fraction (base : Nat) (x : Scaled) : Nat × Nat :=
  (x.mantissa * base.pow x.exponent.toNat, base.pow (-x.exponent).toNat)

/-! ## Rounding -/

/-- The whole number nearest to a quotient; of two it is the even one. -/
def nearestQuotient (n d : Nat) : Nat :=
  let q := n / d
  let r := n % d
  if d < 2 * r || (d == 2 * r && q % 2 == 1) then q + 1 else q

/-- One more than the largest mantissa. -/
def mantissaBound : Nat := 0x20000000000000

/-- The least exponent. -/
def leastExponent : Int := -1074

/-- The nearest binary number to a fraction; none if it is too large. -/
def ofFraction? (num den : Nat) : Option Scaled :=
  let low := max leastExponent ((num.log2 : Int) - den.log2 - 53)
  let scaled (e : Int) : Nat × Nat := (num * Nat.pow 2 (-e).toNat, den * Nat.pow 2 e.toNat)
  let exponent := if mantissaBound ≤ (scaled low).1 / (scaled low).2 then low + 1 else low
  let mantissa := nearestQuotient (scaled exponent).1 (scaled exponent).2
  let x : Scaled :=
    if mantissa = mantissaBound then ⟨mantissaBound / 2, exponent + 1⟩ else ⟨mantissa, exponent⟩
  if x.exponent ≤ 971 then some x else none

/-- The nearest binary number to a decimal one; none if it is too large. -/
def ofDecimal? (x : Scaled) : Option Scaled :=
  let size := (Nat.toDigits 10 x.mantissa).length + x.exponent
  if x.mantissa = 0 || size < -400 then some ⟨0, 0⟩
  else if 400 < size then none
  else ofFraction? (x.fraction 10).1 (x.fraction 10).2

/-! ## Decimal numbers as text -/

/--
The nearest decimal number with a given exponent that is read as a binary number; of two it is the
larger one.
-/
def decimalAt? (x : Scaled) (exponent : Int) : Option Scaled :=
  let num := (x.fraction 2).1 * Nat.pow 10 (-exponent).toNat
  let den := (x.fraction 2).2 * Nat.pow 10 exponent.toNat
  let q := num / den
  let candidates := if 2 * (num % den) < den then [q, q + 1] else [q + 1, q]
  (candidates.map (Scaled.mk · exponent)).find? fun d => ofDecimal? d = some x

/-- The decimal number with the fewest digits that is read as a binary number. -/
def shortest? (x : Scaled) : Option Scaled :=
  (List.range 634).findSome? fun (i : Nat) => decimalAt? x (309 - i)

/-- What is written for a magnitude is read as this magnitude. -/
theorem ofDecimal?_shortest? {x d : Scaled} (h : shortest? x = some d) : ofDecimal? d = some x := by
  obtain ⟨i, _, hi⟩ := List.exists_of_findSome?_eq_some h
  simpa using List.find?_some hi

/-- A decimal number without an exponent. -/
def decimalChars (x : Scaled) : List Char :=
  let digits := Nat.toDigits 10 x.mantissa
  let places := (-x.exponent).toNat
  let padded := List.replicate (places + 1 - digits.length) '0' ++ digits
    ++ List.replicate x.exponent.toNat '0'
  let whole := padded.length - places
  if places = 0 then padded else padded.take whole ++ '.' :: padded.drop whole

/-- The exponent after its letter: an optional sign and digits. -/
def readExponent? : List Char → Option Int
  | '-' :: cs => (Numeral.value? 10 cs).map fun n => -(n : Int)
  | '+' :: cs => (Numeral.value? 10 cs).map Int.ofNat
  | cs => (Numeral.value? 10 cs).map Int.ofNat

/-- A decimal number: digits, perhaps around a point, and perhaps an exponent. -/
def readDecimal? (cs : List Char) : Option Scaled := do
  let whole := cs.takeWhile Numeral.isDigit
  let (places, rest) := match cs.dropWhile Numeral.isDigit with
    | '.' :: rest => (rest.takeWhile Numeral.isDigit, rest.dropWhile Numeral.isDigit)
    | rest => ([], rest)
  let exponent ← match rest with
    | [] => some 0
    | c :: rest => if c == 'e' || c == 'E' then readExponent? rest else none
  let mantissa ← Numeral.value? 10 (whole ++ places)
  return ⟨mantissa, exponent - places.length⟩

end Scaled

/-! ## Numbers -/

/-- A number of 64 bits with a binary point. -/
inductive Binary64 where
  | nan
  | infinite (negative : Bool)
  | finite (negative : Bool) (magnitude : Scaled)
  deriving Repr, DecidableEq

namespace Binary64

/-- The number that a text stands for. Words may be written in any case. -/
def ofText? (s : String) : Option Binary64 :=
  let (negative, cs) := match s.toList with
    | '-' :: cs => (true, cs)
    | '+' :: cs => (false, cs)
    | cs => (false, cs)
  let word := String.ofList (cs.map Char.toLower)
  if word = "nan" then some nan
  else if word = "inf" || word = "infinity" then some (infinite negative)
  else (Scaled.readDecimal? cs).map fun d =>
    match Scaled.ofDecimal? d with
    | some magnitude => finite negative magnitude
    | none => infinite negative

/-- The number as text, with the fewest digits and without an exponent. -/
def text (x : Binary64) : String :=
  let sign (negative : Bool) : String := if negative then "-" else ""
  match x with
  | nan => "NaN"
  | infinite negative => sign negative ++ "inf"
  | finite negative magnitude =>
    let shortest := if magnitude.mantissa = 0 then none else magnitude.shortest?
    sign negative ++ String.ofList (shortest.getD ⟨0, 0⟩).decimalChars

/-- The numerator and the denominator of a number; infinity counts as a number beyond all others. -/
def fraction : Binary64 → Int × Nat
  | nan => (0, 1)
  | infinite negative =>
    let n := Nat.pow 2 1024
    (if negative then -(n : Int) else n, 1)
  | finite negative magnitude =>
    let (n, d) := magnitude.fraction 2
    (if negative then -(n : Int) else n, d)

/-- The order of numbers by their value. -/
def order (x y : Binary64) : Ordering :=
  let (n, d) := x.fraction
  let (m, e) := y.fraction
  compare (n * e) (m * d)

end Binary64

end MachineInterface.Text

import MachineInterface.Text.Base64

/-!
# Reading Base64

The bytes of a text in the standard alphabet, with its padding: only the end may be padded, and the
padding leaves no bits over.

* `decode?_encode`: the text of some bytes is read as these bytes.
-/

namespace MachineInterface.Text.Base64

/-- The value of a digit. -/
def digitValue? (c : Char) : Option Nat :=
  if 'A' ≤ c ∧ c ≤ 'Z' then some (c.toNat - 'A'.toNat)
  else if 'a' ≤ c ∧ c ≤ 'z' then some (c.toNat - 'a'.toNat + 26)
  else if '0' ≤ c ∧ c ≤ '9' then some (c.toNat - '0'.toNat + 52)
  else if c = '+' then some 62
  else if c = '/' then some 63
  else none

/-- The bytes of four digits, of which the last two may be padding. -/
def group? (a b c d : Char) : Option (List UInt8) := do
  let w ← digitValue? a
  let x ← digitValue? b
  let first := UInt8.ofNat (w * 4 + x / 16)
  if c = '=' ∧ d = '=' then
    if x % 16 = 0 then some [first] else none
  else
    let y ← digitValue? c
    let second := UInt8.ofNat (x % 16 * 16 + y / 4)
    if d = '=' then
      if y % 4 = 0 then some [first, second] else none
    else
      let z ← digitValue? d
      some [first, second, UInt8.ofNat (y % 4 * 64 + z)]

/-- The bytes of a text. -/
def decodeChars? : List Char → Option (List UInt8)
  | [] => some []
  | a :: b :: c :: d :: rest => do
    let bytes ← group? a b c d
    if d = '=' ∧ rest ≠ [] then none else return bytes ++ (← decodeChars? rest)
  | _ => none

/-- The bytes of a text. -/
def decode? (text : String) : Option (List UInt8) := decodeChars? text.toList

theorem digitValue?_digit {n : Nat} (h : n < 64) : digitValue? (digit n) = some n := by
  have hdigits : ∀ n < 64, digitValue? (digit n) = some n := by decide
  exact hdigits n h

theorem digit_ne_pad {n : Nat} (h : n < 64) : digit n ≠ '=' := by
  have hdigits : ∀ n < 64, digit n ≠ '=' := by decide
  exact hdigits n h

theorem ofNat_eq {n : Nat} {b : UInt8} (h : n = b.toNat) : UInt8.ofNat n = b := by
  rw [h, UInt8.ofNat_toNat]

section Groups

variable (a b c : UInt8)

theorem group?_one :
    group? (digit (a.toNat / 4)) (digit (a.toNat % 4 * 16)) '=' '=' = some [a] := by
  have ha := a.toNat_lt
  have hfirst : UInt8.ofNat (a.toNat / 4 * 4 + a.toNat % 4 * 16 / 16) = a := ofNat_eq (by omega)
  have hrest : a.toNat % 4 * 16 % 16 = 0 := by omega
  rw [group?, digitValue?_digit (by omega), digitValue?_digit (by omega)]
  simp only [Option.bind_eq_bind, Option.bind_some, and_self, if_true, hfirst, hrest]

theorem group?_two :
    group? (digit (a.toNat / 4)) (digit (a.toNat % 4 * 16 + b.toNat / 16))
      (digit (b.toNat % 16 * 4)) '=' = some [a, b] := by
  have ha := a.toNat_lt
  have hb := b.toNat_lt
  have hfirst : UInt8.ofNat (a.toNat / 4 * 4 + (a.toNat % 4 * 16 + b.toNat / 16) / 16) = a :=
    ofNat_eq (by omega)
  have hsecond : UInt8.ofNat ((a.toNat % 4 * 16 + b.toNat / 16) % 16 * 16 +
      b.toNat % 16 * 4 / 4) = b := ofNat_eq (by omega)
  have hrest : b.toNat % 16 * 4 % 4 = 0 := by omega
  have hpad : digit (b.toNat % 16 * 4) ≠ '=' := digit_ne_pad (by omega)
  rw [group?, digitValue?_digit (by omega), digitValue?_digit (by omega),
    digitValue?_digit (by omega)]
  simp only [Option.bind_eq_bind, Option.bind_some, hpad, false_and, if_false, if_true, hfirst,
    hsecond, hrest]

theorem group?_three :
    group? (digit (a.toNat / 4)) (digit (a.toNat % 4 * 16 + b.toNat / 16))
      (digit (b.toNat % 16 * 4 + c.toNat / 64)) (digit (c.toNat % 64)) = some [a, b, c] := by
  have ha := a.toNat_lt
  have hb := b.toNat_lt
  have hc := c.toNat_lt
  have hfirst : UInt8.ofNat (a.toNat / 4 * 4 + (a.toNat % 4 * 16 + b.toNat / 16) / 16) = a :=
    ofNat_eq (by omega)
  have hsecond : UInt8.ofNat ((a.toNat % 4 * 16 + b.toNat / 16) % 16 * 16 +
      (b.toNat % 16 * 4 + c.toNat / 64) / 4) = b := ofNat_eq (by omega)
  have hthird : UInt8.ofNat ((b.toNat % 16 * 4 + c.toNat / 64) % 4 * 64 + c.toNat % 64) = c :=
    ofNat_eq (by omega)
  have hpad : digit (c.toNat % 64) ≠ '=' := digit_ne_pad (by omega)
  rw [group?, digitValue?_digit (by omega), digitValue?_digit (by omega),
    digitValue?_digit (by omega), digitValue?_digit (by omega)]
  simp only [Option.bind_eq_bind, Option.bind_some, hpad, and_false, if_false, hfirst, hsecond,
    hthird]

end Groups

theorem decodeChars?_encodeChars (bytes : List UInt8) :
    decodeChars? (encodeChars bytes) = some bytes := by
  fun_induction encodeChars bytes with
  | case1 => rfl
  | case2 a => simp [decodeChars?, group?_one]
  | case3 a b => simp [decodeChars?, group?_two]
  | case4 a b c rest ih =>
    have hpad : digit (c.toNat % 64) ≠ '=' := digit_ne_pad (by omega)
    simp [decodeChars?, group?_three, hpad, ih]

/-- The text of some bytes is read as these bytes. -/
theorem decode?_encode (bytes : List UInt8) : decode? (encode bytes) = some bytes := by
  rw [decode?, encode, String.toList_ofList, decodeChars?_encodeChars]

example : decode? "3q2+7w==" = some [0xDE, 0xAD, 0xBE, 0xEF] := by decide

end MachineInterface.Text.Base64

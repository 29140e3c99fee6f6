/-!
# Numerals

Whole numbers as text. Reading takes the entire text: an optional sign, then at least one digit of
the base, the value in a stated range.

* `value?_toDigits`: the digits of a number read back as the number, in any base up to 16.
* `readNat?_lt`: what is read lies below the bound.
-/

namespace MachineInterface.Text.Numeral

/-! ## Digits -/

/-- The value of a digit of the base; letters of either case go on after `9`. -/
def digitValue? (base : Nat) (c : Char) : Option Nat :=
  let value :=
    if '0' ≤ c ∧ c ≤ '9' then c.toNat - '0'.toNat
    else if 'a' ≤ c ∧ c ≤ 'z' then c.toNat - 'a'.toNat + 10
    else if 'A' ≤ c ∧ c ≤ 'Z' then c.toNat - 'A'.toNat + 10
    else base
  if value < base then some value else none

/-- The value of digits that follow digits of value `high`. -/
def valueFrom? (base : Nat) : Nat → List Char → Option Nat
  | high, [] => some high
  | high, c :: cs => (digitValue? base c).bind fun d => valueFrom? base (high * base + d) cs

/-- The value of a non-empty run of digits. -/
def value? (base : Nat) : List Char → Option Nat
  | [] => none
  | cs => valueFrom? base 0 cs

theorem digitValue?_digitChar {base d : Nat} (hbase : base ≤ 16) (hd : d < base) :
    digitValue? base (Nat.digitChar d) = some d := by
  have hdigits : ∀ base ≤ 16, ∀ d < base, digitValue? base (Nat.digitChar d) = some d := by decide
  exact hdigits base hbase d hd

theorem valueFrom?_append (base high : Nat) (xs ys : List Char) :
    valueFrom? base high (xs ++ ys) = (valueFrom? base high xs).bind (valueFrom? base · ys) := by
  induction xs generalizing high with
  | nil => rfl
  | cons c xs ih => cases h : digitValue? base c <;> simp [valueFrom?, h, ih]

theorem valueFrom?_toDigits {base : Nat} (hlow : 1 < base) (hhigh : base ≤ 16) (n : Nat) :
    valueFrom? base 0 (Nat.toDigits base n) = some n := by
  induction n using Nat.strongRecOn with
  | _ n ih =>
    rw [Nat.toDigits_eq_if hlow]
    split
    · rename_i h
      simp [valueFrom?, digitValue?_digitChar hhigh h]
    · rename_i h
      rw [valueFrom?_append, ih (n / base) (Nat.div_lt_self (by omega) hlow)]
      have hd := digitValue?_digitChar hhigh (Nat.mod_lt n (by omega : base > 0))
      simp only [Option.bind_some, valueFrom?, hd, Nat.div_add_mod']

theorem value?_of_ne_nil (base : Nat) {cs : List Char} (h : cs ≠ []) :
    value? base cs = valueFrom? base 0 cs := by
  cases cs with
  | nil => exact absurd rfl h
  | cons c cs => rfl

/-- The digits of a number read back as the number. -/
theorem value?_toDigits {base : Nat} (hlow : 1 < base) (hhigh : base ≤ 16) (n : Nat) :
    value? base (Nat.toDigits base n) = some n := by
  rw [value?_of_ne_nil base Nat.toDigits_ne_nil, valueFrom?_toDigits hlow hhigh]

/-- What holds of every digit of a base holds of the digits of a number. -/
theorem forall_mem_toDigits {base : Nat} (hbase : 1 < base) {p : Char → Prop}
    (h : ∀ d < base, p (Nat.digitChar d)) (n : Nat) : ∀ c ∈ Nat.toDigits base n, p c := by
  induction n using Nat.strongRecOn with
  | _ n ih =>
    rw [Nat.toDigits_eq_if hbase]
    split
    · rename_i hn
      simpa using h n hn
    · rename_i hn
      have hlt : n / base < n := Nat.div_lt_self (by omega) hbase
      have hdigit : n % base < base := Nat.mod_lt n (by omega)
      rw [List.forall_mem_append]
      exact ⟨ih _ hlt, by simpa using h _ hdigit⟩

/-! ## Numbers in a range -/

/-- A number below `bound`, with or without a plus sign. -/
def readNat? (base bound : Nat) (cs : List Char) : Option Nat :=
  let digits := match cs with
    | '+' :: rest => rest
    | rest => rest
  (value? base digits).filter (· < bound)

theorem readNat?_lt {base bound n : Nat} {cs : List Char} (h : readNat? base bound cs = some n) :
    n < bound := by
  simp only [readNat?, Option.filter_eq_some_iff, decide_eq_true_eq] at h
  exact h.2

/-- A number from `-bound` up to but not including `bound`, with or without a sign. -/
def readInt? (base bound : Nat) (cs : List Char) : Option Int :=
  match cs with
  | '-' :: rest => ((value? base rest).filter (· ≤ bound)).map fun n => -(n : Int)
  | rest => (readNat? base bound rest).map Int.ofNat

/-- A decimal number of 32 bits. -/
def readUInt32? (s : String) : Option UInt32 := (readNat? 10 0x100000000 s.toList).map UInt32.ofNat

/-- A number of 64 bits. -/
def readUInt64? (base : Nat) (cs : List Char) : Option UInt64 :=
  (readNat? base 0x10000000000000000 cs).map UInt64.ofNat

/-! ## Decimal digits -/

/-- Whether a character is a decimal digit. -/
def isDigit (c : Char) : Bool := '0' ≤ c && c ≤ '9'

/-- Whether a character is a letter or digit of ASCII. -/
def isAlphanumeric (c : Char) : Bool :=
  isDigit c || ('a' ≤ c && c ≤ 'z') || ('A' ≤ c && c ≤ 'Z')

/-! ## Hexadecimal text -/

/-- The lower-case hexadecimal digits of a number, with leading zeros up to `width`. -/
def hexPadded (width n : Nat) : List Char :=
  let digits := Nat.toDigits 16 n
  List.replicate (width - digits.length) '0' ++ digits

/-- What holds of every hexadecimal digit holds of a number with its leading zeros. -/
theorem forall_mem_hexPadded {p : Char → Prop} (h : ∀ d < 16, p (Nat.digitChar d))
    (width n : Nat) : ∀ c ∈ hexPadded width n, p c := by
  rw [hexPadded, List.forall_mem_append]
  refine ⟨fun c hc => ?_, forall_mem_toDigits (by omega) h n⟩
  rw [List.eq_of_mem_replicate hc]
  exact h 0 (by omega)

end MachineInterface.Text.Numeral

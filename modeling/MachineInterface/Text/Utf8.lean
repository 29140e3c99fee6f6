/-!
# UTF-8

Bytes of a text and back. Reading is total: a byte sequence that is no UTF-8 gives one replacement
character for each maximal beginning of a character that does not go on.

* `step_length_le`: reading a character never looks past it, so reading a text ends.
-/

namespace MachineInterface.Text.Utf8

/-- The replacement character, U+FFFD. -/
def replacement : Char := Char.ofNat 0xFFFD

/-- The bytes of a text. -/
def encodeChars (cs : List Char) : List UInt8 := cs.flatMap String.utf8EncodeChar

/-- The bytes of a text. -/
def encode (s : String) : List UInt8 := encodeChars s.toList

/-! ## Reading one character -/

/-- Whether a byte continues a character. -/
def isTail (b : UInt8) : Bool := 0x80 ≤ b && b ≤ 0xBF

/-- How many bytes follow a leading byte; none when the byte leads no character. -/
def tailCount? (lead : UInt8) : Option Nat :=
  if lead < 0x80 then some 0
  else if 0xC2 ≤ lead && lead ≤ 0xDF then some 1
  else if 0xE0 ≤ lead && lead ≤ 0xEF then some 2
  else if 0xF0 ≤ lead && lead ≤ 0xF4 then some 3
  else none

/--
Whether a byte may come second. The bounds shut out spellings that are too long, the surrogates and
what lies above U+10FFFF.
-/
def isSecond (lead second : UInt8) : Bool :=
  if lead = 0xE0 then 0xA0 ≤ second && second ≤ 0xBF
  else if lead = 0xED then 0x80 ≤ second && second ≤ 0x9F
  else if lead = 0xF0 then 0x90 ≤ second && second ≤ 0xBF
  else if lead = 0xF4 then 0x80 ≤ second && second ≤ 0x8F
  else isTail second

/-- The bits of a tail byte appended to a code point. -/
def push (code : Nat) (b : UInt8) : Nat := code * 64 + b.toNat % 64

/--
The character that starts a byte sequence, if one does, and the bytes after it; otherwise the bytes
after the part that could have started one.
-/
def step (lead : UInt8) (rest : List UInt8) : Option Char × List UInt8 :=
  match tailCount? lead, rest with
  | some 0, rest => (some (Char.ofNat lead.toNat), rest)
  | some 1, b :: rest =>
    if isTail b then (some (Char.ofNat (push (lead.toNat % 32) b)), rest) else (none, b :: rest)
  | some 2, b :: rest =>
    if isSecond lead b then
      match rest with
      | c :: rest =>
        if isTail c then (some (Char.ofNat (push (push (lead.toNat % 16) b) c)), rest)
        else (none, c :: rest)
      | [] => (none, [])
    else (none, b :: rest)
  | some 3, b :: rest =>
    if isSecond lead b then
      match rest with
      | c :: rest =>
        if isTail c then
          match rest with
          | d :: rest =>
            if isTail d then
              (some (Char.ofNat (push (push (push (lead.toNat % 8) b) c) d)), rest)
            else (none, d :: rest)
          | [] => (none, [])
        else (none, c :: rest)
      | [] => (none, [])
    else (none, b :: rest)
  | _, rest => (none, rest)

theorem step_length_le (lead : UInt8) (rest : List UInt8) :
    (step lead rest).2.length ≤ rest.length := by
  unfold step
  repeat' split
  all_goals simp only [List.length_cons]; omega

/-! ## Reading a text -/

/-- The characters of a byte sequence in order, `none` where there is no character. -/
def scan : List UInt8 → List (Option Char)
  | [] => []
  | lead :: rest => (step lead rest).1 :: scan (step lead rest).2
termination_by bytes => bytes.length
decreasing_by
  have := step_length_le lead rest
  simp only [List.length_cons]
  omega

/-- The text of a byte sequence, with a replacement character where there is none. -/
def decodeChars (bytes : List UInt8) : List Char := (scan bytes).map (·.getD replacement)

/-- The text of a byte sequence, with a replacement character where there is none. -/
def decode (bytes : List UInt8) : String := String.ofList (decodeChars bytes)

/-- The text of a byte sequence that is valid throughout. -/
def decode? (bytes : List UInt8) : Option String := ((scan bytes).mapM id).map String.ofList

end MachineInterface.Text.Utf8

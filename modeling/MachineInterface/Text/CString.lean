import MachineInterface.Text.Utf8

/-!
# C strings

The body of a quoted constant on the wire. Escapes stand for bytes, so a body is first read as bytes
and these as UTF-8.

* `bytes_encodeChar_append`: an encoded character is read back as its own bytes.
* `bytes_encodeChars`: an encoded text is read back as the bytes of the text.
-/

namespace MachineInterface.Text.CString

/-! ## Writing -/

/-- What stands for a character in a body. -/
def encodeChar (c : Char) : List Char :=
  if c = '\\' then ['\\', '\\']
  else if c = '"' then ['\\', '"']
  else if c = '\n' then ['\\', 'n']
  else if c = '\t' then ['\\', 't']
  else if c = '\r' then ['\\', 'r']
  else [c]

/-- The body that stands for a text. -/
def encodeChars (cs : List Char) : List Char := cs.flatMap encodeChar

/-- The body that stands for a text. -/
def encode (s : String) : String := String.ofList (encodeChars s.toList)

/-! ## Reading -/

/-- The byte that a letter after a backslash names. -/
def namedEscape? (c : Char) : Option UInt8 :=
  match c with
  | 'n' => some 0x0A
  | 't' => some 0x09
  | 'r' => some 0x0D
  | 'a' => some 0x07
  | 'b' => some 0x08
  | 'f' => some 0x0C
  | 'v' => some 0x0B
  | 'e' => some 0x1B
  | _ => none

/-- The value of an octal digit. -/
def octalDigit? (c : Char) : Option Nat :=
  if '0' ≤ c ∧ c ≤ '7' then some (c.toNat - '0'.toNat) else none

/-- The octal digits at the start of a text, at most `count`, and the text after them. -/
def takeOctal : (count : Nat) → List Char → List Nat × List Char
  | 0, cs => ([], cs)
  | _, [] => ([], [])
  | count + 1, c :: cs =>
    match octalDigit? c with
    | some d => (d :: (takeOctal count cs).1, (takeOctal count cs).2)
    | none => ([], c :: cs)

theorem takeOctal_length_le (count : Nat) (cs : List Char) :
    (takeOctal count cs).2.length ≤ cs.length := by
  induction count generalizing cs with
  | zero => simp [takeOctal]
  | succ count ih =>
    cases cs with
    | nil => simp [takeOctal]
    | cons c cs =>
      simp only [takeOctal]
      split
      · simp only [List.length_cons]
        have := ih cs
        omega
      · simp

/-- The bytes that follow a backslash stand for, and the body after the escape. -/
def readEscape (c : Char) (rest : List Char) : List UInt8 × List Char :=
  match namedEscape? c, octalDigit? c with
  | some b, _ => ([b], rest)
  | none, some d =>
    let (ds, after) := takeOctal 2 rest
    ([UInt8.ofNat (ds.foldl (· * 8 + ·) d)], after)
  | none, none => (String.utf8EncodeChar c, rest)

theorem readEscape_length_le (c : Char) (rest : List Char) :
    (readEscape c rest).2.length ≤ rest.length := by
  unfold readEscape
  split
  · simp
  · exact takeOctal_length_le 2 rest
  · simp

/--
The bytes that a body stands for. A backslash takes up to three octal digits, or else one character;
alone at the end it stands for itself.
-/
def bytes : List Char → List UInt8
  | [] => []
  | '\\' :: c :: rest => (readEscape c rest).1 ++ bytes (readEscape c rest).2
  | c :: rest => String.utf8EncodeChar c ++ bytes rest
termination_by cs => cs.length
decreasing_by
  · have := readEscape_length_le c rest
    simp only [List.length_cons]
    omega
  · simp

/-- The text that a body stands for. -/
def decode (body : String) : String := Utf8.decode (bytes body.toList)

/-- The text that a body stands for. -/
def decodeChars (body : List Char) : String := Utf8.decode (bytes body)

/-- The body of a c-string up to its closing quote, and the text after the quote. -/
def body? : List Char → Option (List Char × List Char)
  | '\\' :: c :: rest => (body? rest).map fun p => ('\\' :: c :: p.1, p.2)
  | ['\\'] => none
  | '"' :: rest => some ([], rest)
  | c :: rest => (body? rest).map fun p => (c :: p.1, p.2)
  | [] => none

/-! ## Writing, then reading -/

theorem bytes_cons_ne {c : Char} (h : c ≠ '\\') (rest : List Char) :
    bytes (c :: rest) = String.utf8EncodeChar c ++ bytes rest := by
  rw [bytes]
  intro _ _ hc
  exact absurd hc h

/-- An encoded character is read back as its own bytes. -/
theorem bytes_encodeChar_append (c : Char) (rest : List Char) :
    bytes (encodeChar c ++ rest) = String.utf8EncodeChar c ++ bytes rest := by
  unfold encodeChar
  repeat' split
  all_goals try subst c
  · exact bytes.eq_2 _ _
  · exact bytes.eq_2 _ _
  · exact bytes.eq_2 _ _
  · exact bytes.eq_2 _ _
  · exact bytes.eq_2 _ _
  · rename_i h _ _ _ _
    exact bytes_cons_ne h rest

/-- An encoded text is read back as the bytes of the text. -/
theorem bytes_encodeChars (cs : List Char) : bytes (encodeChars cs) = Utf8.encodeChars cs := by
  induction cs with
  | nil => simp [encodeChars, Utf8.encodeChars, bytes]
  | cons c cs ih =>
    simp only [encodeChars, Utf8.encodeChars, List.flatMap_cons] at ih ⊢
    rw [bytes_encodeChar_append, ih]

end MachineInterface.Text.CString

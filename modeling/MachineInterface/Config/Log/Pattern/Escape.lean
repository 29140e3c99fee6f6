import MachineInterface.Text.Alphanumeric

/-!
# Atoms of patterns

The smallest parts of a pattern: characters, as they are or after a backslash, and escapes for
several characters or for a place. Flags say how a part is read and what it may be.

* `skip_of_plain`: blanks and comments are passed over only in a spacious pattern.
* `readAtom?_of_plain`: a character other than a backslash stands for itself.
-/

namespace MachineInterface.Pattern

open Text

/-! ## Flags -/

/-- How a part of a pattern is read. -/
structure Flags where
  /-- Blanks and comments do not count. -/
  spacious : Bool := false
  /-- The pattern is about characters, not about bytes. -/
  unicode : Bool := true
  deriving Repr, DecidableEq

namespace Flags

/-- Whether letters set a flag or, after a hyphen, clear it. -/
def state? (flag : Char) (letters : List Char) : Option Bool :=
  if letters.contains flag then some (!(letters.takeWhile (· != flag)).contains '-') else none

/-- The flags after a change by letters. -/
def change (letters : List Char) (f : Flags) : Flags :=
  ⟨(state? 'x' letters).getD f.spacious, (state? 'u' letters).getD f.unicode⟩

end Flags

/-! ## Blanks and comments -/

/-- What follows blanks and comments; a comment goes from a number sign to the end of its line. -/
def skipBlanks : (inComment : Bool) → List Char → List Char
  | _, [] => []
  | true, c :: cs => skipBlanks (c != '\n') cs
  | false, c :: cs =>
    if isBlank c then skipBlanks false cs
    else if c == '#' then skipBlanks true cs
    else c :: cs

/-- What follows the blanks and comments of a spacious pattern. -/
def skip (f : Flags) (cs : List Char) : List Char := if f.spacious then skipBlanks false cs else cs

/-- Blanks and comments are passed over only in a spacious pattern. -/
theorem skip_of_plain {f : Flags} (h : f.spacious = false) (cs : List Char) : skip f cs = cs := by
  simp [skip, h]

/--
The character that decides whether a hyphen makes a range. Of a comment only the number sign is
passed over.
-/
def peek? (f : Flags) (cs : List Char) : Option Char :=
  if f.spacious then
    match cs.dropWhile isBlank with
    | '#' :: rest => (rest.dropWhile isBlank).head?.or cs.head?
    | c :: _ => some c
    | [] => cs.head?
  else cs.head?

/-! ## Atoms -/

/-- A smallest part of a pattern. -/
inductive Atom where
  | character (c : Char)
  /-- A character given by its number in two digits, which may be a byte. -/
  | byte (c : Char)
  /-- Digits, blanks or the characters of words, or all others. -/
  | several (negated : Bool)
  /-- The characters of a Unicode category. -/
  | category
  /-- A border of a word. -/
  | wordBorder
  /-- The start or the end of the text. -/
  | textBorder
  deriving Repr, DecidableEq

namespace Atom

/-- The character that an atom stands for, if it is one. -/
def character? : Atom → Option Char
  | character c | byte c => some c
  | _ => none

/--
Whether an atom may stand outside of a class. Borders of words are known for bytes only; bytes that
may be parts of characters are not.
-/
def isAllowed (f : Flags) : Atom → Bool
  | character _ | textBorder => true
  | byte c => f.unicode || c.toNat < 0x80
  | several negated => f.unicode || !negated
  | category => f.unicode
  | wordBorder => !f.unicode

/-- Whether an atom may stand in a class. -/
def isMember (f : Flags) : Atom → Bool
  | character c | byte c => f.unicode || c.toNat < 0x80
  | several negated => f.unicode || !negated
  | category => f.unicode
  | wordBorder | textBorder => false

end Atom

/-! ## Reading -/

/-- A number of so many hexadecimal digits, after a number that was read before. -/
def readHex? (f : Flags) : (count : Nat) → (high : Nat) → List Char → Option (Nat × List Char)
  | 0, high, cs => some (high, cs)
  | count + 1, high, cs =>
    match skip f cs with
    | c :: rest => (Numeral.digitValue? 16 c).bind fun d => readHex? f count (high * 16 + d) rest
    | [] => none

/-- The character with a number of so many hexadecimal digits. -/
def readCode? (f : Flags) (count : Nat) (cs : List Char) : Option (Char × List Char) :=
  (readHex? f count 0 cs).bind fun p =>
    if p.1.isValidChar then some (Char.ofNat p.1, p.2) else none

/-- The letters for the Unicode categories that have letters. -/
def categoryLetters : List Char := "clmnpszCLMNPSZ".toList

/-- The atom after a backslash. -/
def readEscape? (f : Flags) : List Char → Option (Atom × List Char)
  | [] => none
  | 'x' :: cs => (readCode? f 2 cs).map fun p => (.byte p.1, p.2)
  | 'u' :: cs => (readCode? f 4 cs).map fun p => (.character p.1, p.2)
  | 'U' :: cs => (readCode? f 8 cs).map fun p => (.character p.1, p.2)
  | 'a' :: cs => some (.character '\x07', cs)
  | 'f' :: cs => some (.character '\x0c', cs)
  | 't' :: cs => some (.character '\t', cs)
  | 'n' :: cs => some (.character '\n', cs)
  | 'r' :: cs => some (.character '\r', cs)
  | 'v' :: cs => some (.character '\x0b', cs)
  | c :: cs =>
    if c == 'p' || c == 'P' then
      match skip f cs with
      | letter :: rest => if categoryLetters.contains letter then some (.category, rest) else none
      | [] => none
    else if "dsw".toList.contains c then some (.several false, cs)
    else if "DSW".toList.contains c then some (.several true, cs)
    else if "bB<>".toList.contains c then some (.wordBorder, cs)
    else if c == 'A' || c == 'z' then some (.textBorder, cs)
    else if c.toNat < 0x80 && !Numeral.isAlphanumeric c then some (.character c, cs)
    else none

/-- The next atom. -/
def readAtom? (f : Flags) : List Char → Option (Atom × List Char)
  | [] => none
  | '\\' :: cs => readEscape? f cs
  | c :: cs => some (.character c, cs)

/-- A character other than a backslash stands for itself. -/
theorem readAtom?_of_plain {f : Flags} {c : Char} (h : c ≠ '\\') (cs : List Char) :
    readAtom? f (c :: cs) = some (.character c, cs) := by
  unfold readAtom?
  split
  · contradiction
  · simp_all
  · simp_all

end MachineInterface.Pattern

import MachineInterface.Text.Numeral

/-!
# Quoted texts of a settings document

Texts in double quotes know escapes, texts in single quotes do not. Three quotes enclose a text of
several lines. Each reader takes the text after the opening quotes and gives what they enclose and
what follows the closing ones.
-/

namespace MachineInterface.Toml.Quoted

open Text

/-- Whether a character may stand in a quoted text: a tab, or one that is no control character. -/
def isTextual (c : Char) : Bool := c == '\t' || (0x20 ≤ c.toNat && c.toNat != 0x7F)

/-- The character that a single letter after a backslash stands for. -/
def shortEscape? (c : Char) : Option Char :=
  match c with
  | 'b' => some '\x08'
  | 't' => some '\t'
  | 'n' => some '\n'
  | 'f' => some '\x0c'
  | 'r' => some '\r'
  | '"' => some '"'
  | '\\' => some '\\'
  | _ => none

/-- The character of a code point in hexadecimal digits. -/
def codePoint? (ds : List Char) : Option Char :=
  match Numeral.value? 16 ds with
  | some n => if h : n.isValidChar then some (Char.ofNatAux n h) else none
  | none => none

/-- A text with one more character in front. -/
def prepend (c : Option Char) (r : Option (List Char × List Char)) :
    Option (List Char × List Char) :=
  match c, r with
  | some c, some (text, rest) => some (c :: text, rest)
  | _, _ => none

/-- A text in double quotes. -/
def basic? : List Char → Option (List Char × List Char)
  | '"' :: rest => some ([], rest)
  | '\\' :: 'u' :: a :: b :: c :: d :: rest => prepend (codePoint? [a, b, c, d]) (basic? rest)
  | '\\' :: 'U' :: a :: b :: c :: d :: e :: f :: g :: h :: rest =>
    prepend (codePoint? [a, b, c, d, e, f, g, h]) (basic? rest)
  | '\\' :: c :: rest => prepend (shortEscape? c) (basic? rest)
  | c :: rest => if isTextual c && c != '\\' then prepend (some c) (basic? rest) else none
  | [] => none

/-- A text in single quotes. -/
def literal? : List Char → Option (List Char × List Char)
  | '\'' :: rest => some ([], rest)
  | c :: rest => if isTextual c then prepend (some c) (literal? rest) else none
  | [] => none

/-- Whether a text starts with a line end, blanks before it aside. -/
def startsLineEnd (cs : List Char) : Bool :=
  match cs.dropWhile fun c => c == ' ' || c == '\t' with
  | '\n' :: _ => true
  | '\r' :: '\n' :: _ => true
  | _ => false

/--
A text of several lines in double quotes. After a backslash at the end of a line, blanks and line
ends are passed over. Up to two quotes may stand before the closing ones.
-/
def multiBasic? : (skipping : Bool) → List Char → Option (List Char × List Char)
  | true, ' ' :: rest => multiBasic? true rest
  | true, '\t' :: rest => multiBasic? true rest
  | _, '"' :: '"' :: '"' :: '"' :: '"' :: rest => some (['"', '"'], rest)
  | _, '"' :: '"' :: '"' :: '"' :: rest => some (['"'], rest)
  | _, '"' :: '"' :: '"' :: rest => some ([], rest)
  | skipping, '\n' :: rest =>
    if skipping then multiBasic? true rest else prepend (some '\n') (multiBasic? false rest)
  | skipping, '\r' :: '\n' :: rest =>
    if skipping then multiBasic? true rest else prepend (some '\n') (multiBasic? false rest)
  | _, '\\' :: 'u' :: a :: b :: c :: d :: rest =>
    prepend (codePoint? [a, b, c, d]) (multiBasic? false rest)
  | _, '\\' :: 'U' :: a :: b :: c :: d :: e :: f :: g :: h :: rest =>
    prepend (codePoint? [a, b, c, d, e, f, g, h]) (multiBasic? false rest)
  | _, '\\' :: c :: rest =>
    if startsLineEnd (c :: rest) then multiBasic? true (c :: rest)
    else prepend (shortEscape? c) (multiBasic? false rest)
  | _, c :: rest =>
    if isTextual c && c != '\\' then prepend (some c) (multiBasic? false rest) else none
  | _, [] => none

/-- A text of several lines in single quotes. Up to two quotes may stand before the closing ones. -/
def multiLiteral? : List Char → Option (List Char × List Char)
  | '\'' :: '\'' :: '\'' :: '\'' :: '\'' :: rest => some (['\'', '\''], rest)
  | '\'' :: '\'' :: '\'' :: '\'' :: rest => some (['\''], rest)
  | '\'' :: '\'' :: '\'' :: rest => some ([], rest)
  | '\r' :: '\n' :: rest => prepend (some '\n') (multiLiteral? rest)
  | c :: rest =>
    if isTextual c || c == '\n' then prepend (some c) (multiLiteral? rest) else none
  | [] => none

/-- The text after a line end at its start. -/
def dropLineEnd : List Char → List Char
  | '\n' :: rest => rest
  | '\r' :: '\n' :: rest => rest
  | rest => rest

/-- A quoted text of any kind, with its opening quotes. -/
def any? : List Char → Option (List Char × List Char)
  | '"' :: '"' :: '"' :: rest => multiBasic? false (dropLineEnd rest)
  | '\'' :: '\'' :: '\'' :: rest => multiLiteral? (dropLineEnd rest)
  | '"' :: rest => basic? rest
  | '\'' :: rest => literal? rest
  | _ => none

end MachineInterface.Toml.Quoted

import MachineInterface.Proofs.Text.Encoded
import MachineInterface.Text.CString

/-!
# Ways to spell a text

In the body of a quoted constant a character can be spelled in several ways, and a debugger may
choose another one for each character. Octal escapes stand for bytes, so a character beyond ASCII
takes several of them.

* `bytes_octalEscape`: three octal digits are the byte, whatever stands after them.
* `Spelling.bytes_append`: a character is read back from each of its spellings.
* `decode_of_spelled`: a text is read back from all of its bodies; the writer makes one of them.
-/

namespace MachineInterface.Text.CString

/-! ## Spellings -/

/-- The letters that name a character after a backslash. -/
def letterNames : List (Char × Char) :=
  [('n', '\n'), ('t', '\t'), ('r', '\r'), ('a', '\x07'), ('b', '\x08'), ('f', '\x0c'),
    ('v', '\x0b'), ('e', '\x1b')]

/-- A byte as three octal digits after a backslash. -/
def octalEscape (b : UInt8) : List Char :=
  ['\\', Nat.digitChar (b.toNat / 64), Nat.digitChar (b.toNat / 8 % 8), Nat.digitChar (b.toNat % 8)]

/-- What can stand for a character in a body. -/
inductive Spelling (c : Char) : List Char → Prop
  /-- The character itself. -/
  | plain (h : c ≠ '\\') : Spelling c [c]
  /-- The letter that names it. -/
  | named {letter : Char} (h : (letter, c) ∈ letterNames) : Spelling c ['\\', letter]
  /-- The character after a backslash, if it then has no meaning of its own. -/
  | escaped (hletter : c ∉ letterNames.map (·.1)) (hdigit : ¬ ('0' ≤ c ∧ c ≤ '7')) :
    Spelling c ['\\', c]
  /-- All bytes of the character. -/
  | octal : Spelling c ((String.utf8EncodeChar c).flatMap octalEscape)

/-- A body that spells a text, each character in some way. -/
inductive Spelled : List Char → List Char → Prop
  | nil : Spelled [] []
  | cons {c : Char} {cs text body : List Char} (h : Spelling c cs) (hrest : Spelled text body) :
    Spelled (c :: text) (cs ++ body)

/-! ## Bytes of one character -/

theorem bytes_escape (c : Char) (rest : List Char) :
    bytes ('\\' :: c :: rest) = (readEscape c rest).1 ++ bytes (readEscape c rest).2 :=
  bytes.eq_2 c rest

theorem readEscape_named {letter c : Char} (h : (letter, c) ∈ letterNames) (rest : List Char) :
    readEscape letter rest = (String.utf8EncodeChar c, rest) := by
  have hnames : ∀ p ∈ letterNames,
      (namedEscape? p.1).map (fun b => [b]) = some (String.utf8EncodeChar p.2) := by decide
  obtain ⟨b, hb, hbyte⟩ := Option.map_eq_some_iff.mp (hnames _ h)
  rw [readEscape, hb, ← hbyte]

theorem namedEscape?_eq_none {c : Char} (h : c ∉ letterNames.map (·.1)) :
    namedEscape? c = none := by
  unfold namedEscape?
  split
  case h_9 => rfl
  all_goals exact absurd (by decide) h

theorem readEscape_self {c : Char} (hletter : c ∉ letterNames.map (·.1))
    (hdigit : ¬ ('0' ≤ c ∧ c ≤ '7')) (rest : List Char) :
    readEscape c rest = (String.utf8EncodeChar c, rest) := by
  rw [readEscape, namedEscape?_eq_none hletter, octalDigit?, if_neg hdigit]

theorem octalDigit?_digitChar {d : Nat} (h : d < 8) : octalDigit? (Nat.digitChar d) = some d := by
  have hdigits : ∀ d < 8, octalDigit? (Nat.digitChar d) = some d := by decide
  exact hdigits d h

theorem namedEscape?_digitChar {d : Nat} (h : d < 8) : namedEscape? (Nat.digitChar d) = none := by
  have hdigits : ∀ d < 8, namedEscape? (Nat.digitChar d) = none := by decide
  exact hdigits d h

/-- Three octal digits are the byte, also where another digit stands after them. -/
theorem bytes_octalEscape (b : UInt8) (rest : List Char) :
    bytes (octalEscape b ++ rest) = b :: bytes rest := by
  have hb := b.toNat_lt
  have hhigh : b.toNat / 64 < 8 := by omega
  have hmiddle : b.toNat / 8 % 8 < 8 := by omega
  have hlow : b.toNat % 8 < 8 := by omega
  have hvalue : (b.toNat / 64 * 8 + b.toNat / 8 % 8) * 8 + b.toNat % 8 = b.toNat := by omega
  have hread : readEscape (Nat.digitChar (b.toNat / 64))
      (Nat.digitChar (b.toNat / 8 % 8) :: Nat.digitChar (b.toNat % 8) :: rest) = ([b], rest) := by
    simp only [readEscape, namedEscape?_digitChar hhigh, octalDigit?_digitChar hhigh, takeOctal,
      octalDigit?_digitChar hmiddle, octalDigit?_digitChar hlow, List.foldl_cons, List.foldl_nil,
      hvalue, UInt8.ofNat_toNat]
  have hescape := bytes_escape (Nat.digitChar (b.toNat / 64))
    (Nat.digitChar (b.toNat / 8 % 8) :: Nat.digitChar (b.toNat % 8) :: rest)
  rw [hread] at hescape
  exact hescape

theorem bytes_octalEscapes (bs : List UInt8) (rest : List Char) :
    bytes (bs.flatMap octalEscape ++ rest) = bs ++ bytes rest := by
  induction bs with
  | nil => rfl
  | cons b bs ih =>
    rw [List.flatMap_cons, List.append_assoc, bytes_octalEscape, ih, List.cons_append]

/-- A character is read back as its own bytes from each of its spellings. -/
theorem Spelling.bytes_append {c : Char} {cs : List Char} (h : Spelling c cs) (rest : List Char) :
    bytes (cs ++ rest) = String.utf8EncodeChar c ++ bytes rest := by
  cases h with
  | plain h => exact bytes_cons_ne h rest
  | named h => exact (bytes_escape _ rest).trans (by rw [readEscape_named h])
  | escaped hletter hdigit =>
    exact (bytes_escape c rest).trans (by rw [readEscape_self hletter hdigit])
  | octal => exact bytes_octalEscapes _ rest

/-! ## Texts -/

theorem Spelled.bytes {text body : List Char} (h : Spelled text body) :
    CString.bytes body = Utf8.encodeChars text := by
  induction h with
  | nil => simp [CString.bytes, Utf8.encodeChars]
  | cons h hrest ih =>
    rw [h.bytes_append, ih, Utf8.encodeChars, Utf8.encodeChars, List.flatMap_cons]

/-- What the writer puts for a character is one of its spellings. -/
theorem spelling_encodeChar (c : Char) : Spelling c (encodeChar c) := by
  unfold encodeChar
  split_ifs with hbackslash hquote hnewline htab hreturn
  · rw [hbackslash]
    exact .escaped (by decide) (by decide)
  · rw [hquote]
    exact .escaped (by decide) (by decide)
  · exact .named (by rw [hnewline]; decide)
  · exact .named (by rw [htab]; decide)
  · exact .named (by rw [hreturn]; decide)
  · exact .plain hbackslash

theorem spelled_encodeChars (text : List Char) : Spelled text (encodeChars text) := by
  induction text with
  | nil => exact .nil
  | cons c text ih => exact .cons (spelling_encodeChar c) ih

/--
Each character of a text may be spelled in any of its ways, whatever stands beside it: the body is
read as the text. What the writer makes of a text is one of these bodies.
-/
theorem decode_of_spelled :
    (∀ text body : String, Spelled text.toList body.toList → decode body = text) ∧
      ∀ text : String, Spelled text.toList (encode text).toList := by
  refine ⟨fun text body h => ?_, fun text => ?_⟩
  · rw [decode, h.bytes, Utf8.decode_encodeChars, String.ofList_toList]
  · rw [encode, String.toList_ofList]
    exact spelled_encodeChars text.toList

/-- All four ways side by side: bytes and then a digit, a name, a backslash, an escaped letter. -/
theorem decode_of_spelled_mixed : Spelled "é7\n\\x".toList "\\303\\2517\\n\\\\\\x".toList ∧
    decode "\\303\\2517\\n\\\\\\x" = "é7\n\\x" := by
  have hname : ('n', '\n') ∈ letterNames := by decide
  have hspelled : Spelled "é7\n\\x".toList "\\303\\2517\\n\\\\\\x".toList :=
    .cons .octal (.cons (.plain (by decide)) (.cons (.named hname)
      (.cons (.escaped (by decide) (by decide)) (.cons (.escaped (by decide) (by decide)) .nil))))
  exact ⟨hspelled, decode_of_spelled.1 _ _ hspelled⟩

end MachineInterface.Text.CString

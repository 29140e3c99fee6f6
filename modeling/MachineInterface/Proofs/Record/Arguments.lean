import MachineInterface.Breakpoint.Basic
import MachineInterface.LogPoint.Template
import MachineInterface.Proofs.Text.CString
import MachineInterface.Record.Reader
import MachineInterface.Session.Command

/-!
# Reading quoted arguments

The arguments of commands are quoted in two ways. Both put a backslash before characters that name no
escape of a constant, so a debugger that reads an argument as a constant finds the text again.

* `body?_flatMap`, `decodeChars_flatMap`: one law for every way of quoting.
* `argument_source`: a place in a file is one argument of the first way.
* `read?_arguments`: the arguments are read back, up to their closing quotes.
-/

namespace MachineInterface

open Text

/-! ## Characters that are read as themselves -/

namespace Text.CString

/-- The characters between quotes are read as the one character. -/
inductive StandsFor (c : Char) : List Char → Prop
  | plain (hb : c ≠ '\\') (hq : c ≠ '"') : StandsFor c [c]
  | escaped (hn : namedEscape? c = none) (ho : octalDigit? c = none) : StandsFor c ['\\', c]

theorem StandsFor.isBody_append {c : Char} {cs rest : List Char} (h : StandsFor c cs)
    (hrest : IsBody rest) : IsBody (cs ++ rest) := by
  cases h with
  | plain hb hq => exact .plain hb hq hrest
  | escaped => exact .escape c hrest

theorem StandsFor.bytes_append {c : Char} {cs : List Char} (h : StandsFor c cs) (rest : List Char) :
    bytes (cs ++ rest) = String.utf8EncodeChar c ++ bytes rest := by
  cases h with
  | plain hb hq => exact bytes_cons_ne hb rest
  | escaped hn ho => simp [bytes, readEscape, hn, ho]

section

variable {f : Char → List Char} (hf : ∀ c, StandsFor c (f c))
include hf

theorem isBody_flatMap (cs : List Char) : IsBody (cs.flatMap f) := by
  induction cs with
  | nil => exact .nil
  | cons c cs ih => exact (hf c).isBody_append ih

theorem bytes_flatMap (cs : List Char) : bytes (cs.flatMap f) = Utf8.encodeChars cs := by
  induction cs with
  | nil => simp [Utf8.encodeChars, bytes]
  | cons c cs ih =>
    rw [List.flatMap_cons, (hf c).bytes_append, ih, Utf8.encodeChars, Utf8.encodeChars,
      List.flatMap_cons]

/-- No character closes the quotes. -/
theorem body?_flatMap (cs rest : List Char) :
    body? (cs.flatMap f ++ '"' :: rest) = some (cs.flatMap f, rest) :=
  body?_append (isBody_flatMap hf cs) rest

/-- No character is altered. -/
theorem decodeChars_flatMap (cs : List Char) : decodeChars (cs.flatMap f) = String.ofList cs := by
  rw [decodeChars, bytes_flatMap hf, Utf8.decode_encodeChars]

/-- Quoted characters are read back, and what follows their quote is left. -/
theorem readConst?_flatMap (cs rest : List Char) :
    Value.readConst? (cs.flatMap f ++ '"' :: rest) = some (.const (String.ofList cs), rest) := by
  rw [Value.readConst?, body?_flatMap hf, Option.map_some, decodeChars_flatMap hf]

end

end Text.CString

/-! ## The two ways of quoting -/

theorem Text.Quote.standsFor_escapeChar (c : Char) : CString.StandsFor c (escapeChar c) := by
  unfold escapeChar
  split
  · rename_i h
    rcases h with rfl | rfl
    · exact .escaped rfl rfl
    · exact .escaped rfl rfl
  · rename_i h
    obtain ⟨hb, hq⟩ := not_or.mp h
    exact .plain hb hq

theorem Command.standsFor_consoleChar (c : Char) : CString.StandsFor c (consoleChar c) := by
  unfold consoleChar
  split
  · rename_i h
    rcases h with rfl | rfl | rfl
    · exact .escaped rfl rfl
    · exact .escaped rfl rfl
    · exact .escaped rfl rfl
  · rename_i h
    obtain ⟨hb, hq⟩ := not_or.mp h
    exact .plain hb (not_or.mp hq).1

theorem Text.Quote.toList_quoted (t : String) :
    (quoted t).toList = '"' :: (t.toList.flatMap escapeChar ++ ['"']) := by
  simp [quoted, escape, escapeChars]

theorem Command.toList_userInput {t : String} (h : t.toList.head? ≠ some '-') (thread level : UInt32) :
    (userInput t thread level).toList =
      ("interpreter-exec " ++ frameOptions thread level ++ "console ").toList
        ++ '"' :: (t.toList.flatMap consoleChar ++ ['"']) := by
  unfold userInput
  split
  · rename_i hdash
    simp [hdash] at h
  · simp

/-! ## What is quoted -/

theorem Text.Quote.escape_append (s t : String) : escape (s ++ t) = escape s ++ escape t := by
  simp [escape, escapeChars_append, String.ofList_append]

theorem Text.Quote.escape_toString (n : Nat) : escape (toString n) = toString n := by
  have hself (c : Char) (hc : c ∈ (toString n).toList) : escapeChar c = [c] := by
    have hdigits : (toString n).toList = Nat.toDigits 10 n := Nat.toList_repr
    have hdigit : c.isDigit = true := Nat.isDigit_of_mem_toDigits (by omega) (by omega) (hdigits ▸ hc)
    rw [escapeChar, if_neg]
    rintro (rfl | rfl)
    · cases hdigit
    · cases hdigit
  rw [escape, escapeChars, List.flatMap_congr hself, List.flatMap_singleton', String.ofList_toList]

/-- A line of a file is quoted as one text. -/
theorem Location.argument_source (file : String) (line : UInt32) :
    (source file line).argument = Quote.quoted (file ++ ":" ++ toString line.toNat) := by
  have hcolon : Quote.escape ":" = ":" := rfl
  rw [Quote.quoted, Quote.escape_append, Quote.escape_append, Quote.escape_toString, hcolon]
  simp [argument, String.append_assoc]

/-! ## Reading arguments -/

theorem read?_quoted (n : Nat) (t : String) (rest : List Char) :
    Value.read? (n + 1) ((Quote.quoted t).toList ++ rest) = some (.const t, rest) := by
  rw [Quote.toList_quoted, List.cons_append, List.append_assoc, List.singleton_append, Value.read?,
    CString.readConst?_flatMap Quote.standsFor_escapeChar, String.ofList_toList]

/--
A quoted text is read back with whatever follows it left over, and so is a line for the console, which
ends its command. A place is quoted as one text.
-/
theorem read?_arguments (n : Nat) (t : String) :
    (∀ rest, Value.read? (n + 1) ((Quote.quoted t).toList ++ rest) = some (.const t, rest)) ∧
      (∀ (line : UInt32) (rest : List Char),
        Value.read? (n + 1) ((Location.source t line).argument.toList ++ rest) =
          some (.const (t ++ ":" ++ toString line.toNat), rest)) ∧
      ∀ thread level : UInt32, t.toList.head? ≠ some '-' →
        ∃ argument,
          (Command.userInput t thread level).toList =
            ("interpreter-exec " ++ Command.frameOptions thread level ++ "console ").toList
              ++ argument ∧
          Value.read? (n + 1) argument = some (.const t, []) := by
  refine ⟨read?_quoted n t, fun line rest => ?_, fun thread level h =>
    ⟨_, Command.toList_userInput h thread level, ?_⟩⟩
  · rw [Location.argument_source]
    exact read?_quoted n _ rest
  · rw [Value.read?, CString.readConst?_flatMap Command.standsFor_consoleChar, String.ofList_toList]

/-- Letters, digits and a quote after backslashes, a backslash at the end and a character of two bytes. -/
theorem read?_arguments_hard :
    "p \"é\\n\\101\\\" '\\".toList.head? ≠ some '-' ∧
      ∃ argument,
        (Command.userInput "p \"é\\n\\101\\\" '\\" 2 1).toList =
          ("interpreter-exec " ++ Command.frameOptions 2 1 ++ "console ").toList ++ argument ∧
        Value.read? 1 argument = some (.const "p \"é\\n\\101\\\" '\\", []) :=
  ⟨by decide +kernel, (read?_arguments 0 "p \"é\\n\\101\\\" '\\").2.2 2 1 (by decide +kernel)⟩

end MachineInterface

import MachineInterface.Text.Numeral

/-!
# Quoted command arguments

A command argument is a bare word or a text in double quotes, in which a backslash stands before
each quote and each backslash.

* `escapeChars_append`: escaping goes character by character.
* `not_mem_escapeChars`: escaping adds no character but the backslash.
-/

namespace MachineInterface.Text.Quote

open Numeral

/-- What stands for a character between double quotes. -/
def escapeChar (c : Char) : List Char :=
  if c = '\\' ∨ c = '"' then ['\\', c] else [c]

/-- A text as it stands between double quotes. -/
def escapeChars (cs : List Char) : List Char := cs.flatMap escapeChar

/-- A text as it stands between double quotes. -/
def escape (s : String) : String := String.ofList (escapeChars s.toList)

/-- A text in double quotes. -/
def quoted (s : String) : String := "\"" ++ escape s ++ "\""

/-- The characters that a bare word may hold. -/
def isPlain (c : Char) : Bool := isAlphanumeric c || c == '_' || c == '/' || c == '-' || c == '.'

/-- Whether a text can stand as a bare word that is no option. -/
def isBareWord (cs : List Char) : Bool := cs.head? != some '-' && cs.all isPlain

/-- A text as one argument, quoted only when it is no bare word. -/
def argument (s : String) : String := if isBareWord s.toList then s else quoted s

theorem escapeChars_append (xs ys : List Char) :
    escapeChars (xs ++ ys) = escapeChars xs ++ escapeChars ys :=
  List.flatMap_append

/-- Escaping adds no character but the backslash. -/
theorem not_mem_escapeChars {c : Char} (hc : c ≠ '\\') {cs : List Char} (h : c ∉ cs) :
    c ∉ escapeChars cs := by
  simp only [escapeChars, List.mem_flatMap, not_exists, not_and]
  intro x hx hmem
  unfold escapeChar at hmem
  split at hmem <;> simp only [List.mem_cons, List.not_mem_nil, or_false] at hmem
  · rcases hmem with rfl | rfl
    · exact hc rfl
    · exact h hx
  · exact h (hmem ▸ hx)

end MachineInterface.Text.Quote

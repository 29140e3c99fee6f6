import MachineInterface.Text.Numeral

/-!
# Strings of JSON

A text between double quotes, as JSON writes it.

* `not_mem_encodeChars`: no control character is left, so that a text stays on its line.
-/

namespace MachineInterface.Text.JsonString

/-- What stands for a character. -/
def encodeChar (c : Char) : List Char :=
  if c = '"' ∨ c = '\\' then ['\\', c]
  else if c = '\n' then ['\\', 'n']
  else if c = '\r' then ['\\', 'r']
  else if c = '\t' then ['\\', 't']
  else if c.toNat = 8 then ['\\', 'b']
  else if c.toNat = 12 then ['\\', 'f']
  else if c.toNat < 32 then '\\' :: 'u' :: Numeral.hexPadded 4 c.toNat
  else [c]

/-- A text as it stands between the quotes. -/
def encodeChars (cs : List Char) : List Char := cs.flatMap encodeChar

/-- A text between quotes. -/
def encode (s : String) : String := "\"" ++ String.ofList (encodeChars s.toList) ++ "\""

theorem digitChar_printable : ∀ n < 16, 32 ≤ (Nat.digitChar n).toNat := by decide

/-- A hexadecimal digit is printable. -/
theorem hexPadded_printable (width n : Nat) : ∀ c ∈ Numeral.hexPadded width n, 32 ≤ c.toNat :=
  Numeral.forall_mem_hexPadded digitChar_printable width n

/-- What stands for a character is printable. -/
theorem encodeChar_printable (c : Char) : ∀ d ∈ encodeChar c, 32 ≤ d.toNat := by
  intro d hd
  unfold encodeChar at hd
  repeat' split at hd
  all_goals simp only [List.mem_cons, List.not_mem_nil, or_false] at hd
  · rename_i h
    rcases h with rfl | rfl <;> rcases hd with rfl | rfl <;> decide
  iterate 5 rcases hd with rfl | rfl <;> decide
  · rcases hd with rfl | rfl | hd
    · decide
    · decide
    · exact hexPadded_printable 4 c.toNat d hd
  · subst hd
    omega

/-- No control character is left, so that a text stays on its line. -/
theorem not_mem_encodeChars {c : Char} (hc : c.toNat < 32) (cs : List Char) :
    c ∉ encodeChars cs := by
  intro h
  obtain ⟨d, _, hd⟩ := List.mem_flatMap.1 h
  have := encodeChar_printable d c hd
  omega

end MachineInterface.Text.JsonString

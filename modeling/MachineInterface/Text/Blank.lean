/-!
# Blank characters

Trimming and word splitting by the Unicode property `White_Space`.

* `words_append_blank`: a blank between two texts separates their words.
* `isBlank_of_isWhitespace`: every blank that the core library knows is a blank here.
-/

namespace MachineInterface.Text

/-- The code points of `White_Space`, in order. -/
def blankCodePoints : List Nat :=
  [0x09, 0x0A, 0x0B, 0x0C, 0x0D, 0x20, 0x85, 0xA0, 0x1680, 0x2000, 0x2001, 0x2002, 0x2003, 0x2004,
    0x2005, 0x2006, 0x2007, 0x2008, 0x2009, 0x200A, 0x2028, 0x2029, 0x202F, 0x205F, 0x3000]

/-- Whether a character has the property `White_Space`. -/
def isBlank (c : Char) : Bool := blankCodePoints.contains c.toNat

theorem isBlank_of_isWhitespace {c : Char} (h : c.isWhitespace = true) : isBlank c = true := by
  simp only [Char.isWhitespace, Bool.or_eq_true, decide_eq_true_eq] at h
  rcases h with ((h | h) | h) | h <;> subst h <;> decide

/-! ## Trimming -/

/-- The text after its leading blanks. -/
def dropBlanks (cs : List Char) : List Char := cs.dropWhile isBlank

/-- The text before its trailing blanks. -/
def dropTrailingBlanks (cs : List Char) : List Char := (cs.reverse.dropWhile isBlank).reverse

/-- The text without its outer blanks. -/
def trimChars (cs : List Char) : List Char := dropTrailingBlanks (dropBlanks cs)

/-- The text without its outer blanks. -/
def trim (s : String) : String := String.ofList (trimChars s.toList)

/-! ## Words -/

/-- The maximal runs of characters that are not blank. -/
def charWords (cs : List Char) : List (List Char) := (cs.splitOnP isBlank).filter (!·.isEmpty)

/-- The maximal runs of characters that are not blank. -/
def words (s : String) : List String := (charWords s.toList).map String.ofList

/-- The first word of a text. -/
def firstWord? (s : String) : Option String := (words s).head?

theorem charWords_append_blank {b : Char} (hb : isBlank b = true) (xs ys : List Char) :
    charWords (xs ++ b :: ys) = charWords xs ++ charWords ys := by
  rw [charWords, List.splitOnP_append_cons xs ys hb, List.filter_append]
  rfl

/-- A text without blanks is a single word. -/
theorem charWords_of_unblank {cs : List Char} (hne : cs ≠ []) (h : ∀ c ∈ cs, isBlank c = false) :
    charWords cs = [cs] := by
  rw [charWords, List.splitOnP_eq_singleton h]
  simp [hne]

/-- Blanks in front of a text are in none of its words. -/
theorem charWords_blanks_append {blanks : List Char} (h : ∀ b ∈ blanks, isBlank b = true)
    (cs : List Char) : charWords (blanks ++ cs) = charWords cs := by
  induction blanks with
  | nil => rfl
  | cons b blanks ih =>
    obtain ⟨hb, hblanks⟩ := List.forall_mem_cons.mp h
    exact (charWords_append_blank hb [] (blanks ++ cs)).trans (ih hblanks)

/-- A blank between two texts separates their words. -/
theorem words_append_blank {b : Char} (hb : isBlank b = true) (s t : String) :
    words (s ++ String.ofList [b] ++ t) = words s ++ words t := by
  simp only [words, String.toList_append, String.toList_ofList, List.append_assoc,
    List.singleton_append, charWords_append_blank hb, List.map_append]

end MachineInterface.Text

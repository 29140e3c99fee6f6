import MachineInterface.LogPoint.Template
import Mathlib.Data.List.TakeWhile

/-!
# Filling a log message

Which value stands where in a filled message, and which lines print a value.

* `fillChars_eq_filled`: the k-th marker gives way to the k-th value.
* `printedValue?_eq_some_iff`: a value is what follows a dollar sign, digits and an equals sign.
-/

namespace MachineInterface.LogTemplate

open Text

/-- What is shown for a marker. -/
def shownValue (value : Option String) : List Char := (value.map String.toList).getD [marker]

/--
A text with values for its markers: a marker is as many places into the values as there are markers
before it.
-/
def filled (text : List Char) (values : List (Option String)) : List Char :=
  (text.mapIdx fun i c =>
    if c = marker then shownValue (values[(text.take i).count marker]?).join else [c]).flatten

theorem filled_cons_of_ne {c : Char} (h : c ≠ marker) (cs : List Char)
    (values : List (Option String)) : filled (c :: cs) values = c :: filled cs values := by
  simp [filled, List.mapIdx_cons, h]

theorem filled_marker_cons (cs : List Char) (value : Option String) (values : List (Option String)) :
    filled (marker :: cs) (value :: values) = shownValue value ++ filled cs values := by
  simp [filled, List.mapIdx_cons]

theorem filled_marker_nil (cs : List Char) :
    filled (marker :: cs) [] = marker :: filled cs [] := by
  simp [filled, List.mapIdx_cons, shownValue]

/-- The k-th marker gives way to the k-th value, and stays where there is none. -/
theorem fillChars_eq_filled (cs : List Char) (values : List (Option String)) :
    fillChars cs values = filled cs values := by
  induction cs generalizing values with
  | nil => rfl
  | cons c cs ih =>
    by_cases hc : c = marker
    · subst hc
      cases values with
      | nil => simp [fillChars, filled_marker_nil, ih]
      | cons value values =>
        rw [filled_marker_cons]
        cases value <;> simp [fillChars, shownValue, ih]
    · simp [fillChars, filled_cons_of_ne hc, hc, ih]

/-! ## Printed values -/

/-- A line prints a value: a dollar sign, digits, blanks and an equals sign stand before it. -/
def PrintsValue (line value : String) : Prop := ∃ digits spaces rest,
  (∀ c ∈ digits, '0' ≤ c ∧ c ≤ '9') ∧ (∀ c ∈ spaces, c = ' ') ∧
    dropTrailingBlanks line.toList = '$' :: (digits ++ (spaces ++ '=' :: rest)) ∧
    value = String.ofList (trimChars (rest.takeWhile (· != '\n')))

theorem printedValue?_eq_some_iff {line value : String} :
    printedValue? line = some value ↔ PrintsValue line value := by
  unfold printedValue?
  constructor
  · intro h
    split at h
    · rename_i cs hline
      split at h
      · rename_i rest hrest
        cases h
        refine ⟨cs.takeWhile Numeral.isDigit,
          (cs.dropWhile Numeral.isDigit).takeWhile (· == ' '), rest, ?_, ?_, ?_, rfl⟩
        · intro c hc
          simpa [Numeral.isDigit] using List.mem_takeWhile_imp hc
        · intro c hc
          simpa using List.mem_takeWhile_imp hc
        · rw [hline, ← hrest, List.takeWhile_append_dropWhile, List.takeWhile_append_dropWhile]
      · cases h
    · cases h
  · rintro ⟨digits, spaces, rest, hdigits, hspaces, hline, rfl⟩
    have hall : ∀ c ∈ digits, Numeral.isDigit c = true := fun c hc => by
      simpa [Numeral.isDigit] using hdigits c hc
    have hspace : ∀ c ∈ spaces, (c == ' ') = true := fun c hc => by simpa using hspaces c hc
    have hdigitless : (spaces ++ '=' :: rest).dropWhile Numeral.isDigit = spaces ++ '=' :: rest := by
      cases spaces with
      | nil => rfl
      | cons c spaces =>
        obtain rfl := hspaces c List.mem_cons_self
        rfl
    have hcut : ((digits ++ (spaces ++ '=' :: rest)).dropWhile Numeral.isDigit).dropWhile (· == ' ') =
        '=' :: rest := by
      rw [List.dropWhile_append_of_pos hall, hdigitless, List.dropWhile_append_of_pos hspace]
      rfl
    simp only [hline, hcut]

end MachineInterface.LogTemplate

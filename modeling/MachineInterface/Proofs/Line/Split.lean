import MachineInterface.Line.Buffer

/-!
# Splitting bytes into lines

* `split_append_of_not_mem`: bytes without a newline only lengthen the line that follows.
* `split_line`: a line with its newline is a piece of its own.
* `exists_split_rest`: the rest follows the last newline.
* `length_lines`: there are as many lines as newlines.
-/

namespace MachineInterface.LineBuffer

variable {xs : List UInt8}

theorem split_cons_newline (zs : List UInt8) :
    split (newline :: zs) = ([] :: (split zs).1, (split zs).2) := by
  simp [split]

/-- Bytes without a newline only lengthen the line that follows. -/
theorem split_append_of_not_mem (h : newline ∉ xs) (zs : List UInt8) :
    split (xs ++ zs) = match (split zs).1 with
      | [] => ([], xs ++ (split zs).2)
      | piece :: pieces => ((xs ++ piece) :: pieces, (split zs).2) := by
  induction xs with
  | nil => cases hz : (split zs).1 <;> simp [← hz]
  | cons b xs ih =>
    obtain ⟨hb, hxs⟩ := not_or.mp (mt List.mem_cons.mpr h)
    rw [List.cons_append, split, ih hxs]
    cases hz : (split zs).1 <;> simp [Ne.symm hb]

theorem split_of_not_mem (h : newline ∉ xs) : split xs = ([], xs) := by
  simpa [split] using split_append_of_not_mem h []

/-- A line with its newline is a piece of its own. -/
theorem split_line (h : newline ∉ xs) (zs : List UInt8) :
    split (xs ++ newline :: zs) = (xs :: (split zs).1, (split zs).2) := by
  simp [split_append_of_not_mem h, split_cons_newline]

/-- Bytes without a newline are one line that is not ended; others start with a line. -/
theorem not_mem_or_exists_line (zs : List UInt8) :
    newline ∉ zs ∨ ∃ line rest, zs = line ++ newline :: rest ∧ newline ∉ line := by
  by_cases h : newline ∈ zs
  · obtain ⟨line, rest, rfl, hline⟩ := List.eq_append_cons_of_mem h
    exact .inr ⟨line, rest, rfl, hline⟩
  · exact .inl h

/-- Where a line can start: at the start of the bytes or after a newline. -/
def EndsLine (xs : List UInt8) : Prop := xs = [] ∨ xs.getLast? = some newline

theorem EndsLine.append {ys : List UInt8} (hx : EndsLine xs) (hy : EndsLine ys) :
    EndsLine (xs ++ ys) := by
  rcases hy with rfl | hy
  · rwa [List.append_nil]
  · exact .inr (by rw [List.getLast?_append, hy]; rfl)

theorem endsLine_concat (xs : List UInt8) : EndsLine (xs ++ [newline]) := .inr (by simp)

/-- The rest follows the last newline and holds none. -/
theorem exists_split_rest (zs : List UInt8) :
    ∃ done, zs = done ++ (split zs).2 ∧ EndsLine done ∧ newline ∉ (split zs).2 := by
  generalize hn : zs.length = n
  induction n using Nat.strongRecOn generalizing zs with
  | ind n ih =>
    rcases not_mem_or_exists_line zs with hz | ⟨line, rest, rfl, hline⟩
    · exact ⟨[], by simp [split_of_not_mem hz], .inl rfl, by simpa [split_of_not_mem hz] using hz⟩
    · rw [split_line hline]
      have hlen : rest.length < n := by
        simp only [List.length_append, List.length_cons] at hn
        omega
      obtain ⟨done, hrest, hdone, hnot⟩ := ih rest.length hlen rest rfl
      refine ⟨(line ++ [newline]) ++ done, ?_, (endsLine_concat line).append hdone, hnot⟩
      simp [← hrest]

/-- Bytes that end with a newline leave no rest. -/
theorem split_of_endsLine (h : EndsLine xs) : (split xs).2 = [] := by
  obtain ⟨done, hxs, -, hnot⟩ := exists_split_rest xs
  rcases (split xs).2.eq_nil_or_concat with hrest | ⟨start, last, hlast⟩
  · exact hrest
  · rw [hlast] at hxs hnot
    rcases h with rfl | h
    · simp at hxs
    · obtain rfl : last = newline := by simpa [hxs] using h
      simp at hnot

/-! ## How many lines -/

theorem length_split (bytes : List UInt8) : (split bytes).1.length = bytes.count newline := by
  induction bytes with
  | nil => rfl
  | cons b bytes ih =>
    rw [split, List.count_cons, ← ih]
    by_cases hb : b = newline
    · simp [hb]
    · cases hsplit : (split bytes).1 with
      | nil => simp [hb, hsplit]
      | cons piece pieces => simp [hb, hsplit]

/-- There are as many lines as newlines. -/
theorem length_lines (bytes : List UInt8) :
    (push {} bytes).1.length = bytes.count newline := by
  rw [← length_split]
  exact List.length_map _

end MachineInterface.LineBuffer

/-!
# Cutting a text

The parts of a text around a separator or a fixed piece, or at a number of bytes.

* `cut?_eq_some_iff`: a cut gives the text before the first separator and the text after it.
* `takeBytes?_append`, `dropBytes?_append`: a cut at the size of the first part gives both parts.
-/

namespace MachineInterface.Text

/-- The text before the first `sep` and the text after it. -/
def cut? (sep : Char) : List Char → Option (List Char × List Char)
  | [] => none
  | c :: cs => if c = sep then some ([], cs) else (cut? sep cs).map fun p => (c :: p.1, p.2)

/-- A cut gives the text before the first separator and the text after it. -/
theorem cut?_eq_some_iff {sep : Char} {cs before after : List Char} :
    cut? sep cs = some (before, after) ↔ sep ∉ before ∧ cs = before ++ sep :: after := by
  induction cs generalizing before with
  | nil => simp [cut?]
  | cons c cs ih =>
    by_cases h : c = sep
    · subst h
      cases before with
      | nil => simp [cut?, eq_comm]
      | cons b before =>
        simp only [cut?, if_true, Option.some.injEq, Prod.mk.injEq, List.nil_eq, reduceCtorEq,
          false_and, List.mem_cons, not_or, List.cons_append, List.cons.injEq, false_iff, not_and]
        intro hb hc
        exact absurd hc hb.1
    · cases before with
      | nil => simp [cut?, h]
      | cons b before =>
        simp only [cut?, h, if_false, Option.map_eq_some_iff, Prod.exists, Prod.mk.injEq,
          List.cons.injEq, List.mem_cons, not_or, List.cons_append]
        constructor
        · rintro ⟨x, y, hxy, ⟨rfl, rfl⟩, rfl⟩
          obtain ⟨hx, rfl⟩ := ih.1 hxy
          exact ⟨⟨fun e => h e.symm, hx⟩, rfl, rfl⟩
        · rintro ⟨⟨_, hx⟩, rfl, rfl⟩
          exact ⟨before, after, ih.2 ⟨hx, rfl⟩, ⟨rfl, rfl⟩, rfl⟩

theorem length_lt_of_cut? {sep : Char} {cs before after : List Char}
    (h : cut? sep cs = some (before, after)) : after.length < cs.length := by
  obtain ⟨_, rfl⟩ := cut?_eq_some_iff.1 h
  simp only [List.length_append, List.length_cons]
  omega

/-- The text after the first place where `piece` stands. -/
def afterFirst? (piece : List Char) : List Char → Option (List Char)
  | [] => piece.isPrefixOf? []
  | c :: cs => (piece.isPrefixOf? (c :: cs)).or (afterFirst? piece cs)

/-! ## Sizes in bytes -/

/-- How many bytes a text takes in UTF-8. -/
def byteSize : List Char → Nat
  | [] => 0
  | c :: cs => c.utf8Size + byteSize cs

/-- The first bytes of a text; none when they end inside a character. -/
def takeBytes? : Nat → List Char → Option (List Char)
  | 0, _ => some []
  | _ + 1, [] => none
  | n + 1, c :: cs =>
    if c.utf8Size ≤ n + 1 then (takeBytes? (n + 1 - c.utf8Size) cs).map (c :: ·) else none

/-- The text after its first bytes; none when they end inside a character. -/
def dropBytes? : Nat → List Char → Option (List Char)
  | 0, cs => some cs
  | _ + 1, [] => none
  | n + 1, c :: cs => if c.utf8Size ≤ n + 1 then dropBytes? (n + 1 - c.utf8Size) cs else none

theorem byteSize_cons_eq (c : Char) (cs : List Char) :
    ∃ n, byteSize (c :: cs) = n + 1 ∧ c.utf8Size ≤ n + 1 ∧ n + 1 - c.utf8Size = byteSize cs := by
  have := c.utf8Size_pos
  exact ⟨c.utf8Size + byteSize cs - 1, by rw [byteSize]; omega, by omega, by omega⟩

/-- A cut at the size of the first part gives this part. -/
theorem takeBytes?_append (xs ys : List Char) :
    takeBytes? (byteSize xs) (xs ++ ys) = some xs := by
  induction xs with
  | nil => simp [byteSize, takeBytes?]
  | cons c xs ih =>
    obtain ⟨n, hn, hle, hsub⟩ := byteSize_cons_eq c xs
    rw [hn, List.cons_append, takeBytes?, if_pos hle, hsub, ih]
    rfl

/-- A cut at the size of the first part leaves the second part. -/
theorem dropBytes?_append (xs ys : List Char) :
    dropBytes? (byteSize xs) (xs ++ ys) = some ys := by
  induction xs with
  | nil => simp [byteSize, dropBytes?]
  | cons c xs ih =>
    obtain ⟨n, hn, hle, hsub⟩ := byteSize_cons_eq c xs
    rw [hn, List.cons_append, dropBytes?, if_pos hle, hsub, ih]

end MachineInterface.Text

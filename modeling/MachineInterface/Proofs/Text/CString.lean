import MachineInterface.Proofs.Text.Encoded
import MachineInterface.Text.CString

/-!
# The body of a quoted constant

A body is a run of escapes, each a backslash and a character, and of characters that are neither a
backslash nor a quote.

* `body?_eq_some_iff`: the reader finds the body before the first quote that no backslash escapes.
* `isBody_encodeChars`, `decodeChars_encodeChars`: an encoded text is a body and stands for the text.
-/

namespace MachineInterface.Text.CString

/-- What may stand between the quotes of a constant. -/
inductive IsBody : List Char → Prop
  | nil : IsBody []
  | escape (c : Char) {cs : List Char} (h : IsBody cs) : IsBody ('\\' :: c :: cs)
  | plain {c : Char} {cs : List Char} (hb : c ≠ '\\') (hq : c ≠ '"') (h : IsBody cs) :
      IsBody (c :: cs)

theorem body?_cons {c : Char} (hb : c ≠ '\\') (hq : c ≠ '"') (cs : List Char) :
    body? (c :: cs) = (body? cs).map fun p => (c :: p.1, p.2) := by
  cases cs with
  | nil => simp [body?, hb]
  | cons d cs => simp [body?, hb]

theorem body?_append {body : List Char} (h : IsBody body) (rest : List Char) :
    body? (body ++ '"' :: rest) = some (body, rest) := by
  induction h with
  | nil => rfl
  | escape c h ih => simp [body?, ih]
  | plain hb hq h ih => rw [List.cons_append, body?_cons hb hq, ih, Option.map_some]

theorem isBody_of_body? {cs body rest : List Char} (h : body? cs = some (body, rest)) :
    IsBody body ∧ cs = body ++ '"' :: rest := by
  fun_induction body? cs generalizing body with
  | case1 c cs ih =>
    obtain ⟨p, hp, heq⟩ := Option.map_eq_some_iff.mp h
    obtain ⟨rfl, rfl⟩ := Prod.mk.inj heq
    obtain ⟨hbody, rfl⟩ := ih hp
    exact ⟨.escape c hbody, rfl⟩
  | case2 => cases h
  | case3 cs =>
    cases h
    exact ⟨.nil, rfl⟩
  | case4 c cs hesc hend hq ih =>
    obtain ⟨p, hp, heq⟩ := Option.map_eq_some_iff.mp h
    obtain ⟨rfl, rfl⟩ := Prod.mk.inj heq
    obtain ⟨hbody, rfl⟩ := ih hp
    have hb : c ≠ '\\' := by
      intro hc
      cases hcs : p.1 ++ '"' :: p.2 with
      | nil => exact hend hc hcs
      | cons d ds => exact hesc d ds hc hcs
    exact ⟨.plain hb hq hbody, rfl⟩
  | case5 => cases h

/-- The reader finds the body before the first quote that no backslash escapes. -/
theorem body?_eq_some_iff {cs body rest : List Char} :
    body? cs = some (body, rest) ↔ IsBody body ∧ cs = body ++ '"' :: rest := by
  constructor
  · exact isBody_of_body?
  · rintro ⟨h, rfl⟩
    exact body?_append h rest

/-! ## Encoded texts -/

theorem isBody_encodeChar_append (c : Char) {cs : List Char} (h : IsBody cs) :
    IsBody (encodeChar c ++ cs) := by
  unfold encodeChar
  split_ifs with hb hq
  iterate 5 exact .escape _ h
  exact .plain hb hq h

/-- An encoded text is a body. -/
theorem isBody_encodeChars (cs : List Char) : IsBody (encodeChars cs) := by
  induction cs with
  | nil => exact .nil
  | cons c cs ih => exact isBody_encodeChar_append c ih

/-- An encoded text stands for the text. -/
theorem decodeChars_encodeChars (cs : List Char) : decodeChars (encodeChars cs) = String.ofList cs := by
  rw [decodeChars, bytes_encodeChars, Utf8.decode_encodeChars]

end MachineInterface.Text.CString

import MachineInterface.Text.Utf8
import Mathlib.Data.List.Basic

/-!
# Reading UTF-8 in two parts

A byte sequence can be cut in two without changing what is read, if no character is cut: the first
part is valid, or the second part does not start with a byte that continues a character.

* `scan_append`: both parts are read on their own.
* `decode_append_of_valid`, `decode_append_of_noTail`: the two cases for texts.
-/

namespace MachineInterface.Text.Utf8

/-- Reading does not go on from a first part into a second one. -/
def NoTail (ys : List UInt8) : Prop := ∀ b ∈ ys.head?, isTail b = false

theorem isTail_of_isSecond {lead second : UInt8} (h : isSecond lead second = true) :
    isTail second = true := by
  unfold isSecond at h
  simp only [isTail, Bool.and_eq_true, decide_eq_true_eq, UInt8.le_iff_toNat_le] at h ⊢
  split_ifs at h <;> simp_all <;> omega

theorem tailCount?_cases (lead : UInt8) :
    tailCount? lead = some 0 ∨ tailCount? lead = some 1 ∨ tailCount? lead = some 2 ∨
      tailCount? lead = some 3 ∨ tailCount? lead = none := by
  unfold tailCount?
  split_ifs <;> simp

/--
A character is read the same way whatever follows it, and so is a part of one if nothing follows that
continues it.
-/
theorem step_append {lead : UInt8} {rest ys : List UInt8}
    (h : (step lead rest).1.isSome = true ∨ NoTail ys) :
    step lead (rest ++ ys) = ((step lead rest).1, (step lead rest).2 ++ ys) := by
  rcases ys with _ | ⟨y, ys⟩
  · simp
  -- What follows matters only where the first part ends inside a character.
  have hstop : (step lead rest).1 = none → isTail y = false ∧ isSecond lead y = false := by
    intro hnone
    have hy : isTail y = false := h.resolve_left (by simp [hnone]) y rfl
    refine ⟨hy, ?_⟩
    by_contra hs
    rw [isTail_of_isSecond (by simpa using hs)] at hy
    cases hy
  rcases tailCount?_cases lead with hc | hc | hc | hc | hc
  · simp [step, hc]
  · rcases rest with _ | ⟨b, rest⟩
    · have hy := hstop (by simp [step, hc])
      simp [step, hc, hy]
    · by_cases hb : isTail b = true <;> simp [step, hc, hb]
  · rcases rest with _ | ⟨b, _ | ⟨c, rest⟩⟩
    · have hy := hstop (by simp [step, hc])
      simp [step, hc, hy]
    · have hy := hstop (by by_cases hb : isSecond lead b = true <;> simp [step, hc, hb])
      by_cases hb : isSecond lead b = true <;> simp [step, hc, hb, hy]
    · by_cases hb : isSecond lead b = true <;> by_cases hc' : isTail c = true <;>
        simp [step, hc, hb, hc']
  · rcases rest with _ | ⟨b, _ | ⟨c, _ | ⟨d, rest⟩⟩⟩
    · have hy := hstop (by simp [step, hc])
      simp [step, hc, hy]
    · have hy := hstop (by by_cases hb : isSecond lead b = true <;> simp [step, hc, hb])
      by_cases hb : isSecond lead b = true <;> simp [step, hc, hb, hy]
    · have hy := hstop (by
        by_cases hb : isSecond lead b = true <;> by_cases hc' : isTail c = true <;>
          simp [step, hc, hb, hc'])
      by_cases hb : isSecond lead b = true <;> by_cases hc' : isTail c = true <;>
        simp [step, hc, hb, hc', hy]
    · by_cases hb : isSecond lead b = true <;> by_cases hc' : isTail c = true <;>
        by_cases hd : isTail d = true <;> simp [step, hc, hb, hc', hd]
  · simp [step, hc]

theorem scan_cons (lead : UInt8) (rest : List UInt8) :
    scan (lead :: rest) = (step lead rest).1 :: scan (step lead rest).2 := by
  rw [scan]

/-- Two parts are read on their own, if the first is valid or the second goes on with nothing. -/
theorem scan_append {xs ys : List UInt8} (h : (∀ c ∈ scan xs, c.isSome = true) ∨ NoTail ys) :
    scan (xs ++ ys) = scan xs ++ scan ys := by
  fun_induction scan xs with
  | case1 => rfl
  | case2 lead rest ih =>
    have hstep : step lead (rest ++ ys) = ((step lead rest).1, (step lead rest).2 ++ ys) :=
      step_append (h.imp_left fun h => h _ List.mem_cons_self)
    have hrest : (∀ c ∈ scan (step lead rest).2, c.isSome = true) ∨ NoTail ys :=
      h.imp_left fun h c hc => h c (List.mem_cons_of_mem _ hc)
    rw [List.cons_append, scan_cons, hstep, ih hrest, List.cons_append]

/-! ## Texts -/

theorem mapM_id_eq_some_iff {cs : List (Option Char)} {text : List Char} :
    cs.mapM id = some text ↔ cs = text.map some := by
  induction cs generalizing text with
  | nil => cases text <;> simp
  | cons c cs ih =>
    cases c with
    | none => cases text <;> simp
    | some c =>
      rw [List.mapM_cons]
      cases text with
      | nil => simp [Option.bind_eq_some_iff]
      | cons d text =>
        simp only [id, Option.pure_def, Option.bind_eq_bind, Option.bind_some,
          Option.bind_eq_some_iff, Option.some.injEq, List.cons.injEq, List.map_cons, ih]
        exact ⟨fun ⟨_, h, hd, ht⟩ => ⟨hd, ht ▸ h⟩, fun ⟨hd, h⟩ => ⟨text, h, hd, rfl⟩⟩

/-- A byte sequence is valid if each character of it can be read. -/
theorem decode?_eq_some_iff {xs : List UInt8} {text : String} :
    decode? xs = some text ↔ (∀ c ∈ scan xs, c.isSome = true) ∧ decode xs = text := by
  simp only [decode?, Option.map_eq_some_iff, mapM_id_eq_some_iff]
  constructor
  · rintro ⟨cs, hcs, rfl⟩
    refine ⟨by simp [hcs], ?_⟩
    simp [decode, decodeChars, hcs, Function.comp_def]
  · rintro ⟨hvalid, rfl⟩
    refine ⟨decodeChars xs, ?_, rfl⟩
    rw [decodeChars, List.map_map, List.map_congr_left (g := id), List.map_id]
    intro c hc
    obtain ⟨c, rfl⟩ := Option.isSome_iff_exists.mp (hvalid c hc)
    rfl

/-- After a valid part, what follows is read on its own. -/
theorem decode_append_of_valid {xs ys : List UInt8} {text : String} (h : decode? xs = some text) :
    decode (xs ++ ys) = text ++ decode ys := by
  obtain ⟨hvalid, rfl⟩ := decode?_eq_some_iff.mp h
  simp [decode, decodeChars, scan_append (.inl hvalid)]

/-- What does not go on with the character before it is read on its own. -/
theorem decode_append_of_noTail {xs ys : List UInt8} (h : NoTail ys) :
    decode (xs ++ ys) = decode xs ++ decode ys := by
  simp [decode, decodeChars, scan_append (.inr h)]

theorem decode?_append {xs ys : List UInt8} {text text' : String} (h : decode? xs = some text)
    (h' : decode? ys = some text') : decode? (xs ++ ys) = some (text ++ text') := by
  obtain ⟨hvalid, -⟩ := decode?_eq_some_iff.mp h
  obtain ⟨hvalid', rfl⟩ := decode?_eq_some_iff.mp h'
  refine decode?_eq_some_iff.mpr ⟨?_, decode_append_of_valid h⟩
  rw [scan_append (.inl hvalid)]
  intro c hc
  exact (List.mem_append.mp hc).elim (hvalid c) (hvalid' c)

end MachineInterface.Text.Utf8

import MachineInterface.Proofs.Text.Digits
import MachineInterface.Thread
import Mathlib.Algebra.Group.Int.Defs
import Mathlib.Algebra.Group.Nat.Defs
import Mathlib.Data.List.Basic

/-!
# Numbers of threads

The debugger names a thread in several shapes, which overlap and are tried in order. A shape whose
number is zero, too large or missing is passed over, so that a later one can give the number.

* `leadingInt?_eq_some_iff`: the number at the start of a text, when it fits in 64 bits.
* `leadingInt?_append`: what stands after the number is not read.
* `ofChars?_thread`, `ofChars?_process`, `ofChars?_lwp`: what is read after each word.
* `number_of_shape`: each shape gives its number, and no text gives zero.
-/

namespace MachineInterface

open Text

namespace Text

/-- Where `piece` stands in a text: after `before`. -/
def StandsAfter (piece text before : List Char) : Prop := before ++ piece <+: text

/-- A text in which `piece` stands at one place only. -/
def OccursOnce (piece text : List Char) : Prop := ∃! before, StandsAfter piece text before

/-- A piece occurs once where its first character does. -/
theorem occursOnce_of_not_mem {c : Char} {piece before rest : List Char} (hbefore : c ∉ before)
    (hrest : c ∉ piece ++ rest) : OccursOnce (c :: piece) (before ++ (c :: piece ++ rest)) := by
  refine ⟨before, ⟨rest, by rw [List.append_assoc]⟩, ?_⟩
  rintro other ⟨after, hafter⟩
  rw [List.append_assoc, List.cons_append, List.cons_append] at hafter
  exact ((List.append_cons_inj_of_notMem hbefore hrest).mp hafter.symm).1.symm

/-- The place that is found has no other in front of it. -/
theorem afterFirst?_append {piece before rest : List Char}
    (hfirst : ∀ other, StandsAfter piece (before ++ (piece ++ rest)) other →
      before.length ≤ other.length) :
    afterFirst? piece (before ++ (piece ++ rest)) = some rest := by
  induction before with
  | nil =>
    have hprefix : piece.isPrefixOf? (piece ++ rest) = some rest :=
      List.isPrefixOf?_eq_some_iff_append_eq.mpr rfl
    rw [List.nil_append]
    cases htext : piece ++ rest with
    | nil => rw [afterFirst?, ← htext, hprefix]
    | cons c cs => rw [afterFirst?, ← htext, hprefix, Option.some_or]
  | cons c before ih =>
    have hnone : piece.isPrefixOf? (c :: (before ++ (piece ++ rest))) = none := by
      rw [Option.eq_none_iff_forall_ne_some]
      intro after hafter
      have htext := List.isPrefixOf?_eq_some_iff_append_eq.mp hafter
      have hlength := hfirst [] ⟨after, by rw [List.nil_append, htext, List.cons_append]⟩
      rw [List.length_cons, List.length_nil] at hlength
      omega
    rw [List.cons_append, afterFirst?, hnone, Option.none_or]
    refine ih fun other hother => ?_
    have hlonger := hfirst (c :: other) (List.cons_prefix_cons.mpr ⟨rfl, hother⟩)
    rw [List.length_cons, List.length_cons] at hlonger
    omega

theorem OccursOnce.afterFirst? {piece before rest : List Char}
    (h : OccursOnce piece (before ++ (piece ++ rest))) :
    afterFirst? piece (before ++ (piece ++ rest)) = some rest := by
  have hbefore : StandsAfter piece (before ++ (piece ++ rest)) before :=
    ⟨rest, List.append_assoc before piece rest⟩
  exact afterFirst?_append fun other hother =>
    Nat.le_of_eq (congrArg List.length (h.unique hbefore hother))

end Text

namespace ThreadId

open Numeral

variable {cs digits rest : List Char} {n : Int} {m : Nat}

/-! ## Numbers at the start -/

/-- A text that starts with a number, after blanks and a sign; no other digit follows. -/
def Opens (cs : List Char) (n : Int) : Prop :=
  ∃ blanks sign digits rest, ∃ m : Nat, cs = blanks ++ (sign ++ (digits ++ rest)) ∧
    (∀ b ∈ blanks, isBlank b = true) ∧ Spells 10 m digits ∧
    (∀ c ∈ rest.head?, isDigit c = false) ∧
    ((sign = [] ∨ sign = ['+']) ∧ n = m ∨ sign = ['-'] ∧ n = -m)

/-- No number can start with this character. -/
def Bars (c : Char) : Prop := c ≠ '-' ∧ c ≠ '+' ∧ isDigit c = false

/-- The digits at the start of a text, read as a number. -/
def magnitude? (cs : List Char) : Option Nat :=
  readNat? 10 0x8000000000000000 (cs.takeWhile isDigit)

theorem takeWhile_of_head {p : Char → Bool} (h : ∀ c ∈ cs.head?, p c = false) :
    cs.takeWhile p = [] := by
  cases cs with
  | nil => rfl
  | cons c cs => rw [List.takeWhile_cons, h c rfl, if_neg Bool.false_ne_true]

theorem takeWhile_digits (hdigits : Spells 10 m digits)
    (hrest : ∀ c ∈ rest.head?, isDigit c = false) :
    (digits ++ rest).takeWhile isDigit = digits := by
  rw [List.takeWhile_append_of_pos hdigits.isDigit, takeWhile_of_head hrest,
    List.append_nil]

/-- The digits at the start end at the first other character. -/
theorem magnitude?_digits (hdigits : Spells 10 m digits)
    (hrest : ∀ c ∈ rest.head?, isDigit c = false) (hm : m < 0x8000000000000000) :
    magnitude? (digits ++ rest) = some m := by
  rw [magnitude?, takeWhile_digits hdigits hrest,
    readNat?_of_value? (hdigits.value? (by omega) (by omega)) hm]

theorem magnitude?_eq_some (h : magnitude? cs = some m) :
    ∃ digits rest, cs = digits ++ rest ∧ Spells 10 m digits ∧
      (∀ c ∈ rest.head?, isDigit c = false) ∧ m < 0x8000000000000000 := by
  have hunsigned (tail : List Char) : cs.takeWhile isDigit ≠ '+' :: tail := fun hplus => by
    have hall : (cs.takeWhile isDigit).all isDigit := List.all_takeWhile
    rw [hplus] at hall
    cases hall
  have hvalue : value? 10 (cs.takeWhile isDigit) = some m := by
    unfold magnitude? readNat? at h
    dsimp only at h
    split at h
    · rename_i hplus
      exact absurd hplus (hunsigned _)
    · exact (Option.filter_eq_some_iff.mp h).1
  refine ⟨cs.takeWhile isDigit, cs.dropWhile isDigit, List.takeWhile_append_dropWhile.symm,
    (spells_iff_value? (by omega) (by omega)).mpr hvalue, fun c hc => ?_, readNat?_lt h⟩
  have hhead := List.head?_dropWhile_not isDigit cs
  rwa [Option.mem_def.mp hc] at hhead

/-- What stands after the digits is not read. -/
theorem magnitude?_append {ys : List Char} (hys : ∀ c ∈ ys.head?, isDigit c = false)
    (cs : List Char) : magnitude? (cs ++ ys) = magnitude? cs := by
  have htake : (cs ++ ys).takeWhile isDigit = cs.takeWhile isDigit := by
    rw [List.takeWhile_append, takeWhile_of_head hys]
    split
    · rename_i hall
      rw [List.append_nil, (List.takeWhile_prefix isDigit).eq_of_length hall]
    · rfl
  rw [magnitude?, magnitude?, htake]

theorem leadingInt?_minus (h : dropBlanks cs = '-' :: rest) :
    leadingInt? cs = (magnitude? rest).map fun n : Nat => -(n : Int) := by
  rw [leadingInt?, h]
  change ((magnitude? rest).bind fun m => some (m : Int)).map (fun n => -n) = _
  cases magnitude? rest <;> rfl

theorem leadingInt?_plus (h : dropBlanks cs = '+' :: rest) :
    leadingInt? cs = (magnitude? rest).map Int.ofNat := by
  rw [leadingInt?, h]
  rfl

theorem leadingInt?_plain (h : ∀ c ∈ (dropBlanks cs).head?, c ≠ '-' ∧ c ≠ '+') :
    leadingInt? cs = (magnitude? (dropBlanks cs)).map Int.ofNat := by
  unfold leadingInt?
  dsimp only
  split
  · rename_i hcs
    exact absurd rfl (h '-' (by rw [hcs]; rfl)).1
  · rename_i hcs
    exact absurd rfl (h '+' (by rw [hcs]; rfl)).2
  · rfl

/-- A text starts with a sign or with none. -/
theorem sign_cases (cs : List Char) : (∃ rest, cs = '-' :: rest) ∨ (∃ rest, cs = '+' :: rest) ∨
    ∀ c ∈ cs.head?, c ≠ '-' ∧ c ≠ '+' := by
  cases cs with
  | nil => simp
  | cons c cs =>
    by_cases hminus : c = '-'
    · exact .inl ⟨cs, by rw [hminus]⟩
    by_cases hplus : c = '+'
    · exact .inr (.inl ⟨cs, by rw [hplus]⟩)
    · exact .inr (.inr (by simp [hminus, hplus]))

theorem leadingInt?_eq_none (h : ∀ c ∈ (dropBlanks cs).head?, Bars c) : leadingInt? cs = none := by
  rw [leadingInt?_plain fun c hc => ⟨(h c hc).1, (h c hc).2.1⟩, magnitude?,
    takeWhile_of_head fun c hc => (h c hc).2.2]
  rfl

theorem dropBlanks_append {blanks : List Char} (hblanks : ∀ b ∈ blanks, isBlank b = true)
    (hcs : ∀ c ∈ cs.head?, isBlank c = false) : dropBlanks (blanks ++ cs) = cs := by
  rw [dropBlanks, List.dropWhile_append_of_pos hblanks]
  cases cs with
  | nil => rfl
  | cons c cs => rw [List.dropWhile_cons, hcs c rfl, if_neg Bool.false_ne_true]

/-- A digit is no blank and no sign. -/
theorem digit_head (hdigits : Spells 10 m digits) :
    ∀ c ∈ (digits ++ rest).head?, isBlank c = false ∧ c ≠ '-' ∧ c ≠ '+' := by
  obtain ⟨d, ds, rfl⟩ := List.exists_cons_of_ne_nil hdigits.ne_nil
  intro c hc
  obtain rfl : d = c := Option.some.inj hc
  have hdigit := hdigits.isDigit d List.mem_cons_self
  refine ⟨isBlank_of_isAlphanumeric (by rw [isAlphanumeric, hdigit]; rfl), ?_, ?_⟩ <;>
  · rintro rfl
    cases hdigit

/-- Behind the blanks stand the sign, the digits and what follows them. -/
theorem Opens.dropBlanks_eq (h : Opens cs n) : ∃ sign digits rest, ∃ m : Nat,
    dropBlanks cs = sign ++ (digits ++ rest) ∧ Spells 10 m digits ∧
    (∀ c ∈ rest.head?, isDigit c = false) ∧
    ((sign = [] ∨ sign = ['+']) ∧ n = m ∨ sign = ['-'] ∧ n = -m) := by
  obtain ⟨blanks, sign, digits, rest, m, rfl, hblanks, hdigits, hrest, hsign⟩ := h
  refine ⟨sign, digits, rest, m, dropBlanks_append hblanks fun c hc => ?_, hdigits, hrest, hsign⟩
  rcases hsign with ⟨rfl | rfl, -⟩ | ⟨rfl, -⟩
  · exact (digit_head hdigits c hc).1
  · exact Option.some.inj hc ▸ by decide
  · exact Option.some.inj hc ▸ by decide

/-- The number at the start of a text is read if it fits. -/
theorem leadingInt?_eq_some_iff :
    leadingInt? cs = some n ↔ Opens cs n ∧ n.natAbs < 0x8000000000000000 := by
  constructor
  · intro h
    have hblanks : ∀ b ∈ cs.takeWhile isBlank, isBlank b = true :=
      fun b hb => List.all_eq_true.mp List.all_takeWhile b hb
    have hcs : cs = cs.takeWhile isBlank ++ dropBlanks cs := List.takeWhile_append_dropWhile.symm
    obtain ⟨tail, htail⟩ | ⟨tail, htail⟩ | hplain := sign_cases (dropBlanks cs)
    · rw [leadingInt?_minus htail] at h
      obtain ⟨m, hm, rfl⟩ := Option.map_eq_some_iff.mp h
      obtain ⟨digits, rest, rfl, hspells, hrest, hbound⟩ := magnitude?_eq_some hm
      refine ⟨⟨_, ['-'], digits, rest, m, ?_, hblanks, hspells, hrest, .inr ⟨rfl, rfl⟩⟩, by omega⟩
      rwa [List.singleton_append, ← htail]
    · rw [leadingInt?_plus htail] at h
      obtain ⟨m, hm, rfl⟩ := Option.map_eq_some_iff.mp h
      obtain ⟨digits, rest, rfl, hspells, hrest, hbound⟩ := magnitude?_eq_some hm
      refine ⟨⟨_, ['+'], digits, rest, m, ?_, hblanks, hspells, hrest, .inl ⟨.inr rfl, rfl⟩⟩,
        hbound⟩
      rwa [List.singleton_append, ← htail]
    · rw [leadingInt?_plain hplain] at h
      obtain ⟨m, hm, rfl⟩ := Option.map_eq_some_iff.mp h
      obtain ⟨digits, rest, hdigits, hspells, hrest, hbound⟩ := magnitude?_eq_some hm
      refine ⟨⟨_, [], digits, rest, m, ?_, hblanks, hspells, hrest, .inl ⟨.inl rfl, rfl⟩⟩, hbound⟩
      rwa [List.nil_append, ← hdigits]
  · rintro ⟨hopens, hbound⟩
    obtain ⟨sign, digits, rest, m, hcs, hdigits, hrest, hsign⟩ := hopens.dropBlanks_eq
    have hread : magnitude? (digits ++ rest) = some m := magnitude?_digits hdigits hrest (by omega)
    rcases hsign with ⟨rfl | rfl, rfl⟩ | ⟨rfl, rfl⟩
    · rw [List.nil_append] at hcs
      rw [leadingInt?_plain (hcs ▸ fun c hc => (digit_head hdigits c hc).2), hcs, hread]
      rfl
    · rw [List.singleton_append] at hcs
      rw [leadingInt?_plus hcs, hread]
      rfl
    · rw [List.singleton_append] at hcs
      rw [leadingInt?_minus hcs, hread]
      rfl

/-- What stands after the number is not read. -/
theorem leadingInt?_append {ys : List Char} (hys : ∀ c ∈ ys.head?, isDigit c = false)
    (hbar : ∀ c ∈ (dropBlanks ys).head?, Bars c) (cs : List Char) :
    leadingInt? (cs ++ ys) = leadingInt? cs := by
  have hdrop : dropBlanks (cs ++ ys) =
      if (dropBlanks cs).isEmpty then dropBlanks ys else dropBlanks cs ++ ys :=
    List.dropWhile_append
  by_cases hnil : dropBlanks cs = []
  · rw [hnil, List.isEmpty_nil, if_pos rfl] at hdrop
    rw [leadingInt?_eq_none (hdrop ▸ hbar), leadingInt?_eq_none (by simp [hnil])]
  rw [if_neg (by simpa using hnil)] at hdrop
  obtain ⟨tail, htail⟩ | ⟨tail, htail⟩ | hplain := sign_cases (dropBlanks cs)
  · rw [htail, List.cons_append] at hdrop
    rw [leadingInt?_minus htail, leadingInt?_minus hdrop, magnitude?_append hys]
  · rw [htail, List.cons_append] at hdrop
    rw [leadingInt?_plus htail, leadingInt?_plus hdrop, magnitude?_append hys]
  · have hhead : (dropBlanks (cs ++ ys)).head? = (dropBlanks cs).head? := by
      rw [hdrop, List.head?_append_of_ne_nil _ hnil]
    rw [leadingInt?_plain hplain, leadingInt?_plain (hhead ▸ hplain), hdrop, magnitude?_append hys]

/-! ## Words in front -/

theorem afterWord?_append {word : String} {head : List Char}
    (h : head.map Char.toLower = word.toList) (rest : List Char) :
    afterWord? word (head ++ rest) = some rest := by
  have hlength : word.toList.length = head.length := by rw [← h, List.length_map]
  rw [afterWord?, hlength, List.take_left, List.drop_left, if_pos h]

/-- Another first letter is not the word. -/
theorem afterWord?_eq_none {word : String} {c w : Char} {ws : List Char}
    (hword : word.toList = w :: ws) (hne : c.toLower ≠ w) (cs : List Char) :
    afterWord? word (c :: cs) = none := by
  rw [afterWord?, hword]
  exact if_neg fun htake => hne (List.cons.inj htake).1

/-- No number starts with a letter. -/
theorem leadingNonzero?_eq_none {c : Char} (h : 97 ≤ c.toLower.toNat ∧ c.toLower.toNat ≤ 122)
    (cs : List Char) : leadingNonzero? (c :: cs) = none := by
  have hcodes : '0'.toNat = 48 ∧ '9'.toNat = 57 ∧ 'a'.toNat = 97 ∧ 'z'.toNat = 122 ∧
      'A'.toNat = 65 ∧ 'Z'.toNat = 90 ∧ '-'.toNat = 45 ∧ '+'.toNat = 43 := by decide
  rw [toNat_toLower] at h
  have hletter : isAlphanumeric c = true := by
    simp only [isAlphanumeric, isDigit, Bool.or_eq_true, Bool.and_eq_true, decide_eq_true_eq,
      le_iff_toNat_le, hcodes]
    grind
  have hdigit : isDigit c = false := by
    simp only [isDigit, Bool.and_eq_false_iff, decide_eq_false_iff_not, le_iff_toNat_le, hcodes]
    grind
  have hdrop : dropBlanks (c :: cs) = c :: cs := by
    rw [dropBlanks, List.dropWhile_cons, isBlank_of_isAlphanumeric hletter,
      if_neg Bool.false_ne_true]
  rw [leadingNonzero?, leadingInt?_eq_none, Option.filter_none]
  rw [hdrop]
  rintro x hx
  obtain rfl : c = x := Option.some.inj hx
  refine ⟨?_, ?_, hdigit⟩ <;>
  · rintro rfl
    cases hletter

variable {head : List Char}

/-- A text with a word in front starts with no number, and with no word of another first letter. -/
theorem passed_over {w : Char} {ws : List Char} (h : head.map Char.toLower = w :: ws)
    (hw : 97 ≤ w.toNat ∧ w.toNat ≤ 122) (rest : List Char) :
    leadingNonzero? (head ++ rest) = none ∧ ∀ (word : String) (v : Char) (vs : List Char),
      word.toList = v :: vs → w ≠ v → afterWord? word (head ++ rest) = none := by
  obtain ⟨c, cs, rfl, rfl, -⟩ := List.map_eq_cons_iff.mp h
  exact ⟨leadingNonzero?_eq_none hw _, fun _ _ _ hword hne => afterWord?_eq_none hword hne _⟩

/-- After `Thread` a number is read, or else the number in parentheses. -/
theorem ofChars?_thread (h : head.map Char.toLower = "thread ".toList) (rest : List Char) :
    ofChars? (head ++ rest) = (leadingNonzero? rest).or (inParentheses? (head ++ rest)) := by
  obtain ⟨hlead, hother⟩ := passed_over (w := 't') h (by decide) rest
  rw [ofChars?, hlead, hother "process " _ _ rfl (by decide), hother "lwp " _ _ rfl (by decide),
    afterWord?_append h rest]
  simp only [Option.none_or, Option.bind_some, Option.bind_none, Option.or_none]

/-- After `Process` a number is read. -/
theorem ofChars?_process (h : head.map Char.toLower = "process ".toList) (rest : List Char) :
    ofChars? (head ++ rest) = leadingNonzero? rest := by
  obtain ⟨hlead, hother⟩ := passed_over (w := 'p') h (by decide) rest
  rw [ofChars?, hlead, hother "thread " _ _ rfl (by decide), hother "lwp " _ _ rfl (by decide),
    afterWord?_append h rest]
  simp only [Option.none_or, Option.bind_some, Option.bind_none, Option.or_none]

/-- After `LWP` a number is read. -/
theorem ofChars?_lwp (h : head.map Char.toLower = "lwp ".toList) (rest : List Char) :
    ofChars? (head ++ rest) = leadingNonzero? rest := by
  obtain ⟨hlead, hother⟩ := passed_over (w := 'l') h (by decide) rest
  rw [ofChars?, hlead, hother "thread " _ _ rfl (by decide), hother "process " _ _ rfl (by decide),
    afterWord?_append h rest]
  simp only [Option.none_or, Option.bind_some, Option.bind_none]

/-! ## Numbers in parentheses -/

/-- A number ends in front of a parenthesis, or of a blank and a parenthesis. -/
theorem leadingNonzero?_append {ys : List Char} {c : Char} (hc : c = '(' ∨ c = ')')
    (hys : ys.head? = some c ∨ ys.head? = some ' ') (hdrop : (dropBlanks ys).head? = some c)
    (cs : List Char) : leadingNonzero? (cs ++ ys) = leadingNonzero? cs := by
  have hbars : Bars c := by
    rcases hc with rfl | rfl <;> exact ⟨by decide, by decide, by decide⟩
  rw [leadingNonzero?, leadingNonzero?, leadingInt?_append]
  · intro x hx
    rcases hys with h | h
    · obtain rfl : c = x := Option.some.inj (h.symm.trans hx)
      exact hbars.2.2
    · obtain rfl : ' ' = x := Option.some.inj (h.symm.trans hx)
      rfl
  · intro x hx
    obtain rfl : c = x := Option.some.inj (hdrop.symm.trans hx)
    exact hbars

/-- The number that is read in parentheses is the same whichever of them closes the text. -/
theorem inParentheses?_of_once {before inside after : List Char}
    (h : OccursOnce "(LWP ".toList (before ++ ("(LWP ".toList ++ (inside ++ ')' :: after)))) :
    inParentheses? (before ++ ("(LWP ".toList ++ (inside ++ ')' :: after))) =
      leadingNonzero? inside := by
  rw [inParentheses?, h.afterFirst?, Option.bind_some]
  by_cases hmem : ')' ∈ inside
  · obtain ⟨first, more, rfl, hfirst⟩ := List.eq_append_cons_of_mem hmem
    have hcut : cut? ')' (first ++ ')' :: more ++ ')' :: after) =
        some (first, more ++ ')' :: after) :=
      cut?_eq_some_iff.mpr ⟨hfirst, by rw [List.append_assoc, List.cons_append]⟩
    rw [hcut, Option.bind_some, leadingNonzero?_append (.inr rfl) (.inl rfl) rfl]
  · rw [cut?_eq_some_iff.mpr ⟨hmem, rfl⟩, Option.bind_some]

/-! ## Shapes -/

theorem leadingNonzero?_toString {n : Nat} (hn : 0 < n) (hbound : n < 2 ^ 63) :
    leadingNonzero? (toString n).toList = some (n : Int) := by
  have hdigits : Spells 10 n (toString n).toList := by
    rw [spells_iff_value? (by omega) (by omega)]
    exact (congrArg (value? 10) Nat.toList_repr).trans (value?_toDigits (by omega) (by omega) n)
  have hopens : Opens (toString n).toList n :=
    ⟨[], [], _, [], n, by simp, by simp, hdigits, by simp, .inl ⟨.inl rfl, rfl⟩⟩
  rw [leadingNonzero?, leadingInt?_eq_some_iff.mpr ⟨hopens, hbound⟩, Option.filter_some,
    if_pos (by simpa using Nat.ne_of_gt hn)]

/-- The text does not start with a number of 64 bits other than zero. -/
theorem leadingNonzero?_of_not_opens
    (h : ¬ ∃ k : Int, k ≠ 0 ∧ -2 ^ 63 ≤ k ∧ k < 2 ^ 63 ∧ Opens cs k) :
    leadingNonzero? cs = none := by
  rw [Option.eq_none_iff_forall_ne_some]
  intro k hk
  obtain ⟨hread, hk⟩ := Option.filter_eq_some_iff.mp hk
  obtain ⟨hopens, hbound⟩ := leadingInt?_eq_some_iff.mp hread
  exact h ⟨k, by simpa using hk, by omega, by omega, hopens⟩

/-- A space after a word, in letters of either case. -/
theorem toLower_word {word : String} {lower : String} (h : word.toLower = lower) :
    (word ++ " ").toList.map Char.toLower = (lower ++ " ").toList := by
  have hlower : word.toLower.toList = word.toList.map Char.toLower := String.toList_map
  rw [← h, String.toList_append, String.toList_append, hlower, List.map_append]
  rfl

/--
Each shape gives its number: the bare number, the number after a word in letters of either case, and
the number in parentheses after a thread's text, if that does not start with a number of its own.
No text gives zero.
-/
theorem number_of_shape :
    (∀ n : Nat, 0 < n → n < 2 ^ 63 →
      ofTarget? (toString n) = some (n : Int) ∧
      (∀ word : String, word.toLower ∈ ["thread", "process", "lwp"] →
        ofTarget? (word ++ " " ++ toString n) = some (n : Int)) ∧
      ∀ word text : String, word.toLower = "thread" →
        (¬ ∃ k : Int, k ≠ 0 ∧ -2 ^ 63 ≤ k ∧ k < 2 ^ 63 ∧ Opens text.toList k) →
        OccursOnce "(LWP ".toList (word ++ " " ++ text ++ " (LWP " ++ toString n ++ ")").toList →
        ofTarget? (word ++ " " ++ text ++ " (LWP " ++ toString n ++ ")") = some (n : Int)) ∧
    ∀ target, ofTarget? target ≠ some 0 := by
  refine ⟨fun n hn hbound => ⟨?_, fun word hword => ?_, fun word text hword hopens honce => ?_⟩,
    fun target htarget => ofTarget?_ne_zero htarget rfl⟩
  · have hdigits := leadingNonzero?_toString hn hbound
    rw [ofTarget?, ofChars?, hdigits, Option.some_or]
  · have hdigits := leadingNonzero?_toString hn hbound
    rw [ofTarget?, String.toList_append]
    simp only [List.mem_cons, List.not_mem_nil, or_false] at hword
    rcases hword with h | h | h
    · rw [ofChars?_thread (toLower_word h), hdigits, Option.some_or]
    · rw [ofChars?_process (toLower_word h), hdigits]
    · rw [ofChars?_lwp (toLower_word h), hdigits]
  · have htarget : (word ++ " " ++ text ++ " (LWP " ++ toString n ++ ")").toList =
        ((word ++ " ").toList ++ text.toList ++ [' ']) ++
          ("(LWP ".toList ++ ((toString n).toList ++ ')' :: [])) := by
      simp [String.toList_append]
    have hread := ofChars?_thread (toLower_word hword)
      (text.toList ++ ' ' :: ("(LWP ".toList ++ ((toString n).toList ++ ')' :: [])))
    rw [leadingNonzero?_append (.inl rfl) (.inr rfl) rfl, leadingNonzero?_of_not_opens hopens,
      Option.none_or, ← List.append_assoc, List.append_cons, ← htarget] at hread
    rw [ofTarget?, hread]
    rw [htarget] at honce ⊢
    rw [inParentheses?_of_once honce, leadingNonzero?_toString hn hbound]

/-- A thread by its address, which starts with a zero, and by the number it has in the system. -/
theorem number_of_shape_address :
    (¬ ∃ k : Int, k ≠ 0 ∧ -2 ^ 63 ≤ k ∧ k < 2 ^ 63 ∧ Opens "0x7f".toList k) ∧
      OccursOnce "(LWP ".toList
        ("thRead" ++ " " ++ "0x7f" ++ " (LWP " ++ toString 1234 ++ ")").toList ∧
      ofTarget? ("thRead" ++ " " ++ "0x7f" ++ " (LWP " ++ toString 1234 ++ ")") =
        some (1234 : Nat) := by
  have hzero : ¬ ∃ k : Int, k ≠ 0 ∧ -2 ^ 63 ≤ k ∧ k < 2 ^ 63 ∧ Opens "0x7f".toList k := by
    rintro ⟨k, hk, -, -, hopens⟩
    obtain ⟨sign, digits, rest, m, hcs, hdigits, hrest, hsign⟩ := hopens.dropBlanks_eq
    have htext : dropBlanks "0x7f".toList = ['0', 'x', '7', 'f'] := by decide
    rw [htext] at hcs
    rcases hsign with ⟨rfl | rfl, rfl⟩ | ⟨rfl, rfl⟩
    · have htake := takeWhile_digits hdigits hrest
      rw [← List.nil_append (digits ++ rest), ← hcs] at htake
      obtain rfl : ['0'] = digits := htake
      exact hk (congrArg Nat.cast (Option.some.inj (hdigits.value? (by omega) (by omega))).symm)
    · cases hcs
    · cases hcs
  have hnotin : '(' ∉ "thRead 0x7f ".toList ∧ '(' ∉ "LWP ".toList ++ "1234)".toList := by decide
  have honce : OccursOnce "(LWP ".toList
      ("thRead" ++ " " ++ "0x7f" ++ " (LWP " ++ toString 1234 ++ ")").toList :=
    occursOnce_of_not_mem hnotin.1 hnotin.2
  have hword : "thRead".toLower = "thread" :=
    String.toList_injective (String.toList_map.trans (by decide))
  obtain ⟨-, -, hthread⟩ := number_of_shape.1 1234 (by decide) (by decide)
  exact ⟨hzero, honce, hthread "thRead" "0x7f" hword hzero honce⟩

end ThreadId

end MachineInterface

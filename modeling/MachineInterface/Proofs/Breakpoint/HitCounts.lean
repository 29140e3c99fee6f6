import MachineInterface.Breakpoint.HitPolicy
import MachineInterface.Proofs.Record.Reading
import MachineInterface.Proofs.Text.Digits

/-!
# Hit counts that a text asks for

A text asks for a count of hits in one of two forms: digits only, or digits after a greater-than
sign with blanks around them. The reader holds the first form to the whole text. In the second it
looks for the first digits anywhere after the sign.

* `firstNumber?_eq_some_iff`: what is found is the first run of digits, if it fits into 32 bits.
* `ofText_classifies`: which texts get which policy, and for which texts it is the one asked for.
* `comparison_not_refused`: a comparison such as `>= 3` is taken for a count of three.
-/

namespace MachineInterface.HitPolicy

open Text Record

/-! ## The two forms -/

/-- Nothing but the decimal digits of a number; zeros may stand in front. -/
structure IsNumber (cs : List Char) (count : UInt32) : Prop where
  ne_nil : cs ≠ []
  digits : ∀ c ∈ cs, Numeral.isDigit c = true
  value : decimal cs = count.toNat

/-- The text asks to ignore the first hits: a sign, and a number that only blanks surround. -/
def AsksSkip (text : String) (count : UInt32) : Prop :=
  ∃ before digits after, text.toList = '>' :: (before ++ digits ++ after) ∧
    (∀ c ∈ before, isBlank c = true) ∧ (∀ c ∈ after, isBlank c = true) ∧ IsNumber digits count

/-- The text asks to stop once: it is a number. -/
def AsksBreak (text : String) (count : UInt32) : Prop := IsNumber text.toList count

/-- The policy of a text is the one that it asks for, and none for a text in neither form. -/
structure Classifies (text : String) : Prop where
  skipped : ∀ count, ofText text = skipFirst count ↔ AsksSkip text count
  broken : ∀ count, ofText text = breakAfter count ↔ AsksBreak text count
  refused : ∀ t, ofText text = unsupported t ↔
    t = text ∧ ∀ count, ¬ AsksSkip text count ∧ ¬ AsksBreak text count

/-! ## The first digits -/

/-- A text cut around its first run of digits, which is a number. -/
structure FirstAmong (before digits after : List Char) (count : UInt32) : Prop where
  before : ∀ c ∈ before, Numeral.isDigit c = false
  number : IsNumber digits count
  after : ∀ c ∈ after.head?, Numeral.isDigit c = false

variable {before digits after cs : List Char} {count : UInt32}

theorem dropWhile_before (hbefore : ∀ c ∈ before, Numeral.isDigit c = false)
    (hne : digits ≠ []) (hdigits : ∀ c ∈ digits, Numeral.isDigit c = true) :
    (before ++ digits ++ after).dropWhile (!Numeral.isDigit ·) = digits ++ after := by
  obtain ⟨d, ds, rfl⟩ := List.exists_cons_of_ne_nil hne
  rw [List.append_assoc, List.dropWhile_append_of_pos fun c hc => by simp [hbefore c hc],
    List.cons_append, List.dropWhile_cons_of_neg (by simp [hdigits d])]

theorem takeWhile_digits (hdigits : ∀ c ∈ digits, Numeral.isDigit c = true)
    (hafter : ∀ c ∈ after.head?, Numeral.isDigit c = false) :
    (digits ++ after).takeWhile Numeral.isDigit = digits := by
  rw [List.takeWhile_append_of_pos hdigits]
  cases after with
  | nil => simp
  | cons c after => simp [hafter c rfl]

/-- The first run of digits is where the text is cut. -/
theorem FirstAmong.firstDigits (h : FirstAmong before digits after count) :
    firstDigits (before ++ digits ++ after) = digits := by
  rw [HitPolicy.firstDigits, dropWhile_before h.before h.number.ne_nil h.number.digits,
    takeWhile_digits h.number.digits h.after]

theorem firstDigits_digits (cs : List Char) : ∀ c ∈ firstDigits cs, Numeral.isDigit c = true :=
  fun _ hc => List.mem_takeWhile_imp hc

theorem firstDigits_eq_self (h : ∀ c ∈ cs, Numeral.isDigit c = true) : firstDigits cs = cs := by
  cases cs with
  | nil => rfl
  | cons c cs =>
    rw [firstDigits, List.dropWhile_cons_of_neg (by simp [h c])]
    exact List.takeWhile_eq_self_iff.mpr h

/-! ## The number -/

/-- Digits are read as the number that they stand for, if it fits into 32 bits. -/
theorem readNat?_digits_iff (hdigits : ∀ c ∈ cs, Numeral.isDigit c = true) :
    (Numeral.readNat? 10 0x100000000 cs).map UInt32.ofNat = some count ↔ IsNumber cs count := by
  by_cases hne : cs = []
  · subst hne
    constructor
    · intro h
      cases h
    · exact fun h => absurd rfl h.ne_nil
  · have hvalue : Numeral.value? 10 cs = some (decimal cs) := by
      rw [Numeral.value?_of_ne_nil 10 hne]
      exact valueFrom?_digits (fun d hd => isDigit_iff.mp (hdigits d hd)) 0
    rw [Numeral.readNat?_eq_filter hvalue, Option.filter_some]
    constructor
    · intro h
      obtain ⟨n, hn, rfl⟩ := Option.map_eq_some_iff.mp h
      obtain ⟨hlt, hdecimal⟩ := Option.ite_none_right_eq_some.mp hn
      obtain rfl := Option.some.inj hdecimal
      exact ⟨hne, hdigits, (UInt32.toNat_ofNat_of_lt (by simpa using hlt)).symm⟩
    · intro h
      have hlt : decimal cs < 0x100000000 := h.value ▸ count.toNat_lt
      rw [if_pos (by simpa using hlt), h.value, Option.map_some, UInt32.ofNat_toNat]

theorem firstNumber?_eq_some_iff : firstNumber? cs = some count ↔
    ∃ before digits after, cs = before ++ digits ++ after ∧
      FirstAmong before digits after count := by
  constructor
  · intro h
    refine ⟨cs.takeWhile (!Numeral.isDigit ·), firstDigits cs,
      (cs.dropWhile (!Numeral.isDigit ·)).dropWhile Numeral.isDigit, ?_, ?_, ?_, ?_⟩
    · rw [firstDigits, List.append_assoc, List.takeWhile_append_dropWhile,
        List.takeWhile_append_dropWhile]
    · intro c hc
      simpa using List.mem_takeWhile_imp hc
    · exact (readNat?_digits_iff (firstDigits_digits cs)).mp h
    · intro c hc
      have hstop := List.head?_dropWhile_not Numeral.isDigit (cs.dropWhile (!Numeral.isDigit ·))
      rw [Option.mem_def.mp hc] at hstop
      exact hstop
  · rintro ⟨before, digits, after, rfl, h⟩
    rw [firstNumber?, h.firstDigits]
    exact (readNat?_digits_iff h.number.digits).mpr h.number

/-! ## The policy of a text -/

/-- A number is found after the sign, at the first digits. -/
def FindsSkip (text : String) (count : UInt32) : Prop :=
  ∃ before digits after, text.toList = '>' :: (before ++ digits ++ after) ∧
    FirstAmong before digits after count

theorem findsSkip_iff {text : String} {rest : List Char} (h : text.toList = '>' :: rest) :
    FindsSkip text count ↔ firstNumber? rest = some count := by
  simp only [FindsSkip, h, List.cons.injEq, true_and, firstNumber?_eq_some_iff]

theorem not_asksBreak_of_sign {text : String} {rest : List Char} (h : text.toList = '>' :: rest)
    (count : UInt32) : ¬ AsksBreak text count := by
  intro hbreak
  have hsign := hbreak.digits '>' (h ▸ List.mem_cons_self)
  exact absurd hsign (by decide)

theorem ofText_of_sign {text : String} {rest : List Char} (h : text.toList = '>' :: rest) :
    ofText text = ((firstNumber? rest).map skipFirst).getD (unsupported text) := by
  unfold ofText
  simp only [h]

theorem ofText_of_number {text : String} (h : AsksBreak text count) :
    ofText text = breakAfter count := by
  have hself := firstDigits_eq_self h.digits
  have hnumber : firstNumber? text.toList = some count := by
    rw [firstNumber?, hself]
    exact (readNat?_digits_iff h.digits).mpr h
  unfold ofText
  split
  · rename_i rest hrest
    exact absurd h (not_asksBreak_of_sign hrest count)
  · rw [if_pos hself, hnumber]
    rfl

theorem ofText_of_neither {text : String} (hskip : ∀ count, ¬ FindsSkip text count)
    (hbreak : ∀ count, ¬ AsksBreak text count) : ofText text = unsupported text := by
  unfold ofText
  split
  · rename_i rest hrest
    have hnone : firstNumber? rest = none :=
      Option.eq_none_iff_forall_ne_some.mpr fun n hn => hskip n ((findsSkip_iff hrest).mpr hn)
    rw [hnone]
    rfl
  · split
    · rename_i hself
      have hnone : firstNumber? text.toList = none := by
        refine Option.eq_none_iff_forall_ne_some.mpr fun n hn => hbreak n ?_
        rw [firstNumber?, hself] at hn
        exact (readNat?_digits_iff (hself ▸ firstDigits_digits text.toList)).mp hn
      rw [hnone]
      rfl
    · rfl

theorem ofText_of_findsSkip {text : String} (h : FindsSkip text count) :
    ofText text = skipFirst count := by
  obtain ⟨before, digits, after, htext, hcut⟩ := id h
  rw [ofText_of_sign htext, (findsSkip_iff htext).mp h]
  rfl

/-- A text with a number after the sign asks to skip, a number to stop once, and any other text
neither. -/
theorem ofText_cases (text : String) :
    (∃ count, FindsSkip text count ∧ ofText text = skipFirst count) ∨
      (∃ count, AsksBreak text count ∧ ofText text = breakAfter count) ∨
      ((∀ count, ¬ FindsSkip text count ∧ ¬ AsksBreak text count) ∧
        ofText text = unsupported text) := by
  by_cases hskip : ∃ count, FindsSkip text count
  · obtain ⟨count, h⟩ := hskip
    exact .inl ⟨count, h, ofText_of_findsSkip h⟩
  · by_cases hbreak : ∃ count, AsksBreak text count
    · obtain ⟨count, h⟩ := hbreak
      exact .inr (.inl ⟨count, h, ofText_of_number h⟩)
    · have hskip := not_exists.mp hskip
      have hbreak := not_exists.mp hbreak
      exact .inr (.inr ⟨fun n => ⟨hskip n, hbreak n⟩, ofText_of_neither hskip hbreak⟩)

theorem ofText_eq_skipFirst_iff {text : String} :
    ofText text = skipFirst count ↔ FindsSkip text count := by
  refine ⟨fun h => ?_, ofText_of_findsSkip⟩
  obtain ⟨n, hfound, hn⟩ | ⟨n, -, hn⟩ | ⟨-, hn⟩ := ofText_cases text
  · obtain rfl := skipFirst.inj (hn.symm.trans h)
    exact hfound
  · cases hn.symm.trans h
  · cases hn.symm.trans h

theorem ofText_eq_breakAfter_iff {text : String} :
    ofText text = breakAfter count ↔ AsksBreak text count := by
  refine ⟨fun h => ?_, ofText_of_number⟩
  obtain ⟨n, -, hn⟩ | ⟨n, hasks, hn⟩ | ⟨-, hn⟩ := ofText_cases text
  · cases hn.symm.trans h
  · obtain rfl := breakAfter.inj (hn.symm.trans h)
    exact hasks
  · cases hn.symm.trans h

theorem ofText_eq_unsupported_iff {text t : String} :
    ofText text = unsupported t ↔
      t = text ∧ ∀ count, ¬ FindsSkip text count ∧ ¬ AsksBreak text count := by
  constructor
  · intro h
    obtain ⟨n, -, hn⟩ | ⟨n, -, hn⟩ | ⟨hneither, hn⟩ := ofText_cases text
    · cases hn.symm.trans h
    · cases hn.symm.trans h
    · exact ⟨(unsupported.inj (hn.symm.trans h)).symm, hneither⟩
  · rintro ⟨rfl, hneither⟩
    exact ofText_of_neither (fun n => (hneither n).1) fun n => (hneither n).2

/-! ## The policy that was asked for -/

theorem isDigit_of_isBlank {c : Char} (h : isBlank c = true) : Numeral.isDigit c = false := by
  by_contra hdigit
  have halphanumeric : Numeral.isAlphanumeric c = true := by
    simp [Numeral.isAlphanumeric, Bool.not_eq_false _ |>.mp hdigit]
  rw [isBlank_of_isAlphanumeric halphanumeric] at h
  cases h

/-- A number with blanks around it is the first one. -/
theorem FirstAmong.of_blanks (hbefore : ∀ c ∈ before, isBlank c = true)
    (hafter : ∀ c ∈ after, isBlank c = true) (h : IsNumber digits count) :
    FirstAmong before digits after count where
  before c hc := isDigit_of_isBlank (hbefore c hc)
  number := h
  after c hc := isDigit_of_isBlank (hafter c (List.mem_of_mem_head? hc))

theorem AsksSkip.findsSkip {text : String} (h : AsksSkip text count) : FindsSkip text count := by
  obtain ⟨before, digits, after, htext, hbefore, hafter, hnumber⟩ := h
  exact ⟨before, digits, after, htext, .of_blanks hbefore hafter hnumber⟩

/-- A text is cut around its first number in one way. -/
theorem FirstAmong.unique {before' digits' after' : List Char} {count' : UInt32}
    (h : FirstAmong before digits after count) (h' : FirstAmong before' digits' after' count')
    (heq : before ++ digits ++ after = before' ++ digits' ++ after') :
    before = before' ∧ after = after' := by
  obtain rfl : digits = digits' := by rw [← h.firstDigits, heq, h'.firstDigits]
  have hrest : digits ++ after = digits ++ after' := by
    rw [← dropWhile_before h.before h.number.ne_nil h.number.digits, heq,
      dropWhile_before h'.before h'.number.ne_nil h'.number.digits]
  obtain rfl := List.append_cancel_left hrest
  rw [List.append_assoc, List.append_assoc] at heq
  exact ⟨List.append_cancel_right heq, rfl⟩

/-- What stands around the first number after the sign is blank. -/
def Clean (text : String) : Prop :=
  ∀ before digits after count, text.toList = '>' :: (before ++ digits ++ after) →
    FirstAmong before digits after count →
    (∀ c ∈ before, isBlank c = true) ∧ ∀ c ∈ after, isBlank c = true

theorem clean_iff {text : String} :
    Clean text ↔ ∀ count, FindsSkip text count → AsksSkip text count := by
  constructor
  · rintro hclean count ⟨before, digits, after, htext, hcut⟩
    obtain ⟨hbefore, hafter⟩ := hclean before digits after count htext hcut
    exact ⟨before, digits, after, htext, hbefore, hafter, hcut.number⟩
  · intro h before digits after count htext hcut
    obtain ⟨before', digits', after', htext', hbefore', hafter', hnumber'⟩ :=
      h count ⟨before, digits, after, htext, hcut⟩
    obtain ⟨rfl, rfl⟩ := hcut.unique (.of_blanks hbefore' hafter' hnumber')
      (List.cons.inj (htext.symm.trans htext')).2
    exact ⟨hbefore', hafter'⟩

theorem classifies_iff_clean {text : String} : Classifies text ↔ Clean text := by
  rw [clean_iff]
  constructor
  · intro h count hfinds
    exact (h.skipped count).mp (ofText_of_findsSkip hfinds)
  · intro h
    have hskip : ∀ count, FindsSkip text count ↔ AsksSkip text count :=
      fun count => ⟨h count, AsksSkip.findsSkip⟩
    refine ⟨fun count => ?_, fun _ => ofText_eq_breakAfter_iff, fun t => ?_⟩
    · rw [ofText_eq_skipFirst_iff, hskip]
    · simp only [ofText_eq_unsupported_iff, hskip]

/-- The policy of any text: the first number anywhere after a sign, or a text that is a number. It
is the policy that the text asks for exactly if only blanks stand around that number. -/
theorem ofText_classifies (text : String) :
    (∀ count, ofText text = skipFirst count ↔ FindsSkip text count) ∧
      (∀ count, ofText text = breakAfter count ↔ AsksBreak text count) ∧
      (∀ t, ofText text = unsupported t ↔
        t = text ∧ ∀ count, ¬ FindsSkip text count ∧ ¬ AsksBreak text count) ∧
      (Classifies text ↔ Clean text) :=
  ⟨fun _ => ofText_eq_skipFirst_iff, fun _ => ofText_eq_breakAfter_iff,
    fun _ => ofText_eq_unsupported_iff, classifies_iff_clean⟩

/-- A comparison and a negative number skip hits that neither asks to skip. -/
theorem comparison_not_refused :
    ofText ">= 3" = skipFirst 3 ∧ ofText "> -5" = skipFirst 5 ∧ ¬ Classifies ">= 3" ∧
      ¬ Classifies "> -5" := by
  have hthree : FirstAmong ['=', ' '] ['3'] [] 3 :=
    ⟨by simp [Numeral.isDigit], ⟨by simp, by simp [Numeral.isDigit], rfl⟩, by simp⟩
  have hfive : FirstAmong [' ', '-'] ['5'] [] 5 :=
    ⟨by simp [Numeral.isDigit], ⟨by simp, by simp [Numeral.isDigit], rfl⟩, by simp⟩
  refine ⟨by decide, by decide, fun h => ?_, fun h => ?_⟩
  · have hblank := (classifies_iff_clean.mp h _ _ _ 3 (by decide) hthree).1 '=' (by simp)
    exact absurd hblank (by decide)
  · have hblank := (classifies_iff_clean.mp h _ _ _ 5 (by decide) hfive).1 '-' (by simp)
    exact absurd hblank (by decide)

end MachineInterface.HitPolicy

import MachineInterface.Text.Blank
import MachineInterface.Text.Numeral

/-!
# Digits of either case

Numbers are read from digits of either case, after any zeros.

* `spells_iff_value?`: what is read as a number are the digits of the number.
* `isAlphanumeric_of_value?`: what has a value consists of letters and digits.
* `isBlank_of_isAlphanumeric`: no letter or digit is a blank.
-/

namespace MachineInterface.Text.Numeral

/-! ## Lower case -/

theorem le_iff_toNat_le {c d : Char} : c ≤ d ↔ c.toNat ≤ d.toNat := UInt32.le_iff_toNat_le

theorem toNat_toLower (c : Char) :
    c.toLower.toNat = if 65 ≤ c.toNat ∧ c.toNat ≤ 90 then c.toNat + 32 else c.toNat := by
  have hupper : c.val ≥ 'A'.val ∧ c.val ≤ 'Z'.val ↔ 65 ≤ c.toNat ∧ c.toNat ≤ 90 :=
    and_congr UInt32.le_iff_toNat_le UInt32.le_iff_toNat_le
  unfold Char.toLower
  split
  · rename_i h
    have hrange := hupper.mp h
    rw [if_pos hrange]
    change (c.val + 32).toNat = c.val.toNat + 32
    have hval : c.val.toNat = c.toNat := rfl
    rw [UInt32.toNat_add]
    have h32 : (32 : UInt32).toNat = 32 := rfl
    omega
  · rename_i h
    rw [if_neg fun hrange => h (hupper.mpr hrange)]

/-- The value of a digit does not depend on its case. -/
theorem digitValue?_toLower (base : Nat) (c : Char) :
    digitValue? base c.toLower = digitValue? base c := by
  have hcodes : '0'.toNat = 48 ∧ '9'.toNat = 57 ∧ 'a'.toNat = 97 ∧ 'z'.toNat = 122 ∧
      'A'.toNat = 65 ∧ 'Z'.toNat = 90 := by decide
  unfold digitValue?
  simp only [le_iff_toNat_le, toNat_toLower, hcodes]
  split
  · rename_i h
    -- A capital: neither it nor its small letter is a decimal digit, and both count from ten.
    have hsmall : ¬ (48 ≤ c.toNat + 32 ∧ c.toNat + 32 ≤ 57) ∧
        97 ≤ c.toNat + 32 ∧ c.toNat + 32 ≤ 122 := by omega
    have hcapital : ¬ (48 ≤ c.toNat ∧ c.toNat ≤ 57) ∧ ¬ (97 ≤ c.toNat ∧ c.toNat ≤ 122) := by omega
    rw [if_neg hsmall.1, if_pos hsmall.2, if_neg hcapital.1, if_neg hcapital.2,
      Nat.add_sub_add_right c.toNat 32 65]
  · rfl

theorem valueFrom?_map_toLower (base high : Nat) (cs : List Char) :
    valueFrom? base high (cs.map Char.toLower) = valueFrom? base high cs := by
  induction cs generalizing high with
  | nil => rfl
  | cons c cs ih => simp only [List.map_cons, valueFrom?, digitValue?_toLower, ih]

theorem value?_map_toLower (base : Nat) (cs : List Char) :
    value? base (cs.map Char.toLower) = value? base cs := by
  cases cs with
  | nil => rfl
  | cons c cs => exact valueFrom?_map_toLower base 0 (c :: cs)

/-! ## Digits only -/

theorem digitValue?_eq_none {c : Char} (h : isAlphanumeric c = false) (base : Nat) :
    digitValue? base c = none := by
  simp only [isAlphanumeric, isDigit, Bool.or_eq_false_iff, Bool.and_eq_false_imp,
    decide_eq_true_eq, decide_eq_false_iff_not] at h
  obtain ⟨⟨hdigit, hsmall⟩, hcapital⟩ := h
  unfold digitValue?
  dsimp only
  rw [if_neg (not_and.mpr hdigit), if_neg (not_and.mpr hsmall), if_neg (not_and.mpr hcapital),
    if_neg (Nat.lt_irrefl base)]

/-- What has a value consists of letters and digits. -/
theorem isAlphanumeric_of_valueFrom? {base high n : Nat} {cs : List Char}
    (h : valueFrom? base high cs = some n) : ∀ c ∈ cs, isAlphanumeric c = true := by
  induction cs generalizing high with
  | nil => exact fun c hc => absurd hc List.not_mem_nil
  | cons c cs ih =>
    obtain ⟨d, hd, hrest⟩ := Option.bind_eq_some_iff.mp h
    refine List.forall_mem_cons.mpr ⟨?_, ih hrest⟩
    cases hc : isAlphanumeric c with
    | true => rfl
    | false =>
      rw [digitValue?_eq_none hc] at hd
      cases hd

theorem isAlphanumeric_of_value? {base n : Nat} {cs : List Char} (h : value? base cs = some n) :
    ∀ c ∈ cs, isAlphanumeric c = true := by
  cases cs with
  | nil => cases h
  | cons c cs => exact isAlphanumeric_of_valueFrom? h

/-- What has a value has no sign in front of it. -/
theorem readNat?_eq_filter {base n : Nat} {cs : List Char} (hvalue : value? base cs = some n)
    (bound : Nat) : readNat? base bound cs = (some n).filter (· < bound) := by
  unfold readNat?
  dsimp only
  split
  · have hplus := isAlphanumeric_of_value? hvalue '+' List.mem_cons_self
    exact absurd hplus (by decide)
  · rw [hvalue]

theorem readNat?_of_value? {base bound n : Nat} {cs : List Char} (hvalue : value? base cs = some n)
    (hn : n < bound) : readNat? base bound cs = some n := by
  rw [readNat?_eq_filter hvalue, Option.filter_some, if_pos (by simpa using hn)]

/-! ## Digits of a number -/

/-- The digits of a number after any zeros, letters of either case. -/
def Spells (base n : Nat) (cs : List Char) : Prop :=
  ∃ zeros, cs.map Char.toLower = List.replicate zeros '0' ++ Nat.toDigits base n

/-- Zeros in front do not count. -/
theorem valueFrom?_zeros {base : Nat} (hbase : 0 < base) (zeros : Nat) (cs : List Char) :
    valueFrom? base 0 (List.replicate zeros '0' ++ cs) = valueFrom? base 0 cs := by
  have hzero : digitValue? base '0' = some 0 := by simp [digitValue?, hbase]
  induction zeros with
  | zero => rfl
  | succ zeros ih =>
    rw [List.replicate_succ, List.cons_append, valueFrom?, hzero, Option.bind_some, Nat.zero_mul,
      ih]

/-- The digits of a number are read as the number. -/
theorem Spells.value? {base n : Nat} {cs : List Char} (h : Spells base n cs) (hlow : 1 < base)
    (hhigh : base ≤ 16) : value? base cs = some n := by
  obtain ⟨zeros, hcs⟩ := h
  have hne : List.replicate zeros '0' ++ Nat.toDigits base n ≠ [] := fun hnil =>
    Nat.toDigits_ne_nil (List.append_eq_nil_iff.mp hnil).2
  rw [← value?_map_toLower, hcs, value?_of_ne_nil base hne, valueFrom?_zeros (by omega),
    valueFrom?_toDigits hlow hhigh]

theorem Spells.ne_nil {base n : Nat} {cs : List Char} (h : Spells base n cs) : cs ≠ [] := by
  rintro rfl
  obtain ⟨zeros, hcs⟩ := h
  exact Nat.toDigits_ne_nil (List.append_eq_nil_iff.mp hcs.symm).2

theorem isDigit_toLower (c : Char) : isDigit c.toLower = isDigit c := by
  have hcodes : '0'.toNat = 48 ∧ '9'.toNat = 57 := by decide
  rw [Bool.eq_iff_iff]
  simp only [isDigit, Bool.and_eq_true, decide_eq_true_eq, le_iff_toNat_le, toNat_toLower, hcodes]
  split <;> omega

/-- Only digits spell a number in decimal. -/
theorem Spells.isDigit {n : Nat} {cs : List Char} (h : Spells 10 n cs) :
    ∀ c ∈ cs, isDigit c = true := by
  obtain ⟨zeros, hcs⟩ := h
  have hlower : ∀ c ∈ cs.map Char.toLower, Numeral.isDigit c = true := by
    rw [hcs, List.forall_mem_append]
    exact ⟨fun c hc => List.eq_of_mem_replicate hc ▸ rfl,
      forall_mem_toDigits (by omega) (by decide) n⟩
  exact fun c hc => (isDigit_toLower c).symm.trans (hlower _ (List.mem_map_of_mem hc))

theorem lt_of_digitValue? {base d : Nat} {c : Char} (h : digitValue? base c = some d) :
    d < base := by
  obtain ⟨hlt, hd⟩ := Option.ite_none_right_eq_some.mp h
  exact Option.some.inj hd ▸ hlt

/-- A digit in small letters is the digit of its value. -/
theorem toLower_of_digitValue? {base d : Nat} {c : Char} (hbase : base ≤ 16)
    (h : digitValue? base c = some d) : c.toLower = Nat.digitChar d := by
  have hcodes : '0'.toNat = 48 ∧ '9'.toNat = 57 ∧ 'a'.toNat = 97 ∧ 'z'.toNat = 122 ∧
      'A'.toNat = 65 ∧ 'Z'.toNat = 90 := by decide
  have hdigitChar : ∀ d < 16, (Nat.digitChar d).toNat = if d < 10 then d + 48 else d + 87 := by
    decide
  have hlt := lt_of_digitValue? h
  simp only [digitValue?, le_iff_toNat_le, hcodes, Option.ite_none_right_eq_some,
    Option.some.injEq] at h
  refine Char.toNat_inj.mp ?_
  rw [toNat_toLower, hdigitChar d (by omega)]
  grind

theorem toDigits_mul_add {base high d : Nat} (hlow : 1 < base) (hhigh : 0 < high) (hd : d < base) :
    Nat.toDigits base (high * base + d) = Nat.toDigits base high ++ [Nat.digitChar d] := by
  have hge : base ≤ high * base := Nat.le_mul_of_pos_left base hhigh
  have hdiv : (high * base + d) / base = high := by
    rw [Nat.mul_comm, Nat.mul_add_div (by omega), Nat.div_eq_of_lt hd, Nat.add_zero]
  have hmod : (high * base + d) % base = d := by
    rw [Nat.mul_comm, Nat.mul_add_mod, Nat.mod_eq_of_lt hd]
  rw [Nat.toDigits_eq_if hlow, if_neg (by omega), hdiv, hmod]

/-- What follows digits of a value that is not zero goes on with its digits. -/
theorem toDigits_of_valueFrom? {base high n : Nat} {cs : List Char} (hlow : 1 < base)
    (hbase : base ≤ 16) (hhigh : 0 < high) (h : valueFrom? base high cs = some n) :
    Nat.toDigits base n = Nat.toDigits base high ++ cs.map Char.toLower := by
  induction cs generalizing high with
  | nil =>
    obtain rfl : high = n := Option.some.inj h
    simp
  | cons c cs ih =>
    obtain ⟨d, hd, hrest⟩ := Option.bind_eq_some_iff.mp h
    have hpos : 0 < high * base := Nat.mul_pos hhigh (by omega)
    rw [ih (by omega) hrest, toDigits_mul_add hlow hhigh (lt_of_digitValue? hd), List.map_cons,
      toLower_of_digitValue? hbase hd, List.append_assoc, List.singleton_append]

/-- What has a value are the digits of the value, after any zeros. -/
theorem spells_of_valueFrom? {base n : Nat} {cs : List Char} (hlow : 1 < base) (hbase : base ≤ 16)
    (hne : cs ≠ []) (h : valueFrom? base 0 cs = some n) : Spells base n cs := by
  induction cs with
  | nil => exact absurd rfl hne
  | cons c cs ih =>
    obtain ⟨d, hd, hrest⟩ := Option.bind_eq_some_iff.mp h
    have hc := toLower_of_digitValue? hbase hd
    have hdigits : Nat.toDigits base d = [Nat.digitChar d] := by
      rw [Nat.toDigits_eq_if hlow, if_pos (lt_of_digitValue? hd)]
    rw [Nat.zero_mul, Nat.zero_add] at hrest
    rcases Nat.eq_zero_or_pos d with rfl | hpos
    · cases cs with
      | nil =>
        obtain rfl : 0 = n := Option.some.inj hrest
        exact ⟨0, by simp [hc, hdigits]⟩
      | cons c' cs =>
        obtain ⟨zeros, hzeros⟩ := ih (List.cons_ne_nil _ _) hrest
        exact ⟨zeros + 1, by rw [List.map_cons, hc, hzeros]; rfl⟩
    · exact ⟨0, by simp [toDigits_of_valueFrom? hlow hbase hpos hrest, hc, hdigits]⟩

/-- What is read as a number are the digits of the number. -/
theorem spells_iff_value? {base n : Nat} {cs : List Char} (hlow : 1 < base) (hhigh : base ≤ 16) :
    Spells base n cs ↔ value? base cs = some n := by
  refine ⟨fun h => h.value? hlow hhigh, fun h => ?_⟩
  have hne : cs ≠ [] := by
    rintro rfl
    cases h
  exact spells_of_valueFrom? hlow hhigh hne ((value?_of_ne_nil base hne).symm.trans h)

/-- A number with zeros up to some width is in small letters already. -/
theorem spells_hexPadded (width n : Nat) : Spells 16 n (hexPadded width n) := by
  have hlower : ∀ d < 16, (Nat.digitChar d).toLower = Nat.digitChar d := by decide
  have hsame : ∀ c ∈ hexPadded width n, c.toLower = id c := forall_mem_hexPadded hlower width n
  exact ⟨width - (Nat.toDigits 16 n).length, (List.map_congr_left hsame).trans (List.map_id _)⟩

end MachineInterface.Text.Numeral

namespace MachineInterface.Text

/-! ## Blanks -/

/-- No letter or digit is a blank. -/
theorem isBlank_of_isAlphanumeric {c : Char} (h : Numeral.isAlphanumeric c = true) :
    isBlank c = false := by
  have hblanks : ∀ n ∈ blankCodePoints, n < 48 ∨ 122 < n := by decide
  have hval (d : Char) : d.val.toNat = d.toNat := rfl
  simp only [Numeral.isAlphanumeric, Numeral.isDigit, Char.le_def, UInt32.le_iff_toNat_le, hval,
    Bool.or_eq_true, Bool.and_eq_true, decide_eq_true_eq, Char.reduceToNat] at h
  cases hc : isBlank c with
  | false => rfl
  | true =>
    have := hblanks c.toNat (List.contains_iff_mem.mp hc)
    omega

end MachineInterface.Text

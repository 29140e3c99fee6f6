import MachineInterface.Text.Utf8
import Mathlib.Data.List.Basic

/-!
# Reading an encoded text

Every character is encoded in the one way that the reader takes for it, so a text is read back from
its bytes.

* `step_encodeChar`: the reader finds a character at the start of its bytes, whatever follows them.
* `decode_encodeChars`: the bytes of a text stand for the text.
-/

namespace MachineInterface.Text.Utf8

/-! ## Bytes -/

/-- The byte that continues a character with the lowest six bits of a number. -/
def tailByte (n : Nat) : UInt8 := UInt8.ofNat (n % 64 + 128)

theorem toNat_tailByte (n : Nat) : (tailByte n).toNat = n % 64 + 128 := by
  rw [tailByte, UInt8.toNat_ofNat']
  omega

theorem isTail_tailByte (n : Nat) : isTail (tailByte n) = true := by
  simp only [isTail, Bool.and_eq_true, decide_eq_true_eq, UInt8.le_iff_toNat_le, toNat_tailByte,
    UInt8.reduceToNat]
  omega

theorem push_tailByte (code n : Nat) : push code (tailByte n) = code * 64 + n % 64 := by
  rw [push, toNat_tailByte]
  omega

/-- A byte that continues a character comes second, unless the leading byte has bounds of its own. -/
theorem isSecond_tailByte {lead : UInt8} {n : Nat} (h0 : lead.toNat = 0xE0 → 32 ≤ n % 64)
    (hD : lead.toNat = 0xED → n % 64 < 32) (hF : lead.toNat = 0xF0 → 16 ≤ n % 64)
    (h4 : lead.toNat = 0xF4 → n % 64 < 16) : isSecond lead (tailByte n) = true := by
  simp only [isSecond, isTail_tailByte, UInt8.le_iff_toNat_le, toNat_tailByte, ← UInt8.toNat_inj,
    UInt8.reduceToNat]
  split_ifs <;> simp <;> omega

section

variable {lead : UInt8}

theorem tailCount?_eq_zero (h : lead.toNat < 0x80) : tailCount? lead = some 0 := by
  rw [tailCount?, if_pos (UInt8.lt_iff_toNat_lt.mpr h)]

theorem tailCount?_eq_one (h : 0xC2 ≤ lead.toNat) (h' : lead.toNat ≤ 0xDF) :
    tailCount? lead = some 1 := by
  simp only [tailCount?, UInt8.lt_iff_toNat_lt, UInt8.le_iff_toNat_le, UInt8.reduceToNat,
    Bool.and_eq_true, decide_eq_true_eq]
  rw [if_neg (by omega), if_pos ⟨h, h'⟩]

theorem tailCount?_eq_two (h : 0xE0 ≤ lead.toNat) (h' : lead.toNat ≤ 0xEF) :
    tailCount? lead = some 2 := by
  simp only [tailCount?, UInt8.lt_iff_toNat_lt, UInt8.le_iff_toNat_le, UInt8.reduceToNat,
    Bool.and_eq_true, decide_eq_true_eq]
  rw [if_neg (by omega), if_neg (by omega), if_pos ⟨h, h'⟩]

theorem tailCount?_eq_three (h : 0xF0 ≤ lead.toNat) (h' : lead.toNat ≤ 0xF4) :
    tailCount? lead = some 3 := by
  simp only [tailCount?, UInt8.lt_iff_toNat_lt, UInt8.le_iff_toNat_le, UInt8.reduceToNat,
    Bool.and_eq_true, decide_eq_true_eq]
  rw [if_neg (by omega), if_neg (by omega), if_neg (by omega), if_pos ⟨h, h'⟩]

end

/-! ## Characters -/

theorem toNat_leadByte {n : Nat} (h : n < 256) : (UInt8.ofNat n).toNat = n := by
  rw [UInt8.toNat_ofNat']
  omega

/-- The code point of a character is no surrogate, and there is none above U+10FFFF. -/
theorem toNat_bounds (c : Char) : c.toNat < 0xD800 ∨ 0xDFFF < c.toNat ∧ c.toNat < 0x110000 := c.valid

/-- The reader finds a character at the start of its bytes, whatever follows them. -/
theorem step_encodeChar (c : Char) (rest : List UInt8) : ∃ lead tail,
    String.utf8EncodeChar c = lead :: tail ∧ step lead (tail ++ rest) = (some c, rest) := by
  have hbounds := toNat_bounds c
  have hself : Char.ofNat c.toNat = c := Char.ofNat_toNat c
  rw [String.utf8EncodeChar, show c.val.toNat = c.toNat from rfl]
  generalize c.toNat = n at hbounds hself
  split_ifs with h1 h2 h3
  · refine ⟨_, _, rfl, ?_⟩
    have hlead := toNat_leadByte (n := n) (by omega)
    have hcount : tailCount? (UInt8.ofNat n) = some 0 := tailCount?_eq_zero (by omega)
    simp only [step, hcount, hlead, hself, List.nil_append]
  · refine ⟨_, [tailByte n], rfl, ?_⟩
    have hlead := toNat_leadByte (n := n / 64 % 0x20 + 0xC0) (by omega)
    have hcode : (n / 64 % 0x20 + 0xC0) % 32 * 64 + n % 64 = n := by omega
    have hcount : tailCount? (UInt8.ofNat (n / 64 % 0x20 + 0xC0)) = some 1 :=
      tailCount?_eq_one (by omega) (by omega)
    simp only [step, hcount, List.cons_append, List.nil_append, isTail_tailByte, push_tailByte, hlead,
      hcode, hself, if_true]
  · refine ⟨_, [tailByte (n / 64), tailByte n], rfl, ?_⟩
    have hlead := toNat_leadByte (n := n / 4096 % 0x10 + 0xE0) (by omega)
    have hcode : ((n / 4096 % 0x10 + 0xE0) % 16 * 64 + n / 64 % 64) * 64 + n % 64 = n := by omega
    have hsecond : isSecond (UInt8.ofNat (n / 4096 % 0x10 + 0xE0)) (tailByte (n / 64)) = true := by
      apply isSecond_tailByte <;> omega
    have hcount : tailCount? (UInt8.ofNat (n / 4096 % 0x10 + 0xE0)) = some 2 :=
      tailCount?_eq_two (by omega) (by omega)
    simp only [step, hcount, hsecond, List.cons_append, List.nil_append, isTail_tailByte, push_tailByte,
      hlead, hcode, hself, if_true]
  · refine ⟨_, [tailByte (n / 4096), tailByte (n / 64), tailByte n], rfl, ?_⟩
    have hlead := toNat_leadByte (n := n / 262144 % 0x08 + 0xF0) (by omega)
    have hcode : (((n / 262144 % 0x08 + 0xF0) % 8 * 64 + n / 4096 % 64) * 64 + n / 64 % 64) * 64 +
        n % 64 = n := by omega
    have hsecond : isSecond (UInt8.ofNat (n / 262144 % 0x08 + 0xF0)) (tailByte (n / 4096)) = true := by
      apply isSecond_tailByte <;> omega
    have hcount : tailCount? (UInt8.ofNat (n / 262144 % 0x08 + 0xF0)) = some 3 :=
      tailCount?_eq_three (by omega) (by omega)
    simp only [step, hcount, hsecond, List.cons_append, List.nil_append, isTail_tailByte, push_tailByte,
      hlead, hcode, hself, if_true]

/-! ## Texts -/

theorem scan_encodeChars (cs : List Char) : scan (encodeChars cs) = cs.map some := by
  induction cs with
  | nil =>
    rw [encodeChars, List.flatMap_nil, scan]
    rfl
  | cons c cs ih =>
    obtain ⟨lead, tail, hbytes, hstep⟩ := step_encodeChar c (encodeChars cs)
    have hcons : encodeChars (c :: cs) = lead :: (tail ++ encodeChars cs) := by
      rw [encodeChars, List.flatMap_cons, hbytes]
      rfl
    rw [hcons, scan, hstep, ih, List.map_cons]

/-- The bytes of a text stand for the text. -/
theorem decode_encodeChars (cs : List Char) : decode (encodeChars cs) = String.ofList cs := by
  simp [decode, decodeChars, scan_encodeChars, Function.comp_def]

theorem decode_encode (s : String) : decode (encode s) = s := by
  rw [encode, decode_encodeChars, String.ofList_toList]

/-- Only a character of ASCII has a byte of ASCII. -/
theorem mem_encodeChar_of_lt {b : UInt8} (hb : b.toNat < 0x80) {c : Char}
    (h : b ∈ String.utf8EncodeChar c) : b.toNat = c.toNat := by
  rw [String.utf8EncodeChar, show c.val.toNat = c.toNat from rfl] at h
  generalize c.toNat = n at h
  -- A byte of a character beyond ASCII is no less than 0x80.
  have habove {m : Nat} (hm : 0x80 ≤ m) (hm' : m < 0x100) : b ≠ UInt8.ofNat m := by
    rintro rfl
    rw [toNat_leadByte hm'] at hb
    omega
  split_ifs at h
  all_goals simp only [List.mem_cons, List.not_mem_nil, or_false] at h
  · rw [h]
    exact toNat_leadByte (by omega)
  · rcases h with h | h
    all_goals exact absurd h (habove (by omega) (by omega))
  · rcases h with h | h | h
    all_goals exact absurd h (habove (by omega) (by omega))
  · rcases h with h | h | h | h
    all_goals exact absurd h (habove (by omega) (by omega))

theorem mem_encode_of_lt {b : UInt8} (hb : b.toNat < 0x80) {s : String} (h : b ∈ encode s) :
    ∃ c ∈ s.toList, c.toNat = b.toNat := by
  obtain ⟨c, hc, hbc⟩ := List.mem_flatMap.mp h
  exact ⟨c, hc, (mem_encodeChar_of_lt hb hbc).symm⟩

end MachineInterface.Text.Utf8

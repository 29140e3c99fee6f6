import MachineInterface.Proofs.Session.Scoping
import MachineInterface.Proofs.Text.Digits

/-!
# Memory references

A reference starts with an address, in decimal or hexadecimal digits. The offset is added to it as
whole numbers are, and a sum that is no address is an error.

* `ofReference?_eq_some_iff`: the address at the start of a reference is read, and nothing else is.
* `words_readCommand`, `ofReference?_word`: the address in a command is read back as the address.
* `reads_where_referred`: what is read is the memory at exactly the sum, or nothing.
-/

namespace MachineInterface

open Text

namespace Text

/-- A text with a character that is no blank has something left when it is trimmed. -/
theorem trimChars_ne_nil {c : Char} {cs : List Char} (hc : c ∈ cs) (hblank : isBlank c = false) :
    trimChars cs ≠ [] := by
  have hstart : c ∈ dropBlanks cs := by
    rw [← List.takeWhile_append_dropWhile (p := isBlank) (l := cs)] at hc
    refine (List.mem_append.mp hc).resolve_left fun h => ?_
    cases hblank.symm.trans (List.all_eq_true.mp List.all_takeWhile c h)
  intro hnil
  have hall : ∀ x ∈ (dropBlanks cs).reverse, isBlank x = true :=
    List.dropWhile_eq_nil_iff.mp (List.reverse_eq_nil_iff.mp hnil)
  cases hblank.symm.trans (hall c (List.mem_reverse.mpr hstart))

/-- A word that a blank or nothing follows is the first of a text. -/
theorem head?_charWords {word rest : List Char} (hne : word ≠ [])
    (hword : ∀ c ∈ word, isBlank c = false) (hrest : ∀ c ∈ rest.head?, isBlank c = true) :
    (charWords (word ++ rest)).head? = some word := by
  cases rest with
  | nil => rw [List.append_nil, charWords_of_unblank hne hword, List.head?_cons]
  | cons b more =>
    rw [charWords_append_blank (hrest b rfl), charWords_of_unblank hne hword,
      List.singleton_append, List.head?_cons]

theorem words_of_unblank {s : String} (hne : s.toList ≠ [])
    (h : ∀ c ∈ s.toList, isBlank c = false) : words s = [s] := by
  rw [words, charWords_of_unblank hne h, List.map_singleton, String.ofList_toList]

end Text

namespace Text.Numeral

/-- A number is read from its digits, with or without a plus sign in front. -/
theorem readNat?_eq_some_iff {base bound n : Nat} {cs : List Char} (hlow : 1 < base)
    (hhigh : base ≤ 16) : readNat? base bound cs = some n ↔
      (∃ sign digits, cs = sign ++ digits ∧ (sign = [] ∨ sign = ['+']) ∧ Spells base n digits) ∧
        n < bound := by
  constructor
  · intro h
    have hbound := readNat?_lt h
    unfold readNat? at h
    dsimp only at h
    split at h
    · rename_i digits
      have hvalue := (Option.filter_eq_some_iff.mp h).1
      exact ⟨⟨['+'], digits, rfl, .inr rfl, (spells_iff_value? hlow hhigh).mpr hvalue⟩, hbound⟩
    · have hvalue := (Option.filter_eq_some_iff.mp h).1
      exact ⟨⟨[], cs, rfl, .inl rfl, (spells_iff_value? hlow hhigh).mpr hvalue⟩, hbound⟩
  · rintro ⟨⟨sign, digits, rfl, rfl | rfl, hdigits⟩, hbound⟩
    · exact readNat?_of_value? (hdigits.value? hlow hhigh) hbound
    · have hvalue := hdigits.value? hlow hhigh
      rw [List.singleton_append, readNat?, hvalue, Option.filter_some,
        if_pos (by simpa using hbound)]

end Text.Numeral

namespace Address

variable {a : UInt64} {cs : List Char}

/-! ## Words -/

/-- A number of 64 bits with or without a plus sign in front. -/
def Signed (base : Nat) (a : UInt64) (cs : List Char) : Prop :=
  ∃ sign digits, cs = sign ++ digits ∧ (sign = [] ∨ sign = ['+']) ∧
    Numeral.Spells base a.toNat digits

theorem readUInt64?_eq_some_iff {base : Nat} (hlow : 1 < base) (hhigh : base ≤ 16) :
    Numeral.readUInt64? base cs = some a ↔ Signed base a cs := by
  rw [Numeral.readUInt64?, Option.map_eq_some_iff]
  constructor
  · rintro ⟨n, hn, rfl⟩
    obtain ⟨hsigned, hbound⟩ := (Numeral.readNat?_eq_some_iff hlow hhigh).mp hn
    rwa [Signed, UInt64.toNat_ofNat_of_lt' hbound]
  · intro h
    exact ⟨a.toNat, (Numeral.readNat?_eq_some_iff hlow hhigh).mpr ⟨h, a.toNat_lt⟩,
      UInt64.ofNat_toNat⟩

/-- The words that are read as an address: in decimal, or in hexadecimal after `0x` or `0X`. -/
inductive Denotes (a : UInt64) : List Char → Prop
  | decimal {cs : List Char} (h : Signed 10 a cs) : Denotes a cs
  | hex {cs : List Char} {x : Char} (hx : x = 'x' ∨ x = 'X') (h : Signed 16 a cs) :
    Denotes a ('0' :: x :: cs)

/-- After a first zero only digits stand in a decimal number. -/
theorem Signed.isDigit {x : Char} (h : Signed 10 a ('0' :: x :: cs)) :
    Numeral.isDigit x = true := by
  obtain ⟨sign, digits, hcs, rfl | rfl, hdigits⟩ := h
  · rw [List.nil_append] at hcs
    exact hdigits.isDigit x (hcs ▸ by simp)
  · cases hcs

theorem Denotes.ofWord? (h : Denotes a cs) : ofWord? cs = some a := by
  cases h with
  | decimal h =>
    unfold Address.ofWord?
    split
    · cases h.isDigit
    · cases h.isDigit
    · exact (readUInt64?_eq_some_iff (by omega) (by omega)).mpr h
  | hex hx h =>
    have hread := (readUInt64?_eq_some_iff (by omega) (by omega)).mpr h
    rcases hx with rfl | rfl
    · exact hread
    · exact hread

/-- A word is read as the address that it denotes. -/
theorem ofWord?_eq_some_iff : ofWord? cs = some a ↔ Denotes a cs := by
  refine ⟨fun h => ?_, Denotes.ofWord?⟩
  unfold Address.ofWord? at h
  split at h
  · exact .hex (.inl rfl) ((readUInt64?_eq_some_iff (by omega) (by omega)).mp h)
  · exact .hex (.inr rfl) ((readUInt64?_eq_some_iff (by omega) (by omega)).mp h)
  · exact .decimal ((readUInt64?_eq_some_iff (by omega) (by omega)).mp h)

theorem Signed.unblank {base : Nat} (hlow : 1 < base) (hhigh : base ≤ 16) (h : Signed base a cs) :
    cs ≠ [] ∧ ∀ c ∈ cs, isBlank c = false := by
  obtain ⟨sign, digits, rfl, hsign, hdigits⟩ := h
  have hplus : isBlank '+' = false := by decide
  refine ⟨fun hnil => hdigits.ne_nil (List.append_eq_nil_iff.mp hnil).2, ?_⟩
  rw [List.forall_mem_append]
  refine ⟨?_, fun c hc => isBlank_of_isAlphanumeric
    (Numeral.isAlphanumeric_of_value? (hdigits.value? hlow hhigh) c hc)⟩
  rcases hsign with rfl | rfl
  · simp
  · simpa using hplus

theorem Denotes.unblank (h : Denotes a cs) : cs ≠ [] ∧ ∀ c ∈ cs, isBlank c = false := by
  have hmarks : isBlank '0' = false ∧ isBlank 'x' = false ∧ isBlank 'X' = false := by decide
  cases h with
  | decimal h => exact h.unblank (by omega) (by omega)
  | hex hx h =>
    refine ⟨List.cons_ne_nil _ _, List.forall_mem_cons.mpr ⟨hmarks.1, List.forall_mem_cons.mpr
      ⟨?_, (h.unblank (by omega) (by omega)).2⟩⟩⟩
    rcases hx with rfl | rfl
    · exact hmarks.2.1
    · exact hmarks.2.2

/-- The words that stand for an address: decimal digits, or hexadecimal ones after `0x` or `0X`. -/
inductive Written (a : UInt64) : List Char → Prop
  | decimal {cs : List Char} (h : Numeral.Spells 10 a.toNat cs) : Written a cs
  | hex {cs : List Char} {x : Char} (hx : x = 'x' ∨ x = 'X') (h : Numeral.Spells 16 a.toNat cs) :
    Written a ('0' :: x :: cs)

theorem Written.denotes (h : Written a cs) : Denotes a cs := by
  cases h with
  | decimal h => exact .decimal ⟨[], _, rfl, .inl rfl, h⟩
  | hex hx h => exact .hex hx ⟨[], _, rfl, .inl rfl, h⟩

/-! ## References -/

/-- A text that starts with an address: a blank or nothing comes after its word. -/
def Opens (text : List Char) (a : UInt64) : Prop :=
  ∃ blanks word rest, text = blanks ++ (word ++ rest) ∧ (∀ b ∈ blanks, isBlank b = true) ∧
    Denotes a word ∧ ∀ c ∈ rest.head?, isBlank c = true

/-- The first word of a text stands after its leading blanks. -/
theorem exists_of_head?_charWords {word : List Char} (h : (charWords cs).head? = some word) :
    ∃ blanks rest, cs = blanks ++ (word ++ rest) ∧ (∀ b ∈ blanks, isBlank b = true) ∧
      ∀ c ∈ rest.head?, isBlank c = true := by
  have hblanks : ∀ b ∈ cs.takeWhile isBlank, isBlank b = true :=
    fun b hb => List.all_eq_true.mp List.all_takeWhile b hb
  have hcs : cs = cs.takeWhile isBlank ++ cs.dropWhile isBlank :=
    List.takeWhile_append_dropWhile.symm
  have hstart := List.head?_dropWhile_not isBlank cs
  rw [hcs, charWords_blanks_append hblanks] at h
  generalize cs.dropWhile isBlank = tail at h hcs hstart
  cases tail with
  | nil => cases h
  | cons c tail =>
    have hc : (!isBlank c) = true := by simpa using hstart
    have hsplit : c :: tail = (c :: tail).takeWhile (!isBlank ·) ++
        (c :: tail).dropWhile (!isBlank ·) := List.takeWhile_append_dropWhile.symm
    have hne : (c :: tail).takeWhile (!isBlank ·) ≠ [] := by
      rw [List.takeWhile_cons, hc, if_pos rfl]
      exact List.cons_ne_nil _ _
    have hword : ∀ x ∈ (c :: tail).takeWhile (!isBlank ·), isBlank x = false := fun x hx => by
      simpa using List.all_eq_true.mp List.all_takeWhile x hx
    have hrest : ∀ x ∈ ((c :: tail).dropWhile (!isBlank ·)).head?, isBlank x = true :=
      fun x hx => by
        have hhead := List.head?_dropWhile_not (!isBlank ·) (c :: tail)
        rw [Option.mem_def.mp hx] at hhead
        simpa using hhead
    rw [hsplit, head?_charWords hne hword hrest] at h
    rw [Option.some.inj h] at hsplit
    exact ⟨_, _, hcs.trans (congrArg _ hsplit), hblanks, hrest⟩

/-- The address at the start of a text is read, and nothing else is. -/
theorem ofReference?_eq_some_iff {reference : String} :
    ofReference? reference = some a ↔ Opens reference.toList a := by
  rw [ofReference?, Option.bind_eq_some_iff]
  constructor
  · rintro ⟨word, hfirst, hword⟩
    obtain ⟨blanks, rest, hcs, hblanks, hrest⟩ := exists_of_head?_charWords hfirst
    exact ⟨blanks, word, rest, hcs, hblanks, ofWord?_eq_some_iff.mp hword, hrest⟩
  · rintro ⟨blanks, word, rest, hcs, hblanks, hword, hrest⟩
    obtain ⟨hne, hunblank⟩ := hword.unblank
    exact ⟨word, by rw [hcs, charWords_blanks_append hblanks, head?_charWords hne hunblank hrest],
      hword.ofWord?⟩

theorem Opens.trimChars_ne_nil (h : Opens cs a) : trimChars cs ≠ [] := by
  obtain ⟨blanks, word, rest, rfl, -, hword, -⟩ := h
  obtain ⟨hne, hunblank⟩ := hword.unblank
  obtain ⟨c, word, rfl⟩ := List.exists_cons_of_ne_nil hne
  refine Text.trimChars_ne_nil (c := c) ?_ (hunblank c List.mem_cons_self)
  simp

/-- The error for an offset that leads from a reference to no address. -/
def overflow (reference : String) (offset : Int) : Error :=
  .invalidArgument ("memory offset " ++ toString offset ++ " overflows " ++ reference)

variable {reference : String} {base : UInt64}

/-- A reference that starts with an address stands for it, moved by the offset if that is one. -/
theorem Opens.resolve (h : Opens reference.toList base) (offset : Int) :
    resolve reference offset = (offset? base offset).elim (.error (overflow reference offset)) .ok
    := by
  have hsome : (trimChars reference.toList).isEmpty = false := by
    simpa using h.trimChars_ne_nil
  rw [Address.resolve, hsome, ofReference?_eq_some_iff.mpr h]
  simp only [Bool.false_eq_true, if_false]
  cases offset? base offset with
  | none => rfl
  | some a => rfl

/--
A reference starts with an address: there may be blanks in front of it, and what comes after it
starts with a blank.
-/
def Refers (reference : String) (base : UInt64) : Prop :=
  ∃ blanks word rest, reference.toList = blanks ++ (word ++ rest) ∧
    (∀ b ∈ blanks, isBlank b = true) ∧ Written base word ∧ ∀ c ∈ rest.head?, isBlank c = true

theorem Refers.opens (h : Refers reference base) : Opens reference.toList base := by
  obtain ⟨blanks, word, rest, hreference, hblanks, hword, hrest⟩ := h
  exact ⟨blanks, word, rest, hreference, hblanks, hword.denotes, hrest⟩

theorem Refers.resolve (h : Refers reference base) (offset : Int) :
    resolve reference offset = (offset? base offset).elim (.error (overflow reference offset)) .ok
    := h.opens.resolve offset

/-- A reference and an offset stand for their sum. -/
theorem Refers.resolve_eq_ok_iff (h : Refers reference base) (offset : Int) :
    Address.resolve reference offset = .ok a ↔ (base.toNat : Int) + offset = a.toNat := by
  rw [← offset?_eq_some_iff, h.resolve]
  cases offset? base offset <;> simp

/-- A sum that is no address is an error. -/
theorem Refers.resolve_of_outside (h : Refers reference base) {offset : Int}
    (hout : ¬ (0 ≤ base.toNat + offset ∧ base.toNat + offset < 0x10000000000000000)) :
    Address.resolve reference offset = .error (overflow reference offset) := by
  rw [h.resolve, offset?, if_neg hout]
  rfl

/-! ## Commands -/

/-- The word for an address in a command. -/
def word (a : UInt64) : String := "0x" ++ String.ofList (Numeral.hexPadded 16 a.toNat)

theorem written_word (a : UInt64) : Written a (word a).toList := by
  have hstart : "0x".toList = ['0', 'x'] := by decide
  rw [word, String.toList_append, hstart, String.toList_ofList, List.cons_append, List.cons_append,
    List.nil_append]
  exact .hex (.inl rfl) (Numeral.spells_hexPadded 16 a.toNat)

/-- The address in a command is read back as the address. -/
theorem ofReference?_word (a : UInt64) : ofReference? (word a) = some a :=
  ofReference?_eq_some_iff.mpr
    ⟨[], (word a).toList, [], by simp, by simp, (written_word a).denotes, by simp⟩

/-- A command to read memory consists of its name, the address and the count. -/
theorem words_readCommand (a count : UInt64) :
    words (readCommand a count) = ["data-read-memory-bytes", word a, toString count.toNat] := by
  have hstart : "data-read-memory-bytes 0x" =
      "data-read-memory-bytes" ++ String.ofList [' '] ++ "0x" := by decide
  have hspace : " " = String.ofList [' '] := rfl
  have htext : readCommand a count = "data-read-memory-bytes" ++ String.ofList [' '] ++
      (word a ++ String.ofList [' '] ++ toString count.toNat) := by
    unfold readCommand word
    rewrite [hstart, hspace]
    simp only [String.append_assoc]
  have hletters : "data-read-memory-bytes".toList.all (!isBlank ·) = true := by decide
  have hname : words "data-read-memory-bytes" = ["data-read-memory-bytes"] :=
    words_of_unblank (by decide) fun c hc => by simpa using List.all_eq_true.mp hletters c hc
  have hdigits : (toString count.toNat).toList = Nat.toDigits 10 count.toNat :=
    String.toList_ofList
  have hcount : words (toString count.toNat) = [toString count.toNat] := by
    refine words_of_unblank ?_ ?_
    · rw [hdigits]
      exact Nat.toDigits_ne_nil
    · rw [hdigits]
      exact Numeral.forall_mem_toDigits (by omega) (by decide) _
  have hword := (written_word a).denotes.unblank
  rw [htext, words_append_blank (by decide), words_append_blank (by decide), hname,
    words_of_unblank hword.1 hword.2, hcount]
  rfl

end Address

/-! ## Reads -/

namespace Session

variable {reference : String} {base a : UInt64} {offset : Int}

theorem readMemory_of_error {e : Error} (h : Address.resolve reference offset = .error e)
    (count : UInt64) : (readMemory reference offset count).run = .done (.error e) := by
  rw [readMemory, h]
  rfl

/-- The first section of a read writes the command for the address. -/
theorem stride_readMemory (h : Address.resolve reference offset = .ok a) {count : UInt64}
    (hcount : count ≠ 0) (s : Session) :
    ((readMemory reference offset count).run.stride s).2 =
      (s.issue (Address.readCommand a count) true).2 := by
  rw [readMemory, h]
  simp only [if_neg hcount]
  rfl

/-- A read writes the command for the address and no other one. -/
theorem writes_readMemory (reference : String) (offset : Int) (count : UInt64) :
    (readMemory reference offset count).Writes (fun _ => True)
      (fun text => ∃ a, Address.resolve reference offset = .ok a ∧
        text = Address.readCommand a count) fun _ => True := by
  unfold readMemory
  refine CallM.writes_bind (CallM.writes_except fun a h => h) fun a ha => ?_
  split
  · exact CallM.writes_pure trivial
  · refine CallM.writes_bind (CallM.writes_send ⟨a, ha, rfl⟩ true) fun answer _ => ?_
    split
    · exact CallM.writes_except fun _ _ => trivial
    · split
      · exact CallM.writes_pure trivial
      · exact CallM.writes_throw _

/-- What a call writes that reads memory at an address. -/
structure ReadsAt (c : CallM MemoryRead) (a count : UInt64) : Prop where
  /-- A debugger that reads is asked at once. -/
  asks : ∀ s : Session, s.link = .open → (c.run.stride s).2.outbox =
    s.outbox ++ [.command s.exchange.freeToken (Address.readCommand a count)]
  /-- Nothing else is written, whatever happens between its sections. -/
  only : ∀ us, ∀ o ∈ c.run.written us, ∃ token, o = .command token (Address.readCommand a count)

theorem readsAt_readMemory (h : Address.resolve reference offset = .ok a) {count : UInt64}
    (hcount : count ≠ 0) : ReadsAt (readMemory reference offset count) a count where
  asks s hs := by rw [stride_readMemory h hcount, issue_of_open hs]
  only us o ho := by
    have hwrites := writes_readMemory reference offset count
    obtain ⟨token, text, rfl, a', ha', rfl⟩ := hwrites.written (fun _ _ => trivial) o ho
    cases h.symm.trans ha'
    exact ⟨token, rfl⟩

/--
However the address at its start is written, a reference and an offset stand for exactly their sum.
Where the sum is no address, a read fails before anything is written. Where it is one, all that a
read of some bytes writes is the command for it, in which the address is read back as the sum.
-/
theorem reads_where_referred {reference : String} {base : UInt64}
    (href : Address.Refers reference base) (offset : Int) (count : UInt64) :
    (∀ a, Address.resolve reference offset = .ok a ↔ (base.toNat : Int) + offset = a.toNat) ∧
    (¬ (0 ≤ base.toNat + offset ∧ base.toNat + offset < 0x10000000000000000) →
      Address.resolve reference offset = .error (Address.overflow reference offset) ∧
      (readMemory reference offset count).run =
        .done (.error (Address.overflow reference offset))) ∧
    (0 ≤ base.toNat + offset ∧ base.toNat + offset < 0x10000000000000000 →
      ∃ a, Address.resolve reference offset = .ok a ∧
        (count ≠ 0 → ReadsAt (readMemory reference offset count) a count ∧
          ∃ word, words (Address.readCommand a count) =
              ["data-read-memory-bytes", word, toString count.toNat] ∧
            Address.ofReference? word = some a)) := by
  refine ⟨fun a => href.resolve_eq_ok_iff offset, fun hout => ?_, fun hin => ?_⟩
  · have herror := href.resolve_of_outside hout
    exact ⟨herror, readMemory_of_error herror count⟩
  · have hsum : (base.toNat : Int) + offset =
        (UInt64.ofNat (base.toNat + offset).toNat).toNat := by
      rw [UInt64.toNat_ofNat']
      omega
    have hok := (href.resolve_eq_ok_iff offset).mpr hsum
    refine ⟨_, hok, fun hcount => ⟨readsAt_readMemory hok hcount, ?_⟩⟩
    exact ⟨_, Address.words_readCommand _ count, Address.ofReference?_word _⟩

/-- Capitals, zeros and blanks around the address, and offsets that go back, one of them too far. -/
theorem reads_where_referred_capitals :
    let reference := "\t 0X00fF (main)"
    Address.Refers reference 0xFF ∧ Address.resolve reference (-16) = .ok 0xEF ∧
      ReadsAt (readMemory reference (-16) 4) 0xEF 4 ∧
      Address.resolve reference (-256) = .error (Address.overflow reference (-256)) := by
  intro reference
  have href : Address.Refers reference 0xFF :=
    ⟨"\t ".toList, "0X00fF".toList, " (main)".toList, by decide,
      List.all_eq_true.mp (by decide : "\t ".toList.all isBlank = true),
      .hex (.inr rfl) ⟨2, by decide⟩, by rintro c ⟨⟩; rfl⟩
  obtain ⟨hsum, -, hinside⟩ := reads_where_referred href (-16) 4
  obtain ⟨-, houtside, -⟩ := reads_where_referred href (-256) 4
  have hresolve := (hsum 0xEF).mpr (by decide)
  obtain ⟨a, ha, hreads⟩ := hinside (by decide)
  cases hresolve.symm.trans ha
  exact ⟨href, hresolve, (hreads (by decide)).1, (houtside (by decide)).1⟩

end Session

end MachineInterface

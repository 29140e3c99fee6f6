import MachineInterface.Memory.Read
import MachineInterface.Proofs.Text.Base64
import MachineInterface.Proofs.Text.Digits
import Mathlib.Data.List.TakeWhile

/-!
# Answers to memory reads

An answer holds where its bytes start, in two parts, and the bytes as hexadecimal text. It is taken
only if the two parts make up the address that was asked for.

* `text?_memory`: what is read from an answer are the constants of its first entry.
* `decodeHex_of_hexText`: hexadecimal text in either case is read as its bytes, up to the limit.
* `bytes_of_answer`: which answers are taken, what is read from these, and why others are not.
-/

namespace MachineInterface

open Text

/-! ## The first entry -/

theorem Segment.ofChars?_name {cs : List Char} (h : '[' ∉ cs) :
    Segment.ofChars? cs = some ⟨String.ofList cs, []⟩ := by
  have hall : ∀ c ∈ cs, (c != '[') = true := fun c hc => by
    simpa using fun heq : c = '[' => h (heq ▸ hc)
  have hpositions : readPositions? [] = some [] := by simp [readPositions?]
  rw [ofChars?, List.takeWhile_eq_self_iff.mpr hall, List.dropWhile_eq_nil_iff.mpr hall, hpositions,
    Option.map_some]

/-- A path to a name below the first value. -/
theorem Path.ofChars?_first {cs : List Char} (h : ∀ c ∈ cs, c ≠ '.' ∧ c ≠ '[') :
    Path.ofChars? ('[' :: '0' :: ']' :: '.' :: cs) = some [⟨"", [0]⟩, ⟨String.ofList cs, []⟩] := by
  have hpoint : ∀ c ∈ cs, (c == '.') = false := fun c hc => by simpa using (h c hc).1
  have hbracket : '[' ∉ cs := fun hc => (h '[' hc).2 rfl
  have hsplit : ('[' :: '0' :: ']' :: '.' :: cs).splitOn '.' = [['[', '0', ']'], cs] := by
    rw [List.splitOn_eq_splitOnP]
    have hfirst : ∀ c ∈ ['[', '0', ']'], (c == '.') = false := by simp
    exact (List.splitOnP_append_cons_of_forall_mem hfirst '.' (by decide) cs).trans
      (congrArg _ (List.splitOnP_eq_singleton hpoint))
  have hzero : Segment.ofChars? ['[', '0', ']'] = some ⟨"", [0]⟩ := by decide +kernel
  rw [Path.ofChars?, hsplit]
  simp only [List.mapM_cons, List.mapM_nil, hzero, Segment.ofChars?_name hbracket]
  rfl

namespace ResultRecord

/-- The constant with a name in the first entry of the memory that an answer holds. -/
def memoryText? (answer : ResultRecord) (name : String) : Option String :=
  (((Field.find? "memory" answer.fields).bind (·.at? 0)).bind (·.get? name)).bind Value.text?

/-- The number with a name in the first entry of the memory that an answer holds. -/
def memoryNumber? (answer : ResultRecord) (name : String) : Option UInt64 :=
  (answer.memoryText? name).bind Address.ofReference?

/-- Whether a name stands for itself in a path. -/
def isPlainName (name : String) : Bool :=
  name != "" && name.toList.all fun c => c != '.' && c != '['

/-- What is read from an answer are the constants of its first entry. -/
theorem text?_memory (answer : ResultRecord) {name : String} (hname : isPlainName name = true) :
    answer.text? ("memory[0]." ++ name) = answer.memoryText? name := by
  simp only [isPlainName, Bool.and_eq_true, bne_iff_ne, List.all_eq_true] at hname
  obtain ⟨hne, hplain⟩ := hname
  have hstart : "memory[0].".toList =
      ['m', 'e', 'm', 'o', 'r', 'y', '[', '0', ']', '.'] := by decide
  have hpath : ("memory[0]." ++ name).toList =
      'm' :: 'e' :: 'm' :: 'o' :: 'r' :: 'y' :: '[' :: '0' :: ']' :: '.' :: name.toList := by
    rw [String.toList_append, hstart]
    rfl
  have hlookup : Field.lookup? answer.fields ("memory[0]." ++ name) =
      (Field.find? "memory" answer.fields).bind
        (·.lookupChars? ('[' :: '0' :: ']' :: '.' :: name.toList)) := by
    rw [Field.lookup?, hpath]
    rfl
  have hvalue (v : Value) : v.lookupChars? ('[' :: '0' :: ']' :: '.' :: name.toList) =
      (v.at? 0).bind (·.get? name) := by
    have hhere : v.step? ⟨"", [0]⟩ = v.at? 0 := by
      simp [Value.step?]
    have hnamed (w : Value) : w.step? ⟨name, []⟩ = w.get? name := by
      simp [Value.step?, hne]
    rw [Value.lookupChars?, Path.ofChars?_first hplain, String.ofList_toList, Option.bind_some,
      Value.resolve?, List.foldlM_cons, hhere]
    simp [hnamed]
  rw [text?, Field.lookupText?, hlookup, memoryText?]
  simp only [hvalue, Option.bind_assoc]

end ResultRecord

/-! ## Hexadecimal text -/

namespace Memory

/-- The hexadecimal text of some bytes. -/
def hexText (bytes : List UInt8) : List Char :=
  bytes.flatMap fun b => [Nat.digitChar (b.toNat / 16), Nat.digitChar (b.toNat % 16)]

theorem readNat?_pair {x y : Char} {b : UInt8} (hx : x.toLower = Nat.digitChar (b.toNat / 16))
    (hy : y.toLower = Nat.digitChar (b.toNat % 16)) :
    Numeral.readNat? 16 256 [x, y] = some b.toNat := by
  have hb := b.toNat_lt
  have hhigh := Numeral.digitValue?_digitChar (Nat.le_refl 16) (by omega : b.toNat / 16 < 16)
  have hlow := Numeral.digitValue?_digitChar (Nat.le_refl 16) (by omega : b.toNat % 16 < 16)
  have hvalue : Numeral.value? 16 [x, y] = some b.toNat := by
    rw [← Numeral.value?_map_toLower]
    simp only [List.map_cons, List.map_nil, hx, hy, Numeral.value?, Numeral.valueFrom?, hhigh, hlow,
      Option.bind_some, Nat.zero_mul, Nat.zero_add, Nat.div_add_mod']
  exact Numeral.readNat?_of_value? hvalue hb

/-- Hexadecimal text in either case is read as its bytes, up to the limit. -/
theorem decodeHex_of_hexText {cs : List Char} {bytes : List UInt8}
    (h : cs.map Char.toLower = hexText bytes) (limit : Nat) :
    decodeHex cs limit = bytes.take limit := by
  induction bytes generalizing cs limit with
  | nil =>
    cases List.map_eq_nil_iff.mp h
    simp [decodeHex]
  | cons b bytes ih =>
    rw [hexText, List.flatMap_cons] at h
    obtain ⟨x, cs, rfl, hx, h⟩ := List.map_eq_cons_iff.mp h
    obtain ⟨y, rest, rfl, hy, hrest⟩ := List.map_eq_cons_iff.mp h
    cases limit with
    | zero => simp [decodeHex]
    | succ limit =>
      simp only [decodeHex, readNat?_pair hx hy, ih hrest, UInt8.ofNat_toNat, List.take_succ_cons]

end Memory

/-! ## Answers -/

namespace MemoryRead

variable {command : String} {address count start offset : UInt64} {answer : ResultRecord}

theorem require_memory (answer : ResultRecord) (command : String) {name : String}
    (hname : ResultRecord.isPlainName name = true) :
    answer.require command ("memory[0]." ++ name) =
      (answer.memoryText? name).elim (.error (.missing command ("memory[0]." ++ name))) .ok := by
  rw [ResultRecord.require, answer.text?_memory hname]
  cases answer.memoryText? name <;> rfl

/-- The number with a name, as it is read from an answer. -/
def number (command : String) (answer : ResultRecord) (name : String) : Except Error UInt64 := do
  match Address.ofReference? (← answer.require command ("memory[0]." ++ name)) with
  | some n => return n
  | none => throw (.malformed command ("memory[0]." ++ name))

theorem number_of_some {name : String} {n : UInt64} (hname : ResultRecord.isPlainName name = true)
    (h : answer.memoryNumber? name = some n) : number command answer name = .ok n := by
  obtain ⟨text, htext, hn⟩ := Option.bind_eq_some_iff.mp h
  rw [number, require_memory answer command hname, htext]
  simp only [Option.elim, bind, Except.bind, hn]
  rfl

/-- A number that is not there, or that cannot be read, is an error. -/
theorem number_of_none (command : String) {name : String}
    (hname : ResultRecord.isPlainName name = true) (h : answer.memoryNumber? name = none) :
    ∃ fault ∈ ["missing ", "malformed "],
      number command answer name = .error (.decode command (fault ++ ("memory[0]." ++ name))) := by
  rw [number, require_memory answer command hname]
  cases htext : answer.memoryText? name with
  | none => exact ⟨"missing ", by decide, rfl⟩
  | some text =>
    have hnumber : Address.ofReference? text = none := by
      rwa [ResultRecord.memoryNumber?, htext, Option.bind_some] at h
    simp only [Option.elim, bind, Except.bind, hnumber]
    exact ⟨"malformed ", by decide, rfl⟩

/-- An answer is read in four steps. -/
theorem ofAnswer_eq (command : String) (address count : UInt64) (answer : ResultRecord) :
    ofAnswer command address count answer = do
      let start ← number command answer "begin"
      let offset ← number command answer "offset"
      if start + offset ≠ address then throw (.memoryAddressMismatch address (start + offset))
      let contents ← answer.require command ("memory[0]." ++ "contents")
      let bytes := Memory.decodeHex contents.toList count.toNat
      return ⟨address, bytes, Memory.unreadable address count (UInt64.ofNat bytes.length)⟩ := rfl

/-- Without one of the parts of where its bytes start, an answer is not taken. -/
theorem ofAnswer_of_no_number
    (h : answer.memoryNumber? "begin" = none ∨ answer.memoryNumber? "offset" = none) :
    ∃ fault ∈ ["missing ", "malformed "], ∃ name ∈ ["begin", "offset"],
      ofAnswer command address count answer =
        .error (.decode command (fault ++ ("memory[0]." ++ name))) := by
  rw [ofAnswer_eq]
  cases hstart : answer.memoryNumber? "begin" with
  | none =>
    obtain ⟨fault, hfault, herror⟩ := number_of_none command (by decide) hstart
    rw [herror]
    exact ⟨fault, hfault, "begin", by decide, rfl⟩
  | some start =>
    have hoffset := h.resolve_left (by rw [hstart]; exact Option.some_ne_none start)
    obtain ⟨fault, hfault, herror⟩ := number_of_none command (by decide) hoffset
    rw [number_of_some (by decide) hstart, herror]
    exact ⟨fault, hfault, "offset", by decide, rfl⟩

/-- What an answer with some contents says of a read of `count` bytes at an address. -/
def ofContents (address count : UInt64) (contents : String) : MemoryRead :=
  let bytes := Memory.decodeHex contents.toList count.toNat
  ⟨address, bytes, Memory.unreadable address count (UInt64.ofNat bytes.length)⟩

/-- With both parts, the sum decides, and then whether there are contents. -/
theorem ofAnswer_of_numbers (hstart : answer.memoryNumber? "begin" = some start)
    (hoffset : answer.memoryNumber? "offset" = some offset) :
    ofAnswer command address count answer =
      if start + offset ≠ address then .error (.memoryAddressMismatch address (start + offset))
      else (answer.memoryText? "contents").elim
        (.error (.missing command ("memory[0]." ++ "contents")))
        (.ok ∘ ofContents address count) := by
  have hcontents : ResultRecord.isPlainName "contents" = true := by decide
  rw [ofAnswer_eq, number_of_some (by decide) hstart, number_of_some (by decide) hoffset,
    require_memory answer command hcontents]
  simp only [bind, Except.bind, pure, Except.pure]
  split
  · rfl
  · cases answer.memoryText? "contents" <;> rfl

/-- Addresses are added modulo `2 ^ 64`. -/
theorem add_eq_iff : start + offset = address ↔
    (start.toNat + offset.toNat) % 0x10000000000000000 = address.toNat := by
  rw [← UInt64.toNat_inj, UInt64.toNat_add]

/-- What an answer must hold that is taken for a read at an address. -/
structure Holds (answer : ResultRecord) (address : UInt64) (contents : String) : Prop where
  sum : ∃ start offset, answer.memoryNumber? "begin" = some start ∧
    answer.memoryNumber? "offset" = some offset ∧
    (start.toNat + offset.toNat) % 0x10000000000000000 = address.toNat
  contents : answer.memoryText? "contents" = some contents

/-- An answer is taken exactly when it holds what it must. -/
theorem ofAnswer_eq_ok_iff {r : MemoryRead} : ofAnswer command address count answer = .ok r ↔
    ∃ contents, Holds answer address contents ∧ r = ofContents address count contents := by
  constructor
  · intro h
    cases hstart : answer.memoryNumber? "begin" with
    | none =>
      obtain ⟨fault, -, name, -, herror⟩ := ofAnswer_of_no_number (.inl hstart)
      cases h.symm.trans herror
    | some start =>
      cases hoffset : answer.memoryNumber? "offset" with
      | none =>
        obtain ⟨fault, -, name, -, herror⟩ := ofAnswer_of_no_number (.inr hoffset)
        cases h.symm.trans herror
      | some offset =>
        rw [ofAnswer_of_numbers hstart hoffset] at h
        split at h
        · cases h
        · rename_i hsum
          cases hcontents : answer.memoryText? "contents" with
          | none =>
            rw [hcontents] at h
            cases h
          | some contents =>
            rw [hcontents] at h
            have hsum := add_eq_iff.mp (not_not.mp hsum)
            exact ⟨contents, ⟨⟨start, offset, hstart, hoffset, hsum⟩, hcontents⟩,
              (Except.ok.inj h).symm⟩
  · rintro ⟨contents, ⟨⟨start, offset, hstart, hoffset, hsum⟩, hcontents⟩, rfl⟩
    rw [ofAnswer_of_numbers hstart hoffset, if_neg (not_not.mpr (add_eq_iff.mpr hsum)), hcontents]
    rfl

/--
An answer is taken exactly when it holds two parts that add up to the address that was asked for,
and contents. The bytes that are read are then those that the contents spell, as many as were asked
for, also after they were written as text and read again. Of what is missing, wrong or different, the
first is the error.
-/
theorem bytes_of_answer (command : String) (address count : UInt64) (answer : ResultRecord) :
    ((∃ r, ofAnswer command address count answer = .ok r) ↔
      ∃ contents, Holds answer address contents) ∧
    (∀ r contents bytes, ofAnswer command address count answer = .ok r →
      answer.memoryText? "contents" = some contents →
      contents.toList.map Char.toLower = Memory.hexText bytes →
      r.bytes = bytes.take count.toNat ∧
      Base64.decode? r.base64 = some (bytes.take count.toNat) ∧
      r.unreadable =
        Memory.unreadable address count (UInt64.ofNat (min bytes.length count.toNat))) ∧
    (∀ r, ofAnswer command address count answer = .ok r → r.address = address) ∧
    (answer.memoryNumber? "begin" = none ∨ answer.memoryNumber? "offset" = none →
      ∃ fault ∈ ["missing ", "malformed "], ∃ name ∈ ["begin", "offset"],
        ofAnswer command address count answer =
          .error (.decode command (fault ++ ("memory[0]." ++ name)))) ∧
    ∀ start offset, answer.memoryNumber? "begin" = some start →
      answer.memoryNumber? "offset" = some offset →
      ((start.toNat + offset.toNat) % 0x10000000000000000 ≠ address.toNat →
        ofAnswer command address count answer =
          .error (.memoryAddressMismatch address (start + offset))) ∧
      ((start.toNat + offset.toNat) % 0x10000000000000000 = address.toNat →
        answer.memoryText? "contents" = none →
        ofAnswer command address count answer =
          .error (.decode command "missing memory[0].contents")) := by
  refine ⟨⟨?_, ?_⟩, ?_, ?_, ?_, ?_⟩
  · rintro ⟨r, h⟩
    obtain ⟨contents, hholds, -⟩ := ofAnswer_eq_ok_iff.mp h
    exact ⟨contents, hholds⟩
  · rintro ⟨contents, hholds⟩
    exact ⟨_, ofAnswer_eq_ok_iff.mpr ⟨contents, hholds, rfl⟩⟩
  · intro r contents bytes h hcontents hspells
    obtain ⟨contents', hholds, rfl⟩ := ofAnswer_eq_ok_iff.mp h
    cases hcontents.symm.trans hholds.contents
    have hbytes := Memory.decodeHex_of_hexText hspells count.toNat
    refine ⟨hbytes, ?_, ?_⟩
    · rw [base64, Base64.decode?_encode, ofContents, hbytes]
    · rw [ofContents, hbytes, List.length_take, Nat.min_comm]
  · intro r h
    obtain ⟨contents, -, rfl⟩ := ofAnswer_eq_ok_iff.mp h
    rfl
  · exact ofAnswer_of_no_number
  · intro start offset hstart hoffset
    rw [ofAnswer_of_numbers hstart hoffset]
    refine ⟨fun hsum => if_pos (mt add_eq_iff.mp hsum), fun hsum hcontents => ?_⟩
    have hdetail : "missing " ++ ("memory[0]." ++ "contents") = "missing memory[0].contents" := by
      decide
    rw [if_neg (not_not.mpr (add_eq_iff.mpr hsum)), hcontents, Option.elim_none, Error.missing,
      hdetail]

/-- An answer with contents in both cases. -/
def mixedAnswer : ResultRecord := ⟨none, .done, [("memory", .list [(none, .tuple
  [("begin", .const "0x1000"), ("offset", .const "0X010"), ("contents", .const "DeadBEef")])])]⟩

/-- Less is taken than there is. -/
theorem bytes_of_answer_mixed : ∃ r, ofAnswer "read" 0x1010 3 mixedAnswer = .ok r ∧
    r.bytes = [0xDE, 0xAD, 0xBE] ∧ Base64.decode? r.base64 = some [0xDE, 0xAD, 0xBE] := by
  have hholds : Holds mixedAnswer 0x1010 "DeadBEef" :=
    ⟨⟨0x1000, 0x10, by decide, by decide, by decide⟩, rfl⟩
  obtain ⟨htaken, hbytes, -⟩ := bytes_of_answer "read" 0x1010 3 mixedAnswer
  obtain ⟨r, hr⟩ := htaken.mpr ⟨_, hholds⟩
  obtain ⟨hfirst, htext, -⟩ := hbytes r "DeadBEef" [0xDE, 0xAD, 0xBE, 0xEF] hr rfl (by decide)
  exact ⟨r, hr, hfirst, htext⟩

end MemoryRead

end MachineInterface

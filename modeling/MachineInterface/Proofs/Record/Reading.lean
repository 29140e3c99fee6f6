import MachineInterface.Proofs.Record.Grammar
import Mathlib.Algebra.Group.Nat.Defs

/-!
# Reading a line by the grammar

A line is an optional number, a sign, and what the sign asks for, up to the end of the line.

* `ofChars?_eq_some_iff`: what is read is what the grammar derives.
* `ofLine_eq_iff`: the record of any line, trailing carriage returns apart.
-/

namespace MachineInterface

open Text

/-! ## The grammar of lines -/

/-- A text stands for fields that each follow a comma. -/
inductive TrailingText : List Char → List Field → Prop
  | nil : TrailingText [] []
  | cons {cs ds : List Char} {f : Field} {fields : List Field} (h : FieldText cs f)
      (hs : TrailingText ds fields) : TrailingText (',' :: (cs ++ ds)) (f :: fields)

/-- The number that decimal digits stand for. -/
def decimal (digits : List Char) : Nat :=
  digits.foldl (fun n c => n * 10 + (c.toNat - '0'.toNat)) 0

/-- The number of a command, unless there are no digits or it takes more than 64 bits. -/
def token? (digits : List Char) : Option UInt64 :=
  if digits = [] ∨ 2 ^ 64 ≤ decimal digits then none else some (UInt64.ofNat (decimal digits))

/-- A text from its sign on stands for a record with the number that came before the sign. -/
inductive SignText (token : Option UInt64) : List Char → Record → Prop
  | result (outcome : Outcome) {cs : List Char} {fields : List Field} (h : TrailingText cs fields) :
      SignText token ('^' :: (outcome.text.toList ++ cs)) (.result ⟨token, outcome, fields⟩)
  | notice (kind : NoticeKind) {word cs : List Char} {fields : List Field} (hw : word ≠ [])
      (hc : ',' ∉ word) (h : TrailingText cs fields) :
      SignText token (kind.sign :: (word ++ cs))
        (.notice ⟨token, kind, String.ofList word, fields⟩)
  | stream (kind : StreamKind) {body : List Char} (h : CString.IsBody body) :
      SignText token (kind.sign :: '"' :: (body ++ ['"'])) (.stream kind (CString.decodeChars body))

/-- A text stands for a record. -/
def RecordText (cs : List Char) (record : Record) : Prop :=
  ∃ digits more, (∀ c ∈ digits, '0' ≤ c ∧ c ≤ '9') ∧ cs = digits ++ more ∧
    SignText (token? digits) more record

/-! ## Fields up to the end -/

namespace Value

theorem readTrailingFields?_succ (n : Nat) (cs : List Char) :
    readTrailingFields? (n + 1) (',' :: cs) = (readName? cs).bind fun p => (read? n p.2).bind fun q =>
      (readTrailingFields? n q.2).bind fun fields => some ((p.1, q.1) :: fields) := by
  rw [readTrailingFields?]
  rfl

theorem readTrailingFields?_eq {cs : List Char} {fields : List Field} (h : TrailingText cs fields)
    {n : Nat} (hn : cs.length ≤ n) : readTrailingFields? n cs = some fields := by
  induction h generalizing n with
  | nil => rw [readTrailingFields?]
  | @cons cs ds f fields h hs ih =>
    simp only [List.length_cons, List.length_append] at hn
    obtain ⟨n, rfl⟩ : ∃ m, n = m + 1 := ⟨n - 1, by omega⟩
    obtain ⟨mid, hname, hvalue⟩ := FieldText.read?_eq h (n := n) (by omega) ds
    simp only [readTrailingFields?_succ, hname, hvalue, ih (n := n) (by omega), Option.bind_some]

theorem trailingText_of_read {n : Nat} {cs : List Char} {fields : List Field}
    (h : readTrailingFields? n cs = some fields) : TrailingText cs fields := by
  induction n generalizing cs fields with
  | zero =>
    unfold readTrailingFields? at h
    split at h
    · cases h
      exact .nil
    · cases ‹0 = _›
    · cases h
  | succ n ih =>
    unfold readTrailingFields? at h
    split at h
    · cases h
      exact .nil
    · obtain rfl := Nat.succ.inj ‹n + 1 = _›
      simp only [Option.bind_eq_bind, Option.bind_eq_some_iff, Prod.exists] at h
      obtain ⟨name, mid, hname, v, next, hvalue, others, hothers, heq⟩ := h
      cases heq
      have hv : ValuesSound n := (readers_sound n).1
      obtain ⟨used, rfl, hused⟩ := hv.fieldText hname hvalue
      exact .cons hused (ih hothers)
    · cases h

end Value

theorem TrailingText.takeWhile_ne_comma {cs : List Char} {fields : List Field}
    (h : TrailingText cs fields) : cs.takeWhile (· != ',') = [] := by
  cases h with
  | nil => rfl
  | cons h hs => simp

namespace Record

/-- A word goes up to the first comma. -/
theorem readBody?_eq_some_iff {cs : List Char} {word : String} {fields : List Field} :
    readBody? cs = some (word, fields) ↔
      ∃ chars more, ',' ∉ chars ∧ word = String.ofList chars ∧ cs = chars ++ more ∧
        TrailingText more fields := by
  simp only [readBody?, Option.bind_eq_bind, Option.bind_eq_some_iff]
  constructor
  · rintro ⟨fields, hfields, heq⟩
    cases heq
    refine ⟨cs.takeWhile (· != ','), cs.dropWhile (· != ','), ?_, rfl,
      List.takeWhile_append_dropWhile.symm, Value.trailingText_of_read hfields⟩
    intro hcomma
    simpa using List.mem_takeWhile_imp hcomma
  · rintro ⟨chars, more, hcomma, rfl, rfl, hmore⟩
    have hall : ∀ c ∈ chars, (c != ',') = true := fun c hc => by
      simpa using ne_of_mem_of_not_mem hc hcomma
    have htake : (chars ++ more).takeWhile (· != ',') = chars := by
      rw [List.takeWhile_append_of_pos hall, hmore.takeWhile_ne_comma, List.append_nil]
    have hdrop : (chars ++ more).dropWhile (· != ',') = more := by
      have hsplit := List.takeWhile_append_dropWhile (p := (· != ',')) (l := more)
      rw [hmore.takeWhile_ne_comma, List.nil_append] at hsplit
      rw [List.dropWhile_append_of_pos hall, hsplit]
    refine ⟨fields, ?_, ?_⟩
    · rw [hdrop]
      refine Value.readTrailingFields?_eq hmore ?_
      rw [List.length_append]
      omega
    · rw [htake]
      rfl

/-! ## Signs -/

theorem comma_not_mem_text (outcome : Outcome) : ',' ∉ outcome.text.toList := by
  cases outcome <;> decide

theorem readResult?_eq_some_iff {token : Option UInt64} {cs : List Char} {record : Record} :
    readResult? token cs = some record ↔
      ∃ outcome more fields, cs = outcome.text.toList ++ more ∧ TrailingText more fields ∧
        record = .result ⟨token, outcome, fields⟩ := by
  simp only [readResult?, Option.bind_eq_bind, Option.bind_eq_some_iff, Prod.exists,
    readBody?_eq_some_iff]
  constructor
  · rintro ⟨_, fields, ⟨chars, more, -, rfl, rfl, hmore⟩, outcome, houtcome, heq⟩
    cases heq
    have htext : chars = outcome.text.toList := by
      rw [← Outcome.text_of_ofText? houtcome, String.toList_ofList]
    exact ⟨outcome, more, fields, by rw [htext], hmore, rfl⟩
  · rintro ⟨outcome, more, fields, rfl, hmore, rfl⟩
    exact ⟨outcome.text, fields, ⟨outcome.text.toList, more, comma_not_mem_text outcome,
      String.ofList_toList.symm, rfl, hmore⟩, outcome, Outcome.ofText?_text outcome, rfl⟩

theorem readNotice?_eq_some_iff {token : Option UInt64} {kind : NoticeKind} {cs : List Char}
    {record : Record} :
    readNotice? token kind cs = some record ↔
      ∃ word more fields, word ≠ [] ∧ ',' ∉ word ∧ cs = word ++ more ∧ TrailingText more fields ∧
        record = .notice ⟨token, kind, String.ofList word, fields⟩ := by
  simp only [readNotice?, Option.bind_eq_bind, Option.bind_eq_some_iff, Prod.exists,
    readBody?_eq_some_iff]
  constructor
  · rintro ⟨_, fields, ⟨word, more, hcomma, rfl, rfl, hmore⟩, h⟩
    split at h
    · cases h
    · rename_i hword
      cases h
      refine ⟨word, more, fields, ?_, hcomma, rfl, hmore, rfl⟩
      rintro rfl
      exact hword rfl
  · rintro ⟨word, more, fields, hword, hcomma, rfl, hmore, rfl⟩
    refine ⟨_, fields, ⟨word, more, hcomma, rfl, rfl, hmore⟩, ?_⟩
    rw [if_neg (by simpa using hword)]
    rfl

theorem readStream?_eq_some_iff {kind : StreamKind} {cs : List Char} {record : Record} :
    readStream? kind cs = some record ↔
      ∃ body, CString.IsBody body ∧ cs = '"' :: (body ++ ['"']) ∧
        record = .stream kind (CString.decodeChars body) := by
  unfold readStream?
  split
  · rename_i cs
    constructor
    · intro h
      split at h
      · rename_i body hread
        obtain ⟨hbody, rfl⟩ := CString.body?_eq_some_iff.mp hread
        cases h
        exact ⟨body, hbody, rfl, rfl⟩
      · cases h
    · rintro ⟨body, hbody, hcs, rfl⟩
      cases hcs
      rw [CString.body?_append hbody]
  · rename_i hquote
    constructor
    · intro h
      cases h
    · rintro ⟨body, -, rfl, -⟩
      exact absurd rfl (hquote _)

/-- The record that a sign and the text after it stand for. -/
def readSign? (token : Option UInt64) : List Char → Option Record
  | '^' :: rest => readResult? token rest
  | '*' :: rest => readNotice? token .exec rest
  | '+' :: rest => readNotice? token .status rest
  | '=' :: rest => readNotice? token .notify rest
  | '~' :: rest => readStream? .console rest
  | '@' :: rest => readStream? .target rest
  | '&' :: rest => readStream? .log rest
  | _ => none

theorem signText_of_notice {token : Option UInt64} (kind : NoticeKind) {cs : List Char}
    {record : Record} (h : readNotice? token kind cs = some record) :
    SignText token (kind.sign :: cs) record := by
  obtain ⟨word, more, fields, hword, hcomma, rfl, hmore, rfl⟩ := readNotice?_eq_some_iff.mp h
  exact .notice kind hword hcomma hmore

theorem signText_of_stream {token : Option UInt64} (kind : StreamKind) {cs : List Char}
    {record : Record} (h : readStream? kind cs = some record) :
    SignText token (kind.sign :: cs) record := by
  obtain ⟨body, hbody, rfl, rfl⟩ := readStream?_eq_some_iff.mp h
  exact .stream kind hbody

/-- What is read from a sign on is what the grammar derives. -/
theorem readSign?_eq_some_iff {token : Option UInt64} {cs : List Char} {record : Record} :
    readSign? token cs = some record ↔ SignText token cs record := by
  constructor
  · intro h
    unfold readSign? at h
    split at h
    · obtain ⟨outcome, more, fields, rfl, hmore, rfl⟩ := readResult?_eq_some_iff.mp h
      exact .result outcome hmore
    · exact signText_of_notice .exec h
    · exact signText_of_notice .status h
    · exact signText_of_notice .notify h
    · exact signText_of_stream .console h
    · exact signText_of_stream .target h
    · exact signText_of_stream .log h
    · cases h
  · intro h
    cases h with
    | result outcome h => exact readResult?_eq_some_iff.mpr ⟨outcome, _, _, rfl, h, rfl⟩
    | notice kind hw hc h =>
      have hread : readNotice? token kind _ = some _ :=
        readNotice?_eq_some_iff.mpr ⟨_, _, _, hw, hc, rfl, h, rfl⟩
      cases kind <;> exact hread
    | stream kind h =>
      have hread : readStream? kind _ = some _ :=
        readStream?_eq_some_iff.mpr ⟨_, h, rfl, rfl⟩
      cases kind <;> exact hread

/-! ## Numbers -/

theorem digitValue?_of_isDigit {c : Char} (h : '0' ≤ c ∧ c ≤ '9') :
    Numeral.digitValue? 10 c = some (c.toNat - '0'.toNat) := by
  have hlt : c.toNat - '0'.toNat < 10 := by
    have h9 : c.toNat ≤ '9'.toNat := h.2
    have : '9'.toNat = '0'.toNat + 9 := by decide
    omega
  simp only [Numeral.digitValue?, if_pos h, if_pos hlt]

theorem valueFrom?_digits {digits : List Char} (h : ∀ c ∈ digits, '0' ≤ c ∧ c ≤ '9') (high : Nat) :
    Numeral.valueFrom? 10 high digits =
      some (digits.foldl (fun n c => n * 10 + (c.toNat - '0'.toNat)) high) := by
  induction digits generalizing high with
  | nil => rfl
  | cons c digits ih =>
    have hc := digitValue?_of_isDigit (h c List.mem_cons_self)
    rw [Numeral.valueFrom?, hc, Option.bind_some, List.foldl_cons]
    exact ih (fun d hd => h d (List.mem_cons_of_mem _ hd)) _

theorem readUInt64?_digits {digits : List Char} (h : ∀ c ∈ digits, '0' ≤ c ∧ c ≤ '9') :
    Numeral.readUInt64? 10 digits = token? digits := by
  cases digits with
  | nil => rfl
  | cons c digits =>
    have hnat : Numeral.readNat? 10 (2 ^ 64) (c :: digits) =
        (some (decimal (c :: digits))).filter (· < 2 ^ 64) := by
      rw [decimal, ← valueFrom?_digits h 0]
      unfold Numeral.readNat?
      dsimp only
      split
      · rename_i heq
        obtain ⟨rfl, -⟩ := List.cons.inj heq
        exact absurd (h '+' List.mem_cons_self) (by decide)
      · rfl
    rw [Numeral.readUInt64?, show 0x10000000000000000 = 2 ^ 64 by decide, hnat, token?]
    by_cases hlt : decimal (c :: digits) < 2 ^ 64
    · have hle : ¬ (c :: digits = [] ∨ 2 ^ 64 ≤ decimal (c :: digits)) := by
        rintro (h | h)
        · cases h
        · omega
      rw [if_neg hle, Option.filter_some, if_pos (by simpa using hlt), Option.map_some]
    · rw [if_pos (.inr (by omega)), Option.filter_some, if_neg (by simpa using hlt), Option.map_none]

/-! ## Lines -/

theorem isDigit_iff {c : Char} : Numeral.isDigit c = true ↔ '0' ≤ c ∧ c ≤ '9' := by
  simp [Numeral.isDigit]

theorem SignText.exists_sign {token : Option UInt64} {cs : List Char} {record : Record}
    (h : SignText token cs record) : ∃ c rest, cs = c :: rest ∧ Numeral.isDigit c = false := by
  cases h with
  | result outcome h => exact ⟨_, _, rfl, by decide⟩
  | notice kind hw hc h => exact ⟨_, _, rfl, by cases kind <;> decide⟩
  | stream kind h => exact ⟨_, _, rfl, by cases kind <;> decide⟩

/-- What is read is what the grammar derives. -/
theorem ofChars?_eq_some_iff {cs : List Char} {record : Record} :
    ofChars? cs = some record ↔ RecordText cs record := by
  have hofChars : ofChars? cs = readSign? (Numeral.readUInt64? 10 (cs.takeWhile Numeral.isDigit))
      (cs.dropWhile Numeral.isDigit) := rfl
  rw [hofChars, readSign?_eq_some_iff]
  constructor
  · intro h
    have hdigits : ∀ c ∈ cs.takeWhile Numeral.isDigit, '0' ≤ c ∧ c ≤ '9' := fun c hc =>
      isDigit_iff.mp (List.mem_takeWhile_imp hc)
    rw [readUInt64?_digits hdigits] at h
    exact ⟨_, _, hdigits, List.takeWhile_append_dropWhile.symm, h⟩
  · rintro ⟨digits, more, hdigits, rfl, hmore⟩
    obtain ⟨c, rest, rfl, hc⟩ := SignText.exists_sign hmore
    have hall : ∀ d ∈ digits, Numeral.isDigit d = true := fun d hd => isDigit_iff.mpr (hdigits d hd)
    rw [List.takeWhile_append_of_pos hall, List.dropWhile_append_of_pos hall, List.takeWhile_cons,
      List.dropWhile_cons, hc]
    simpa [readUInt64?_digits hdigits] using hmore

theorem RecordText.ne_unhandled {cs : List Char} {text : String} :
    ¬ RecordText cs (.unhandled text) := by
  rintro ⟨digits, more, -, -, h⟩
  cases h

/-- Only carriage returns at the end are dropped, and all of them. -/
theorem dropReturns_spec (cs : List Char) :
    (∃ count, cs = dropReturns cs ++ List.replicate count '\r') ∧
      (dropReturns cs).getLast? ≠ some '\r' := by
  constructor
  · have hreturns : cs.reverse.takeWhile (· == '\r') =
        List.replicate (cs.reverse.takeWhile (· == '\r')).length '\r' := by
      refine List.eq_replicate_of_mem fun c hc => ?_
      simpa using List.mem_takeWhile_imp hc
    have hsplit := List.takeWhile_append_dropWhile (p := (· == '\r')) (l := cs.reverse)
    rw [hreturns] at hsplit
    have hcs := congrArg List.reverse hsplit
    rw [List.reverse_reverse, List.reverse_append, List.reverse_replicate] at hcs
    exact ⟨_, hcs.symm⟩
  · unfold dropReturns
    rw [List.getLast?_reverse]
    have hhead := List.head?_dropWhile_not (· == '\r') cs.reverse
    intro h
    rw [h] at hhead
    simp at hhead

/--
The record of a line is what the grammar derives from the line without its trailing carriage
returns, and where the grammar derives nothing, this text as it is.
-/
theorem ofLine_eq_iff (line : String) (record : Record) :
    (∃ count, line.toList = dropReturns line.toList ++ List.replicate count '\r') ∧
      (dropReturns line.toList).getLast? ≠ some '\r' ∧
      (∀ text, ¬ RecordText (dropReturns line.toList) (.unhandled text)) ∧
      (ofLine line = record ↔ RecordText (dropReturns line.toList) record ∨
        (¬ ∃ other, RecordText (dropReturns line.toList) other) ∧
          record = .unhandled (String.ofList (dropReturns line.toList))) := by
  obtain ⟨hcount, hlast⟩ := dropReturns_spec line.toList
  refine ⟨hcount, hlast, fun text => RecordText.ne_unhandled, ?_⟩
  simp only [ofLine, ← ofChars?_eq_some_iff]
  cases ofChars? (dropReturns line.toList) with
  | none => simp [eq_comm]
  | some r => simp

end Record

end MachineInterface

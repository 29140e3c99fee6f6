import MachineInterface.Line.Buffer
import MachineInterface.Line.Kind
import MachineInterface.Proofs.Record.Reading
import MachineInterface.Proofs.Text.Utf8
import Mathlib.Data.List.TakeWhile

/-!
# Started lines that are shown at once

A line can be told from its start to be plain text. Such a start is shown before the rest of the
line is there.

* `isFlushable_append`: the start of a line stays plain text whatever follows it.
* `records_told_apart`: a record is never taken for plain text, and no start that is shown at once
  becomes one.
* `record?_decode_dropReturn`: a carriage return at its end changes no record.
* `record?_eq_none_of_shown`: a line with a start that is shown at once is no record.
-/

namespace MachineInterface

open Text

/-! ## Plain text and records -/

namespace Line

/-- The record of a line, if it is one that follows the rules. -/
def record? (line : String) : Option Record :=
  match classify line with
  | .record (.unhandled _) => none
  | .record record => some record
  | _ => none

theorem record?_eq_none_of_couldBeOutput {line : String} (h : couldBeOutput line = true) :
    record? line = none := by
  unfold record? classify
  split_ifs <;> rfl

/-- The start of a line stays plain text whatever follows it. -/
theorem isFlushable_append {text : String} (h : isFlushable text = true) (more : String) :
    isFlushable (text ++ more) = true := by
  simp only [isFlushable, couldBeOutput, dropToken, Bool.and_eq_true, Bool.not_eq_true',
    String.toList_append, List.all_append, List.dropWhile_append] at h ⊢
  obtain ⟨hsign, hdigits⟩ := h
  -- Some character of the start is no digit, so the sign would stand in the start already.
  cases hd : text.toList.dropWhile Numeral.isDigit with
  | nil =>
    rw [List.dropWhile_eq_nil_iff, ← List.all_eq_true, hdigits] at hd
    cases hd
  | cons c cs =>
    rw [hd] at hsign
    exact ⟨by simpa using hsign, by simp [hdigits]⟩

theorem couldBeOutput_of_isFlushable {text : String} (h : isFlushable text = true) :
    couldBeOutput text = true := by
  rw [isFlushable, Bool.and_eq_true] at h
  exact h.1

/-- What can be plain text however the line goes on is just what is shown at once. -/
theorem isFlushable_iff {text : String} :
    isFlushable text = true ↔ ∀ more, couldBeOutput (text ++ more) = true := by
  constructor
  · exact fun h more => couldBeOutput_of_isFlushable (isFlushable_append h more)
  · intro h
    by_contra hn
    have hstart : couldBeOutput text = true := by simpa using h ""
    have hdigits : ∀ c ∈ text.toList, Numeral.isDigit c = true := by
      simpa [isFlushable, hstart] using hn
    -- A run of digits is the number of a record once a sign follows.
    have hsign : couldBeOutput (String.ofList (text.toList ++ ['^'])) = false :=
      not_couldBeOutput_of_sign hdigits (by decide)
    rw [String.ofList_append, String.ofList_toList] at hsign
    exact Bool.false_ne_true (hsign.symm.trans (h (String.ofList ['^'])))

/-! ## Records by the grammar -/

theorem exists_isSign_of_signText {token : Option UInt64} {cs : List Char} {record : Record}
    (h : SignText token cs record) : ∃ c rest, cs = c :: rest ∧ isSign c = true := by
  cases h with
  | result outcome h => exact ⟨_, _, rfl, by decide⟩
  | notice kind hw hc h => exact ⟨_, _, rfl, by cases kind <;> decide⟩
  | stream kind h => exact ⟨_, _, rfl, by cases kind <;> decide⟩

/-- No text that may be plain output stands for a record. -/
theorem couldBeOutput_of_recordText {line : String} {record : Record}
    (h : RecordText (Record.dropReturns line.toList) record) : couldBeOutput line = false := by
  obtain ⟨⟨count, hline⟩, -⟩ := Record.dropReturns_spec line.toList
  obtain ⟨digits, more, hdigits, htext, hmore⟩ := h
  obtain ⟨c, rest, rfl, hc⟩ := exists_isSign_of_signText hmore
  have hstart : line.toList = digits ++ c :: (rest ++ List.replicate count '\r') := by
    rw [hline, htext, List.append_assoc, List.cons_append]
  rw [← String.ofList_toList (s := line), hstart]
  exact not_couldBeOutput_of_sign (fun d hd => Record.isDigit_iff.mpr (hdigits d hd)) hc

/-- Plain output is read as a line that follows no rule. -/
theorem ofLine_of_couldBeOutput {line : String} (h : couldBeOutput line = true) :
    Record.ofLine line = .unhandled (String.ofList (Record.dropReturns line.toList)) := by
  have hnone : Record.ofChars? (Record.dropReturns line.toList) = none := by
    refine Option.eq_none_iff_forall_ne_some.mpr fun record hrecord => ?_
    have hsign := couldBeOutput_of_recordText (Record.ofChars?_eq_some_iff.mp hrecord)
    exact Bool.false_ne_true (hsign.symm.trans h)
  simp only [Record.ofLine, hnone, Option.getD_none]

/--
A line that is read as a record is never taken for plain text or the prompt. The start of a line is
shown at once exactly if no continuation has the sign of a record, and then every continuation is
read as a line that follows no rule and passed on as text.
-/
theorem records_told_apart (line start : String) :
    ((∀ text, Record.ofLine line ≠ .unhandled text) →
      couldBeOutput line = false ∧ classify line = .record (Record.ofLine line)) ∧
    (isFlushable start = true ↔ ∀ more, couldBeOutput (start ++ more) = true) ∧
    (isFlushable start = true → ∀ more,
      Record.ofLine (start ++ more) =
        .unhandled (String.ofList (Record.dropReturns (start ++ more).toList)) ∧
      ∀ record, classify (start ++ more) ≠ .record record) := by
  refine ⟨fun h => ?_, isFlushable_iff, fun h more => ?_⟩
  · have hsign : couldBeOutput line = false := by
      by_contra hn
      exact h _ (ofLine_of_couldBeOutput (by simpa using hn))
    exact ⟨hsign, by rw [classify, hsign]; rfl⟩
  · have hplain := isFlushable_iff.mp h more
    refine ⟨ofLine_of_couldBeOutput hplain, fun record => ?_⟩
    rw [classify, if_pos hplain]
    split_ifs <;> simp

/-- A record with a carriage return at its end, and a text that a record seems to follow. -/
theorem records_told_apart_done :
    (couldBeOutput "12^done\r" = false ∧ classify "12^done\r" = .record (Record.ofLine "12^done\r")) ∧
      isFlushable "12a" = true ∧ Record.ofLine "12a^done\r" = .unhandled "12a^done" := by
  have hrecord : ∀ text, Record.ofLine "12^done\r" ≠ .unhandled text := by
    have h : Record.ofLine "12^done\r" = .result ⟨some 12, .done, []⟩ := by decide +kernel
    intro text htext
    rw [h] at htext
    cases htext
  have hflush : isFlushable "12a" = true := by decide +kernel
  refine ⟨(records_told_apart "12^done\r" "12a").1 hrecord, hflush, ?_⟩
  exact ((records_told_apart "12^done\r" "12a").2.2 hflush "^done\r").1

/-! ## Carriage returns -/

theorem couldBeOutput_concat_return (line : String) :
    couldBeOutput (line ++ "\r") = couldBeOutput line := by
  have hr : Numeral.isDigit '\r' = false := by decide
  simp only [couldBeOutput, dropToken, String.toList_append, List.dropWhile_append]
  cases line.toList.dropWhile Numeral.isDigit with
  | nil => simp [hr, isSign]
  | cons c cs => simp

theorem ofLine_concat_return (line : String) : Record.ofLine (line ++ "\r") = Record.ofLine line := by
  have h : Record.dropReturns (line ++ "\r").toList = Record.dropReturns line.toList := by
    simp [Record.dropReturns]
  simp only [Record.ofLine, h]

/-- A carriage return at its end changes no record. -/
theorem record?_concat_return (line : String) : record? (line ++ "\r") = record? line := by
  cases h : couldBeOutput line with
  | true =>
    rw [record?_eq_none_of_couldBeOutput h,
      record?_eq_none_of_couldBeOutput ((couldBeOutput_concat_return line).trans h)]
  | false =>
    simp only [record?, classify, couldBeOutput_concat_return, h, ofLine_concat_return]
    rfl

end Line

/-! ## The bytes of a line -/

namespace LineBuffer

open Line

theorem decode_concat_return (line : List UInt8) :
    Utf8.decode (line ++ [carriageReturn]) = Utf8.decode line ++ "\r" := by
  have hreturn : Utf8.decode [carriageReturn] = "\r" := by decide +kernel
  have htail : Utf8.NoTail [carriageReturn] := by
    intro b hb
    obtain rfl : carriageReturn = b := by simpa using hb
    decide
  rw [Utf8.decode_append_of_noTail htail, hreturn]

/-- A carriage return at its end changes no record. -/
theorem record?_decode_dropReturn (line : List UInt8) :
    record? (Utf8.decode (dropReturn line)) = record? (Utf8.decode line) := by
  unfold dropReturn
  split_ifs with h
  · obtain ⟨start, rfl⟩ := List.getLast?_eq_some_iff.mp h
    rw [List.dropLast_concat, decode_concat_return, record?_concat_return]
  · rfl

/-- The start of a line is shown before the line has ended. -/
def Shown (start : List UInt8) : Prop :=
  ∃ text, Utf8.decode? start = some text ∧ isFlushable text = true

theorem Shown.append {start more : List UInt8} (h : Shown start) (h' : Shown more) :
    Shown (start ++ more) := by
  obtain ⟨text, htext, hflush⟩ := h
  obtain ⟨text', htext', -⟩ := h'
  exact ⟨text ++ text', Utf8.decode?_append htext htext', isFlushable_append hflush text'⟩

theorem Shown.ne_nil {start : List UInt8} (h : Shown start) : start ≠ [] := by
  rintro rfl
  obtain ⟨text, htext, hflush⟩ := h
  obtain rfl : "" = text := by
    have h : Utf8.decode? [] = some "" := by decide +kernel
    simpa [h] using htext
  simp [isFlushable] at hflush

/-- A line with a start that is shown at once is no record. -/
theorem record?_eq_none_of_shown {start : List UInt8} (h : Shown start) (more : List UInt8) :
    record? (Utf8.decode (start ++ more)) = none := by
  obtain ⟨text, htext, hflush⟩ := h
  rw [Utf8.decode_append_of_valid htext]
  exact record?_eq_none_of_couldBeOutput
    (couldBeOutput_of_isFlushable (isFlushable_append hflush _))

/-- What is left in the buffer once a started line was shown. -/
def flushed (buffer : LineBuffer) : LineBuffer :=
  ((buffer.takePartial? isFlushable).map (·.2)).getD buffer

theorem takePartial?_eq_some_iff {buffer next : LineBuffer} {text : String} :
    buffer.takePartial? isFlushable = some (text, next) ↔
      Utf8.decode? buffer.rest = some text ∧ isFlushable text = true ∧ next = {} := by
  unfold takePartial?
  split_ifs with h
  · have hne : ¬ (Utf8.decode? buffer.rest = some text ∧ isFlushable text = true) := fun ht =>
      Shown.ne_nil ⟨text, ht⟩ (List.isEmpty_iff.mp h)
    simpa using fun h h' => absurd ⟨h, h'⟩ hne
  · simp only [Option.map_eq_some_iff, Option.filter_eq_some_iff, Prod.mk.injEq]
    constructor
    · rintro ⟨_, h, rfl, rfl⟩
      exact ⟨h.1, h.2, rfl⟩
    · rintro ⟨htext, hflush, rfl⟩
      exact ⟨text, ⟨htext, hflush⟩, rfl, rfl⟩

theorem flushed_of_shown {buffer : LineBuffer} (h : Shown buffer.rest) : buffer.flushed = {} := by
  obtain ⟨text, htext, hflush⟩ := h
  rw [flushed, takePartial?_eq_some_iff.mpr ⟨htext, hflush, rfl⟩]
  rfl

theorem flushed_of_not_shown {buffer : LineBuffer} (h : ¬ Shown buffer.rest) :
    buffer.flushed = buffer := by
  cases hp : buffer.takePartial? isFlushable with
  | none => simp [flushed, hp]
  | some p =>
    obtain ⟨htext, hflush, -⟩ := takePartial?_eq_some_iff.mp hp
    exact absurd ⟨p.1, htext, hflush⟩ h

end LineBuffer

end MachineInterface

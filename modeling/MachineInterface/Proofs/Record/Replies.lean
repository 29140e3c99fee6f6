import MachineInterface.Exchange
import MachineInterface.Line.Kind
import MachineInterface.Proofs.Record.Printing
import MachineInterface.Rehearsal.Script

/-!
# Replies of a debugger

A debugger answers a command that it has heard with a result under the number of the command: any
result that follows the grammar, or an error with a message.

* `ofLine_reply`: the line of an answer is read as the record of the answer.
* `message?_error`: the message of an error is read back, whatever it holds.
-/

namespace MachineInterface

open Text

/-! ## Answers -/

/-- A result without its number, as it is written in one line. -/
structure ResultBody where
  outcome : Outcome
  fields : List Field
  /-- The text after the word for the outcome. -/
  trailing : List Char
  stands : TrailingText trailing fields
  oneLine : '\n' ∉ trailing

namespace ResultBody

/-- The text after the caret. -/
def text (b : ResultBody) : String := String.ofList (b.outcome.text.toList ++ b.trailing)

/-- The record under a number. -/
def record (b : ResultBody) (token : Option UInt64) : ResultRecord := ⟨token, b.outcome, b.fields⟩

end ResultBody

theorem newline_not_mem_encodeChars (cs : List Char) : '\n' ∉ CString.encodeChars cs := by
  intro h
  obtain ⟨c, -, hc⟩ := List.mem_flatMap.mp h
  unfold CString.encodeChar at hc
  split_ifs at hc with hb hq hn
  iterate 5 simp at hc
  exact hn (List.mem_singleton.mp hc).symm

theorem trailingText_message (message : String) :
    TrailingText (Value.printFields [("msg", .const message)]) [("msg", .const message)] :=
  Value.trailingText_print ⟨by decide, trivial, trivial⟩

theorem newline_not_mem_message (message : String) :
    '\n' ∉ Value.printFields [("msg", .const message)] := by
  have hbody := newline_not_mem_encodeChars message.toList
  simp [Value.printFields, Value.print, Value.printText, hbody]

/-- The result that tells of an error. -/
def ResultBody.ofError (message : String) : ResultBody where
  outcome := .error
  fields := [("msg", .const message)]
  trailing := Value.printFields [("msg", .const message)]
  stands := trailingText_message message
  oneLine := newline_not_mem_message message

/-- What a debugger answers to a command. -/
inductive Answer where
  | result (body : ResultBody)
  | error (message : String)

namespace Answer

def body : Answer → ResultBody
  | result body => body
  | error message => .ofError message

/-- The text after the caret, as a debugger writes it. -/
def text : Answer → String
  | result body => body.text
  | error message => "error,msg=\"" ++ CString.encode message ++ "\""

theorem text_body (a : Answer) : a.body.text = a.text := by
  cases a with
  | result body => rfl
  | error message =>
    rw [← String.toList_inj]
    simp [body, ResultBody.text, ResultBody.ofError, Outcome.text, text, CString.encode,
      Value.printFields, Value.print, Value.printText]

/--
What the caller of a command receives. An error fails the call with its message, unless the caller
asked to have errors passed on.
-/
def reply (a : Answer) (token : UInt64) (command : String) (tolerant : Bool) : Reply :=
  match a with
  | error message =>
    if tolerant then .ok ⟨some token, .error, [("msg", .const message)]⟩
    else .error (.command message command)
  | result body =>
    if body.outcome = .error ∧ tolerant = false then
      .error (.command ((body.record (some token)).message?.getD "Internal error") command)
    else .ok (body.record (some token))

end Answer

/-- The message of an error is read back, whatever it holds. -/
theorem message?_error (message : String) (token : Option UInt64) :
    ((ResultBody.ofError message).record token).message? = some message := by
  simp [ResultRecord.message?, ResultRecord.text?, Field.lookupText?, Field.lookup?, Field.find?,
    ResultBody.record, ResultBody.ofError, Value.text?]

/-! ## Lines -/

theorem Heard.toList_tokenText (h : Heard) : h.tokenText.toList = printToken h.token := by
  unfold tokenText
  cases h.token with
  | none => rfl
  | some token => exact String.toList_ofList

theorem Heard.toList_result (h : Heard) (b : ResultBody) : (h.result b.text).toList =
    printToken h.token ++ '^' :: (b.outcome.text.toList ++ b.trailing) := by
  simp [Heard.result, ResultBody.text, h.toList_tokenText]

/-- An answer is one line. -/
theorem newline_not_mem_result (h : Heard) (b : ResultBody) : '\n' ∉ (h.result b.text).toList := by
  have htoken : '\n' ∉ printToken h.token := fun hmem =>
    absurd (digits_printToken h.token _ hmem) (by decide)
  have houtcome : '\n' ∉ b.outcome.text.toList := by
    cases b.outcome <;> decide
  rw [h.toList_result]
  simp [htoken, houtcome, b.oneLine]

/-- The line of an answer is read as the record of the answer. -/
theorem ofLine_reply (h : Heard) (b : ResultBody) :
    Record.ofLine (h.result b.text) = .result (b.record h.token) := by
  have hchars := h.toList_result b
  have htext : RecordText (h.result b.text).toList (.result (b.record h.token)) := by
    refine ⟨_, _, digits_printToken h.token, hchars, ?_⟩
    rw [token?_printToken]
    exact .result b.outcome b.stands
  have hend : (h.result b.text).toList.getLast? ≠ some '\r' := by
    obtain ⟨c, hlast, hc⟩ := b.outcome.getLast?_text
    have hword : (printToken h.token ++ '^' :: b.outcome.text.toList).getLast? ≠ some '\r' := by
      simp [List.getLast?_append, List.getLast?_cons, hlast, hc]
    simpa [hchars] using b.stands.getLast?_append fun _ => hword
  rw [Record.ofLine, Record.dropReturns_eq_self hend, Record.ofChars?_eq_some_iff.mpr htext,
    Option.getD_some]

theorem classify_reply (h : Heard) (b : ResultBody) :
    Line.classify (h.result b.text) = .record (.result (b.record h.token)) := by
  have hdigits : ∀ d ∈ printToken h.token, Numeral.isDigit d = true := fun d hd =>
    Record.isDigit_iff.mpr (digits_printToken h.token d hd)
  have hline : h.result b.text =
      String.ofList (printToken h.token ++ '^' :: (b.outcome.text.toList ++ b.trailing)) := by
    rw [← String.toList_inj, String.toList_ofList, h.toList_result]
  have hsign : Line.couldBeOutput (h.result b.text) = false := by
    rw [hline]
    exact Line.not_couldBeOutput_of_sign hdigits (by decide)
  rw [Line.classify, hsign, ofLine_reply]
  rfl

end MachineInterface

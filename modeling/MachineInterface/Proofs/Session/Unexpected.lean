import MachineInterface.Proofs.Session.Frame

/-!
# Results that nobody waits for

Only a result is ever told as unexpected, and only one for which no command waits.

* `unexpected_handleLine`: a line that is no result tells of none.
* `handleLine_unmatched`: a result for which no command waits answers nothing, and is told once.
-/

namespace MachineInterface

/-- Whether an event tells of a result that nobody waits for. -/
def Event.isUnexpected : Event → Bool
  | .unexpectedResult _ _ _ => true
  | _ => false

namespace Session

variable (s : Session)

/-- The events that tell of results that nobody waits for. -/
def unexpected : List Event := s.events.filter (·.isUnexpected)

theorem unexpected_emit (e : Event) :
    (s.emit e).unexpected = s.unexpected ++ if e.isUnexpected then [e] else [] := by
  rw [unexpected, events_emit, List.filter_append, List.filter_singleton]
  cases e.isUnexpected <;> rfl

theorem unexpected_emit_of_not {e : Event} (h : e.isUnexpected = false) :
    (s.emit e).unexpected = s.unexpected := by
  rw [unexpected_emit, h, if_neg Bool.false_ne_true, List.append_nil]

@[simp] theorem unexpected_emitLine (channel : Channel) (text : String) :
    (s.emitLine channel text).unexpected = s.unexpected := unexpected_emit_of_not s rfl

@[simp] theorem unexpected_emitLine? (channel : Channel) (text : Option String) :
    (s.emitLine? channel text).unexpected = s.unexpected := by
  cases text with
  | none => rfl
  | some text => exact unexpected_emitLine s channel text

/-! ## Notices and streams -/

@[simp] theorem unexpected_setRunState (next : RunState) :
    (s.setRunState next).unexpected = s.unexpected := by
  unfold setRunState
  split <;> rfl

@[simp] theorem unexpected_stop (stop : Stop) : (s.stop stop).unexpected = s.unexpected := by
  rw [Session.stop, unexpected_emit_of_not _ rfl, unexpected_setRunState]

@[simp] theorem unexpected_stopUnknown (stop : Stop) :
    (s.stopUnknown stop).unexpected = s.unexpected := by
  unfold stopUnknown
  dsimp only
  split
  · rw [unexpected_setRunState]
    rfl
  · rw [unexpected_emit_of_not _ rfl, unexpected_setRunState]
    rfl

@[simp] theorem unexpected_exited (code : Option Int) :
    (s.exited code).unexpected = s.unexpected := unexpected_emit_of_not _ rfl

theorem unexpected_logMessage (logPoints : LogPoints) (message : Option String) :
    ({ s with logPoints }.emitLine? .console message).unexpected = s.unexpected :=
  unexpected_emitLine? _ _ _

@[simp] theorem unexpected_handleHit (n : Notice) : (s.handleHit n).unexpected = s.unexpected := by
  unfold handleHit
  dsimp only
  split
  · exact unexpected_stop s _
  · rw [unexpected_logMessage, unexpected_stop]

@[simp] theorem unexpected_handleStopped (n : Notice) :
    (s.handleStopped n).unexpected = s.unexpected := by
  unfold handleStopped
  repeat' split
  all_goals simp

theorem unexpected_handleNotice (n : Notice) : (s.handleNotice n).unexpected = s.unexpected := by
  unfold handleNotice
  repeat' split
  · rw [unexpected_emit_of_not _ rfl, unexpected_setRunState]
  · exact unexpected_handleStopped s n
  · rfl
  · rfl
  · rfl
  · exact unexpected_emit_of_not s rfl
  · exact unexpected_emit_of_not s rfl
  · rfl

theorem unexpected_handleStream (kind : StreamKind) (text : String) :
    (s.handleStream kind text).unexpected = s.unexpected := by
  unfold handleStream
  split
  · dsimp only
    rw [unexpected_logMessage, unexpected_emitLine]
  · exact unexpected_emitLine s _ _

/-- A line that is no result tells of none. -/
theorem unexpected_handleLine {line : String}
    (h : ∀ r, Line.classify line ≠ .record (.result r)) :
    (s.handleLine line).unexpected = s.unexpected := by
  unfold handleLine
  cases hkind : Line.classify line with
  | passthrough text => exact unexpected_emitLine s _ _
  | prompt => rfl
  | record record =>
    cases record with
    | result r => exact absurd hkind (h r)
    | notice n => exact unexpected_handleNotice s n
    | stream kind text => exact unexpected_handleStream s kind text
    | unhandled text => rfl

/-! ## Results -/

theorem handleLine_result {line : String} {r : ResultRecord}
    (h : Line.classify line = .record (.result r)) : s.handleLine line = s.handleResult r line := by
  rw [handleLine, h]

/-- A result for which a command waits is not told as unexpected. -/
theorem unexpected_handleResult {r : ResultRecord}
    (h : ∀ record, (s.exchange.resolve r).1 ≠ .unmatched record) (line : String) :
    (s.handleResult r line).unexpected = s.unexpected := by
  unfold handleResult
  dsimp only
  split
  · rfl
  · exact unexpected_emitLine _ _ _
  · rename_i record hrecord
    exact absurd hrecord (h record)

/-- A result for which no command waits answers nothing, and is told once. -/
theorem handleLine_unmatched {line : String} {r : ResultRecord}
    (h : Line.classify line = .record (.result r)) (hr : r.token.bind s.exchange.pending? = none) :
    (s.handleLine line).exchange = s.exchange ∧ (s.handleLine line).unexpected =
      s.unexpected ++ [.unexpectedResult r.token r.outcome.text r.message?] := by
  rw [handleLine_result s h, handleResult, Exchange.resolve_unmatched hr]
  dsimp only
  split
  · exact ⟨rfl, by rw [unexpected_emit, unexpected_emitLine]; rfl⟩
  · exact ⟨rfl, by rw [unexpected_emit]; rfl⟩

end Session

end MachineInterface

import MachineInterface.Proofs.Line.Cuts
import MachineInterface.Proofs.Session.Frame

/-!
# Reading the debugger's output

Text outside of records is shown as soon as it can be, so the messages that tell it follow the
chunks in which the bytes arrive. All else that a session makes of the bytes comes from its records.

* `quiet_handleLine`: a record does the same whatever text was told before.
* `quiet_readOut`: the session is what the record lines make of it, apart from the text.
-/

namespace MachineInterface

open Text

/-- Whether an event tells text outside of records. -/
def Event.isText : Event → Bool
  | .message .stdout _ => true
  | _ => false

namespace Session

variable (s : Session)

/-- The session without the text outside of records that was told or started. -/
def quiet : Session := { s with events := s.events.filter (! ·.isText), output := {} }

/-! ## Records -/

theorem quiet_emit {e : Event} (h : e.isText = false) :
    (s.emit e).quiet = s.quiet.emit e := by
  simp [quiet, emit, h]

theorem quiet_emit_text {e : Event} (h : e.isText = true) : (s.emit e).quiet = s.quiet := by
  simp [quiet, emit, h]

theorem quiet_emitLine {channel : Channel} (h : channel ≠ .stdout) (text : String) :
    (s.emitLine channel text).quiet = s.quiet.emitLine channel text := by
  refine quiet_emit s ?_
  cases channel <;> first | rfl | exact absurd rfl h

theorem quiet_emitLine? {channel : Channel} (h : channel ≠ .stdout) (text : Option String) :
    (s.emitLine? channel text).quiet = s.quiet.emitLine? channel text := by
  cases text with
  | none => rfl
  | some text => exact quiet_emitLine s h text

@[simp] theorem quiet_setRunState (next : RunState) :
    (s.setRunState next).quiet = s.quiet.setRunState next := by
  unfold setRunState
  rw [show s.quiet.runState = s.runState from rfl]
  split <;> rfl

@[simp] theorem quiet_stop (stop : Stop) : (s.stop stop).quiet = s.quiet.stop stop := by
  rw [Session.stop, quiet_emit _ rfl, quiet_setRunState, Session.stop]

@[simp] theorem quiet_stopUnknown (stop : Stop) :
    (s.stopUnknown stop).quiet = s.quiet.stopUnknown stop := by
  have hrun := quiet_setRunState { s with crashed := s.crashed || !s.started } .stopped
  generalize ht : setRunState { s with crashed := s.crashed || !s.started } .stopped = t at hrun
  have hs : s.stopUnknown stop = if t.quit then t else t.emit (.stopped stop) := by
    rw [← ht]
    rfl
  have hq : s.quiet.stopUnknown stop = if t.quit then t.quiet else t.quiet.emit (.stopped stop) := by
    rw [show t.quit = t.quiet.quit from rfl, hrun]
    rfl
  rw [hs, hq]
  split
  · rfl
  · exact quiet_emit t rfl

@[simp] theorem quiet_exited (code : Option Int) : (s.exited code).quiet = s.quiet.exited code :=
  quiet_emit _ rfl

@[simp] theorem quiet_onQuit : s.onQuit.quiet = s.quiet.onQuit := by
  unfold onQuit
  dsimp only
  rw [show s.quiet.quitEmitted = s.quitEmitted from rfl]
  split
  · rfl
  · exact quiet_emit _ rfl

@[simp] theorem quiet_handleHit (n : Notice) : (s.handleHit n).quiet = s.quiet.handleHit n := by
  unfold handleHit
  dsimp only
  rw [← quiet_stop]
  split
  · rfl
  · rw [quiet_emitLine? _ (by decide)]
    rfl

@[simp] theorem quiet_handleStopped (n : Notice) :
    (s.handleStopped n).quiet = s.quiet.handleStopped n := by
  unfold handleStopped
  repeat' split
  all_goals simp [quiet_emitLine]

@[simp] theorem quiet_handleNotice (n : Notice) :
    (s.handleNotice n).quiet = s.quiet.handleNotice n := by
  unfold handleNotice
  repeat' split
  · rw [quiet_emit _ rfl, quiet_setRunState]
  · exact quiet_handleStopped s n
  · rfl
  · rfl
  · rfl
  · exact quiet_emit s rfl
  · exact quiet_emit s rfl
  · rfl

@[simp] theorem quiet_handleResult (r : ResultRecord) (line : String) :
    (s.handleResult r line).quiet = s.quiet.handleResult r line := by
  unfold handleResult
  rw [show s.quiet.exchange = s.exchange from rfl]
  dsimp only
  repeat' split
  · rfl
  · exact quiet_emitLine _ (by decide) _
  · rw [quiet_emit _ rfl, quiet_emitLine _ (by decide)]
    rfl
  · rw [quiet_emit _ rfl]
    rfl

@[simp] theorem quiet_handleStream (kind : StreamKind) (text : String) :
    (s.handleStream kind text).quiet = s.quiet.handleStream kind text := by
  have hchannel : channel kind ≠ .stdout := by cases kind <;> decide
  unfold handleStream
  rw [← quiet_emitLine s hchannel]
  split
  · dsimp only
    rw [quiet_emitLine? _ (by decide)]
    rfl
  · rfl

/-! ## Lines -/

open LineBuffer (isRecord taken recordLines)

/-- A record does the same whatever text was told before, and text does nothing else. -/
theorem quiet_handleLine (line : String) :
    (s.handleLine line).quiet = if isRecord line then s.quiet.handleLine line else s.quiet := by
  unfold isRecord Line.record? handleLine
  cases Line.classify line with
  | passthrough text => exact quiet_emit_text s rfl
  | prompt => rfl
  | record r =>
    cases r with
    | result r => exact quiet_handleResult s r line
    | notice n => exact quiet_handleNotice s n
    | stream kind text => exact quiet_handleStream s kind text
    | unhandled line => rfl

theorem quiet_foldl_handleLine (lines : List String) :
    (lines.foldl handleLine s).quiet = (lines.filter isRecord).foldl handleLine s.quiet := by
  induction lines generalizing s with
  | nil => rfl
  | cons line lines ih =>
    rw [List.foldl_cons, ih, quiet_handleLine, List.filter_cons]
    split <;> rfl

/-! ## Bytes and the end -/

theorem quiet_flush : s.flush.quiet = s.quiet := by
  unfold flush
  split
  · exact quiet_emit_text _ rfl
  · rfl

theorem output_flush : s.flush.output = s.output.flushed := by
  unfold flush LineBuffer.flushed
  cases s.output.takePartial? Line.isFlushable <;> rfl

theorem output_receive (chunk : List UInt8) :
    (s.receive chunk).output = (s.output.push chunk).2.flushed := by
  unfold receive
  dsimp only
  rw [output_flush, output_foldl_handleLine]

theorem quiet_receive (chunk : List UInt8) :
    (s.receive chunk).quiet = ((s.output.push chunk).1.filter isRecord).foldl handleLine s.quiet := by
  unfold receive
  dsimp only
  rw [quiet_flush, quiet_foldl_handleLine]
  rfl

theorem quiet_readRest :
    s.readRest.quiet = (recordLines s.output []).foldl handleLine s.quiet := by
  unfold readRest recordLines taken
  split
  · rename_i line output h
    rw [h, quiet_handleLine, Option.map_some, Option.toList_some, List.filter_singleton]
    cases isRecord line <;> rfl
  · rename_i h
    rw [h]
    rfl

theorem quiet_shutDown : s.shutDown.quiet = s.quiet.shutDown := quiet_onQuit _

/-- The session after bytes arrived in chunks and the debugger ended. -/
def readOut (chunks : List (List UInt8)) : Session := (chunks.foldl receive s).finish

/-- The session is what the record lines make of it, apart from the text. -/
theorem quiet_readOut (chunks : List (List UInt8)) :
    (s.readOut chunks).quiet = ((recordLines s.output chunks).foldl handleLine s.quiet).shutDown := by
  induction chunks generalizing s with
  | nil => rw [readOut, List.foldl_nil, finish_eq, quiet_shutDown, quiet_readRest]
  | cons chunk chunks ih =>
    rw [show s.readOut (chunk :: chunks) = (s.receive chunk).readOut chunks from rfl, ih, output_receive,
      quiet_receive, ← List.foldl_append, recordLines, recordLines, taken, List.filter_append]

/-! ## Chunks -/

open LineBuffer (IsCut NoHiddenRecord records)

/--
The chunks in which bytes arrive do not matter for the records exactly if no line hides a record
behind a start that is shown at once; then they only matter for the messages that tell text.
-/
theorem cuts_agree_iff (bytes : List UInt8) :
    ((∀ xs ys, IsCut bytes xs → IsCut bytes ys → records {} xs = records {} ys) ↔
        NoHiddenRecord bytes) ∧
      (NoHiddenRecord bytes → ∀ s : Session, s.output = {} → ∀ xs ys, IsCut bytes xs →
        IsCut bytes ys → (s.readOut xs).quiet = (s.readOut ys).quiet) ∧
      ∀ (s : Session) (chunks : List (List UInt8)), (s.readOut chunks).quiet =
        ((recordLines s.output chunks).foldl handleLine s.quiet).shutDown := by
  have hlines : NoHiddenRecord bytes → ∀ xs ys, IsCut bytes xs → IsCut bytes ys →
      recordLines {} xs = recordLines {} ys := by
    intro h xs ys hx hy
    rw [LineBuffer.recordLines_eq_allLines h hx.1, LineBuffer.recordLines_eq_allLines h hy.1]
  refine ⟨⟨?_, ?_⟩, ?_, fun s chunks => quiet_readOut s chunks⟩
  · intro hall
    by_contra h
    obtain ⟨xs, ys, hx, hy, hne⟩ := LineBuffer.exists_cuts_records_ne h
    exact hne (hall xs ys hx hy)
  · intro h xs ys hx hy
    rw [LineBuffer.records_eq_filterMap, LineBuffer.records_eq_filterMap, hlines h xs ys hx hy]
  · intro h s hs xs ys hx hy
    rw [quiet_readOut, quiet_readOut, hs, hlines h xs ys hx hy]

/-- A cut inside the number of a result. -/
theorem cuts_agree_inside_number :
    NoHiddenRecord (Utf8.encode "hello\n12^done\n") ∧
      (readOut {} [Utf8.encode "hello\n1", Utf8.encode "2^done\n"]).quiet =
        (readOut {} [Utf8.encode "hello\n12^done\n"]).quiet := by
  have h : NoHiddenRecord (Utf8.encode "hello\n12^done\n") := by decide +kernel
  exact ⟨h, (cuts_agree_iff _).2.1 h {} rfl _ _ (by decide +kernel) (by decide +kernel)⟩

/-- The rest of a line whose start was shown is read as a record. -/
theorem hidden_record_read :
    IsCut (Utf8.encode "hello *running,thread-id=\"all\"\n")
        [Utf8.encode "hello ", Utf8.encode "*running,thread-id=\"all\"\n"] ∧
      (readOut {} [Utf8.encode "hello *running,thread-id=\"all\"\n"]).events =
        [.message .stdout "hello *running,thread-id=\"all\"\n", .quit] ∧
      (readOut {} [Utf8.encode "hello ", Utf8.encode "*running,thread-id=\"all\"\n"]).events =
        [.message .stdout "hello ", .running (some "all"), .quit] := by
  decide +kernel

end Session

end MachineInterface

import MachineInterface.Proofs.Exchange.Answers
import MachineInterface.Proofs.Line.Cuts
import MachineInterface.Session.Dispatch

/-!
# What the debugger's output leaves alone

A line of the debugger changes what is known of its program, and its results answer commands. The
breakpoints, the templates of log points and all else that only calls change stay as they are.

* `backdrop_handleLine`: a line does no more to what belongs to the calls than answer commands.
* `held_receive`, `held_finish`: the same for bytes and for the end.
* `exchange_receive`, `exchange_finish`: what becomes of the commands.
-/

namespace MachineInterface

namespace LogPoints

variable (l : LogPoints)

theorem templates_onHit (id : UInt32) : (l.onHit id).2.templates = l.templates := by
  unfold onHit
  dsimp only
  repeat' split
  all_goals rfl

theorem templates_onConsole (line : String) : (l.onConsole line).2.templates = l.templates := by
  unfold onConsole
  dsimp only
  repeat' split
  all_goals rfl

end LogPoints

namespace Session

variable (s : Session)

/-- The part of a session that no line of the debugger changes, unless it is a result. -/
def backdrop : Session :=
  { s with
    runState := .initializing
    crashed := false
    quit := false
    quitEmitted := false
    logPoints := { s.logPoints with waiting := [] }
    events := [] }

/-! ## Lines -/

@[simp] theorem backdrop_emit (e : Event) : (s.emit e).backdrop = s.backdrop := rfl

@[simp] theorem backdrop_emitLine (channel : Channel) (text : String) :
    (s.emitLine channel text).backdrop = s.backdrop := rfl

@[simp] theorem backdrop_emitLine? (channel : Channel) (text : Option String) :
    (s.emitLine? channel text).backdrop = s.backdrop := by
  cases text <;> rfl

@[simp] theorem backdrop_setRunState (next : RunState) :
    (s.setRunState next).backdrop = s.backdrop := by
  unfold setRunState
  split <;> rfl

@[simp] theorem backdrop_stop (stop : Stop) : (s.stop stop).backdrop = s.backdrop := by
  simp [Session.stop]

@[simp] theorem backdrop_stopUnknown (stop : Stop) : (s.stopUnknown stop).backdrop = s.backdrop := by
  unfold stopUnknown
  dsimp only
  split
  · rw [backdrop_setRunState]
    rfl
  · rw [backdrop_emit, backdrop_setRunState]
    rfl

@[simp] theorem backdrop_exited (code : Option Int) : (s.exited code).backdrop = s.backdrop := rfl

@[simp] theorem backdrop_onQuit : s.onQuit.backdrop = s.backdrop := by
  unfold onQuit
  dsimp only
  split <;> rfl

theorem backdrop_logPoints {l : LogPoints} (h : l.templates = s.logPoints.templates) :
    ({ s with logPoints := l } : Session).backdrop = s.backdrop := by
  simp only [backdrop, h]

@[simp] theorem backdrop_handleHit (n : Notice) : (s.handleHit n).backdrop = s.backdrop := by
  unfold handleHit
  dsimp only
  split
  · exact backdrop_stop s _
  · rw [backdrop_emitLine?, backdrop_logPoints _ (LogPoints.templates_onHit _ _), backdrop_stop]

@[simp] theorem backdrop_handleStopped (n : Notice) :
    (s.handleStopped n).backdrop = s.backdrop := by
  unfold handleStopped
  repeat' split
  all_goals simp

@[simp] theorem backdrop_handleNotice (n : Notice) : (s.handleNotice n).backdrop = s.backdrop := by
  unfold handleNotice
  repeat' split
  all_goals simp

theorem backdrop_handleResult (r : ResultRecord) (line : String) :
    (s.handleResult r line).backdrop =
      ({ s with exchange := (s.exchange.resolve r).2 } : Session).backdrop := by
  unfold handleResult
  dsimp only
  repeat' split
  all_goals rfl

@[simp] theorem backdrop_handleStream (kind : StreamKind) (text : String) :
    (s.handleStream kind text).backdrop = s.backdrop := by
  unfold handleStream
  split
  · dsimp only
    rw [backdrop_emitLine?, backdrop_logPoints _ (LogPoints.templates_onConsole _ _),
      backdrop_emitLine]
  · exact backdrop_emitLine s _ _

/-- A line does no more to what belongs to the calls than answer commands. -/
theorem backdrop_handleLine (line : String) : (s.handleLine line).backdrop =
    ({ s with exchange := s.exchange.hearLine line } : Session).backdrop := by
  unfold handleLine Exchange.hearLine
  cases Line.classify line with
  | passthrough text => rfl
  | prompt => rfl
  | record r =>
    cases r with
    | result r => exact backdrop_handleResult s r line
    | notice n => exact backdrop_handleNotice s n
    | stream kind text => exact backdrop_handleStream s kind text
    | unhandled text => rfl

theorem backdrop_foldl_handleLine (lines : List String) : (lines.foldl handleLine s).backdrop =
    ({ s with exchange := lines.foldl Exchange.hearLine s.exchange } : Session).backdrop := by
  induction lines generalizing s with
  | nil => rfl
  | cons line lines ih =>
    have hline := backdrop_handleLine s line
    have hexchange : (s.handleLine line).exchange = s.exchange.hearLine line :=
      congrArg Session.exchange hline
    rw [List.foldl_cons, ih, hexchange]
    exact congrArg (fun t : Session =>
      { t with exchange := lines.foldl Exchange.hearLine (s.exchange.hearLine line) }) hline

theorem output_foldl_handleLine (lines : List String) :
    (lines.foldl handleLine s).output = s.output := by
  have h := congrArg Session.output (backdrop_foldl_handleLine s lines)
  exact h

theorem exchange_foldl_handleLine (lines : List String) :
    (lines.foldl handleLine s).exchange = lines.foldl Exchange.hearLine s.exchange := by
  have h := congrArg Session.exchange (backdrop_foldl_handleLine s lines)
  exact h

/-! ## Bytes and the end -/

/-- The part of a session that neither bytes of the debugger nor its end change. -/
def held : Session := { s.backdrop with output := {}, link := .none, exchange := {} }

theorem held_of_backdrop {s t : Session} (h : s.backdrop = t.backdrop) : s.held = t.held := by
  rw [held, h]
  rfl

theorem held_handleLine (line : String) : (s.handleLine line).held = s.held :=
  (held_of_backdrop (backdrop_handleLine s line)).trans rfl

theorem held_foldl_handleLine (lines : List String) : (lines.foldl handleLine s).held = s.held :=
  (held_of_backdrop (backdrop_foldl_handleLine s lines)).trans rfl

theorem held_flush : s.flush.held = s.held := by
  unfold flush
  split <;> rfl

theorem exchange_flush : s.flush.exchange = s.exchange := by
  unfold flush
  split <;> rfl

theorem held_receive (chunk : List UInt8) : (s.receive chunk).held = s.held :=
  (held_flush _).trans (held_foldl_handleLine _ _)

/-- The lines that bytes end answer commands, one after the other. -/
theorem exchange_receive (chunk : List UInt8) :
    (s.receive chunk).exchange = (s.output.push chunk).1.foldl Exchange.hearLine s.exchange :=
  (exchange_flush _).trans (exchange_foldl_handleLine _ _)

/-- The session after the line that the debugger left unfinished was read. -/
def readRest : Session :=
  match s.output.takeAll? with
  | some (line, output) => handleLine { s with output } line
  | none => s

theorem held_readRest : s.readRest.held = s.held := by
  unfold readRest
  split
  · exact held_handleLine _ _
  · rfl

theorem exchange_readRest :
    s.readRest.exchange = (s.output.taken []).foldl Exchange.hearLine s.exchange := by
  unfold readRest LineBuffer.taken
  split
  · rename_i line output h
    rw [h]
    exact congrArg Session.exchange (backdrop_handleLine { s with output } line)
  · rename_i h
    rw [h]
    rfl

/-- The session of a debugger that has gone. -/
def shutDown : Session :=
  { s with link := .closed, exchange := s.exchange.failAll .sessionClosed }.onQuit

theorem finish_eq : s.finish = s.readRest.shutDown := rfl

theorem held_shutDown : s.shutDown.held = s.held := by
  rw [shutDown, held_of_backdrop (backdrop_onQuit _)]
  rfl

theorem exchange_shutDown : s.shutDown.exchange = s.exchange.failAll .sessionClosed := by
  have h := congrArg Session.exchange (backdrop_onQuit
    { s with link := .closed, exchange := s.exchange.failAll .sessionClosed })
  exact h

theorem held_finish : s.finish.held = s.held := by
  rw [finish_eq, held_shutDown, held_readRest]

/-- The rest of the output may answer a command; all commands that still wait then fail. -/
theorem exchange_finish : s.finish.exchange =
    ((s.output.taken []).foldl Exchange.hearLine s.exchange).failAll .sessionClosed := by
  rw [finish_eq, exchange_shutDown, exchange_readRest]

end Session

end MachineInterface

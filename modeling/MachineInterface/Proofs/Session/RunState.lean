import MachineInterface.Proofs.Session.Ensemble
import MachineInterface.Proofs.Session.Frame

/-!
# The state of the program

The run state follows what the debugger says of its program and the debugger's end, and nothing
else: neither other lines nor anything that the front end does. The same machine tells the front end
of every move of the program, once.

* `progress_handleLine`: a line moves the machine if it is about the program.
* `progress_run`: in every run, state and events are those of the machine.
-/

namespace MachineInterface

/-! ## The machine -/

/-- What moves the run state. -/
inductive Signal where
  /-- The debugger says that the program runs. -/
  | running (n : Notice)
  /-- The debugger says that the program stopped. -/
  | stopped (n : Notice)
  /-- The debugger ended, or could not be started. -/
  | ended
  deriving Repr, DecidableEq

/-- The reasons that the debugger names for a stop, by what they are told as. -/
def StopReason.table : List (StopReason × List String) :=
  [(.breakpoint, ["breakpoint-hit"]),
    (.watchpoint, ["watchpoint-trigger", "read-watchpoint-trigger", "access-watchpoint-trigger"]),
    (.step, ["function-finished", "location-reached", "end-stepping-range", "watchpoint-scope",
      "solib-event", "syscall-entry", "syscall-return", "fork", "vfork", "exec"]),
    (.signal, ["signal-received"])]

/-- What a reason that the debugger names is told as. -/
def StopReason.ofText? (text : String) : Option StopReason :=
  (table.find? (·.2.contains text)).map (·.1)

namespace Signal

/-- What a line of the debugger says of its program. -/
def ofLine? (line : String) : Option Signal :=
  match Line.classify line with
  | .record (.notice n) =>
    if n.kind = .exec ∧ n.event = "running" then some (running n)
    else if n.kind = .exec ∧ n.event = "stopped" then some (stopped n)
    else none
  | _ => none

/-- The run state after a signal. A program that has ended stays ended. -/
def next (state : RunState) (g : Signal) : RunState :=
  if state = .terminated then .terminated
  else match g with
    | running _ => .running
    | stopped n =>
      if n.text? "reason" = some "exited" ∨ n.text? "reason" = some "exited-normally"
      then .terminated else .stopped
    | ended => .terminated

/-- How a stop is told. -/
def stop (n : Notice) (kind : StopReason) : Stop where
  reason := kind
  threadId := Session.number? (n.text? "thread-id")
  allThreadsStopped := n.text? "stopped-threads" = some "all"
  breakpointId := if kind = .breakpoint then Session.number? (n.text? "bkptno") else none
  signalName := if kind = .signal then n.text? "signal-name" else none
  rawReason := n.text? "reason"

/--
What is told of a signal. A stop without a reason that is known is told as an exception, but not
once the program has ended.
-/
def event? (state : RunState) : Signal → Option Event
  | running n => some (.running (n.text? "thread-id"))
  | stopped n =>
    if n.text? "reason" = some "exited" then
      some (.exited (Session.exitCode? ((n.text? "exit-code").getD "")))
    else if n.text? "reason" = some "exited-normally" then some (.exited (some 0))
    else match (n.text? "reason").bind StopReason.ofText? with
      | some kind => some (.stopped (stop n kind))
      | none => if state = .terminated then none else some (.stopped (stop n .exception))
  | ended => none

end Signal

/-- The state of the program, and what was told of its moves. -/
structure Progress where
  state : RunState := .initializing
  told : List Event := []
  deriving Repr, DecidableEq

/-- The progress after a signal. -/
def Progress.after (p : Progress) (g : Signal) : Progress :=
  ⟨g.next p.state, p.told ++ (g.event? p.state).toList⟩

/-! ## Sessions -/

/-- Whether an event tells of a move of the program. A pause is told to the front end's own start. -/
def Event.isMotion : Event → Bool
  | .running _ | .exited _ => true
  | .stopped stop => stop.reason != .pause
  | _ => false

namespace Session

variable (s : Session)

/-- The state of the program, and what was told of its moves. -/
def progress : Progress := ⟨s.runState, s.events.filter Event.isMotion⟩

theorem progress_emit {e : Event} (h : e.isMotion = false) : (s.emit e).progress = s.progress := by
  simp [progress, emit, h]

theorem told_emit {e : Event} (h : e.isMotion = true) :
    (s.emit e).progress.told = s.progress.told ++ [e] := by
  simp [progress, emit, h]

theorem progress_emitLine (channel : Channel) (text : String) :
    (s.emitLine channel text).progress = s.progress := progress_emit s rfl

/-- The session knows that the program or the debugger has ended exactly if the state says so. -/
def KnowsEnd : Prop := s.quit = true ↔ s.runState = .terminated

/-- A session after signals: its progress is that of the machine. -/
structure Heeds (gs : List Signal) (s u : Session) : Prop where
  progress : u.progress = gs.foldl Progress.after s.progress
  knowsEnd : u.KnowsEnd

variable {s}
variable {u v : Session} {gs hs : List Signal}

theorem Heeds.trans (h : Heeds gs s u) (h' : Heeds hs u v) : Heeds (gs ++ hs) s v :=
  ⟨by rw [List.foldl_append, ← h.progress, h'.progress], h'.knowsEnd⟩

theorem heeds_singleton {g : Signal} (hstate : u.runState = g.next s.runState)
    (htold : u.progress.told = s.progress.told ++ (g.event? s.runState).toList)
    (hend : u.KnowsEnd) : Heeds [g] s u := by
  refine ⟨?_, hend⟩
  calc u.progress
      = ⟨u.runState, u.progress.told⟩ := rfl
    _ = s.progress.after g := by rw [hstate, htold]; rfl

theorem KnowsEnd.heeds_nil (h : s.KnowsEnd) (hp : u.progress = s.progress) (hq : u.quit = s.quit) :
    Heeds [] s u := by
  have hstate : u.runState = s.runState := congrArg Progress.state hp
  refine ⟨hp, ?_⟩
  rw [KnowsEnd, hq, hstate]
  exact h

theorem KnowsEnd.heeds_emitLine (h : s.KnowsEnd) (channel : Channel) (text : String) :
    Heeds [] s (s.emitLine channel text) := h.heeds_nil (progress_emitLine s channel text) rfl

theorem KnowsEnd.heeds_logMessage (h : s.KnowsEnd) (logPoints : LogPoints)
    (message : Option String) : Heeds [] s ({ s with logPoints }.emitLine? .console message) := by
  have hqueue : Heeds [] s { s with logPoints } := h.heeds_nil rfl rfl
  cases message with
  | none => exact hqueue
  | some text => exact hqueue.trans (hqueue.knowsEnd.heeds_emitLine .console text)

/-! ## Stops -/

theorem runState_setRunState (next : RunState) : (s.setRunState next).runState =
    if s.runState = .terminated then .terminated else next := by
  unfold setRunState
  split <;> simp_all

theorem told_setRunState (next : RunState) :
    (s.setRunState next).progress.told = s.progress.told := by
  unfold setRunState
  split <;> rfl

theorem quit_setRunState (next : RunState) : (s.setRunState next).quit = s.quit := by
  unfold setRunState
  split <;> rfl

theorem KnowsEnd.setRunState (h : s.KnowsEnd) {next : RunState} (hn : next ≠ .terminated) :
    (s.setRunState next).KnowsEnd := by
  rw [KnowsEnd, quit_setRunState, runState_setRunState]
  split
  · simp_all [KnowsEnd]
  · rename_i hs
    rw [KnowsEnd, iff_false_right hs] at h
    rw [iff_false_right hn]
    exact h

/-- The session passes to another state, unless its program has ended, and tells of it. -/
theorem KnowsEnd.heeds_emit_setRunState {g : Signal} {next : RunState} {e : Event}
    (h : s.KnowsEnd) (hn : next ≠ .terminated)
    (hnext : g.next s.runState = if s.runState = .terminated then .terminated else next)
    (he : g.event? s.runState = some e) (hm : e.isMotion = true) :
    Heeds [g] s ((s.setRunState next).emit e) := by
  have hstate : (s.setRunState next).runState = g.next s.runState := by
    rw [runState_setRunState, hnext]
  refine heeds_singleton hstate ?_ (h.setRunState hn)
  rw [told_emit _ hm, told_setRunState, he]
  rfl

theorem KnowsEnd.heeds_running (h : s.KnowsEnd) (n : Notice) :
    Heeds [.running n] s ((s.setRunState .running).emit (.running (n.text? "thread-id"))) :=
  h.heeds_emit_setRunState (by decide) rfl rfl rfl

theorem next_stopped {n : Notice} (hexited : n.text? "reason" ≠ some "exited")
    (hnormally : n.text? "reason" ≠ some "exited-normally") (state : RunState) :
    (Signal.stopped n).next state = if state = .terminated then .terminated else .stopped := by
  simp only [Signal.next, hexited, hnormally, or_self, if_false]

theorem isMotion_stop {n : Notice} {kind : StopReason} (h : kind ≠ .pause) :
    (Event.stopped (Signal.stop n kind)).isMotion = true := by
  simpa [Event.isMotion, Signal.stop] using h

theorem ofText?_ne_pause {text : String} {kind : StopReason}
    (h : StopReason.ofText? text = some kind) : kind ≠ .pause := by
  obtain ⟨e, he, rfl⟩ := Option.map_eq_some_iff.mp h
  have hall : ∀ e ∈ StopReason.table, e.1 ≠ .pause := by decide
  exact hall e (List.mem_of_find?_eq_some he)

/-- But for hits and signals, the reasons of the table are the plain ones. -/
theorem ofText?_eq_plainReason? {text : String} (hhit : text ≠ "breakpoint-hit")
    (hsignal : text ≠ "signal-received") : StopReason.ofText? text = plainReason? text := by
  have hhit' : ["breakpoint-hit"].contains text = false := by simpa using hhit
  have hsignal' : ["signal-received"].contains text = false := by simpa using hsignal
  unfold plainReason? StopReason.ofText? StopReason.table
  simp only [List.find?_cons, List.find?_nil, hhit', hsignal']
  symm
  split
  · rename_i hwatchpoint
    rw [hwatchpoint]
    rfl
  · rename_i hwatchpoint
    rw [Bool.not_eq_true] at hwatchpoint
    rw [hwatchpoint]
    split
    · rename_i hstep
      rw [hstep]
      rfl
    · rename_i hstep
      rw [Bool.not_eq_true] at hstep
      rw [hstep]
      rfl

/-- Only hits and signals are told with more than the reason. -/
theorem stopOf_eq_stop (n : Notice) {text : String} {kind : StopReason}
    (h : plainReason? text = some kind) : stopOf n kind = Signal.stop n kind := by
  unfold plainReason? at h
  split at h
  · cases h
    rfl
  split at h
  · cases h
    rfl
  · cases h

theorem KnowsEnd.heeds_stop {n : Notice} {text : String} {kind : StopReason} (h : s.KnowsEnd)
    (htext : n.text? "reason" = some text) (hkind : StopReason.ofText? text = some kind) :
    Heeds [.stopped n] s (s.stop (Signal.stop n kind)) := by
  have hexited : text ≠ "exited" := by
    rintro rfl
    cases hkind
  have hnormally : text ≠ "exited-normally" := by
    rintro rfl
    cases hkind
  refine h.heeds_emit_setRunState (by decide) (next_stopped ?_ ?_ _) ?_ ?_
  · simpa [htext] using hexited
  · simpa [htext] using hnormally
  · simp [Signal.event?, htext, hexited, hnormally, hkind]
  · exact isMotion_stop (ofText?_ne_pause hkind)

/-- A stop for no known reason is not told once the program has ended. -/
theorem KnowsEnd.heeds_unknown {n : Notice} (h : s.KnowsEnd)
    (hexited : n.text? "reason" ≠ some "exited")
    (hnormally : n.text? "reason" ≠ some "exited-normally")
    (hkind : (n.text? "reason").bind StopReason.ofText? = none) :
    Heeds [.stopped n] s (if (s.setRunState .stopped).quit then s.setRunState .stopped
      else (s.setRunState .stopped).emit (.stopped (Signal.stop n .exception))) := by
  have hnext := next_stopped hexited hnormally s.runState
  have hevent : (Signal.stopped n).event? s.runState = if s.runState = .terminated then none
      else some (.stopped (Signal.stop n .exception)) := by
    simp only [Signal.event?, hexited, hnormally, hkind, if_false]
  rw [quit_setRunState]
  split
  · rename_i hquit
    have hended : s.runState = .terminated := h.mp hquit
    rw [if_pos hended] at hnext hevent
    rw [runState_setRunState_of_terminated hended]
    refine heeds_singleton (hended.trans hnext.symm) ?_ h
    rw [hevent, Option.toList_none, List.append_nil]
  · rename_i hquit
    have hrunning : s.runState ≠ .terminated := fun hs => hquit (h.mpr hs)
    rw [if_neg hrunning] at hevent
    exact h.heeds_emit_setRunState (by decide) hnext hevent rfl

theorem KnowsEnd.heeds_stopUnknown {n : Notice} (h : s.KnowsEnd)
    (hexited : n.text? "reason" ≠ some "exited")
    (hnormally : n.text? "reason" ≠ some "exited-normally")
    (hkind : (n.text? "reason").bind StopReason.ofText? = none) :
    Heeds [.stopped n] s (s.stopUnknown (Signal.stop n .exception)) := by
  have hcrashed : Heeds [] s { s with crashed := s.crashed || !s.started } := h.heeds_nil rfl rfl
  exact hcrashed.trans (hcrashed.knowsEnd.heeds_unknown hexited hnormally hkind)

theorem heeds_exited {n : Notice} {code : Option Int}
    (hreason : n.text? "reason" = some "exited" ∨ n.text? "reason" = some "exited-normally")
    (hevent : (Signal.stopped n).event? s.runState = some (.exited code)) :
    Heeds [.stopped n] s (s.exited code) := by
  have hnext : (Signal.stopped n).next s.runState = .terminated := by
    simp [Signal.next, hreason]
  refine heeds_singleton hnext.symm ?_ ⟨fun _ => rfl, fun _ => rfl⟩
  rw [exited, told_emit _ rfl, hevent]
  rfl

theorem heeds_onQuit (s : Session) : Heeds [.ended] s s.onQuit := by
  have hnext : Signal.ended.next s.runState = .terminated := by
    simp [Signal.next]
  unfold onQuit
  dsimp only
  split
  · exact heeds_singleton hnext.symm (List.append_nil _).symm ⟨fun _ => rfl, fun _ => rfl⟩
  · refine heeds_singleton hnext.symm ?_ ⟨fun _ => rfl, fun _ => rfl⟩
    rw [progress_emit _ rfl]
    exact (List.append_nil _).symm

/-! ## Lines -/

/-- A breakpoint was hit; what a log point makes of it is no move of the program. -/
theorem KnowsEnd.heeds_handleHit {n : Notice} (h : s.KnowsEnd)
    (hreason : n.text? "reason" = some "breakpoint-hit") : Heeds [.stopped n] s (s.handleHit n) := by
  have hstop : Heeds [.stopped n] s
      (s.stop { stopOf n .breakpoint with breakpointId := number? (n.text? "bkptno") }) :=
    h.heeds_stop hreason rfl
  unfold handleHit
  dsimp only
  split
  · exact hstop
  · exact hstop.trans (hstop.knowsEnd.heeds_logMessage _ _)

theorem KnowsEnd.heeds_handleStopped (h : s.KnowsEnd) (n : Notice) :
    Heeds [.stopped n] s (s.handleStopped n) := by
  unfold handleStopped
  cases hreason : n.text? "reason" with
  | none => exact h.heeds_stopUnknown (by simp [hreason]) (by simp [hreason]) (by simp [hreason])
  | some reason =>
    dsimp only
    split
    · rename_i hhit
      exact h.heeds_handleHit (hhit ▸ hreason)
    split
    · rename_i hsignal
      exact h.heeds_stop (hsignal ▸ hreason) rfl
    split
    · rename_i hnormally
      refine heeds_exited (.inr (hnormally ▸ hreason)) ?_
      simp [Signal.event?, hreason, hnormally]
    split
    · rename_i hexited
      refine (h.heeds_emitLine .stderr _).trans (heeds_exited (.inl (hexited ▸ hreason)) ?_)
      simp [Signal.event?, hreason, hexited]
    · rename_i hhit hsignal hnormally hexited
      have hplain := ofText?_eq_plainReason? hhit hsignal
      split
      · rename_i kind hkind
        rw [stopOf_eq_stop n hkind]
        exact h.heeds_stop hreason (hplain.trans hkind)
      · rename_i hkind
        have hline := h.heeds_emitLine .console
          ("Not implemented stop reason (assuming exception): " ++ reason)
        refine hline.trans (hline.knowsEnd.heeds_stopUnknown ?_ ?_ ?_)
        · simpa [hreason] using hexited
        · simpa [hreason] using hnormally
        · rw [hreason]
          exact hplain.trans hkind

theorem KnowsEnd.heeds_handleResult (h : s.KnowsEnd) (r : ResultRecord) (line : String) :
    Heeds [] s (s.handleResult r line) := by
  have hexchange : Heeds [] s { s with exchange := (s.exchange.resolve r).2 } := h.heeds_nil rfl rfl
  have htell : ∀ {t : Session}, Heeds [] s t → ∀ token outcome message,
      Heeds [] s (t.emit (.unexpectedResult token outcome message)) := by
    intro t ht token outcome message
    exact ht.trans (ht.knowsEnd.heeds_nil (progress_emit t rfl) rfl)
  have hline : ∀ text, Heeds [] s
      ({ s with exchange := (s.exchange.resolve r).2 }.emitLine .stderr text) :=
    fun text => hexchange.trans (hexchange.knowsEnd.heeds_emitLine .stderr text)
  unfold handleResult
  dsimp only
  split
  · exact hexchange
  · exact hline _
  · split
    · exact htell (hline _) _ _ _
    · exact htell hexchange _ _ _

theorem KnowsEnd.heeds_handleStream (h : s.KnowsEnd) (kind : StreamKind) (text : String) :
    Heeds [] s (s.handleStream kind text) := by
  have hline := h.heeds_emitLine (channel kind) text
  unfold handleStream
  split
  · exact hline.trans (hline.knowsEnd.heeds_logMessage _ _)
  · exact hline

/-- A line moves the state of the program if it is about the program. -/
theorem KnowsEnd.heeds_handleLine (h : s.KnowsEnd) (line : String) :
    Heeds (Signal.ofLine? line).toList s (s.handleLine line) := by
  unfold Signal.ofLine? handleLine
  cases Line.classify line with
  | passthrough text => exact h.heeds_emitLine .stdout text
  | prompt => exact h.heeds_nil rfl rfl
  | record r =>
    cases r with
    | result r => exact h.heeds_handleResult r line
    | stream kind text => exact h.heeds_handleStream kind text
    | unhandled text => exact h.heeds_nil rfl rfl
    | notice n =>
      dsimp only
      unfold handleNotice
      cases hkind : n.kind with
      | exec =>
        simp only [true_and]
        split
        · exact h.heeds_running n
        split
        · exact h.heeds_handleStopped n
        · exact h.heeds_nil rfl rfl
      | status => exact h.heeds_nil rfl rfl
      | notify =>
        simp only [reduceCtorEq, false_and, if_false]
        repeat' split
        · exact h.heeds_nil rfl rfl
        · exact h.heeds_nil (progress_emit s rfl) rfl
        · exact h.heeds_nil (progress_emit s rfl) rfl
        · exact h.heeds_nil rfl rfl

theorem KnowsEnd.heeds_foldl_handleLine (h : s.KnowsEnd) (lines : List String) :
    Heeds (lines.filterMap Signal.ofLine?) s (lines.foldl handleLine s) := by
  induction lines generalizing s with
  | nil => exact h.heeds_nil rfl rfl
  | cons line lines ih =>
    have hline := h.heeds_handleLine line
    have hlines := hline.trans (ih hline.knowsEnd)
    rw [List.filterMap_cons]
    cases hg : Signal.ofLine? line <;> rw [hg] at hlines <;> exact hlines

/-! ## Bytes and the end -/

theorem KnowsEnd.heeds_flush (h : s.KnowsEnd) : Heeds [] s s.flush := by
  unfold flush
  split
  · exact h.heeds_nil (progress_emit _ rfl) rfl
  · exact h.heeds_nil rfl rfl

theorem KnowsEnd.heeds_receive (h : s.KnowsEnd) (chunk : List UInt8) :
    Heeds ((s.output.push chunk).1.filterMap Signal.ofLine?) s (s.receive chunk) := by
  have houtput : Heeds [] s { s with output := (s.output.push chunk).2 } := h.heeds_nil rfl rfl
  have hlines := houtput.trans (houtput.knowsEnd.heeds_foldl_handleLine (s.output.push chunk).1)
  have hflush := hlines.trans hlines.knowsEnd.heeds_flush
  rw [List.append_nil, List.nil_append] at hflush
  exact hflush

theorem KnowsEnd.heeds_readRest (h : s.KnowsEnd) :
    Heeds ((s.output.taken []).filterMap Signal.ofLine?) s s.readRest := by
  unfold readRest LineBuffer.taken
  split
  · rename_i line output hrest
    have houtput : Heeds [] s { s with output } := h.heeds_nil rfl rfl
    rw [hrest]
    exact houtput.trans (houtput.knowsEnd.heeds_foldl_handleLine [line])
  · rename_i hrest
    rw [hrest]
    exact h.heeds_nil rfl rfl

theorem KnowsEnd.heeds_finish (h : s.KnowsEnd) :
    Heeds ((s.output.taken []).filterMap Signal.ofLine? ++ [.ended]) s s.finish := by
  have hrest := h.heeds_readRest
  have hclosed : Heeds [] s.readRest { s.readRest with
      link := .closed, exchange := s.readRest.exchange.failAll .sessionClosed } :=
    hrest.knowsEnd.heeds_nil rfl rfl
  exact hrest.trans (hclosed.trans (heeds_onQuit _))

theorem KnowsEnd.heeds_launchFailed (h : s.KnowsEnd) (detail : String) :
    Heeds [.ended] s (s.launchFailed detail) := by
  have htell : Heeds [] s (s.emit (.launchError detail)) := h.heeds_nil (progress_emit s rfl) rfl
  exact htell.trans (heeds_onQuit _)

/-! ## Calls -/

theorem Unmoved.progress (h : Unmoved s u) : u.progress = s.progress := by
  rw [Session.progress, h.runState, h.events, Session.progress]

/-- No deed moves the state of the program, and none tells of a move. -/
theorem KnowsEnd.heeds_apply (h : s.KnowsEnd) (d : Deed) : Heeds [] s (d.apply s) := by
  have hmute : d.IsMute → Heeds [] s (d.apply s) := by
    intro hd
    have hunmoved := unmoved_apply s hd
    exact h.heeds_nil hunmoved.progress hunmoved.quit
  cases d with
  | tell channel text => exact h.heeds_emitLine channel text
  | tellReady => exact h.heeds_nil (progress_emit s rfl) rfl
  | markStarted =>
    have hmarked : Heeds [] s { s with started := true, crashed := false } := h.heeds_nil rfl rfl
    rw [Deed.apply, markStarted]
    split
    · exact hmarked.trans (hmarked.knowsEnd.heeds_nil (progress_emit _ rfl) rfl)
    · exact hmarked
  | _ => exact hmute trivial

theorem KnowsEnd.heeds_of_does {extra : Deed → Prop} (h : s.KnowsEnd) (hd : Does extra s u) :
    Heeds [] s u := by
  have hkeeps : s.KnowsEnd → Heeds [] s u := by
    refine hd.rel (r := fun s u => s.KnowsEnd → Heeds [] s u) ?_ ?_ ?_
    · exact fun t ht => ht.heeds_nil rfl rfl
    · exact fun h h' ht => (h ht).trans (h' (h ht).knowsEnd)
    · exact fun d _ t ht => ht.heeds_apply d
  exact hkeeps h

end Session

/-! ## Runs -/

/-- What something that the debugger does says of its program. -/
def News.signals (s : Session) : News → List Signal
  | hear chunk => (s.output.push chunk).1.filterMap Signal.ofLine?
  | leave => (s.output.taken []).filterMap Signal.ofLine? ++ [.ended]
  | complain _ | refuse _ | deafen => []

theorem News.heeds {s : Session} (h : s.KnowsEnd) (n : News) :
    Session.Heeds (n.signals s) s (n.apply s) := by
  cases n with
  | hear chunk => exact h.heeds_receive chunk
  | complain text => exact h.heeds_nil (Session.progress_emit s rfl) rfl
  | refuse detail => exact h.heeds_nil (Session.progress_emit s rfl) rfl
  | deafen =>
    obtain ⟨link, hdeafen⟩ := Session.exists_deafen_eq s
    rw [apply, hdeafen]
    exact h.heeds_nil rfl rfl
  | leave => exact h.heeds_finish

namespace Ensemble

/-- The signals of a turn: lines of the debugger about its program, its end, or a failed start. -/
def signals (e : Ensemble) : Turn → List Signal
  | .call op => if (op.launchFailure? e.session.config).isSome then [.ended] else []
  | .move _ _ => []
  | .news n => if e.session.isConnected then n.signals e.session else []

/-- The signals of some turns. -/
def allSignals (e : Ensemble) : List Turn → List Signal
  | [] => []
  | t :: turns => e.signals t ++ allSignals (e.turn t) turns

variable {e : Ensemble}

theorem Proper.heeds_turn (h : e.Proper) (hend : e.session.KnowsEnd) (t : Turn) :
    Session.Heeds (e.signals t) e.session (e.turn t).session := by
  cases t with
  | call op =>
    cases hlaunch : op.launchFailure? e.session.config with
    | none =>
      rw [signals, hlaunch]
      exact hend.heeds_of_does (does_call hlaunch)
    | some detail =>
      rw [signals, hlaunch, session_call_of_launchFailure hlaunch]
      exact hend.heeds_launchFailed detail
  | move i m =>
    cases hi : e.calls[i]? with
    | none =>
      rw [turn_move_none hi]
      exact hend.heeds_nil rfl rfl
    | some o => exact hend.heeds_of_does (h.does_move hi m)
  | news n =>
    cases hc : e.session.isConnected with
    | true =>
      rw [turn_news hc, signals, hc]
      exact News.heeds hend n
    | false =>
      rw [turn_news_of_not_connected hc, signals, hc]
      exact hend.heeds_nil rfl rfl

theorem Proper.heeds_foldl_turn (h : e.Proper) (hend : e.session.KnowsEnd) (turns : List Turn) :
    Session.Heeds (e.allSignals turns) e.session (turns.foldl Ensemble.turn e).session := by
  induction turns generalizing e with
  | nil => exact hend.heeds_nil rfl rfl
  | cons t turns ih =>
    have hturn := h.heeds_turn hend t
    exact hturn.trans (ih (h.turn t) hturn.knowsEnd)

theorem knowsEnd_new (config : Config) : Session.KnowsEnd { config } := by
  constructor
  · intro hquit
    cases hquit
  · intro hended
    cases hended

theorem knowsEnd_run (config : Config) (turns : List Turn) :
    (run config turns).session.KnowsEnd :=
  ((Proper.run config []).heeds_foldl_turn (knowsEnd_new config) turns).knowsEnd

/-- A program that has ended stays ended. -/
theorem state_foldl_after (gs : List Signal) {p : Progress} (h : p.state = .terminated) :
    (gs.foldl Progress.after p).state = .terminated := by
  induction gs generalizing p with
  | nil => exact h
  | cons g gs ih =>
    refine ih ?_
    simp [Progress.after, Signal.next, h]

theorem Proper.runState_foldl_turn (h : e.Proper) (hend : e.session.KnowsEnd)
    (hended : e.session.runState = .terminated) (turns : List Turn) :
    (turns.foldl Ensemble.turn e).session.runState = .terminated := by
  have hstate := congrArg Progress.state (h.heeds_foldl_turn hend turns).progress
  exact hstate.trans (state_foldl_after _ hended)

/--
In every run the state of the program, and what is told of its moves, are those of the machine that
reads the debugger's lines about the program, its end and failed starts. A program that has ended
stays ended.
-/
theorem progress_run (config : Config) (turns : List Turn) :
    (run config turns).session.progress =
        (allSignals { session := { config } } turns).foldl Progress.after {} ∧
      ((run config turns).session.runState = .terminated →
        ∀ more, (run config (turns ++ more)).session.runState = .terminated) := by
  refine ⟨((Proper.run config []).heeds_foldl_turn (knowsEnd_new config) turns).progress, ?_⟩
  intro hended more
  rw [run_append]
  exact (Proper.run config turns).runState_foldl_turn (knowsEnd_run config turns) hended more

/-- A program exits, and a line that says it runs is told but moves nothing. -/
theorem progress_run_after_exit :
    let turns : List Turn := [.call (.bringUp { cwd := "/w", mode := .load "a.out" none none }),
      .news (.hear (Text.Utf8.encode
        "*running,thread-id=\"all\"\n*stopped,reason=\"exited\"\n"))]
    let more : List Turn := [.news (.hear (Text.Utf8.encode "*running,thread-id=\"1\"\n"))]
    (run {} turns).session.progress = ⟨.terminated, [.running (some "all"), .exited none]⟩ ∧
      (run {} (turns ++ more)).session.runState = .terminated := by
  intro turns more
  have hprogress : (run {} turns).session.progress =
      ⟨.terminated, [.running (some "all"), .exited none]⟩ := by
    rw [(progress_run {} turns).1]
    decide +kernel
  exact ⟨hprogress, (progress_run {} turns).2 (congrArg Progress.state hprogress) more⟩

end Ensemble

end MachineInterface

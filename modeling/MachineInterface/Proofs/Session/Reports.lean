import MachineInterface.Proofs.Session.RunState

/-!
# Reports

What lines and calls add to the events. No line tells of the debugger's end, and no call does: that
is told once, by the end itself or by a start that failed.

* `reports_handleLine`, `reports_apply`: lines and deeds add to the events, but not the end.
* `ToldOnce.onQuit`: the end is told, unless it was.
-/

namespace MachineInterface

/-- An event of which a line may tell: the end and the set-up of the debugger are told otherwise. -/
def Event.IsPrinted (e : Event) : Prop := e ≠ .quit ∧ e ≠ .debugReady

/-- Whether an event is about the life of the debugger or its program. -/
def Event.isLifecycle : Event → Bool
  | .debugReady | .running _ | .stopped _ | .exited _ | .threadCreated _ | .threadExited _ => true
  | _ => false

/-- An event of which a line about the program may tell, as far as it does not name a thread. -/
def Event.IsReport (e : Event) : Prop := e ≠ .quit ∧ e.isLifecycle = e.isMotion

theorem Event.IsReport.isPrinted {e : Event} (h : e.IsReport) : e.IsPrinted := by
  refine ⟨h.1, ?_⟩
  rintro rfl
  cases h.2

namespace Session

variable {s : Session}

/-- Events of one kind were told. That the end was told is as known as before. -/
structure Reports (p : Event → Prop) (s u : Session) : Prop where
  events : ∃ told, u.events = s.events ++ told ∧ ∀ e ∈ told, p e
  quitEmitted : u.quitEmitted = s.quitEmitted

namespace Reports

variable {p q : Event → Prop} {u v : Session}

theorem of_eq (hevents : u.events = s.events) (hquit : u.quitEmitted = s.quitEmitted) :
    Reports p s u :=
  ⟨⟨[], by simpa using hevents, by simp⟩, hquit⟩

theorem trans (h : Reports p s u) (h' : Reports p u v) : Reports p s v := by
  obtain ⟨told, hevents, hp⟩ := h.events
  obtain ⟨told', hevents', hp'⟩ := h'.events
  refine ⟨⟨told ++ told', ?_, ?_⟩, h'.quitEmitted.trans h.quitEmitted⟩
  · rw [hevents', hevents, List.append_assoc]
  · intro e he
    rcases List.mem_append.mp he with he | he
    · exact hp e he
    · exact hp' e he

theorem mono (hpq : ∀ e, p e → q e) (h : Reports p s u) : Reports q s u := by
  obtain ⟨told, hevents, hp⟩ := h.events
  exact ⟨⟨told, hevents, fun e he => hpq e (hp e he)⟩, h.quitEmitted⟩

end Reports

/-! ## Lines -/

section

variable (s : Session)

theorem reports_emit {p : Event → Prop} {e : Event} (h : p e) : Reports p s (s.emit e) :=
  ⟨⟨[e], rfl, by simpa using h⟩, rfl⟩

theorem reports_emitLine (channel : Channel) (text : String) :
    Reports Event.IsReport s (s.emitLine channel text) := reports_emit s ⟨by rintro ⟨⟩, rfl⟩

theorem reports_emitLine? (channel : Channel) (text : Option String) :
    Reports Event.IsReport s (s.emitLine? channel text) := by
  cases text with
  | none => exact .of_eq rfl rfl
  | some text => exact reports_emitLine s channel text

theorem reports_setRunState {p : Event → Prop} (next : RunState) :
    Reports p s (s.setRunState next) := by
  unfold setRunState
  split <;> exact .of_eq rfl rfl

theorem isReport_stopped {stop : Stop} (h : stop.reason ≠ .pause) :
    Event.IsReport (.stopped stop) :=
  ⟨by rintro ⟨⟩, by simpa [Event.isLifecycle, Event.isMotion] using h⟩

theorem reports_stop {stop : Stop} (h : stop.reason ≠ .pause) :
    Reports Event.IsReport s (s.stop stop) :=
  (reports_setRunState s .stopped).trans (reports_emit _ (isReport_stopped h))

theorem reports_stopUnknown {stop : Stop} (h : stop.reason ≠ .pause) :
    Reports Event.IsReport s (s.stopUnknown stop) := by
  have hcrashed : Reports Event.IsReport s { s with crashed := s.crashed || !s.started } :=
    .of_eq rfl rfl
  have hrun := hcrashed.trans (reports_setRunState _ .stopped)
  unfold stopUnknown
  dsimp only
  split
  · exact hrun
  · exact hrun.trans (reports_emit _ (isReport_stopped h))

theorem reports_exited (code : Option Int) : Reports Event.IsReport s (s.exited code) := by
  have hended : Reports Event.IsReport s { s with quit := true, runState := .terminated } :=
    .of_eq rfl rfl
  exact hended.trans (reports_emit _ ⟨by rintro ⟨⟩, rfl⟩)

theorem reports_logMessage (logPoints : LogPoints) (message : Option String) :
    Reports Event.IsReport s ({ s with logPoints }.emitLine? .console message) := by
  have hqueue : Reports Event.IsReport s { s with logPoints } := .of_eq rfl rfl
  exact hqueue.trans (reports_emitLine? _ _ _)

theorem reports_handleHit (n : Notice) : Reports Event.IsReport s (s.handleHit n) := by
  unfold handleHit
  dsimp only
  split
  · exact reports_stop s (by rintro ⟨⟩)
  · exact (reports_stop s (by rintro ⟨⟩)).trans (reports_logMessage _ _ _)

theorem plainReason?_ne_pause {text : String} {kind : StopReason}
    (h : plainReason? text = some kind) : kind ≠ .pause := by
  unfold plainReason? at h
  repeat' split at h
  all_goals cases h
  all_goals rintro ⟨⟩

theorem reports_handleStopped (n : Notice) : Reports Event.IsReport s (s.handleStopped n) := by
  unfold handleStopped
  repeat' split
  · exact reports_stopUnknown s (by rintro ⟨⟩)
  · exact reports_handleHit s n
  · exact reports_stop s (by rintro ⟨⟩)
  · exact reports_exited s _
  · exact (reports_emitLine s _ _).trans (reports_exited _ _)
  · rename_i hkind
    exact reports_stop s (plainReason?_ne_pause hkind)
  · exact (reports_emitLine s _ _).trans (reports_stopUnknown _ (by rintro ⟨⟩))

theorem reports_handleNotice (n : Notice) : Reports Event.IsPrinted s (s.handleNotice n) := by
  have hprinted : ∀ (t : Session) (e : Event), e ≠ .quit → e ≠ .debugReady →
      Reports Event.IsPrinted t (t.emit e) := fun t e hquit hready => reports_emit t ⟨hquit, hready⟩
  unfold handleNotice
  repeat' split
  · exact (reports_setRunState s _).trans (hprinted _ _ (by rintro ⟨⟩) (by rintro ⟨⟩))
  · exact (reports_handleStopped s n).mono fun e he => he.isPrinted
  · exact .of_eq rfl rfl
  · exact .of_eq rfl rfl
  · exact .of_eq rfl rfl
  · exact hprinted s _ (by rintro ⟨⟩) (by rintro ⟨⟩)
  · exact hprinted s _ (by rintro ⟨⟩) (by rintro ⟨⟩)
  · exact .of_eq rfl rfl

theorem reports_handleResult (r : ResultRecord) (line : String) :
    Reports Event.IsReport s (s.handleResult r line) := by
  have hexchange : Reports Event.IsReport s { s with exchange := (s.exchange.resolve r).2 } :=
    .of_eq rfl rfl
  have hunmatched : ∀ (t : Session) token outcome message, Reports Event.IsReport t
      (t.emit (.unexpectedResult token outcome message)) :=
    fun t token outcome message => reports_emit t ⟨by rintro ⟨⟩, rfl⟩
  unfold handleResult
  dsimp only
  split
  · exact hexchange
  · exact hexchange.trans (reports_emitLine _ _ _)
  · split
    · exact (hexchange.trans (reports_emitLine _ _ _)).trans (hunmatched _ _ _ _)
    · exact hexchange.trans (hunmatched _ _ _ _)

theorem reports_handleStream (kind : StreamKind) (text : String) :
    Reports Event.IsReport s (s.handleStream kind text) := by
  have hline := reports_emitLine s (channel kind) text
  unfold handleStream
  split
  · exact hline.trans (reports_logMessage _ _ _)
  · exact hline

theorem reports_handleLine (line : String) :
    Reports Event.IsPrinted s (s.handleLine line) := by
  have hreport : ∀ e, Event.IsReport e → e.IsPrinted := fun e he => he.isPrinted
  unfold handleLine
  split
  · exact (reports_emitLine s _ _).mono hreport
  · exact .of_eq rfl rfl
  · exact (reports_handleResult s _ _).mono hreport
  · exact reports_handleNotice s _
  · exact (reports_handleStream s _ _).mono hreport
  · exact .of_eq rfl rfl

theorem reports_foldl_handleLine (lines : List String) :
    Reports Event.IsPrinted s (lines.foldl handleLine s) := by
  induction lines generalizing s with
  | nil => exact .of_eq rfl rfl
  | cons line lines ih => exact (reports_handleLine s line).trans (ih _)

theorem reports_flush : Reports Event.IsPrinted s s.flush := by
  unfold flush
  split
  · rename_i text output _
    have houtput : Reports Event.IsPrinted s { s with output } := .of_eq rfl rfl
    exact houtput.trans (reports_emit _ ⟨by rintro ⟨⟩, by rintro ⟨⟩⟩)
  · exact .of_eq rfl rfl

theorem reports_receive (chunk : List UInt8) : Reports Event.IsPrinted s (s.receive chunk) := by
  have houtput : Reports Event.IsPrinted s { s with output := (s.output.push chunk).2 } :=
    .of_eq rfl rfl
  have hlines := houtput.trans (reports_foldl_handleLine _ (s.output.push chunk).1)
  exact hlines.trans (reports_flush _)

theorem reports_readRest : Reports Event.IsPrinted s s.readRest := by
  unfold readRest
  split
  · rename_i line output _
    have houtput : Reports Event.IsPrinted s { s with output } := .of_eq rfl rfl
    exact houtput.trans (reports_handleLine _ line)
  · exact .of_eq rfl rfl

end

/-! ## Deeds -/

/-- No deed tells of the end. -/
theorem reports_apply (s : Session) (d : Deed) : Reports (· ≠ .quit) s (d.apply s) := by
  have hmute : d.IsMute → Reports (· ≠ .quit) s (d.apply s) := by
    intro hd
    have hunmoved := unmoved_apply s hd
    exact .of_eq hunmoved.events hunmoved.quitEmitted
  cases d with
  | tell channel text => exact reports_emit s (by rintro ⟨⟩)
  | tellReady => exact reports_emit s (by rintro ⟨⟩)
  | markStarted =>
    have hmarked : Reports (· ≠ .quit) s { s with started := true, crashed := false } :=
      .of_eq rfl rfl
    rw [Deed.apply, markStarted]
    split
    · exact hmarked.trans (reports_emit _ (by rintro ⟨⟩))
    · exact hmarked
  | _ => exact hmute trivial

theorem reports_of_does {extra : Deed → Prop} {u : Session} (h : Does extra s u) :
    Reports (· ≠ .quit) s u :=
  h.rel (fun _ => .of_eq rfl rfl) (fun h h' => h.trans h') fun d _ s => reports_apply s d

/-! ## The end -/

/-- The end was told once if the session knows that it was, and else not at all. -/
def ToldOnce (s : Session) : Prop := s.events.count .quit = if s.quitEmitted then 1 else 0

theorem runState_onQuit (s : Session) : s.onQuit.runState = .terminated := by
  unfold onQuit
  dsimp only
  split <;> rfl

theorem ToldOnce.of_reports {u : Session} (h : s.ToldOnce) (hu : Reports (· ≠ .quit) s u) :
    u.ToldOnce := by
  obtain ⟨told, hevents, hne⟩ := hu.events
  have hnone : told.count .quit = 0 := List.count_eq_zero.mpr fun hmem => hne _ hmem rfl
  rw [ToldOnce, hevents, List.count_append, hnone, hu.quitEmitted]
  exact h

theorem ToldOnce.onQuit (h : s.ToldOnce) : s.onQuit.ToldOnce ∧ s.onQuit.quitEmitted = true := by
  unfold Session.onQuit
  dsimp only
  split
  · rename_i htold
    rw [ToldOnce, htold] at h
    exact ⟨h, rfl⟩
  · rename_i htold
    rw [ToldOnce, if_neg htold] at h
    refine ⟨?_, rfl⟩
    rw [ToldOnce, events_emit, List.count_append]
    simpa [emit] using h

end Session

end MachineInterface

import MachineInterface.Proofs.Session.Quitting

/-!
# What is known before a program is started

A session notes a stop without a reason that is known, as long as no start has ended well. The first
start that does tells of the stop again, as a pause.

* `outset_handleLine`: of the lines of the debugger, only these stops are noted.
* `Follows.outset_turn`: of the calls, only a start that ends well tells of a pause.
* `fits_outset_run`: what is known after some turns, by what was heard and what has been started.
-/

namespace MachineInterface

open Session (Bides)

/-! ## Notes -/

/-- Whether a signal is a stop without a reason that is known. -/
def Signal.isUnexplained : Signal → Bool
  | stopped n =>
    match n.text? "reason" with
    | none => true
    | some reason =>
      reason ≠ "exited" && reason ≠ "exited-normally" && (StopReason.ofText? reason).isNone
  | _ => false

/-- Whether an event tells of a pause. -/
def Event.isPause : Event → Bool
  | .stopped stop => stop.reason == .pause
  | _ => false

/-- What a front end is told of a stop that came before its start. -/
def Event.replay : Event := .stopped { reason := .pause, allThreadsStopped := true }

/-- Whether a program was started, whether it had stopped before, and the pauses that were told. -/
structure Outset where
  started : Bool := false
  crashed : Bool := false
  pauses : List Event := []

namespace Outset

/-- What is known after a signal. -/
def heard (o : Outset) (g : Signal) : Outset :=
  if g.isUnexplained then { o with crashed := o.crashed || !o.started } else o

/-- What is known after a start that ended well. -/
def begun (o : Outset) : Outset where
  started := true
  crashed := false
  pauses := o.pauses ++ if o.crashed then [.replay] else []

theorem heard_of_explained (o : Outset) {g : Signal} (h : g.isUnexplained = false) :
    o.heard g = o := by
  simp [heard, h]

theorem pauses_heard (o : Outset) (gs : List Signal) : (gs.foldl heard o).pauses = o.pauses := by
  induction gs generalizing o with
  | nil => rfl
  | cons g gs ih =>
    rw [List.foldl_cons, ih, heard]
    split <;> rfl

/-- What is known fits whether such a stop was heard and whether a start has ended well. -/
structure Fits (o : Outset) (stopped began : Prop) : Prop where
  started : o.started = true ↔ began
  crashed : o.crashed = true ↔ stopped ∧ ¬ began
  once : o.pauses.length ≤ if o.started then 1 else 0

variable {o : Outset} {stopped began : Prop}

theorem Fits.heard (h : o.Fits stopped began) (gs : List Signal) :
    (gs.foldl heard o).Fits (stopped ∨ ∃ g ∈ gs, g.isUnexplained = true) began := by
  induction gs generalizing o stopped with
  | nil => simpa using h
  | cons g gs ih =>
    have hhead : (o.heard g).Fits (stopped ∨ g.isUnexplained = true) began := by
      unfold Outset.heard
      cases hg : g.isUnexplained with
      | false => simpa using h
      | true =>
        refine ⟨h.started, ?_, h.once⟩
        have hstarted := h.started
        have hcrashed := h.crashed
        by_cases hbegan : began <;> simp_all
    have hall := ih hhead
    rw [or_assoc] at hall
    simpa using hall

theorem Fits.begun (h : o.Fits stopped began) : o.begun.Fits stopped True := by
  refine ⟨iff_of_true rfl trivial, iff_of_false ?_ fun h => h.2 trivial, ?_⟩
  · rintro ⟨⟩
  · -- Where a stop is noted, no start has ended well and no pause was told.
    have honce := h.once
    cases hcrashed : o.crashed with
    | false =>
      simp only [Outset.begun, hcrashed]
      split at honce <;> simp <;> omega
    | true =>
      have hstarted : o.started = false := by
        rw [← Bool.not_eq_true, h.started]
        exact (h.crashed.mp hcrashed).2
      simpa [Outset.begun, hcrashed, hstarted] using honce

end Outset

namespace Session

/-- What a session knows of the start of its program. -/
def outset (s : Session) : Outset := ⟨s.started, s.crashed, s.events.filter Event.isPause⟩

variable {s u : Session}

/-! ## Lines -/

section

variable (s : Session)

@[simp] theorem outset_emit {e : Event} (h : e.isPause = false) : (s.emit e).outset = s.outset := by
  simp [outset, emit, h]

@[simp] theorem outset_emitLine (channel : Channel) (text : String) :
    (s.emitLine channel text).outset = s.outset := outset_emit s rfl

@[simp] theorem outset_emitLine? (channel : Channel) (text : Option String) :
    (s.emitLine? channel text).outset = s.outset := by
  cases text with
  | none => rfl
  | some text => exact outset_emitLine s channel text

@[simp] theorem outset_setRunState (next : RunState) : (s.setRunState next).outset = s.outset := by
  unfold setRunState
  split <;> rfl

@[simp] theorem outset_stop {stop : Stop} (h : stop.reason ≠ .pause) :
    (s.stop stop).outset = s.outset := by
  rw [Session.stop, outset_emit _ (by simpa [Event.isPause] using h), outset_setRunState]

theorem outset_stopUnknown {stop : Stop} (h : stop.reason ≠ .pause) {g : Signal}
    (hg : g.isUnexplained = true) : (s.stopUnknown stop).outset = s.outset.heard g := by
  have hnoted : Session.outset { s with crashed := s.crashed || !s.started } = s.outset.heard g := by
    simp [outset, Outset.heard, hg]
  unfold stopUnknown
  dsimp only
  split
  · rw [outset_setRunState, hnoted]
  · rw [outset_emit _ (by simpa [Event.isPause] using h), outset_setRunState, hnoted]

@[simp] theorem outset_exited (code : Option Int) : (s.exited code).outset = s.outset :=
  outset_emit { s with quit := true, runState := .terminated } rfl

@[simp] theorem outset_onQuit : s.onQuit.outset = s.outset := by
  unfold onQuit
  dsimp only
  split
  · rfl
  · exact outset_emit { s with quit := true, runState := .terminated, quitEmitted := true } rfl

theorem outset_handleHit (n : Notice) : (s.handleHit n).outset = s.outset := by
  have hstop : (s.stop { stopOf n .breakpoint with breakpointId := number? (n.text? "bkptno") }).outset
      = s.outset := outset_stop s (by simp [stopOf])
  unfold handleHit
  dsimp only
  split
  · exact hstop
  · exact (outset_emitLine? _ _ _).trans hstop

/-- Of the stops, those without a reason that is known are noted. -/
theorem outset_handleStopped (n : Notice) :
    (s.handleStopped n).outset = s.outset.heard (.stopped n) := by
  unfold handleStopped
  cases hreason : n.text? "reason" with
  | none => exact outset_stopUnknown s (by simp [stopOf]) (by simp [Signal.isUnexplained, hreason])
  | some reason =>
    have hknown (kind : StopReason) (hkind : StopReason.ofText? reason = some kind) :
        s.outset = s.outset.heard (.stopped n) := by
      rw [Outset.heard_of_explained]
      simp [Signal.isUnexplained, hreason, hkind]
    dsimp only
    split
    · rename_i hhit
      rw [outset_handleHit, ← hknown .breakpoint]
      rw [hhit]
      rfl
    split
    · rename_i hsignal
      rw [outset_stop s (by simp [stopOf]), ← hknown .signal]
      rw [hsignal]
      rfl
    split
    · rename_i hnormally
      rw [outset_exited, Outset.heard_of_explained]
      simp [Signal.isUnexplained, hreason, hnormally]
    split
    · rename_i hexited
      rw [outset_exited, outset_emitLine, Outset.heard_of_explained]
      simp [Signal.isUnexplained, hreason, hexited]
    · rename_i hhit hsignal hnormally hexited
      have hplain := ofText?_eq_plainReason? hhit hsignal
      split
      · rename_i kind hkind
        rw [outset_stop s (ofText?_ne_pause (hplain.trans hkind)), ← hknown kind (hplain.trans hkind)]
      · rename_i hkind
        have hunexplained : (Signal.stopped n).isUnexplained = true := by
          simp [Signal.isUnexplained, hreason, hnormally, hexited, hplain.trans hkind]
        rw [outset_stopUnknown _ (by simp [stopOf]) hunexplained, outset_emitLine]

theorem outset_handleResult (r : ResultRecord) (line : String) :
    (s.handleResult r line).outset = s.outset := by
  unfold handleResult
  dsimp only
  split
  · rfl
  · exact outset_emitLine _ _ _
  · rw [outset_emit _ rfl]
    split
    · exact outset_emitLine _ _ _
    · rfl

theorem outset_handleStream (kind : StreamKind) (text : String) :
    (s.handleStream kind text).outset = s.outset := by
  unfold handleStream
  split
  · exact (outset_emitLine? _ _ _).trans (outset_emitLine s _ _)
  · exact outset_emitLine s _ _

theorem outset_handleNotice (n : Notice) : (s.handleNotice n).outset =
    if n.kind = .exec ∧ n.event = "stopped" then s.outset.heard (.stopped n) else s.outset := by
  unfold handleNotice
  cases n.kind with
  | exec =>
    dsimp only
    split
    · rename_i hrunning
      rw [outset_emit _ rfl, outset_setRunState, if_neg]
      simp [hrunning]
    split
    · rename_i hstopped
      rw [outset_handleStopped, if_pos ⟨rfl, hstopped⟩]
    · rename_i hstopped
      rw [if_neg fun h => hstopped h.2]
  | status => rfl
  | notify =>
    simp only [reduceCtorEq, false_and, if_false]
    repeat' split
    · rfl
    · exact outset_emit s rfl
    · exact outset_emit s rfl
    · rfl

/-- Of the lines, only stops without a reason that is known are noted. -/
theorem outset_handleLine (line : String) :
    (s.handleLine line).outset = (Signal.ofLine? line).toList.foldl Outset.heard s.outset := by
  unfold handleLine Signal.ofLine?
  cases Line.classify line with
  | passthrough text => exact outset_emitLine s _ _
  | prompt => rfl
  | record r =>
    cases r with
    | result r => exact outset_handleResult s r line
    | stream kind text => exact outset_handleStream s kind text
    | unhandled text => rfl
    | notice n =>
      dsimp only
      rw [outset_handleNotice]
      split_ifs with hstopped hrunning
      · exact absurd (hstopped.2.symm.trans hrunning.2) (by decide)
      · rfl
      · rfl
      · rfl

theorem outset_foldl_handleLine (lines : List String) : (lines.foldl handleLine s).outset =
    (lines.filterMap Signal.ofLine?).foldl Outset.heard s.outset := by
  induction lines generalizing s with
  | nil => rfl
  | cons line lines ih =>
    rw [List.foldl_cons, ih, outset_handleLine, List.filterMap_cons]
    cases Signal.ofLine? line <;> rfl

/-! ## Bytes and the end -/

theorem outset_flush : s.flush.outset = s.outset := by
  unfold flush
  split
  · exact outset_emit _ rfl
  · rfl

theorem outset_readRest : s.readRest.outset =
    ((s.output.taken []).filterMap Signal.ofLine?).foldl Outset.heard s.outset := by
  unfold readRest LineBuffer.taken
  split
  · rename_i line output hrest
    rw [hrest]
    exact outset_foldl_handleLine { s with output } [line]
  · rename_i hrest
    rw [hrest]
    rfl

theorem outset_news (n : News) :
    (n.apply s).outset = (n.signals s).foldl Outset.heard s.outset := by
  cases n with
  | hear chunk =>
    exact (outset_flush _).trans (outset_foldl_handleLine { s with output := (s.output.push chunk).2 } _)
  | complain text => exact outset_emit s rfl
  | refuse detail => exact outset_emit s rfl
  | deafen =>
    obtain ⟨link, hdeafen⟩ := exists_deafen_eq s
    rw [News.apply, hdeafen]
    rfl
  | leave =>
    rw [News.apply, finish_eq, shutDown, outset_onQuit, News.signals, List.foldl_append,
      ← outset_readRest]
    rfl

theorem outset_launchFailed (detail : String) : (s.launchFailed detail).outset = s.outset :=
  (outset_onQuit _).trans (outset_emit s rfl)

end

/-! ## Deeds -/

theorem outset_markStarted (s : Session) : s.markStarted.outset = s.outset.begun := by
  unfold markStarted
  dsimp only
  cases hcrashed : s.crashed with
  | true => simp [outset, emit, Outset.begun, hcrashed, Event.isPause, Event.replay]
  | false => simp [outset, Outset.begun, hcrashed]

/-- Only a start that ends well changes what is known. -/
theorem outset_apply (s : Session) {d : Deed} (h : d ≠ .markStarted) :
    (d.apply s).outset = s.outset := by
  cases d with
  | markStarted => exact absurd rfl h
  | issue command tolerant =>
    obtain ⟨exchange, outbox, hissue⟩ := exists_issue_eq s command tolerant
    rw [Deed.apply, hissue]
    rfl
  | write line =>
    obtain ⟨outbox, hwrite⟩ := exists_write_eq s line
    rw [Deed.apply, hwrite]
    rfl
  | connect =>
    obtain ⟨link, hconnect⟩ := exists_connect_eq s
    rw [Deed.apply, hconnect]
    rfl
  | reserve l =>
    obtain ⟨board, hreserve⟩ := exists_reserve_eq s l
    rw [Deed.apply, hreserve]
    rfl
  | tell channel text => exact outset_emitLine s channel text
  | tellReady => exact outset_emit s rfl
  | _ => rfl

theorem outset_of_bides (h : Bides s u) : u.outset = s.outset := by
  refine h.eq fun d hd s => outset_apply s ?_
  rintro rfl
  exact hd.elim id id

end Session

/-! ## Calls -/

/-- What is known after the last deed of a call, if it has one. -/
def Outset.after (o : Outset) : Option Deed → Outset
  | some .markStarted => o.begun
  | _ => o

theorem Outset.after_of_ne (o : Outset) {d? : Option Deed} (h : d? ≠ some .markStarted) :
    o.after d? = o := by
  unfold after
  split
  · exact absurd rfl h
  · rfl

theorem Session.outset_after (d? : Option Deed) (s : Session) :
    (Deed.after d? s).outset = s.outset.after d? := by
  by_cases hd : d? = some .markStarted
  · subst hd
    exact outset_markStarted s
  · rw [Outset.after_of_ne _ hd]
    cases d? with
    | none => rfl
    | some d => exact outset_apply s fun h => hd (congrArg some h)

namespace Operation

theorem opening?_ne_markStarted (op : Operation) : op.opening? ≠ some .markStarted := by
  cases op with
  | addBreakpoint d =>
    simp only [opening?]
    cases d.location <;> rintro ⟨⟩
  | _ => rintro ⟨⟩

theorem release?_ne_markStarted (op : Operation) : op.release? ≠ some .markStarted := by
  cases op with
  | addBreakpoint d =>
    simp only [release?]
    cases d.location <;> rintro ⟨⟩
  | _ => rintro ⟨⟩

/-- A call ends with the deed of a start exactly if it is a start that ends well. -/
theorem finale?_eq_markStarted {op : Operation} {found : UInt32} {a : op.Answer} :
    op.finale? found a = some .markStarted ↔
      ∃ stopAtEntry runs, (⟨op, some (.done a)⟩ : Ongoing) =
        ⟨.start stopAtEntry, some (.done (.ok runs))⟩ := by
  constructor
  · intro h
    cases op with
    | start stopAtEntry =>
      cases a with
      | ok runs => exact ⟨stopAtEntry, runs, rfl⟩
      | error e => cases h
    | bringUp _ | startLocal _ _ | startSsh _ _ _ => cases a <;> cases h
    | addBreakpoint d =>
      simp only [finale?, settlement?] at h
      split at h
      · cases h
      · obtain ⟨l, -, hl⟩ := Option.map_eq_some_iff.mp h
        cases hl
    | removeBreakpoint d =>
      simp only [finale?, removal?] at h
      split at h
      · obtain ⟨l, -, hl⟩ := Option.map_eq_some_iff.mp h
        cases hl
      · cases h
    | _ => cases h
  · rintro ⟨stopAtEntry, runs, h⟩
    cases h
    rfl

/-- What a removal has found does not matter here. -/
theorem after_finale? (o : Outset) (op : Operation) (found : UInt32) (a : op.Answer) :
    o.after (op.finale? found a) = o.after (op.finale? 0 a) := by
  have hsame : op.finale? found a = some .markStarted ↔ op.finale? 0 a = some .markStarted :=
    finale?_eq_markStarted.trans finale?_eq_markStarted.symm
  by_cases hstarts : op.finale? 0 a = some .markStarted
  · rw [hstarts, hsame.mpr hstarts]
  · rw [Outset.after_of_ne _ hstarts, Outset.after_of_ne _ (mt hsame.mp hstarts)]

end Operation

namespace Ongoing

/-- A call is a start that ended well. -/
def HasStarted (o : Ongoing) : Prop :=
  ∃ stopAtEntry runs, o = ⟨.start stopAtEntry, some (.done (.ok runs))⟩

variable {s u : Session} {op : Operation} {o o' : Ongoing}

theorem finale?_eq_markStarted_iff : o.finale? = some .markStarted ↔ o.HasStarted := by
  constructor
  · intro h
    obtain ⟨op, rest?⟩ := o
    cases rest? with
    | none => cases h
    | some c =>
      obtain ⟨a, ha, hlast⟩ := Option.bind_eq_some_iff.mp h
      have hresult : c.result? = some a := ha
      rw [Call.eq_done_of_result? hresult]
      exact Operation.finale?_eq_markStarted.mp hlast
  · rintro ⟨stopAtEntry, runs, rfl⟩
    rfl

/-- Where a call goes on, what is known changes by its finale alone. -/
theorem Goes.outset (h : Goes op s o u) : u.outset = s.outset.after o.finale? := by
  cases h with
  | @waits c _ hc hdoes =>
    have hfinale : finale? ⟨op, some c⟩ = none := by
      simp [finale?, hc]
    rw [hfinale]
    exact Session.outset_of_bides hdoes
  | @ends a v found hdoes =>
    rw [Session.outset_after, Session.outset_of_bides hdoes, Operation.after_finale?]
    rfl

theorem Moves.outset (h : Moves s o o' u) :
    u.outset = s.outset.after (if o.isWaiting then o'.finale? else none) := by
  cases h with
  | rests ho =>
    rw [ho]
    rfl
  | goes ho hgoes =>
    rw [ho]
    exact hgoes.outset
  | @leaves v d? ho hdoes hd =>
    have hrelease : d? ≠ some .markStarted := by
      rcases hd with rfl | rfl
      · rintro ⟨⟩
      · exact o.op.release?_ne_markStarted
    rw [ho, Session.outset_after, Session.outset_of_bides hdoes, Outset.after_of_ne _ hrelease]
    rfl

end Ongoing

theorem Operation.Begins.outset {op : Operation} {o : Ongoing} {s u : Session}
    (h : Begins op s o u) : u.outset = s.outset.after o.finale? := by
  cases h with
  | @fails a detail hlaunch ha =>
    have hfinale : Ongoing.finale? ⟨op, some (.done a)⟩ = none := ha
    rw [hfinale, Session.outset_launchFailed]
    rfl
  | goes hgoes =>
    rw [hgoes.outset, Operation.opened, Session.outset_after,
      Outset.after_of_ne _ op.opening?_ne_markStarted]

/-! ## Turns -/

namespace Ensemble

variable {e : Ensemble} {t : Turn}

/-- In a turn a start may end well, or signals may be heard. -/
theorem Follows.outset_turn (h : e.Follows) (t : Turn) : (e.turn t).session.outset =
    (e.signals t).foldl Outset.heard (e.session.outset.after (e.finale? t)) := by
  cases t with
  | call op =>
    have hcall := (op.begins_call e.session).2.outset
    rw [signals]
    split <;> exact hcall
  | move i m =>
    cases hi : e.calls[i]? with
    | none =>
      rw [turn_move_none hi, finale?, hi]
      rfl
    | some o =>
      rw [turn_move hi, finale?, hi]
      exact ((h o (List.mem_of_getElem? hi)).move m e.session).2.outset
  | news n =>
    cases hc : e.session.isConnected with
    | true =>
      rw [turn_news hc, signals, hc]
      exact Session.outset_news e.session n
    | false =>
      rw [turn_news_of_not_connected hc, signals, hc]
      rfl

/-- A call that is a start ends well in a turn. -/
def Starts (e : Ensemble) (t : Turn) (i : Nat) : Prop :=
  (∀ o, e.calls[i]? = some o → o.isWaiting = true) ∧
    ∃ o, (e.turn t).calls[i]? = some o ∧ o.HasStarted

theorem exists_starts_iff : (∃ i, e.Starts t i) ↔ e.finale? t = some .markStarted := by
  constructor
  · rintro ⟨i, hwaits, o, hi, hstarted⟩
    have hfinale := Ongoing.finale?_eq_markStarted_iff.mpr hstarted
    rcases getElem?_of_calls_turn hi with hold | ⟨m, o', rfl, hold, rfl⟩ | ⟨op, rfl, rfl⟩
    · obtain ⟨stopAtEntry, runs, rfl⟩ := hstarted
      cases hwaits _ hold
    · rw [finale?, hold, Option.bind_some, hwaits _ hold]
      exact hfinale
    · exact hfinale
  · intro h
    cases t with
    | call op =>
      refine ⟨e.calls.length, by simp, _, List.getElem?_concat_length, ?_⟩
      exact Ongoing.finale?_eq_markStarted_iff.mp h
    | move i m =>
      obtain ⟨o, hi, ho⟩ := Option.bind_eq_some_iff.mp h
      obtain ⟨hlt, -⟩ := List.getElem?_eq_some_iff.mp hi
      cases hwaits : o.isWaiting with
      | false =>
        rw [hwaits] at ho
        cases ho
      | true =>
        rw [hwaits] at ho
        refine ⟨i, ?_, _, ?_, Ongoing.finale?_eq_markStarted_iff.mp ho⟩
        · intro o' ho'
          obtain rfl := Option.some.inj (hi.symm.trans ho')
          exact hwaits
        · rw [turn_move hi]
          exact List.getElem?_set_self hlt
    | news n => cases h

/-! ## Runs -/

/-- In some turns a start has ended well. -/
def Began (config : Config) (turns : List Turn) : Prop :=
  ∃ earlier t i, earlier ++ [t] <+: turns ∧ (run config earlier).Starts t i

/-- In some turns from `e` the program stopped without a reason that is known. -/
def Stopped (e : Ensemble) (turns : List Turn) : Prop :=
  ∃ g ∈ e.allSignals turns, g.isUnexplained = true

instance (e : Ensemble) (turns : List Turn) : Decidable (Stopped e turns) :=
  inferInstanceAs (Decidable (∃ g ∈ e.allSignals turns, g.isUnexplained = true))

theorem allSignals_append (e : Ensemble) (turns more : List Turn) :
    e.allSignals (turns ++ more) = e.allSignals turns ++ (turns.foldl turn e).allSignals more := by
  induction turns generalizing e with
  | nil => rfl
  | cons t turns ih => rw [List.cons_append, allSignals, ih, allSignals, List.append_assoc]; rfl

theorem stopped_append {turns more : List Turn} :
    Stopped e (turns ++ more) ↔ Stopped e turns ∨ Stopped (turns.foldl turn e) more := by
  simp only [Stopped, allSignals_append, List.mem_append, or_and_right, exists_or]

theorem stopped_singleton : Stopped e [t] ↔ ∃ g ∈ e.signals t, g.isUnexplained = true := by
  simp [Stopped, allSignals]

variable {config : Config} {turns : List Turn}

theorem began_concat :
    Began config (turns ++ [t]) ↔ Began config turns ∨ ∃ i, (run config turns).Starts t i := by
  constructor
  · rintro ⟨earlier, u, i, hprefix, hstarts⟩
    rcases List.prefix_concat_iff.mp hprefix with hwhole | hprefix
    · obtain ⟨rfl, hturn⟩ := List.append_inj' hwhole rfl
      obtain rfl := List.singleton_inj.mp hturn
      exact .inr ⟨i, hstarts⟩
    · exact .inl ⟨earlier, u, i, hprefix, hstarts⟩
  · rintro (⟨earlier, u, i, hprefix, hstarts⟩ | ⟨i, hstarts⟩)
    · exact ⟨earlier, u, i, hprefix.trans (List.prefix_append _ _), hstarts⟩
    · exact ⟨turns, t, i, List.prefix_rfl, hstarts⟩

theorem not_began_nil (config : Config) : ¬ Began config [] := by
  rintro ⟨earlier, t, i, hprefix, -⟩
  simp at hprefix

/-- What is known after some turns, by what was heard and what has been started. -/
theorem fits_outset_run (config : Config) (turns : List Turn) :
    (run config turns).session.outset.Fits (Stopped (run config []) turns) (Began config turns) := by
  induction turns using List.reverseRecOn with
  | nil =>
    have hbegan := not_began_nil config
    have hstopped : ¬ Stopped (run config []) [] := by
      rintro ⟨g, hg, -⟩
      cases hg
    refine ⟨iff_of_false ?_ hbegan, iff_of_false ?_ fun h => hstopped h.1, le_rfl⟩
    · rintro ⟨⟩
    · rintro ⟨⟩
  | append_singleton turns t ih =>
    have hturn := (follows_run config turns).outset_turn t
    have hstopped : Stopped (run config []) (turns ++ [t]) ↔ Stopped (run config []) turns ∨
        ∃ g ∈ (run config turns).signals t, g.isUnexplained = true := by
      rw [stopped_append, stopped_singleton]
      rfl
    rw [run_snoc, hturn, hstopped, began_concat, exists_starts_iff]
    by_cases hlast : (run config turns).finale? t = some .markStarted
    · rw [hlast, eq_self_iff_true, or_true]
      exact ih.begun.heard _
    · rw [Outset.after_of_ne _ hlast, or_iff_left hlast]
      exact ih.heard _

/-! ## Pauses -/

/-- What is told in a turn. -/
def told (e : Ensemble) (t : Turn) : List Event :=
  (e.turn t).session.events.drop e.session.events.length

/-- A pause is told in a turn. -/
def Replays (e : Ensemble) (t : Turn) : Prop :=
  ∃ stop, Event.stopped stop ∈ e.told t ∧ stop.reason = .pause

theorem replays_iff : e.Replays t ↔ (e.told t).filter Event.isPause ≠ [] := by
  simp only [ne_eq, List.filter_eq_nil_iff, not_forall, not_not, exists_prop]
  constructor
  · rintro ⟨stop, hmem, hreason⟩
    exact ⟨_, hmem, by simpa [Event.isPause] using hreason⟩
  · rintro ⟨ev, hmem, hpause⟩
    cases ev with
    | stopped stop => exact ⟨stop, hmem, by simpa [Event.isPause] using hpause⟩
    | _ => cases hpause

/-- A pause is told exactly where a start ends well that is the first, if a stop was noted. -/
theorem replays_run_iff (config : Config) (turns : List Turn) (t : Turn) :
    (run config turns).Replays t ↔ (∃ i, (run config turns).Starts t i) ∧
      Stopped (run config []) turns ∧ ¬ Began config turns := by
  have hturn := congrArg Outset.pauses ((follows_run config turns).outset_turn t)
  rw [Outset.pauses_heard] at hturn
  obtain ⟨more, hmore⟩ := (Proper.run config turns).events_turn t
  have htold : (run config turns).told t = more := by
    rw [told, ← hmore, List.drop_left]
  have hpauses : (run config turns).session.outset.pauses ++ more.filter Event.isPause =
      ((run config turns).session.outset.after ((run config turns).finale? t)).pauses := by
    rw [← hturn, Session.outset, Session.outset, ← hmore, List.filter_append]
  rw [replays_iff, htold, exists_starts_iff, ← (fits_outset_run config turns).crashed]
  by_cases hlast : (run config turns).finale? t = some .markStarted
  · rw [hlast] at hpauses
    rw [List.append_cancel_left hpauses]
    cases (run config turns).session.outset.crashed <;> simp [hlast]
  · rw [Outset.after_of_ne _ hlast] at hpauses
    simp [List.append_right_eq_self.mp hpauses, hlast]

end Ensemble

end MachineInterface

import MachineInterface.Proofs.Session.Closing
import MachineInterface.Proofs.Session.Finales

/-!
# The last word

The end of the debugger should be the last that is told of the debugger's life and its program's. A
session that has told it may still tell more: a call that has all its answers goes on after the end,
and after a start that failed another debugger may be started.

* `Goes.life`: a bring-up or a start tells of itself with its last section only.
* `quitLast_run_iff`: in which runs nothing follows the end.
-/

namespace MachineInterface

open Text

/-! ## The order of events -/

namespace Event

/-- The events from the first word of the end on. -/
def fromQuit (events : List Event) : List Event := events.dropWhile (· ≠ .quit)

/-- After the word of the end, nothing is told of the life of the debugger or its program. -/
def QuitLast (events : List Event) : Prop := ∀ e ∈ fromQuit events, e.isLifecycle = false

instance (events : List Event) : Decidable (QuitLast events) :=
  inferInstanceAs (Decidable (∀ e ∈ fromQuit events, e.isLifecycle = false))

variable {events : List Event}

theorem fromQuit_eq_nil (h : .quit ∉ events) : fromQuit events = [] := by
  rw [fromQuit, List.dropWhile_eq_nil_iff]
  intro e he
  have hne : e ≠ .quit := fun heq => h (heq ▸ he)
  simpa using hne

theorem fromQuit_append (h : .quit ∈ events) (told : List Event) :
    fromQuit (events ++ told) = fromQuit events ++ told := by
  have hne : events.dropWhile (· ≠ .quit) ≠ [] := by
    intro hnil
    have hall := List.dropWhile_eq_nil_iff.mp hnil _ h
    simp at hall
  rw [fromQuit, List.dropWhile_append, List.isEmpty_eq_false_iff.mpr hne]
  rfl

theorem quitLast_of_not_mem (h : .quit ∉ events) : QuitLast events := by
  rw [QuitLast, fromQuit_eq_nil h]
  simp

/-- What follows the word of the end has to be silent about life. -/
theorem quitLast_append_iff (h : .quit ∈ events) (told : List Event) :
    QuitLast (events ++ told) ↔ QuitLast events ∧ told.filter isLifecycle = [] := by
  rw [QuitLast, fromQuit_append h, List.forall_mem_append, List.filter_eq_nil_iff]
  simp only [QuitLast, Bool.not_eq_true]

theorem quitLast_append_quit (h : .quit ∉ events) : QuitLast (events ++ [.quit]) := by
  have hquit : fromQuit (events ++ [.quit]) = [.quit] := by
    have hnil : events.dropWhile (· ≠ .quit) = [] := fromQuit_eq_nil h
    rw [fromQuit, List.dropWhile_append, hnil]
    rfl
  rw [QuitLast, hquit]
  decide

end Event

/-! ## Words of deeds -/

/-- What a deed tells of the life of the debugger and its program. -/
def Deed.word? (s : Session) : Deed → Option Event
  | tellReady => some .debugReady
  | markStarted =>
    if s.crashed then some (.stopped { reason := .pause, allThreadsStopped := true }) else none
  | _ => none

namespace Session

variable {s u : Session}

/-- What was told of the life of the debugger and its program. -/
def life (s : Session) : List Event := s.events.filter Event.isLifecycle

theorem life_emit (s : Session) (e : Event) :
    (s.emit e).life = s.life ++ (if e.isLifecycle then [e] else []) := by
  rw [life, events_emit, List.filter_append, List.filter_singleton, Bool.cond_eq_ite]
  rfl

theorem life_onQuit (s : Session) : s.onQuit.life = s.life := by
  unfold onQuit
  dsimp only
  split
  · rfl
  · exact (life_emit _ _).trans (List.append_nil _)

theorem life_launchFailed (s : Session) (detail : String) : (s.launchFailed detail).life = s.life :=
  (life_onQuit _).trans ((life_emit s _).trans (List.append_nil _))

theorem life_apply (s : Session) (d : Deed) : (d.apply s).life = s.life ++ (d.word? s).toList := by
  have hmute : d.IsMute → (d.apply s).life = s.life ++ [] := by
    intro hd
    rw [life, (unmoved_apply s hd).events, life, List.append_nil]
  cases d with
  | tell channel text => exact life_emit s (.line channel text)
  | tellReady => exact life_emit s .debugReady
  | markStarted =>
    rw [Deed.apply, markStarted, Deed.word?]
    split
    · exact life_emit { s with started := true, crashed := false } _
    · exact (List.append_nil _).symm
  | _ => exact hmute trivial

/-- Only a start that ends makes a session forget that its program had crashed. -/
theorem crashed_apply (s : Session) {d : Deed} (h : d ≠ .markStarted) :
    (d.apply s).crashed = s.crashed := by
  have hmute : d.IsMute → (d.apply s).crashed = s.crashed := fun hd => (unmoved_apply s hd).crashed
  cases d with
  | markStarted => exact absurd rfl h
  | tell | tellReady => rfl
  | _ => exact hmute trivial

/-- Nothing was told of life, and what deeds would tell of it is the same. -/
def Silent (s u : Session) : Prop := u.life = s.life ∧ u.crashed = s.crashed

theorem Silent.word? (h : Silent s u) (d : Deed) : d.word? u = d.word? s := by
  cases d with
  | markStarted => simp only [Deed.word?, h.2]
  | _ => rfl

theorem silent_apply {d : Deed} (hword : ∀ s, d.word? s = none) (hd : d ≠ .markStarted)
    (s : Session) : Silent s (d.apply s) := by
  refine ⟨?_, crashed_apply s hd⟩
  rw [life_apply, hword]
  exact List.append_nil _

theorem silent_of_bides (h : Bides s u) : Silent s u := by
  refine h.rel (r := Silent) (fun _ => ⟨rfl, rfl⟩)
    (fun h h' => ⟨h'.1.trans h.1, h'.2.trans h.2⟩) fun d hd s => ?_
  rcases hd with hd | hd
  · cases d with
    | issue | write | abandon | tell | requestKill | learn | register =>
      exact silent_apply (fun _ => rfl) (by rintro ⟨⟩) s
    | _ => cases hd
  · exact hd.elim

theorem silent_opened (op : Operation) (s : Session) : Silent s (op.opened s) := by
  have hdeed : ∀ d, op.opening? = some d → (∀ s, d.word? s = none) ∧ d ≠ .markStarted := by
    intro d hd
    cases op with
    | bringUp _ | startLocal _ _ | startSsh _ _ _ | clearBreakpoints _ =>
      cases hd
      exact ⟨fun _ => rfl, by rintro ⟨⟩⟩
    | addBreakpoint d =>
      obtain ⟨l, -, rfl⟩ := Option.map_eq_some_iff.mp hd
      exact ⟨fun _ => rfl, by rintro ⟨⟩⟩
    | _ => cases hd
  unfold Operation.opened
  cases hd : op.opening? with
  | none => exact ⟨rfl, rfl⟩
  | some d =>
    obtain ⟨hword, hne⟩ := hdeed d hd
    exact silent_apply hword hne s

end Session

open Session (Silent)

/-! ## Calls that end -/

namespace Ongoing

variable {s u : Session}

/-- What a removal has found does not matter here. -/
theorem word_finale? (found : UInt32) (op : Operation) (a : op.Answer) (s : Session) :
    (op.finale? found a).bind (·.word? s) = (op.finale? 0 a).bind (·.word? s) := by
  cases op with
  | removeBreakpoint d =>
    simp only [Operation.finale?, Operation.removal?]
    split
    · cases d.location <;> rfl
    · rfl
  | _ => rfl

theorem word_release? (op : Operation) (s : Session) :
    (op.release?).bind (·.word? s) = none := by
  cases op with
  | addBreakpoint d =>
    simp only [Operation.release?]
    cases d.location <;> rfl
  | _ => rfl

theorem life_after (d? : Option Deed) (h : Silent s u) :
    (Deed.after d? u).life = s.life ++ (d?.bind (·.word? s)).toList := by
  cases d? with
  | none => exact h.1.trans (List.append_nil _).symm
  | some d =>
    rw [Deed.after, Option.elim_some, Session.life_apply, h.1, h.word?]
    rfl

/-- Where a call goes on, all that it tells of life is the word of its finale. -/
theorem Goes.life {op : Operation} {o : Ongoing} (hs : Silent s u) {v : Session}
    (h : Goes op u o v) : v.life = s.life ++ (o.finale?.bind (·.word? s)).toList := by
  cases h with
  | @waits c _ hc hdoes =>
    have hfinale : finale? ⟨op, some c⟩ = none := by
      simp [finale?, hc]
    have hbides := Session.silent_of_bides hdoes
    rw [hfinale]
    exact (hbides.1.trans hs.1).trans (List.append_nil _).symm
  | @ends a w found hdoes =>
    have hbides := Session.silent_of_bides hdoes
    have hsilent : Silent s w := ⟨hbides.1.trans hs.1, hbides.2.trans hs.2⟩
    rw [life_after _ hsilent, word_finale?]
    rfl

theorem Moves.life {o o' : Ongoing} (h : Moves s o o' u) :
    u.life = s.life ++ ((if o.isWaiting then o'.finale? else none).bind (·.word? s)).toList := by
  cases h with
  | rests ho =>
    rw [ho]
    exact (List.append_nil _).symm
  | goes ho hgoes =>
    rw [ho]
    exact hgoes.life ⟨rfl, rfl⟩
  | @leaves v d? ho hdoes hd =>
    have hword : d?.bind (·.word? s) = none := by
      rcases hd with rfl | rfl
      · rfl
      · exact word_release? o.op s
    rw [ho, life_after d? (Session.silent_of_bides hdoes), hword]
    rfl

end Ongoing

theorem Operation.Begins.life {op : Operation} {o : Ongoing} {s u : Session}
    (h : Begins op s o u) : u.life = s.life ++ (o.finale?.bind (·.word? s)).toList := by
  cases h with
  | @fails a detail hlaunch ha =>
    have hfinale : Ongoing.finale? ⟨op, some (.done a)⟩ = none := ha
    rw [hfinale, Session.life_launchFailed]
    exact (List.append_nil _).symm
  | goes hgoes => exact hgoes.life (Session.silent_opened op s)

/-! ## Lines -/

/-- What is told of a notice about the life of the program, once that has ended. -/
def Notice.word? (n : Notice) : Option Event :=
  match n.kind with
  | .exec =>
    if n.event = "running" then (Signal.running n).event? .terminated
    else if n.event = "stopped" then (Signal.stopped n).event? .terminated
    else none
  | .status => none
  | .notify => (Session.number? (n.text? "id")).bind fun id =>
    if n.event = "thread-created" then some (.threadCreated id)
    else if n.event = "thread-exited" then some (.threadExited id)
    else none

/-- What is told of a line about the life of the program, once that has ended. -/
def Notice.wordOfLine? (line : String) : Option Event :=
  match Line.classify line with
  | .record (.notice n) => n.word?
  | _ => none

namespace Session

variable {s u : Session}

/-- Where only the program is reported on, all that is told of life are the program's moves. -/
theorem Reports.life (h : Reports Event.IsReport s u) {moves : List Event}
    (htold : u.progress.told = s.progress.told ++ moves) : u.life = s.life ++ moves := by
  obtain ⟨told, hevents, hreport⟩ := h.events
  have hmoves : told.filter Event.isMotion = moves := by
    simp only [progress, hevents, List.filter_append] at htold
    exact List.append_cancel_left htold
  have hlife : told.filter Event.isLifecycle = told.filter Event.isMotion :=
    List.filter_congr fun e he => (hreport e he).2
  simp only [Session.life, hevents, List.filter_append, hlife, hmoves]

theorem Heeds.told_nil (h : Heeds [] s u) : u.progress.told = s.progress.told ++ [] := by
  rw [h.progress]
  exact (List.append_nil _).symm

theorem life_handleNotice (hend : s.KnowsEnd) (hs : s.runState = .terminated) (n : Notice) :
    (s.handleNotice n).life = s.life ++ n.word?.toList := by
  have hnothing : s.life = s.life ++ [] := (List.append_nil _).symm
  unfold handleNotice Notice.word?
  cases n.kind with
  | exec =>
    dsimp only
    split
    · rw [runState_setRunState_of_terminated hs]
      exact life_emit s _
    split
    · refine (reports_handleStopped s n).life ?_
      rw [← hs]
      exact congrArg Progress.told (hend.heeds_handleStopped n).progress
    · exact hnothing
  | status => exact hnothing
  | notify =>
    dsimp only
    cases number? (n.text? "id") with
    | none => exact hnothing
    | some id =>
      dsimp only [Option.bind_some]
      split
      · exact life_emit s _
      split
      · exact life_emit s _
      · exact hnothing

/-- A line tells of life if it is a notice about the program or its threads. -/
theorem life_handleLine (hend : s.KnowsEnd) (hs : s.runState = .terminated) (line : String) :
    (s.handleLine line).life = s.life ++ (Notice.wordOfLine? line).toList := by
  have hnothing : s.life = s.life ++ [] := (List.append_nil _).symm
  unfold handleLine Notice.wordOfLine?
  cases Line.classify line with
  | passthrough text => exact (reports_emitLine s _ _).life (hend.heeds_emitLine _ _).told_nil
  | prompt => exact hnothing
  | record r =>
    cases r with
    | result r => exact (reports_handleResult s r line).life (hend.heeds_handleResult r line).told_nil
    | notice n => exact life_handleNotice hend hs n
    | stream kind text =>
      exact (reports_handleStream s kind text).life (hend.heeds_handleStream kind text).told_nil
    | unhandled text => exact hnothing

theorem life_foldl_handleLine (hend : s.KnowsEnd) (hs : s.runState = .terminated)
    (lines : List String) :
    (lines.foldl handleLine s).life = s.life ++ lines.filterMap Notice.wordOfLine? := by
  induction lines generalizing s with
  | nil => exact (List.append_nil _).symm
  | cons line lines ih =>
    have hline := hend.heeds_handleLine line
    have hended : (s.handleLine line).runState = .terminated :=
      (congrArg Progress.state hline.progress).trans (Ensemble.state_foldl_after _ hs)
    rw [List.foldl_cons, ih hline.knowsEnd hended, life_handleLine hend hs, List.append_assoc,
      List.filterMap_cons]
    cases Notice.wordOfLine? line <;> rfl

theorem life_flush (s : Session) : s.flush.life = s.life := by
  unfold flush
  split
  · exact (life_emit _ _).trans (List.append_nil _)
  · rfl

end Session

/-- The lines that something brings which the debugger does. -/
def News.lines (s : Session) : News → List String
  | hear chunk => (s.output.push chunk).1
  | leave => s.output.taken []
  | complain _ | refuse _ | deafen => []

/-- Once the program has ended, only lines about it and its threads tell of life. -/
theorem News.life_apply {s : Session} (hend : s.KnowsEnd) (hs : s.runState = .terminated)
    (n : News) : (n.apply s).life = s.life ++ (n.lines s).filterMap Notice.wordOfLine? := by
  cases n with
  | hear chunk =>
    have houtput : Session.KnowsEnd { s with output := (s.output.push chunk).2 } := hend
    exact (Session.life_flush _).trans (Session.life_foldl_handleLine houtput hs _)
  | complain text => exact Session.life_emit s _
  | refuse detail => exact Session.life_emit s _
  | deafen =>
    obtain ⟨link, hdeafen⟩ := Session.exists_deafen_eq s
    rw [apply, hdeafen]
    exact (List.append_nil _).symm
  | leave =>
    have hrest : s.readRest.life =
        s.life ++ (s.output.taken []).filterMap Notice.wordOfLine? := by
      unfold Session.readRest LineBuffer.taken
      split
      · rename_i line output hrest
        have houtput : Session.KnowsEnd { s with output } := hend
        rw [hrest]
        exact Session.life_foldl_handleLine houtput hs [line]
      · rename_i hrest
        rw [hrest]
        exact (List.append_nil _).symm
    exact (Session.life_onQuit _).trans hrest

namespace Ensemble

variable {e : Ensemble}

/-- The last deed of the call that a turn brings to its end, if it does. -/
def finale? (e : Ensemble) : Turn → Option Deed
  | .call op => Ongoing.finale? ⟨op, some (op.call.advance e.session).1⟩
  | .move i m => e.calls[i]?.bind fun o =>
    if o.isWaiting then (o.move m e.session).1.finale? else none
  | .news _ => none

/-- The lines that a turn brings. -/
def lines (e : Ensemble) : Turn → List String
  | .news n => if e.session.isConnected then n.lines e.session else []
  | .call _ | .move _ _ => []

/-- What a turn tells of life in a session that has told the end. -/
def words (e : Ensemble) (t : Turn) : List Event :=
  ((e.finale? t).bind (·.word? e.session)).toList ++ (e.lines t).filterMap Notice.wordOfLine?

theorem life_call (e : Ensemble) (op : Operation) : (e.turn (.call op)).session.life =
    e.session.life ++ ((e.finale? (.call op)).bind (·.word? e.session)).toList :=
  (op.begins_call e.session).2.life

theorem Follows.life_move (h : e.Follows) (i : Nat) (m : Ongoing.Move) :
    (e.turn (.move i m)).session.life =
      e.session.life ++ ((e.finale? (.move i m)).bind (·.word? e.session)).toList := by
  cases hi : e.calls[i]? with
  | none =>
    rw [turn_move_none hi, finale?, hi]
    exact (List.append_nil _).symm
  | some o =>
    rw [turn_move hi, finale?, hi]
    exact ((h o (List.mem_of_getElem? hi)).move m e.session).2.life

theorem Follows.life_turn (h : e.Follows) (hend : e.session.KnowsEnd)
    (hs : e.session.runState = .terminated) (t : Turn) :
    (e.turn t).session.life = e.session.life ++ e.words t := by
  cases t with
  | call op => exact (life_call e op).trans (congrArg _ (List.append_nil _).symm)
  | move i m => exact (h.life_move i m).trans (congrArg _ (List.append_nil _).symm)
  | news n =>
    cases hc : e.session.isConnected with
    | true =>
      rw [turn_news hc, words, lines, hc]
      exact News.life_apply hend hs n
    | false =>
      rw [turn_news_of_not_connected hc, words, lines, hc]
      exact (List.append_nil _).symm

/-! ## Turns and the end -/

open Session (Reports)

/-- The end is told last in a turn, or it is not told in it. -/
theorem Proper.reports_turn (h : e.Proper) (t : Turn) :
    Reports (· ≠ .quit) e.session (e.turn t).session ∨
      ∃ u, Reports (· ≠ .quit) e.session u ∧ (e.turn t).session = u.onQuit := by
  refine h.session_turn (r := fun v => Reports (· ≠ .quit) e.session v ∨
    ∃ u, Reports (· ≠ .quit) e.session u ∧ v = u.onQuit) t ?_ ?_ ?_
  · exact fun _ _ _ _ => .inr ⟨_, Session.reports_emit _ (by rintro ⟨⟩), rfl⟩
  · intro n _ _
    cases n with
    | hear chunk => exact .inl ((Session.reports_receive _ chunk).mono fun _ he => he.1)
    | complain text => exact .inl (Session.reports_emit _ (by rintro ⟨⟩))
    | refuse detail => exact .inl (Session.reports_emit _ (by rintro ⟨⟩))
    | deafen =>
      obtain ⟨link, hdeafen⟩ := Session.exists_deafen_eq e.session
      rw [News.apply, hdeafen]
      exact .inl (.of_eq rfl rfl)
    | leave =>
      have hclosed : Reports (· ≠ .quit) e.session.readRest { e.session.readRest with
          link := .closed, exchange := e.session.readRest.exchange.failAll .sessionClosed } :=
        .of_eq rfl rfl
      have hrest : Reports (· ≠ .quit) e.session e.session.readRest :=
        (Session.reports_readRest _).mono fun _ he => he.1
      exact .inr ⟨_, hrest.trans hclosed, rfl⟩
  · exact fun _ u hd => .inl (Session.reports_of_does hd)

theorem Proper.events_turn (h : e.Proper) (t : Turn) :
    e.session.events <+: (e.turn t).session.events := by
  have hreports : ∀ u, Reports (· ≠ .quit) e.session u → e.session.events <+: u.events := by
    intro u hu
    obtain ⟨told, hevents, -⟩ := hu.events
    exact ⟨told, hevents.symm⟩
  rcases h.reports_turn t with hreport | ⟨u, hu, hquit⟩
  · exact hreports _ hreport
  · rw [hquit]
    refine (hreports u hu).trans ?_
    unfold Session.onQuit
    dsimp only
    split
    · exact List.prefix_rfl
    · exact List.prefix_append _ _

/-- In the turn in which the end is told, nothing follows it. -/
theorem Proper.quitLast_turn (h : e.Proper) (hquit : .quit ∉ e.session.events) (t : Turn) :
    Event.QuitLast (e.turn t).session.events := by
  have hreports : ∀ u, Reports (· ≠ .quit) e.session u → .quit ∉ u.events := by
    intro u hu hmem
    obtain ⟨told, hevents, hne⟩ := hu.events
    rcases List.mem_append.mp (hevents ▸ hmem) with hmem | hmem
    · exact hquit hmem
    · exact hne _ hmem rfl
  rcases h.reports_turn t with hreport | ⟨u, hu, hend⟩
  · exact Event.quitLast_of_not_mem (hreports _ hreport)
  · rw [hend]
    unfold Session.onQuit
    dsimp only
    split
    · exact Event.quitLast_of_not_mem (hreports u hu)
    · exact Event.quitLast_append_quit (hreports u hu)

/-- Once the end was told, the program has ended too. -/
theorem terminated_of_quitEmitted (config : Config) (turns : List Turn) :
    (run config turns).session.quitEmitted = true →
      (run config turns).session.runState = .terminated := by
  induction turns using List.reverseRecOn with
  | nil =>
    intro h
    cases h
  | append_singleton turns t ih =>
    intro h
    have hproper := Proper.run config turns
    rw [run_snoc] at h ⊢
    rcases hproper.reports_turn t with hreport | ⟨u, -, hend⟩
    · have hbefore := ih (hreport.quitEmitted.symm.trans h)
      exact hproper.runState_foldl_turn (knowsEnd_run config turns) hbefore [t]
    · rw [hend]
      exact Session.runState_onQuit u

theorem quit_mem_iff {s : Session} (h : s.ToldOnce) :
    .quit ∈ s.events ↔ s.quitEmitted = true := by
  rw [← List.count_pos_iff, h]
  cases s.quitEmitted <;> decide

/-- The last turn of a run is judged by the run before it. -/
theorem forall_prefix_concat_iff {P : List Turn → Turn → Prop} {turns : List Turn} {t : Turn} :
    (∀ earlier u, earlier ++ [u] <+: turns ++ [t] → P earlier u) ↔
      (∀ earlier u, earlier ++ [u] <+: turns → P earlier u) ∧ P turns t := by
  constructor
  · intro h
    refine ⟨fun earlier u hprefix => h earlier u ?_, h turns t List.prefix_rfl⟩
    exact hprefix.trans (List.prefix_append _ _)
  · rintro ⟨hbefore, hlast⟩ earlier u hprefix
    rcases List.prefix_concat_iff.mp hprefix with hwhole | hprefix
    · obtain ⟨rfl, hturn⟩ := List.append_inj' hwhole rfl
      obtain rfl := List.singleton_inj.mp hturn
      exact hlast
    · exact hbefore earlier u hprefix

/--
Nothing follows the end in a run exactly if, once the end was told, no call ends with its finale and
no line about the program or its threads arrives.
-/
theorem quitLast_run_iff (config : Config) (turns : List Turn) :
    Event.QuitLast (run config turns).session.events ↔
      ∀ earlier t, earlier ++ [t] <+: turns →
        .quit ∈ (run config earlier).session.events → (run config earlier).words t = [] := by
  induction turns using List.reverseRecOn with
  | nil =>
    constructor
    · intro _ earlier t hprefix
      simp at hprefix
    · intro _
      exact Event.quitLast_of_not_mem List.not_mem_nil
  | append_singleton turns t ih =>
    have hproper := Proper.run config turns
    rw [forall_prefix_concat_iff, ← ih, run_snoc]
    by_cases hquit : .quit ∈ (run config turns).session.events
    · have hknown := (quit_mem_iff (accounted_run config turns).toldOnce).mp hquit
      have hlife := (follows_run config turns).life_turn (knowsEnd_run config turns)
        (terminated_of_quitEmitted config turns hknown) t
      obtain ⟨told, htold⟩ := hproper.events_turn t
      have hwords : told.filter Event.isLifecycle = (run config turns).words t := by
        rw [Session.life, ← htold, List.filter_append] at hlife
        exact List.append_cancel_left hlife
      rw [← htold, Event.quitLast_append_iff hquit, hwords]
      simp only [hquit, true_implies]
    · simp only [hproper.quitLast_turn hquit t, Event.quitLast_of_not_mem hquit, hquit,
        false_implies, and_self]

/--
A debugger that answers all of a bring-up but one command and ends, one that is set up after another
could not be started, and one that ends after the answer to a start.
-/
theorem quit_overtaken :
    let l : Launch := { cwd := "/w", mode := .load "a.out" none none }
    let missing : Host := { startError? := fun _ => some "not found", fileExists := fun _ => true }
    let answers : Turn := .news (.hear (Utf8.encode "1^done\n3^done\n4^done\n5^done\n"))
    let ended := run {} [.call (.bringUp l), answers, .news .leave, .move 0 .resume]
    let failed := run {} [.call (.startLocal missing l), .call (.bringUp l), answers,
      .news (.hear (Utf8.encode "2^done,features=[]\n")), .move 1 .resume]
    let started := run {} [.call (.bringUp l), .news (.hear (Utf8.encode "*stopped\n")),
      .call (.start false), .news (.hear (Utf8.encode "6^running\n")), .news .leave,
      .move 1 .resume]
    Event.fromQuit ended.session.events = [.quit, .debugReady] ∧
      Event.fromQuit failed.session.events = [.quit, .debugReady] ∧
      Event.fromQuit started.session.events =
        [.quit, .stopped { reason := .pause, allThreadsStopped := true }] ∧
      ¬ Event.QuitLast ended.session.events := by
  intro l missing answers ended failed started
  have hended : Event.fromQuit ended.session.events = [.quit, .debugReady] := by decide +kernel
  have hfailed : Event.fromQuit failed.session.events = [.quit, .debugReady] := by decide +kernel
  have hstarted : Event.fromQuit started.session.events =
      [.quit, .stopped { reason := .pause, allThreadsStopped := true }] := by decide +kernel
  refine ⟨hended, hfailed, hstarted, ?_⟩
  rw [Event.QuitLast, hended]
  decide

end Ensemble

end MachineInterface

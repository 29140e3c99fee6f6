import MachineInterface.Proofs.Session.Quitting

/-!
# Refused bring-ups

A session has one debugger, and as long as it runs every further bring-up is refused. Whether the
second debugger could be started is asked before that, though, and a failure to start it is told as
the end of the first one.

* `advance_call_of_connected`: a further bring-up ends at once.
* `quitEmitted_run_iff`: the end of a debugger that runs was told exactly if some start failed.
* `second_bringUp`: what a further bring-up changes, and what the end tells later.
-/

namespace MachineInterface

open Text

namespace Operation

/-- Whether an operation brings a debugger up. -/
def bringsUp : Operation → Bool
  | bringUp _ | startLocal _ _ | startSsh _ _ _ => true
  | _ => false

/-- Why a bring-up failed, if that is its answer. -/
def bringUpError? : (op : Operation) → op.Answer → Option Error
  | bringUp _, .error e | startLocal _ _, .error e | startSsh _ _ _, .error e => some e
  | _, _ => none

/-- Why a bring-up fails while a debugger runs. -/
def refusal (op : Operation) (config : Config) : Error :=
  (op.launchFailure? config).elim .alreadyStarted .launch

variable {op : Operation} {s : Session}

theorem advance_bringUp_of_connected (hc : s.isConnected = true) (l : Launch) :
    (Session.bringUp l).run.advance s = (.done (.error .alreadyStarted), s) := by
  have hconnect : s.connect = (.error .alreadyStarted, s) := by
    rcases Session.isConnected_iff.mp hc with hlink | hlink <;> simp [Session.connect, hlink]
  exact CallM.advance_locked_bind_error hconnect

/-- A further bring-up ends at once, with the failure to start its debugger or as refused. -/
theorem advance_call_of_connected (hop : op.bringsUp = true) (hc : s.isConnected = true) :
    ∃ a, op.bringUpError? a = some (op.refusal s.config) ∧
      op.call.advance s = (.done a, (op.launchFailure? s.config).elim s s.launchFailed) := by
  have hadvance := advance_bringUp_of_connected hc
  cases hlaunch : op.launchFailure? s.config with
  | none =>
    rw [advance_call_of_launched hlaunch, refusal, hlaunch]
    cases op with
    | bringUp l => exact ⟨_, rfl, hadvance l⟩
    | startLocal host l => exact ⟨_, rfl, hadvance l⟩
    | startSsh host a l => exact ⟨_, rfl, hadvance l⟩
    | _ => cases hop
  | some detail =>
    rw [refusal, hlaunch]
    cases op with
    | startLocal host l => exact ⟨_, rfl, advance_bringUpStarted_of_some hlaunch l⟩
    | startSsh host a l => exact ⟨_, rfl, advance_bringUpStarted_of_some hlaunch l⟩
    | _ => cases hlaunch

end Operation

namespace Session

variable {s u : Session}

/-- The tables, the commands in flight, what was written and the way to the debugger are kept. -/
structure Spared (s u : Session) : Prop where
  board : u.board = s.board
  logPoints : u.logPoints = s.logPoints
  registry : u.registry = s.registry
  exchange : u.exchange = s.exchange
  outbox : u.outbox = s.outbox
  link : u.link = s.link

theorem Spared.refl (s : Session) : Spared s s := ⟨rfl, rfl, rfl, rfl, rfl, rfl⟩

/-! ## Failed starts -/

section

variable (s : Session) (detail : String)

/-- A failed start is told, as the end is if it was not. -/
theorem launchFailed_eq : s.launchFailed detail = { s with
    quit := true
    runState := .terminated
    quitEmitted := true
    events := s.events ++ .launchError detail :: if s.quitEmitted then [] else [.quit] } := by
  unfold launchFailed onQuit
  cases htold : s.quitEmitted with
  | true => simp [emit, htold]
  | false => simp [emit, htold]

theorem spared_launchFailed : Spared s (s.launchFailed detail) := by
  rw [launchFailed_eq]
  exact ⟨rfl, rfl, rfl, rfl, rfl, rfl⟩

theorem events_launchFailed_ne : (s.launchFailed detail).events ≠ s.events := by
  rw [launchFailed_eq]
  simp

theorem runState_launchFailed : (s.launchFailed detail).runState = .terminated := by
  rw [launchFailed_eq]

theorem quitEmitted_launchFailed : (s.launchFailed detail).quitEmitted = true := by
  rw [launchFailed_eq]

theorem link_launchFailed : (s.launchFailed detail).link = s.link :=
  (spared_launchFailed s detail).link

end

/-! ## What lasts -/

theorem config_apply (s : Session) (d : Deed) : (d.apply s).config = s.config := by
  cases d with
  | issue command tolerant =>
    obtain ⟨exchange, outbox, hissue⟩ := exists_issue_eq s command tolerant
    rw [Deed.apply, hissue]
  | write line =>
    obtain ⟨outbox, hwrite⟩ := exists_write_eq s line
    rw [Deed.apply, hwrite]
  | connect =>
    obtain ⟨link, hconnect⟩ := exists_connect_eq s
    rw [Deed.apply, hconnect]
  | reserve l =>
    obtain ⟨board, hreserve⟩ := exists_reserve_eq s l
    rw [Deed.apply, hreserve]
  | markStarted =>
    rw [Deed.apply, markStarted]
    split <;> rfl
  | _ => rfl

theorem config_news (s : Session) (n : News) : (n.apply s).config = s.config := by
  have hconfig := congrArg Session.config (held_news s n)
  exact hconfig

/-- Neither that the end was told nor that the session is closed has changed. -/
structure Lasting (s u : Session) : Prop where
  quitEmitted : u.quitEmitted = s.quitEmitted
  closed : u.link = .closed ↔ s.link = .closed

theorem Lasting.of_does {extra : Deed → Prop} (h : Does extra s u) : Lasting s u := by
  refine ⟨(reports_of_does h).quitEmitted, ?_⟩
  refine h.rel (r := fun s u => u.link = .closed ↔ s.link = .closed) (fun _ => Iff.rfl)
    (fun h h' => h'.trans h) fun d _ s => ?_
  rcases link_apply s d with hlink | ⟨-, hnone, hopen⟩
  · rw [hlink]
  · rw [hnone, hopen]
    decide

/-- The end of a debugger is told by nothing that it does before. -/
theorem Lasting.news (hc : s.isConnected = true) {n : News} (h : (n.apply s).link ≠ .closed) :
    Lasting s (n.apply s) := by
  have hopen : s.link ≠ .closed := by
    intro hclosed
    rw [isConnected_iff, hclosed] at hc
    simp at hc
  refine ⟨?_, iff_of_false h hopen⟩
  cases n with
  | hear chunk => exact (reports_receive s chunk).quitEmitted
  | leave => exact absurd (link_finish s) h
  | deafen =>
    obtain ⟨link, hdeafen⟩ := exists_deafen_eq s
    rw [News.apply, hdeafen]
  | _ => rfl

end Session

/-! ## Runs -/

namespace Ensemble

variable {e : Ensemble}

theorem config_turn (h : e.Proper) (t : Turn) :
    (e.turn t).session.config = e.session.config := by
  refine h.session_turn (r := fun u => u.config = e.session.config) t ?_ ?_ ?_
  · intro _ detail _ _
    rw [Session.launchFailed_eq]
  · exact fun n _ _ => Session.config_news e.session n
  · exact fun _ _ hd => hd.eq fun d _ s => Session.config_apply s d

theorem config_run (config : Config) (turns : List Turn) :
    (run config turns).session.config = config := by
  induction turns using List.reverseRecOn with
  | nil => rfl
  | append_singleton turns t ih =>
    rw [run_snoc]
    exact (config_turn (Proper.run config turns) t).trans ih

/-- Every debugger that calls of a run were to start could be started. -/
def Launchable (config : Config) (turns : List Turn) : Prop :=
  ∀ op, .call op ∈ turns → op.launchFailure? config = none

theorem launchable_snoc {config : Config} {turns : List Turn} {t : Turn} :
    Launchable config (turns ++ [t]) ↔
      Launchable config turns ∧ ∀ op, t = .call op → op.launchFailure? config = none := by
  constructor
  · intro h
    refine ⟨fun op hop => h op (List.mem_append_left _ hop), ?_⟩
    rintro op rfl
    exact h op (List.mem_append_right _ (List.mem_singleton.mpr rfl))
  · rintro ⟨hturns, hlast⟩ op hop
    rcases List.mem_append.mp hop with hop | hop
    · exact hturns op hop
    · exact hlast op (List.mem_singleton.mp hop).symm

/-- A turn after which the session is not closed tells the end exactly if a start fails in it. -/
theorem Proper.quitEmitted_turn (h : e.Proper) {t : Turn}
    (hopen : (e.turn t).session.link ≠ .closed) : e.session.link ≠ .closed ∧
      ((e.turn t).session.quitEmitted = false ↔ e.session.quitEmitted = false ∧
        ∀ op, t = .call op → op.launchFailure? e.session.config = none) := by
  have hlasting : ∀ {u}, Session.Lasting e.session u → u.link ≠ .closed →
      e.session.link ≠ .closed ∧ (u.quitEmitted = false ↔ e.session.quitEmitted = false) := by
    intro u hu hlink
    exact ⟨fun hs => hlink (hu.closed.mpr hs), by rw [hu.quitEmitted]⟩
  cases t with
  | call op =>
    cases hlaunch : op.launchFailure? e.session.config with
    | none =>
      obtain ⟨hlink, htold⟩ := hlasting (.of_does (does_call hlaunch)) hopen
      refine ⟨hlink, htold.trans (iff_self_and.mpr fun _ => ?_)⟩
      rintro _ ⟨⟩
      exact hlaunch
    | some detail =>
      have hfailed := session_call_of_launchFailure hlaunch
      rw [hfailed, Session.link_launchFailed] at hopen
      refine ⟨hopen, ?_⟩
      rw [hfailed, Session.quitEmitted_launchFailed]
      refine iff_of_false (by decide) fun hall => ?_
      rw [hall.2 op rfl] at hlaunch
      cases hlaunch
  | move i m =>
    have hsame : Session.Lasting e.session (e.turn (.move i m)).session := by
      cases hi : e.calls[i]? with
      | none =>
        rw [turn_move_none hi]
        exact ⟨rfl, Iff.rfl⟩
      | some o => exact .of_does (h.does_move hi m)
    obtain ⟨hlink, htold⟩ := hlasting hsame hopen
    exact ⟨hlink, htold.trans (iff_self_and.mpr fun _ => by rintro _ ⟨⟩)⟩
  | news n =>
    have hsame : Session.Lasting e.session (e.turn (.news n)).session := by
      cases hc : e.session.isConnected with
      | true =>
        rw [turn_news hc] at hopen ⊢
        exact .news hc hopen
      | false =>
        rw [turn_news_of_not_connected hc]
        exact ⟨rfl, Iff.rfl⟩
    obtain ⟨hlink, htold⟩ := hlasting hsame hopen
    exact ⟨hlink, htold.trans (iff_self_and.mpr fun _ => by rintro _ ⟨⟩)⟩

/-- As long as the session is not closed, the end was told exactly if a start has failed. -/
theorem quitEmitted_run_iff (config : Config) (turns : List Turn) :
    (run config turns).session.link ≠ .closed →
      ((run config turns).session.quitEmitted = false ↔ Launchable config turns) := by
  induction turns using List.reverseRecOn with
  | nil =>
    intro _
    refine iff_of_true rfl fun op hop => ?_
    cases hop
  | append_singleton turns t ih =>
    intro hopen
    rw [run_snoc] at hopen ⊢
    obtain ⟨hlink, hturn⟩ := (Proper.run config turns).quitEmitted_turn hopen
    rw [hturn, ih hlink, config_run, launchable_snoc]

/-- The end of a debugger that runs is told when it comes, exactly if no start has failed. -/
theorem count_quit_leave_iff (config : Config) (turns : List Turn)
    (hc : (run config turns).session.isConnected = true) :
    (run config (turns ++ [.news .leave])).session.events.count .quit =
        (run config turns).session.events.count .quit + 1 ↔ Launchable config turns := by
  have hopen : (run config turns).session.link ≠ .closed := by
    intro hclosed
    rw [Session.isConnected_iff, hclosed] at hc
    simp at hc
  have hafter : (run config (turns ++ [.news .leave])).session.events.count .quit = 1 :=
    ((closing_run config).2 turns [] hc).1
  have hbefore := (accounted_run config turns).toldOnce
  rw [hafter, hbefore, ← quitEmitted_run_iff config turns hopen]
  cases (run config turns).session.quitEmitted <;> decide

/--
While a debugger runs, every further bring-up ends at once with an error and leaves the tables, the
commands in flight and what was written as they are. It tells nothing and changes nothing else
exactly if its own debugger could be started; otherwise the program counts as ended. When the
debugger that runs ends later, that is told exactly if no start of the run has failed.
-/
theorem second_bringUp (config : Config) (earlier : List Turn) {op : Operation}
    (hop : op.bringsUp = true) (hc : (run config earlier).session.isConnected = true) :
    let before := run config earlier
    let after := run config (earlier ++ [.call op])
    (∃ a, after.calls = before.calls ++ [⟨op, some (.done a)⟩] ∧
        op.bringUpError? a = some (op.refusal config)) ∧
      Session.Spared before.session after.session ∧
      (after.session = before.session ↔ op.launchFailure? config = none) ∧
      (after.session.events = before.session.events ↔ op.launchFailure? config = none) ∧
      (after.session.runState = before.session.runState ↔
        op.launchFailure? config = none ∨ before.session.runState = .terminated) ∧
      ∀ later, (run config (earlier ++ .call op :: later)).session.isConnected = true →
        ((run config (earlier ++ .call op :: later ++ [.news .leave])).session.events.count .quit =
            (run config (earlier ++ .call op :: later)).session.events.count .quit + 1 ↔
          Launchable config (earlier ++ .call op :: later)) := by
  intro before after
  obtain ⟨a, herror, hadvance⟩ := Operation.advance_call_of_connected hop hc
  rw [config_run] at herror hadvance
  have hafter : after = ⟨(op.launchFailure? config).elim before.session before.session.launchFailed,
      before.calls ++ [⟨op, some (.done a)⟩]⟩ := by
    change run config (earlier ++ [.call op]) = _
    rw [run_snoc, turn, hadvance]
  have hlater := fun later => count_quit_leave_iff config (earlier ++ .call op :: later)
  refine ⟨⟨a, by rw [hafter], herror⟩, ?_⟩
  cases hlaunch : op.launchFailure? config with
  | none =>
    have hsame : after.session = before.session := by
      rw [hafter, hlaunch]
      rfl
    rw [hsame]
    exact ⟨.refl _, iff_of_true rfl rfl, iff_of_true rfl rfl, iff_of_true rfl (.inl rfl), hlater⟩
  | some detail =>
    have hfailed : after.session = before.session.launchFailed detail := by
      rw [hafter, hlaunch]
      rfl
    have hevents := Session.events_launchFailed_ne before.session detail
    rw [hfailed, Session.runState_launchFailed]
    refine ⟨Session.spared_launchFailed _ _, ?_, iff_of_false hevents (by rintro ⟨⟩), ?_, hlater⟩
    · exact iff_of_false (fun h => hevents (congrArg Session.events h)) (by rintro ⟨⟩)
    · constructor
      · exact fun h => .inr h.symm
      · rintro (⟨⟨⟩⟩ | h)
        exact h.symm

/-- A bring-up while the first one still waits; the program runs, and then the debugger ends. -/
theorem second_bringUp_during_first :
    let l : Launch := { cwd := "/w", mode := .load "a.out" none none }
    let host : Host := { startError? := fun _ => none, fileExists := fun _ => true }
    let earlier : List Turn := [.call (.bringUp l)]
    let op : Operation := .startLocal host l
    let later : List Turn := [.news (.hear (Utf8.encode "*running,thread-id=\"all\"\n"))]
    (run {} earlier).session.isConnected = true ∧
      (run {} (earlier ++ [.call op])).session = (run {} earlier).session ∧
      (run {} (earlier ++ .call op :: later ++ [.news .leave])).session.events.count .quit =
        (run {} (earlier ++ .call op :: later)).session.events.count .quit + 1 := by
  intro l host earlier op later
  have hconnected : (run {} earlier).session.isConnected = true := by decide +kernel
  have hlast : (run {} (earlier ++ .call op :: later)).session.isConnected = true := by
    decide +kernel
  have hlaunch : op.launchFailure? {} = none := by decide +kernel
  obtain ⟨-, -, hsame, -, -, htold⟩ := @second_bringUp {} earlier op rfl hconnected
  have hlaunchable : Launchable {} (earlier ++ .call op :: later) := by
    intro op' hop
    simp only [earlier, later, List.cons_append, List.nil_append, List.mem_cons,
      Turn.call.injEq, reduceCtorEq, List.not_mem_nil, or_false] at hop
    rcases hop with rfl | rfl
    · rfl
    · exact hlaunch
  exact ⟨hconnected, hsame.mpr hlaunch, (htold later hlast).mpr hlaunchable⟩

/--
A debugger runs and another one cannot be started: the program counts as ended and the end is told
while the first debugger runs on, and when that one ends nothing is told.
-/
theorem second_bringUp_told :
    let l : Launch := { cwd := "/w", mode := .load "a.out" none none }
    let missing : Host := { startError? := fun _ => some "not found", fileExists := fun _ => true }
    let first : List Turn := [.call (.bringUp l)]
    let second : List Turn := first ++ [.call (.startLocal missing l)]
    let hears : List Turn := second ++ [.news (.hear (Utf8.encode "*running,thread-id=\"all\"\n"))]
    let left : List Turn := hears ++ [.news .leave]
    (run {} first).session.isConnected = true ∧ (run {} first).session.events = [] ∧
      (run {} first).session.runState = .initializing ∧
      (run {} second).session.events = [.launchError "gdb: not found", .quit] ∧
      (run {} second).session.runState = .terminated ∧
      (run {} hears).session.isConnected = true ∧
      (run {} hears).session.events =
        [.launchError "gdb: not found", .quit, .running (some "all")] ∧
      (run {} hears).session.runState = .terminated ∧
      (run {} left).session.events = (run {} hears).session.events := by
  decide +kernel

end Ensemble

end MachineInterface

import MachineInterface.Proofs.Session.Deleting
import MachineInterface.Proofs.Session.Outset

/-!
# What a start tells again

A start that ends well tells of a stop that was noted before. The session notes stops until then,
also those that come after the start has written its command.

* `opens_start`, `advance_awaitRun`: a start ends well only after it has waited for its command.
* `stage_run`: a start that waits for its command wrote it in a turn of its own.
* `replay_run`: when a pause is told, and when that is a stop from before the command.
* `replay_of_later_stop`: a stop that comes before the answer is told twice.
-/

namespace MachineInterface

/-! ## Starts -/

namespace Session

/-- The commands that run a program. -/
def runCommands : List String := ["exec-run", "exec-run --start"]

/-- What is left of a start once its command was written. -/
def awaitRun (ticket : Nat) : CallM Bool := do
  let answer ← CallM.await ticket
  CallM.modify markStarted
  return saysRunning answer

/-- What is left of a start that has no breakpoint to set. -/
def runProgram (command : String) : CallM Bool := do
  CallM.modify (·.emitLine .console "Running executable")
  let ticket ← CallM.locked (Session.issue command false)
  awaitRun ticket

/-- What is left of a start while a breakpoint is set at the entry. -/
def awaitEntry (ticket : Nat) : CallM Bool := do
  let _ ← CallM.await ticket
  runProgram "exec-run"

theorem start_eq (stopAtEntry : Bool) : start stopAtEntry =
    CallM.read (·.hasFeature "exec-run-start-option") >>= fun knowsOption =>
      if stopAtEntry && !knowsOption then
        CallM.locked (Session.issue "break-insert -t -f main" false) >>= fun ticket =>
          awaitEntry ticket
      else runProgram (if stopAtEntry && knowsOption then "exec-run --start" else "exec-run") := by
  have hdiscard (c : CallM ResultRecord) : discard c = c >>= fun _ => pure () := rfl
  unfold start
  congr 1
  funext knowsOption
  cases stopAtEntry <;> cases knowsOption <;>
    simp [setEntryBreakpoint, hdiscard, CallM.ask, CallM.send, awaitEntry, runProgram, awaitRun]

variable {s u : Session}

/-- What becomes of a start that has not written its command yet. -/
inductive Opens (s : Session) : Call (Except Error Bool) × Session → Prop
  | fails (e : Error) (u : Session) : Opens s (.done (.error e), u)
  | enters (ticket : Nat) (u : Session) : Opens s ((awaitEntry ticket).run, u)
  | runs {command : String} {ticket : Nat} {u : Session} (hcommand : command ∈ runCommands)
    (h : (s.emitLine .console "Running executable").issue command false = (.ok ticket, u)) :
    Opens s ((awaitRun ticket).run, u)

theorem Opens.ne_ok {p : Call (Except Error Bool) × Session} (h : Opens s p) (runs : Bool) :
    p.1 ≠ .done (.ok runs) := by
  cases h <;> rintro ⟨⟩

/-- A command fails at once, if no debugger reads, or its answer is awaited. -/
theorem advance_issue_await {α : Type} (h : s.exchange.Orderly) (command : String)
    (f : ResultRecord → CallM α) :
    (s.link ≠ .open ∧ ∃ e, (CallM.locked (Session.issue command false) >>= fun ticket =>
        CallM.await ticket >>= f).run.advance s =
          (.done (.error e), (s.issue command false).2)) ∨
      ∃ ticket u, s.issue command false = (.ok ticket, u) ∧
        (CallM.locked (Session.issue command false) >>= fun ticket =>
          CallM.await ticket >>= f).run.advance s = ((CallM.await ticket >>= f).run, u) := by
  cases hissue : s.issue command false with
  | mk r u =>
    cases r with
    | error e =>
      rw [CallM.advance_locked_bind_error hissue]
      refine .inl ⟨fun hopen => ?_, e, rfl⟩
      cases (issue_of_open hopen command false).symm.trans hissue
    | ok ticket =>
      rw [CallM.advance_locked_bind hissue]
      cases hr : u.exchange.reply? ticket with
      | none => exact .inr ⟨ticket, u, rfl, Call.advance_eq_self_of_waiting hr _ _⟩
      | some r =>
        obtain ⟨hdeaf, rfl⟩ := deaf_of_issue h hissue hr
        refine .inl ⟨by simp [hdeaf], .brokenPipe, ?_⟩
        change Call.advance (.reply _ _ _) u = _
        simp only [Call.advance, hr]
        rfl

theorem opens_runProgram (h : s.exchange.Orderly) {command : String}
    (hcommand : command ∈ runCommands) : Opens s ((runProgram command).run.advance s) := by
  unfold runProgram
  rw [CallM.advance_modify_bind]
  have htold : (s.emitLine .console "Running executable").exchange.Orderly := h
  unfold awaitRun
  rcases advance_issue_await htold command _ with ⟨-, e, hfails⟩ | ⟨ticket, u, hissue, hwaits⟩
  · rw [hfails]
    exact .fails e _
  · rw [hwaits]
    exact .runs hcommand hissue

theorem opens_awaitEntry (h : s.exchange.Orderly) (ticket : Nat) :
    Opens s ((awaitEntry ticket).run.advance s) := by
  cases hr : s.exchange.reply? ticket with
  | none =>
    have hwaits : (awaitEntry ticket).run.advance s = ((awaitEntry ticket).run, s) :=
      Call.advance_eq_self_of_waiting hr _ _
    rw [hwaits]
    exact .enters ticket s
  | some r =>
    have hgoes := opens_runProgram h (List.mem_cons_self : "exec-run" ∈ runCommands)
    change Opens s (Call.advance (.reply _ _ _) s)
    simp only [Call.advance, hr]
    cases r with
    | ok answer => exact hgoes
    | error e => exact .fails e s

/-- A start that is called sets a breakpoint at the entry, or it runs the program. -/
theorem opens_start (h : s.exchange.Orderly) (stopAtEntry : Bool) :
    Opens s ((start stopAtEntry).run.advance s) := by
  rw [start_eq, CallM.advance_read_bind]
  split
  · unfold awaitEntry
    rcases advance_issue_await h "break-insert -t -f main" _ with
      ⟨-, e, hfails⟩ | ⟨ticket, u, -, hwaits⟩
    · rw [hfails]
      exact .fails e _
    · rw [hwaits]
      exact .enters ticket u
  · refine opens_runProgram h ?_
    split <;> simp [runCommands]

/-- A start that has written its command waits on, or it is done. -/
theorem advance_awaitRun (ticket : Nat) (s : Session) :
    (awaitRun ticket).run.advance s = ((awaitRun ticket).run, s) ∨
      ∃ r u, (awaitRun ticket).run.advance s = (.done r, u) := by
  cases hr : s.exchange.reply? ticket with
  | none => exact .inl (Call.advance_eq_self_of_waiting hr _ _)
  | some r =>
    right
    change ∃ r' u, Call.advance (.reply _ _ _) s = (.done r', u)
    simp only [Call.advance, hr]
    cases r with
    | ok answer => exact ⟨_, _, rfl⟩
    | error e => exact ⟨_, _, rfl⟩

end Session

open Session (awaitEntry awaitRun Opens)

theorem Ongoing.exists_of_move {o : Ongoing} {m : Move} {s : Session} {op : Operation}
    {rest? : Option (Call op.Answer)} (h : (o.move m s).1 = ⟨op, rest?⟩) :
    ∃ before?, o = ⟨op, before?⟩ := by
  obtain ⟨op', before?⟩ := o
  have hop := congrArg Ongoing.op h
  rw [op_move] at hop
  subst hop
  exact ⟨before?, rfl⟩

/-! ## Runs -/

namespace Ensemble

/-- A turn is one of the call `i`. -/
def Serves (e : Ensemble) (t : Turn) (i : Nat) : Prop :=
  (∃ op, t = .call op ∧ i = e.calls.length) ∨ ∃ m, t = .move i m

/-- In a turn, all that the call `i` does is to tell that it runs the program and to write that. -/
def WritesRun (e : Ensemble) (t : Turn) (i : Nat) : Prop :=
  e.Serves t i ∧ ∃ command ∈ Session.runCommands, ∃ ticket,
    (e.session.emitLine .console "Running executable").issue command false =
      (.ok ticket, (e.turn t).session)

variable {config : Config} {turns : List Turn} {t : Turn} {i : Nat}

/-- In one of some turns the call `i` wrote that it runs the program. -/
def Written (config : Config) (turns : List Turn) (i : Nat) : Prop :=
  ∃ earlier w between, turns = earlier ++ w :: between ∧ (run config earlier).WritesRun w i

theorem Written.later (h : Written config turns i) (t : Turn) : Written config (turns ++ [t]) i := by
  obtain ⟨earlier, w, between, rfl, hwrites⟩ := h
  exact ⟨earlier, w, between ++ [t], by simp, hwrites⟩

theorem WritesRun.written (h : (run config turns).WritesRun t i) :
    Written config (turns ++ [t]) i :=
  ⟨turns, t, [], rfl, h⟩

/-- What a start may be that waits. -/
inductive Stage (config : Config) (turns : List Turn) (i : Nat) : Call (Except Error Bool) → Prop
  | enters (ticket : Nat) : Stage config turns i (awaitEntry ticket).run
  | runs (ticket : Nat) (h : Written config turns i) : Stage config turns i (awaitRun ticket).run

theorem Stage.later {c : Call (Except Error Bool)} (h : Stage config turns i c) (t : Turn) :
    Stage config (turns ++ [t]) i c := by
  cases h with
  | enters ticket => exact .enters ticket
  | runs ticket h => exact .runs ticket (h.later t)

/-- A start that opens in a turn and waits then has written its command, or is about to. -/
theorem stage_of_opens {p : Call (Except Error Bool) × Session}
    (h : Opens (run config turns).session p) (hc : p.1.result? = none)
    (hserves : (run config turns).Serves t i)
    (hsession : ((run config turns).turn t).session = p.2) : Stage config (turns ++ [t]) i p.1 := by
  cases h with
  | fails e u => cases hc
  | enters ticket u => exact .enters ticket
  | @runs command ticket u hcommand h =>
    have hwrites : (run config turns).WritesRun t i :=
      ⟨hserves, command, hcommand, ticket, by rw [hsession]; exact h⟩
    exact .runs ticket hwrites.written

/-- A start that is moved while it waits is given up, or it goes on. -/
theorem move_start {c : Call (Except Error Bool)} (h : Stage config turns i c) (stopAtEntry : Bool)
    (m : Ongoing.Move) (s : Session) :
    (Ongoing.move ⟨.start stopAtEntry, some c⟩ m s).1 = ⟨.start stopAtEntry, none⟩ ∨
      Ongoing.move ⟨.start stopAtEntry, some c⟩ m s =
        (⟨.start stopAtEntry, some (c.advance s).1⟩, (c.advance s).2) := by
  cases m with
  | resume => exact .inr rfl
  | expire => cases h <;> exact .inr rfl
  | giveUp => cases h <;> exact .inl rfl

/-- A start that goes on in its turn waits for its command only if it has written it. -/
theorem Stage.move {stopAtEntry : Bool} {c c' : Call (Except Error Bool)} {m : Ongoing.Move}
    (h : Stage config turns i c)
    (hi : (run config turns).calls[i]? = some ⟨.start stopAtEntry, some c⟩)
    (hmoved : (Ongoing.move ⟨.start stopAtEntry, some c⟩ m (run config turns).session).1 =
      ⟨.start stopAtEntry, some c'⟩) :
    (c'.result? = none → Stage config (turns ++ [.move i m]) i c') ∧
      ∀ runs, c' = .done (.ok runs) → Written config turns i := by
  have horderly := (accounted_run config turns).orderly
  have hsession := congrArg Ensemble.session (turn_move hi m)
  rcases move_start h stopAtEntry m (run config turns).session with hgone | hgoes
  · cases hgone.symm.trans hmoved
  rw [hgoes] at hmoved hsession
  cases hmoved
  cases h with
  | enters ticket =>
    have hopens := Session.opens_awaitEntry horderly ticket
    exact ⟨fun hc => stage_of_opens hopens hc (.inr ⟨m, rfl⟩) hsession,
      fun runs hdone => absurd hdone (hopens.ne_ok runs)⟩
  | runs ticket hwritten =>
    refine ⟨fun hc => ?_, fun _ _ => hwritten⟩
    rcases Session.advance_awaitRun ticket (run config turns).session with hwaits | ⟨r, u, hdone⟩
    · rw [hwaits]
      exact .runs ticket (hwritten.later _)
    · rw [hdone] at hc
      cases hc

/-- A start that waits for its command has written it. -/
theorem stage_run {stopAtEntry : Bool} {c : Call (Except Error Bool)} (hc : c.result? = none)
    (hi : (run config turns).calls[i]? = some ⟨.start stopAtEntry, some c⟩) :
    Stage config turns i c := by
  induction turns using List.reverseRecOn generalizing c with
  | nil => cases hi
  | append_singleton turns t ih =>
    rw [run_snoc] at hi
    rcases getElem?_of_calls_turn hi with hold | ⟨m, o, rfl, hold, hmoved⟩ | ⟨op, rfl, -⟩
    · exact (ih hc hold).later _
    · obtain ⟨before?, rfl⟩ := Ongoing.exists_of_move hmoved.symm
      cases hwaits : Ongoing.isWaiting ⟨.start stopAtEntry, before?⟩ with
      | false =>
        rw [Ongoing.move_of_not_waiting hwaits] at hmoved
        cases hmoved
        rw [Ongoing.isWaiting_some.mpr hc] at hwaits
        cases hwaits
      | true =>
        cases before? with
        | none => cases hwaits
        | some before =>
          exact ((ih (Ongoing.isWaiting_some.mp hwaits) hold).move hold hmoved.symm).1 hc
    · rcases getElem?_calls_call hi with hold | ⟨hindex, hnew⟩
      · exact (ih hc hold).later _
      · cases hnew
        exact stage_of_opens (Session.opens_start (accounted_run config turns).orderly stopAtEntry)
          hc (.inl ⟨_, rfl, hindex⟩) rfl

/-- A start ends in a turn of its own. -/
theorem Starts.serves {e : Ensemble} (h : e.Starts t i) : e.Serves t i := by
  obtain ⟨hwaits, o, hi, hstarted⟩ := h
  have hnew : e.calls[i]? ≠ some o := by
    intro hold
    obtain ⟨stopAtEntry, runs, rfl⟩ := hstarted
    cases hwaits _ hold
  rcases getElem?_of_calls_turn hi with hold | ⟨m, o', rfl, -⟩ | ⟨op, rfl, -⟩
  · exact absurd hold hnew
  · exact .inr ⟨m, rfl⟩
  · rcases getElem?_calls_call hi with hold | ⟨hindex, -⟩
    · exact absurd hold hnew
    · exact .inl ⟨op, rfl, hindex⟩

theorem Starts.eq_of_move {e : Ensemble} {j : Nat} {m : Ongoing.Move}
    (h : e.Starts (.move j m) i) : i = j := by
  obtain ⟨op, hcall, -⟩ | ⟨m', hmove⟩ := h.serves
  · cases hcall
  · cases hmove
    rfl

/-- A start that ends well has written its command in a turn of its own before. -/
theorem Starts.written (h : (run config turns).Starts t i) : Written config turns i := by
  obtain ⟨hwaits, o, hi, stopAtEntry, runs, rfl⟩ := h
  rcases getElem?_of_calls_turn hi with hold | ⟨m, o, rfl, hold, hmoved⟩ | ⟨op, rfl, hnew⟩
  · cases hwaits _ hold
  · obtain ⟨before?, rfl⟩ := Ongoing.exists_of_move hmoved.symm
    cases before? with
    | none => cases hwaits _ hold
    | some before =>
      have hstage := stage_run (Ongoing.isWaiting_some.mp (hwaits _ hold)) hold
      exact (hstage.move hold hmoved.symm).2 runs rfl
  · have hopens := Session.opens_start (accounted_run config turns).orderly stopAtEntry
    injection hnew with hop hrest
    subst hop
    exact absurd (Option.some.inj (eq_of_heq hrest)).symm (hopens.ne_ok runs)

/-! ## Stops that are told again -/

/--
Every stop is told when it comes, once and as what it is. A pause is told once at most, where the
first start ends well, if the session has noted a stop by then. This start wrote its command in a
turn before. That the stop came before the command is told apart exactly if no other one comes
between the command and the end of the start.
-/
theorem replay_run (config : Config) (turns : List Turn) (t : Turn) :
    let e := run config turns
    (e.turn t).session.progress = (e.signals t).foldl Progress.after e.session.progress ∧
      ((e.turn t).session.events.filter Event.isPause).length ≤ 1 ∧
      (e.Replays t ↔ (∃ i, e.Starts t i) ∧ Stopped (run config []) turns ∧ ¬ Began config turns) ∧
      ∀ i, e.Starts t i → Written config turns i ∧
        ∀ earlier w between, turns = earlier ++ w :: between →
          (run config earlier).WritesRun w i →
          ((e.Replays t ↔ Stopped (run config []) earlier ∧ ¬ Began config turns) ↔
            (Stopped (run config earlier) (w :: between) →
              Stopped (run config []) earlier ∨ Began config turns)) := by
  intro e
  have hprogress := ((Proper.run config turns).heeds_turn (knowsEnd_run config turns) t).progress
  have honce := (fits_outset_run config (turns ++ [t])).once
  rw [run_snoc] at honce
  refine ⟨hprogress, honce.trans (by split <;> simp), replays_run_iff config turns t, ?_⟩
  intro i hstarts
  refine ⟨hstarts.written, ?_⟩
  rintro earlier w between hsplit -
  have hstopped : Stopped (run config []) turns ↔
      Stopped (run config []) earlier ∨ Stopped (run config earlier) (w :: between) := by
    rw [hsplit, stopped_append]
    rfl
  rw [replays_run_iff, hstopped]
  have hstarted : ∃ i, (run config turns).Starts t i := ⟨i, hstarts⟩
  tauto

/-- A program stops before its start, and the start tells of the stop. -/
theorem replay_run_early_stop :
    let prints (text : String) : Turn := .news (.hear (Text.Utf8.encode text))
    let earlier : List Turn := [.call (.bringUp { cwd := "/w", mode := .load "a.out" none none }),
      prints "*stopped,thread-id=\"1\"\n"]
    let between : List Turn := [prints "6^running\n"]
    let turns := earlier ++ .call (.start false) :: between
    (run {} turns).Starts (.move 1 .resume) 1 ∧ (run {} earlier).WritesRun (.call (.start false)) 1 ∧
      Stopped (run {} []) earlier ∧ ¬ Began {} turns := by
  intro prints earlier between turns
  have htold : (run {} turns).told (.move 1 .resume) = [.replay] := by decide +kernel
  have hreplays : (run {} turns).Replays (.move 1 .resume) :=
    ⟨_, htold ▸ List.mem_singleton_self _, rfl⟩
  have hwrites : (run {} earlier).WritesRun (.call (.start false)) 1 :=
    ⟨.inl ⟨_, rfl, rfl⟩, "exec-run", List.mem_cons_self, 5, by decide +kernel⟩
  have hbetween : ¬ Stopped (run {} earlier) (.call (.start false) :: between) := by decide +kernel
  obtain ⟨-, -, hpause, hstart⟩ := replay_run {} turns (.move 1 .resume)
  obtain ⟨⟨i, hstarts⟩, -, -⟩ := hpause.mp hreplays
  obtain rfl := hstarts.eq_of_move
  have hexact := (hstart 1 hstarts).2 earlier _ between rfl hwrites
  exact ⟨hstarts, hwrites, (hexact.mpr fun h => absurd h hbetween).mp hreplays⟩

/--
A start writes its command, and a stop comes before the answer. It is told when it comes, and again as
a stop from before the start.
-/
theorem replay_of_later_stop :
    let prints (text : String) : Turn := .news (.hear (Text.Utf8.encode text))
    let earlier : List Turn := [.call (.bringUp { cwd := "/w", mode := .load "a.out" none none }),
      prints "1^done\n2^done\n3^done\n4^done\n5^done\n", .move 0 .resume]
    let called := earlier ++ [.call (.start false)]
    let stop := prints "*stopped,thread-id=\"1\"\n"
    let answered := called ++ [stop, prints "6^running\n"]
    (run {} earlier).WritesRun (.call (.start false)) 1 ∧ ¬ Stopped (run {} []) earlier ∧
      (run {} called).told stop =
        [.stopped { reason := .exception, threadId := some 1, allThreadsStopped := false }] ∧
      (run {} answered).Starts (.move 1 .resume) 1 ∧
      (run {} answered).told (.move 1 .resume) = [.replay] := by
  intro prints earlier called stop answered
  have htold : (run {} answered).told (.move 1 .resume) = [.replay] := by decide +kernel
  have hreplays : (run {} answered).Replays (.move 1 .resume) :=
    ⟨_, htold ▸ List.mem_singleton_self _, rfl⟩
  have hwrites : (run {} earlier).WritesRun (.call (.start false)) 1 :=
    ⟨.inl ⟨_, rfl, rfl⟩, "exec-run", List.mem_cons_self, 5, by decide +kernel⟩
  obtain ⟨⟨i, hstarts⟩, -, -⟩ := (replays_run_iff {} answered (.move 1 .resume)).mp hreplays
  obtain rfl := hstarts.eq_of_move
  exact ⟨hwrites, by decide +kernel, by decide +kernel, hstarts, htold⟩

end Ensemble

end MachineInterface

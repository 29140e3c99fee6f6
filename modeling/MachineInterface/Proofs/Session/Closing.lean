import MachineInterface.Proofs.Exchange.Tickets
import MachineInterface.Proofs.Session.Reports

/-!
# Closing

When the debugger ends, every command that waits gets an answer, and from then on no command waits,
none is numbered and none is written.

* `StaysShut.of_does`: no call changes a session that is shut.
* `reply?_finish`: the answers that the end brings.
* `closing_run`: all that holds after the end, in every run.
-/

namespace MachineInterface

namespace Session

variable {s : Session}

/-! ## Shut sessions -/

/-- A session is shut as before: nothing waits or was written since. -/
structure StaysShut (s u : Session) : Prop where
  link : u.link = .closed
  exchange : u.exchange = s.exchange
  outbox : u.outbox = s.outbox

theorem StaysShut.trans {u v : Session} (h : StaysShut s u) (h' : StaysShut u v) :
    StaysShut s v :=
  ⟨h'.link, h'.exchange.trans h.exchange, h'.outbox.trans h.outbox⟩

theorem StaysShut.of_backdrop {u : Session} (hs : s.link = .closed)
    (h : u.backdrop = s.backdrop) : StaysShut s u := by
  have hlink := congrArg Session.link h
  have hexchange := congrArg Session.exchange h
  have houtbox := congrArg Session.outbox h
  exact ⟨Eq.trans hlink hs, hexchange, houtbox⟩

theorem abandon_of_pending_nil {x : Exchange} (h : x.pending = []) (ticket : Nat) :
    x.abandon ticket = x := by
  rw [Exchange.abandon, h, List.map_nil, ← h]

/-- No deed changes a session that is shut. -/
theorem staysShut_apply (hs : s.link = .closed) (hp : s.exchange.pending = []) (d : Deed) :
    StaysShut s (d.apply s) := by
  have hsame : StaysShut s s := ⟨hs, rfl, rfl⟩
  cases d with
  | issue command tolerant =>
    rw [Deed.apply, issue_of_closed hs]
    exact hsame
  | write line =>
    have hwrite : (s.write line).2 = s := by
      simp [write, hs]
    rw [Deed.apply, hwrite]
    exact hsame
  | connect =>
    have hconnect : s.connect.2 = s := by
      simp [connect, hs]
    rw [Deed.apply, hconnect]
    exact hsame
  | abandon ticket => exact ⟨hs, abandon_of_pending_nil hp ticket, rfl⟩
  | reserve l =>
    obtain ⟨board, hreserve⟩ := exists_reserve_eq s l
    rw [Deed.apply, hreserve]
    exact ⟨hs, rfl, rfl⟩
  | markStarted =>
    rw [Deed.apply, markStarted]
    split <;> exact ⟨hs, rfl, rfl⟩
  | _ => exact ⟨hs, rfl, rfl⟩

theorem StaysShut.of_does {extra : Deed → Prop} {u : Session} (hs : s.link = .closed)
    (hp : s.exchange.pending = []) (h : Does extra s u) : StaysShut s u := by
  induction h with
  | refl => exact ⟨hs, rfl, rfl⟩
  | tail _ hstep ih =>
    refine ih.trans ?_
    have hpending := ih.exchange ▸ hp
    cases hstep with
    | plain _ => exact staysShut_apply ih.link hpending _
    | extra _ => exact staysShut_apply ih.link hpending _

/-! ## Accounts -/

/-- All that is owed is known: answers to the front end, and the word of the end. -/
structure Accounted (s : Session) : Prop where
  toldOnce : s.ToldOnce
  orderly : s.exchange.Orderly
  shut : s.link = .closed → s.quitEmitted = true ∧ s.exchange.pending = []

theorem orderly_apply (h : s.exchange.Orderly) (d : Deed) : (d.apply s).exchange.Orderly := by
  rcases exchange_apply s d with hsame | ⟨command, tolerant, rfl⟩ | ⟨ticket, rfl⟩
  · rw [hsame]
    exact h
  · have hregister := h.register command tolerant
    rw [Deed.apply]
    unfold issue
    split
    · exact h
    · exact h
    · exact hregister
    · exact hregister.cancel _ _
  · exact h.abandon ticket

theorem Accounted.apply (h : s.Accounted) (d : Deed) : (d.apply s).Accounted := by
  have hreports := reports_apply s d
  refine ⟨h.toldOnce.of_reports hreports, orderly_apply h.orderly d, fun hclosed => ?_⟩
  have hs : s.link = .closed := by
    rcases link_apply s d with hlink | ⟨-, -, hlink⟩
    · exact hlink ▸ hclosed
    · rw [hlink] at hclosed
      cases hclosed
  obtain ⟨hquit, hpending⟩ := h.shut hs
  exact ⟨hreports.quitEmitted.trans hquit, (staysShut_apply hs hpending d).exchange ▸ hpending⟩

theorem Accounted.of_does {extra : Deed → Prop} {u : Session} (h : s.Accounted)
    (hd : Does extra s u) : u.Accounted :=
  hd.rel (r := fun s u => s.Accounted → u.Accounted) (fun _ h => h) (fun h h' hs => h' (h hs))
    (fun d _ _ hs => hs.apply d) h

theorem Accounted.launchFailed (h : s.Accounted) (detail : String) :
    (s.launchFailed detail).Accounted := by
  have htell : (s.emit (.launchError detail)).ToldOnce :=
    h.toldOnce.of_reports (reports_emit s (by rintro ⟨⟩))
  have hbackdrop : (s.launchFailed detail).backdrop = s.backdrop := backdrop_onQuit _
  have hlink := congrArg Session.link hbackdrop
  have hexchange := congrArg Session.exchange hbackdrop
  change (s.launchFailed detail).exchange = s.exchange at hexchange
  refine ⟨htell.onQuit.1, hexchange ▸ h.orderly, fun hclosed => ⟨htell.onQuit.2, ?_⟩⟩
  rw [hexchange]
  exact (h.shut (Eq.trans hlink.symm hclosed)).2

theorem link_receive (s : Session) (chunk : List UInt8) : (s.receive chunk).link = s.link := by
  have hlines := congrArg Session.link (backdrop_foldl_handleLine
    { s with output := (s.output.push chunk).2 } (s.output.push chunk).1)
  unfold receive flush
  dsimp only
  split <;> exact hlines

theorem isConnected_iff : s.isConnected = true ↔ s.link = .open ∨ s.link = .deaf := by
  simp [isConnected]

theorem Accounted.news (h : s.Accounted) (hc : s.isConnected = true) (n : News) :
    (n.apply s).Accounted := by
  have hopen : s.link ≠ .closed := by
    intro hclosed
    rw [isConnected_iff, hclosed] at hc
    simp at hc
  cases n with
  | hear chunk =>
    refine ⟨h.toldOnce.of_reports ((reports_receive s chunk).mono fun _ he => he.1), ?_, fun hclosed => ?_⟩
    · rw [News.apply, exchange_receive]
      exact h.orderly.foldl_hearLine _
    · exact absurd ((link_receive s chunk).symm.trans hclosed) hopen
  | complain text =>
    exact ⟨h.toldOnce.of_reports (reports_emit s (by rintro ⟨⟩)), h.orderly, fun hs => absurd hs hopen⟩
  | refuse detail =>
    exact ⟨h.toldOnce.of_reports (reports_emit s (by rintro ⟨⟩)), h.orderly, fun hs => absurd hs hopen⟩
  | deafen =>
    rw [News.apply, deafen]
    split
    · refine ⟨h.toldOnce, h.orderly, fun hs => ?_⟩
      cases hs
    · exact h
  | leave =>
    have hrest : s.readRest.ToldOnce := h.toldOnce.of_reports ((reports_readRest s).mono fun _ he => he.1)
    have hclosed : ToldOnce { s.readRest with
        link := .closed, exchange := s.readRest.exchange.failAll .sessionClosed } := hrest
    refine ⟨hclosed.onQuit.1, ?_, fun _ => ⟨hclosed.onQuit.2, ?_⟩⟩
    · rw [News.apply, exchange_finish]
      exact (h.orderly.foldl_hearLine _).failAll _
    · rw [News.apply, exchange_finish]
      exact Exchange.pending_failAll _ _

end Session

/-! ## Runs -/

namespace Ensemble

open Session (StaysShut)

variable {e : Ensemble}

theorem accounted_run (config : Config) (turns : List Turn) :
    (run config turns).session.Accounted := by
  induction turns using List.reverseRecOn with
  | nil =>
    refine ⟨rfl, Exchange.orderly_empty, fun hclosed => ?_⟩
    cases hclosed
  | append_singleton turns t ih =>
    rw [run_snoc]
    refine (Proper.run config turns).session_turn t ?_ ?_ ?_
    · exact fun op detail _ _ => ih.launchFailed detail
    · exact fun n _ hc => ih.news hc n
    · exact fun extra u hd => ih.of_does hd

/-- A session that is shut stays as it is. -/
theorem Proper.staysShut_turn (h : e.Proper) (hs : e.session.link = .closed)
    (hp : e.session.exchange.pending = []) (t : Turn) :
    StaysShut e.session (e.turn t).session := by
  refine h.session_turn t ?_ ?_ ?_
  · exact fun op detail _ _ => .of_backdrop hs (Session.backdrop_onQuit _)
  · intro n _ hc
    rw [Session.isConnected_iff, hs] at hc
    simp at hc
  · exact fun extra u hd => .of_does hs hp hd

theorem Proper.staysShut_foldl_turn (h : e.Proper) (hs : e.session.link = .closed)
    (hp : e.session.exchange.pending = []) (turns : List Turn) :
    StaysShut e.session (turns.foldl Ensemble.turn e).session := by
  induction turns generalizing e with
  | nil => exact ⟨hs, rfl, rfl⟩
  | cons t turns ih =>
    have hturn := h.staysShut_turn hs hp t
    exact hturn.trans (ih (h.turn t) hturn.link (hturn.exchange ▸ hp))

/--
The answer to a command that waited when the debugger ended: the one in the line that the debugger
left unfinished, or else that the session is closed.
-/
theorem reply?_finish {s : Session} (h : s.exchange.Orderly) {p : Pending}
    (hp : p ∈ s.exchange.pending) (hw : p.awaited = true) :
    s.finish.exchange.reply? p.ticket =
      some ((s.readRest.exchange.reply? p.ticket).getD (.error .sessionClosed)) := by
  rw [Session.exchange_finish, Session.exchange_readRest]
  have horderly := h.foldl_hearLine (s.output.taken [])
  rcases h.mem_or_answered_foldl_hearLine hp hw (s.output.taken []) with hwaits | ⟨r, hr⟩
  · rw [Exchange.reply?_failAll horderly _ hwaits hw, horderly.reply?_eq_none hwaits]
    rfl
  · rw [Exchange.reply?_of_prefix (Exchange.completions_failAll _ _) hr, hr]
    rfl

/--
In every run the end of the debugger is told at most once. From the end on it was told once and the
program has ended; every command that waited has its answer, unless its caller gave up; nothing
waits, no number is used and nothing is written. Every command is refused as for a closed session,
and a raw line, which has no number, as for a debugger that is not there.
-/
theorem closing_run (config : Config) :
    (∀ turns, (run config turns).session.events.count .quit ≤ 1) ∧
      ∀ earlier later, (run config earlier).session.isConnected = true →
        let before := (run config earlier).session
        let closed := (run config (earlier ++ [.news .leave])).session
        let s := (run config (earlier ++ .news .leave :: later)).session
        s.events.count .quit = 1 ∧ s.runState = .terminated ∧
          (∀ p ∈ before.exchange.pending, p.awaited = true → s.exchange.reply? p.ticket =
            some ((before.readRest.exchange.reply? p.ticket).getD (.error .sessionClosed))) ∧
          s.exchange.pending = [] ∧ s.exchange = closed.exchange ∧ s.outbox = closed.outbox ∧
          (∀ command tolerant, s.issue command tolerant = (.error .sessionClosed, s)) ∧
          ∀ line, s.write line = (.error .notConnected, s) := by
  constructor
  · intro turns
    have htold := (accounted_run config turns).toldOnce
    rw [Session.ToldOnce] at htold
    split at htold <;> omega
  · intro earlier later hconnected before closed s
    have hclosed : closed = before.finish := by
      change (run config (earlier ++ [.news .leave])).session = _
      rw [run_snoc, turn_news hconnected]
      rfl
    have hs : s = (later.foldl turn (run config (earlier ++ [.news .leave]))).session := by
      change (run config (earlier ++ .news .leave :: later)).session = _
      rw [← run_append, List.append_assoc]
      rfl
    have hlink : closed.link = .closed := hclosed ▸ Session.link_finish before
    have haccounted := accounted_run config (earlier ++ [.news .leave])
    have hpending := (haccounted.shut hlink).2
    have hproper := Proper.run config (earlier ++ [.news .leave])
    have hstays : StaysShut closed s := hs ▸ hproper.staysShut_foldl_turn hlink hpending later
    have hended : closed.runState = .terminated := by
      rw [hclosed]
      exact Session.runState_onQuit _
    have hcount : s.events.count .quit = 1 := by
      have htold := accounted_run config (earlier ++ .news .leave :: later)
      have hknown := (htold.shut hstays.link).1
      exact htold.toldOnce.trans (if_pos hknown)
    have hstate : s.runState = .terminated := by
      rw [hs]
      exact hproper.runState_foldl_turn (knowsEnd_run config _) hended later
    refine ⟨hcount, hstate, ?_, hstays.exchange ▸ hpending, hstays.exchange, hstays.outbox,
      fun command tolerant => Session.issue_of_closed hstays.link command tolerant, ?_⟩
    · intro p hp hw
      rw [hstays.exchange, hclosed]
      exact reply?_finish (accounted_run config earlier).orderly hp hw
    · intro line
      simp [Session.write, hstays.link]

/-- The debugger ends while its commands wait; a command and a further wait come too late. -/
theorem closing_run_during_bringUp :
    let earlier : List Turn := [.call (.bringUp { cwd := "/w", mode := .load "a.out" none none })]
    let later : List Turn := [.call (.send "x" false), .move 0 .resume]
    let s := (run {} (earlier ++ .news .leave :: later)).session
    (run {} earlier).session.isConnected = true ∧ s.events.count .quit = 1 ∧
      s.exchange.pending = [] ∧ s.exchange.reply? 0 = some (.error .sessionClosed) := by
  intro earlier later s
  have hconnected : (run {} earlier).session.isConnected = true := by decide +kernel
  have hwaits : ⟨0, 1, "gdb-set target-async on", true, true⟩ ∈
      (run {} earlier).session.exchange.pending := by decide +kernel
  have hrest : (run {} earlier).session.readRest.exchange.reply? 0 = none := by decide +kernel
  obtain ⟨hcount, -, hanswers, hpending, -⟩ := (closing_run {}).2 earlier later hconnected
  refine ⟨hconnected, hcount, hpending, ?_⟩
  have hanswer := hanswers _ hwaits rfl
  rwa [hrest] at hanswer

end Ensemble

end MachineInterface

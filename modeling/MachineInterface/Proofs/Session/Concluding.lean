import MachineInterface.Proofs.Breakpoint.Tables
import MachineInterface.Proofs.Session.Finales

/-!
# When the tables change

The calls that are about breakpoints wait for the debugger several times. They change the tables of
breakpoints and templates where they open or where they end, and never at a wait in between.

* `Concludes`: a call that leaves the tables alone up to every wait, and how it ends.
* `concludes_call`: each operation on breakpoints is such a call after its opening.
-/

namespace MachineInterface

/-- The breakpoints and the templates of a session. -/
def Session.tables (s : Session) : Tables := ⟨s.board.installed, s.logPoints.templates⟩

/-! ## Calls -/

namespace Call

variable {α β : Type} {c : Call α} {x : Tables} {s : Session}

/--
A call leaves the tables alone up to every wait. Where it is done, its result and the session are
related to the tables as they were when the call last went on.
-/
def Concludes (post : α → Tables → Session → Prop) : Call α → Tables → Session → Prop
  | done a, x, s => post a x s
  | step run next, x, s => (next (run s).1).Concludes post x (run s).2
  | reply _ release next, x, s => s.tables = x ∧ (∀ u, (release u).tables = u.tables) ∧
    ∀ r u, (next r).Concludes post u.tables u
  | ending _ next, x, s => s.tables = x ∧ ∀ b u, (next b).Concludes post u.tables u

theorem concludes_bind {post : β → Tables → Session → Prop} {f : α → Call β} :
    (c.bind f).Concludes post x s ↔
      c.Concludes (fun a y u => (f a).Concludes post y u) x s := by
  induction c generalizing x s with
  | done a => rfl
  | step run next ih => exact ih _
  | reply ticket release next ih => simp only [bind, Concludes, ih]
  | ending patient next ih => simp only [bind, Concludes, ih]

variable {post post' : α → Tables → Session → Prop}

theorem Concludes.mono (h : c.Concludes post x s) (hp : ∀ a y u, post a y u → post' a y u) :
    c.Concludes post' x s := by
  induction c generalizing x s with
  | done a => exact hp a x s h
  | step run next ih => exact ih _ h
  | reply ticket release next ih => exact ⟨h.1, h.2.1, fun r u => ih r (h.2.2 r u)⟩
  | ending patient next ih => exact ⟨h.1, fun b u => ih b (h.2 b u)⟩

theorem concludes_locked {run : Session → α × Session} :
    (locked run).Concludes post x s ↔ post (run s).1 x (run s).2 := Iff.rfl

theorem concludes_holding {release : Session → Session}
    (hrelease : ∀ u, (release u).tables = u.tables) (h : c.Concludes post x s) :
    (c.holding release).Concludes post x s := by
  induction c generalizing x s with
  | done a => exact h
  | step run next ih => exact ih _ h
  | reply ticket inner next ih =>
    exact ⟨h.1, fun u => (hrelease _).trans (h.2.1 u), fun r u => ih r (h.2.2 r u)⟩
  | ending patient next ih => exact ⟨h.1, fun b u => ih b (h.2 b u)⟩

/-- An answer that is there already changes nothing: the tables are those of the last wait. -/
theorem Concludes.advance (h : c.Concludes post x s) :
    (c.advance s).1.Concludes post x (c.advance s).2 := by
  induction c generalizing x s with
  | done a => exact h
  | step run next ih => exact ih _ h
  | reply ticket release next ih =>
    unfold Call.advance
    split
    · rename_i r _
      exact ih r (h.1 ▸ h.2.2 r s)
    · exact h
  | ending patient next ih =>
    unfold Call.advance
    split
    · exact ih true (h.1 ▸ h.2 true s)
    · exact h

/-- Where a call waits, the tables are as they were, and the call goes on from any others. -/
theorem Concludes.waits (h : c.Concludes post x s) (hpaused : c.isPaused = true)
    (hwaits : c.result? = none) : s.tables = x ∧ ∀ u, c.Concludes post u.tables u := by
  cases c with
  | done a => cases hwaits
  | step run next => cases hpaused
  | reply ticket release next => exact ⟨h.1, fun u => ⟨rfl, h.2⟩⟩
  | ending patient next => exact ⟨h.1, fun u => ⟨rfl, h.2⟩⟩

theorem Concludes.expire (h : ∀ u, c.Concludes post u.tables u) (u : Session) :
    c.expire.Concludes post u.tables u := by
  cases c with
  | ending patient next =>
    cases patient with
    | true => exact h u
    | false => exact (h u).2 false u
  | _ => exact h u

theorem Concludes.drop (h : c.Concludes post x s) (u : Session) : (c.drop u).tables = u.tables := by
  cases c with
  | reply ticket release next => exact h.2.1 { u with exchange := u.exchange.abandon ticket }
  | _ => rfl

end Call

/-! ## Calls that may fail -/

namespace CallM

variable {α β : Type} {s : Session} {x : Tables}

theorem concludes_bind {post : Except Error β → Tables → Session → Prop} {c : CallM α}
    {f : α → CallM β} : (c >>= f).run.Concludes post x s ↔
      c.run.Concludes (fun r y u => match r with
        | .ok a => (f a).run.Concludes post y u
        | .error e => post (.error e) y u) x s := by
  have hbind : (c >>= f).run = c.run.bind (ExceptT.bindCont f) := rfl
  rw [hbind, Call.concludes_bind]
  constructor <;> refine fun h => h.mono fun r y u hr => ?_ <;> cases r <;> exact hr

theorem concludes_except {post : Except Error α → Tables → Session → Prop} {e : Except Error α} :
    (liftM e : CallM α).run.Concludes post x s ↔ post e x s := Iff.rfl

theorem concludes_lift {post : Except Error α → Tables → Session → Prop} {c : Call α} :
    (ExceptT.lift c : CallM α).run.Concludes post x s ↔
      c.Concludes (fun a y u => post (.ok a) y u) x s := Call.concludes_bind

theorem concludes_attempt {post : Except Error (Except Error α) → Tables → Session → Prop}
    {c : CallM α} : (attempt c).run.Concludes post x s ↔
      c.run.Concludes (fun r y u => post (.ok r) y u) x s := concludes_lift

/-- A call leaves the tables alone. -/
def Quiet (c : CallM α) : Prop := ∀ s, c.run.Concludes (fun _ x u => u.tables = x) s.tables s

/-- What follows a call that leaves the tables alone finds them as they were. -/
theorem Quiet.concludes_bind {post : Except Error β → Tables → Session → Prop} {c : CallM α}
    {f : α → CallM β} (hc : c.Quiet) (hf : ∀ a u, (f a).run.Concludes post u.tables u)
    (he : ∀ e u, post (.error e) u.tables u) (s : Session) :
    (c >>= f).run.Concludes post s.tables s := by
  refine CallM.concludes_bind.mpr ((hc s).mono fun r y u hu => ?_)
  subst hu
  cases r with
  | ok a => exact hf a u
  | error e => exact he e u

theorem quiet_bind {c : CallM α} {f : α → CallM β} (hc : c.Quiet) (hf : ∀ a, (f a).Quiet) :
    (c >>= f).Quiet := hc.concludes_bind hf fun _ _ => rfl

theorem quiet_pure (a : α) : (pure a : CallM α).Quiet := fun _ => rfl

theorem quiet_throw (e : Error) : (throw e : CallM α).Quiet := fun _ => rfl

theorem quiet_locked {run : Session → Except Error α × Session}
    (h : ∀ s, (run s).2.tables = s.tables) : (locked run).Quiet := h

theorem quiet_modify {f : Session → Session} (h : ∀ s, (f s).tables = s.tables) :
    (modify f).Quiet := h

theorem quiet_read (f : Session → α) : (read f).Quiet := fun _ => rfl

theorem quiet_attempt {c : CallM α} (hc : c.Quiet) : (attempt c).Quiet :=
  fun s => concludes_attempt.mpr (hc s)

theorem quiet_discard {c : CallM α} (hc : c.Quiet) : (discard c).Quiet :=
  quiet_bind hc fun _ => quiet_pure _

theorem quiet_await (ticket : Nat) : (await ticket).Quiet :=
  fun _ => ⟨rfl, fun _ => rfl, fun _ _ => rfl⟩

theorem quiet_forM {f : α → CallM PUnit} (hf : ∀ a, (f a).Quiet) (as : List α) :
    (as.forM f).Quiet := by
  induction as with
  | nil => exact quiet_pure _
  | cons a as ih => exact quiet_bind (hf a) fun _ => ih

end CallM

/-! ## Sections that leave the tables alone -/

namespace Session

open CallM

variable {s : Session}

theorem tables_issue (s : Session) (command : String) (tolerant : Bool) :
    (s.issue command tolerant).2.tables = s.tables := by
  obtain ⟨exchange, outbox, hissue⟩ := exists_issue_eq s command tolerant
  rw [hissue]
  rfl

theorem tables_issueAll (commands : List (String × Bool)) (s : Session) :
    (issueAll commands s).2.tables = s.tables := by
  induction commands generalizing s with
  | nil => rfl
  | cons c commands ih =>
    have hissue := tables_issue s c.1 c.2
    unfold issueAll
    dsimp only
    split
    · rename_i e u h
      rwa [h] at hissue
    · rename_i ticket u h
      rw [h] at hissue
      exact (ih u).trans hissue

theorem tables_connect (s : Session) : s.connect.2.tables = s.tables := by
  obtain ⟨link, hconnect⟩ := exists_connect_eq s
  rw [hconnect]
  rfl

theorem tables_reserve (l : Location) (s : Session) : (s.reserve l).2.tables = s.tables := by
  unfold reserve
  split
  · rename_i board h
    unfold Board.reserve? at h
    split at h
    · obtain rfl := Option.some.inj h
      rfl
    · cases h
  · rfl

theorem tables_of_backdrop {u : Session} (h : u.backdrop = s.backdrop) : u.tables = s.tables := by
  have htables := congrArg Session.tables h
  exact htables

theorem quiet_ask (command : String) : (ask command).Quiet :=
  quiet_bind (quiet_locked fun s => tables_issue s command false) quiet_await

theorem quiet_setCondition (id : UInt32) (condition : Option String) :
    (setCondition id condition).Quiet := by
  unfold setCondition
  split
  · exact quiet_discard (quiet_ask _)
  · exact quiet_pure _

theorem quiet_issueDeletes (taken : List Breakpoint) : (issueDeletes taken).Quiet := by
  induction taken with
  | nil => exact quiet_pure _
  | cons b taken ih =>
    have hissue := quiet_locked fun s => tables_issue s (deleteCommand b.id) false
    refine quiet_bind (quiet_attempt hissue) fun written => quiet_bind ih fun others => ?_
    cases written with
    | ok ticket => exact quiet_pure _
    | error e => exact quiet_pure _

theorem quiet_awaitAll (tickets : List Nat) : (awaitAll tickets).Quiet := by
  induction tickets with
  | nil => exact quiet_pure _
  | cons ticket tickets ih =>
    refine quiet_bind (quiet_attempt (quiet_await _)) fun answer => quiet_bind ih fun failure => ?_
    split
    · exact quiet_pure _
    · exact quiet_pure _

theorem quiet_clearTaken (taken : List Breakpoint) : (clearTaken taken).Quiet := by
  unfold clearTaken
  refine quiet_bind (quiet_issueDeletes _) fun written => ?_
  refine quiet_bind (quiet_awaitAll _) fun unanswered => ?_
  split
  · exact quiet_throw _
  · exact quiet_pure _

theorem quiet_bringUp (l : Launch) : (bringUp l).Quiet := by
  unfold bringUp
  refine quiet_bind (quiet_locked tables_connect) fun _ => ?_
  refine quiet_bind (quiet_read _) fun config => ?_
  refine quiet_bind (quiet_locked (tables_issueAll _)) fun tickets => ?_
  split
  · refine quiet_bind (quiet_attempt (quiet_await _)) fun answer => ?_
    refine quiet_bind (quiet_modify fun _ => rfl) fun _ => ?_
    refine quiet_bind (quiet_forM (fun _ => quiet_discard (quiet_await _)) _) fun _ => ?_
    exact quiet_modify fun _ => rfl
  · exact quiet_pure _

theorem quiet_bringUpStarted (started : Except String Unit) (l : Launch) :
    (bringUpStarted started l).Quiet := by
  unfold bringUpStarted
  split
  · exact quiet_bringUp l
  · refine quiet_bind (quiet_modify fun s => ?_) fun _ => quiet_throw _
    exact tables_of_backdrop (backdrop_onQuit (s.emit (.launchError _)))

/-! ## Additions and removals -/

/-- What becomes of the tables where the message of a breakpoint is set. -/
def Noted (id : UInt32) (message : Option String) (r : Except Error Unit) (x : Tables)
    (u : Session) : Prop :=
  (u.tables = x ∧ (r = .ok () → nonEmpty message = none)) ∨
    ∃ m, nonEmpty message = some m ∧
      u.tables = ⟨x.installed, x.templates.insert id (LogTemplate.ofMessage m)⟩

theorem concludes_setLogMessage (id : UInt32) (message : Option String) (s : Session) :
    (setLogMessage id message).run.Concludes (Noted id message) s.tables s := by
  unfold setLogMessage
  cases hm : nonEmpty message with
  | none => exact .inl ⟨rfl, fun _ => hm⟩
  | some m =>
    dsimp only
    split
    · exact .inr ⟨m, hm, rfl⟩
    · refine (quiet_discard (quiet_ask _)).concludes_bind (fun _ u => ?_) (fun e u => ?_) s
      · exact Or.inr ⟨m, hm, rfl⟩
      · exact .inl ⟨rfl, by rintro ⟨⟩⟩

/-- What becomes of the tables where a breakpoint is inserted at a reserved location. -/
def Installed (l : Location) (r : Except Error Addition) (x : Tables) (u : Session) : Prop :=
  match r with
  | .error _ => u.tables = x
  | .ok a => ∃ b templates, a.breakpoint? = some b ∧ b.location = l ∧
    u.tables = ⟨x.installed, templates⟩ ∧ Fills b (a = .added b) x.templates templates

theorem logMessage_of_ofAnswer {command : String} {l : Location} {d : Descriptor}
    {answer : ResultRecord} {b : Breakpoint} (h : Breakpoint.ofAnswer command l d answer = .ok b) :
    b.logMessage = d.logMessage := by
  unfold Breakpoint.ofAnswer at h
  split at h
  · cases h
  · cases h
    rfl

theorem fills_of_noted {b : Breakpoint} {r : Except Error Unit} {x : Tables} {u : Session}
    (full : Prop) (h : Noted b.id b.logMessage r x u) (hfull : full → r = .ok ()) :
    ∃ templates, u.tables = ⟨x.installed, templates⟩ ∧ Fills b full x.templates templates := by
  rcases h with ⟨htables, hnone⟩ | ⟨m, hm, htables⟩
  · refine ⟨x.templates, htables, .inl ⟨rfl, fun hf => ?_⟩⟩
    rw [Breakpoint.template?, hnone (hfull hf), Option.map_none]
  · refine ⟨_, htables, .inr ⟨LogTemplate.ofMessage m, ?_, rfl⟩⟩
    rw [Breakpoint.template?, hm, Option.map_some]

theorem concludes_install (l : Location) (d : Descriptor) (s : Session) :
    (install l d).run.Concludes (Installed l) s.tables s := by
  have hwarn : ∀ s, (warnHits d.hitPolicy? s).tables = s.tables := by
    intro s
    obtain ⟨events, hevents⟩ := warnHits_eq s d.hitPolicy?
    rw [hevents]
    rfl
  unfold install
  refine (quiet_modify hwarn).concludes_bind (fun _ u => ?_) (fun _ _ => rfl) s
  refine (quiet_ask _).concludes_bind (fun answer u => ?_) (fun _ _ => rfl) u
  rw [CallM.concludes_bind]
  cases hb : Breakpoint.ofAnswer (insertCommand l d.hitPolicy?) l d answer with
  | error e => rfl
  | ok b =>
    have hlocation := (ofAnswer_eq_ok hb).1
    refine (quiet_attempt (quiet_setCondition _ _)).concludes_bind ?_ (fun _ _ => rfl) u
    intro condition u
    rw [CallM.concludes_bind, concludes_attempt, ← logMessage_of_ofAnswer hb]
    refine (concludes_setLogMessage _ _ u).mono fun message x v hnoted => ?_
    dsimp only
    cases hfailure : firstFailure condition message with
    | some failure =>
      obtain ⟨templates, htables, hfills⟩ := fills_of_noted False hnoted False.elim
      refine ⟨b, templates, rfl, hlocation, htables, ?_⟩
      exact hfills.imp_left fun h => ⟨h.1, by rintro ⟨⟩⟩
    | none =>
      have hok : message = .ok () := by
        cases condition <;> cases message <;> first | rfl | cases hfailure
      obtain ⟨templates, htables, hfills⟩ :=
        fills_of_noted (.added b = Addition.added b) hnoted fun _ => hok
      exact ⟨b, templates, rfl, hlocation, htables, hfills⟩

end Session

/-! ## Operations on breakpoints -/

namespace Operation

/-- Whether an operation brings up a debugger or is about breakpoints. -/
def concernsBreakpoints : Operation → Bool
  | bringUp _ | startLocal _ _ | startSsh _ _ _ | addBreakpoint _ | removeBreakpoint _
  | clearBreakpoints _ | breakpoints => true
  | _ => false

/-- What a call that adds a breakpoint gives, unless it fails. -/
def addition? : (op : Operation) → op.Answer → Option Addition
  | addBreakpoint _, r => r.toOption
  | _, _ => none

/-- The breakpoint that a new removal finds. -/
def found? (s : Session) : Operation → Option Breakpoint
  | removeBreakpoint d => d.location.toOption.bind s.board.get?
  | _ => none

theorem of_found? {op : Operation} {s : Session} {b : Breakpoint}
    (h : op.found? s = some b) :
    ∃ d l, op = .removeBreakpoint d ∧ d.location = .ok l ∧ s.board.get? l = some b := by
  cases op with
  | removeBreakpoint d =>
    cases hl : d.location with
    | error e => simp [found?, hl, Except.toOption] at h
    | ok l => exact ⟨d, l, rfl, hl, by simpa [found?, hl, Except.toOption] using h⟩
  | _ => cases h

end Operation

namespace Ongoing

/-- What a call that adds a breakpoint has given, unless it has failed. -/
def addition? (o : Ongoing) : Option Addition := (o.rest?.bind Call.result?).bind o.op.addition?

/-- The breakpoint that a call has placed. -/
def placed? (o : Ongoing) : Option Breakpoint := o.addition?.bind Addition.breakpoint?

/-- What has become of a call that went on, and of the tables. -/
inductive Books (found? : Option Breakpoint) (x : Tables) : Ongoing → Tables → Prop
  | keeps {o : Ongoing} (h : o.placed? = none) : Books found? x o x
  /-- A breakpoint is put at its location. -/
  | puts {d : Descriptor} {a : Addition} {b : Breakpoint} {templates : Table UInt32 LogTemplate}
    (ha : a.breakpoint? = some b) (hl : d.location = .ok b.location)
    (h : Fills b (a = .added b) x.templates templates) :
    Books found? x ⟨.addBreakpoint d, some (.done (.ok a))⟩
      ⟨x.installed.insert b.location b, templates⟩
  /-- A location is emptied, and the template of what was found there is dropped. -/
  | takes {d : Descriptor} {l : Location} {b : Breakpoint} (hl : d.location = .ok l)
    (hfound : found? = some b) :
    Books found? x ⟨.removeBreakpoint d, some (.done (.ok true))⟩
      ⟨x.installed.erase l, x.templates.erase b.id⟩

end Ongoing

namespace Operation

open Session CallM

/-- What a call of an operation gives, and what has become of the tables. -/
def Books (found? : Option Breakpoint) (op : Operation) (a : op.Answer) (x : Tables)
    (u : Session) : Prop := Ongoing.Books found? x ⟨op, some (.done a)⟩ u.tables

theorem books_of_tables {found? : Option Breakpoint} {op : Operation} {a : op.Answer} {x : Tables}
    {u : Session} (h : u.tables = x) (hnone : Ongoing.placed? ⟨op, some (.done a)⟩ = none) :
    Books found? op a x u := by
  subst h
  exact .keeps hnone

theorem concludes_addReserved {d : Descriptor} {l : Location} (hl : d.location = .ok l)
    (s : Session) :
    (addReserved l d).run.Concludes (Books none (.addBreakpoint d)) s.tables s := by
  unfold addReserved
  rw [run_lift_bind, Call.concludes_bind]
  refine Call.concludes_holding (fun _ => rfl) ((concludes_install l d s).mono ?_)
  intro r x u h
  cases r with
  | error e => exact books_of_tables h rfl
  | ok a =>
    obtain ⟨b, templates, ha, rfl, htables, hfills⟩ := h
    have hsettled : (settle b.location (standing (.ok a)) u).tables =
        ⟨x.installed.insert b.location b, templates⟩ := by
      obtain ⟨hinstalled, htemplates⟩ := Tables.mk.inj htables
      simp only [Session.tables, settle, standing, ha, Board.settle, hinstalled, htemplates]
    change Ongoing.Books none x _ (settle b.location (standing (.ok a)) u).tables
    rw [hsettled]
    exact .puts ha hl hfills

theorem concludes_removeFound {d : Descriptor} {l : Location} (hl : d.location = .ok l)
    (b : Breakpoint) (s : Session) :
    (removeFound l b.id).run.Concludes (Books (some b) (.removeBreakpoint d)) s.tables s := by
  unfold removeFound
  refine (quiet_ask _).concludes_bind (fun answer u => ?_) (fun _ _ => .keeps rfl) s
  split
  · exact .takes hl rfl
  · exact .keeps rfl

/-- A call about breakpoints changes the tables where it opens and where it is done. -/
theorem concludes_call {op : Operation} (h : op.concernsBreakpoints = true) (s : Session) :
    op.call.Concludes (Books (op.found? s) op) (op.opened s).tables s := by
  have hconnect : (Deed.connect.apply s).tables = s.tables := tables_connect s
  cases op with
  | bringUp l =>
    rw [show (opened (.bringUp l) s).tables = s.tables from hconnect]
    exact (quiet_bringUp l s).mono fun a x u hu => books_of_tables hu rfl
  | startLocal host l =>
    have hquiet : (Session.startLocal host l).Quiet :=
      quiet_bind (quiet_read _) fun _ => quiet_bringUpStarted _ l
    rw [show (opened (.startLocal host l) s).tables = s.tables from hconnect]
    exact (hquiet s).mono fun a x u hu => books_of_tables hu rfl
  | startSsh host a l =>
    rw [show (opened (.startSsh host a l) s).tables = s.tables from hconnect]
    exact (quiet_bringUpStarted _ l s).mono fun a x u hu => books_of_tables hu rfl
  | addBreakpoint d =>
    unfold call Session.addBreakpoint
    rw [CallM.concludes_bind, concludes_except]
    cases hl : d.location with
    | error e =>
      rw [show opened (.addBreakpoint d) s = s by
        simp [opened, opening?, hl, Except.toOption, Deed.after]]
      exact .keeps rfl
    | ok l =>
      rw [show opened (.addBreakpoint d) s = (s.reserve l).2 by
        simp [opened, opening?, hl, Except.toOption, Deed.after, Deed.apply]]
      dsimp only
      rw [CallM.concludes_bind, concludes_lift, Call.concludes_locked]
      dsimp only
      split
      · exact concludes_addReserved hl _
      · exact .keeps rfl
  | removeBreakpoint d =>
    unfold call Session.removeBreakpoint
    rw [CallM.concludes_bind, concludes_except]
    cases hl : d.location with
    | error e => exact .keeps rfl
    | ok l =>
      rw [show found? s (.removeBreakpoint d) = s.board.get? l by rw [found?, hl]; rfl]
      dsimp only
      rw [CallM.concludes_bind, CallM.read, concludes_lift, Call.read, Call.concludes_locked]
      dsimp only
      cases hget : s.board.get? l with
      | none => exact .keeps rfl
      | some b => exact concludes_removeFound hl b s
  | clearBreakpoints source =>
    exact (quiet_clearTaken _ _).mono fun a x u hu => books_of_tables hu rfl
  | breakpoints => exact .keeps rfl
  | _ => cases h

end Operation

end MachineInterface

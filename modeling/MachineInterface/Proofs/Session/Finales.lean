import MachineInterface.Proofs.Session.Adding
import MachineInterface.Proofs.Session.Ensemble

/-!
# Finales

A call may open with a deed of its own. While it waits it does plain deeds only, and it may end with
a last deed, or with another one when it is given up. Which deeds these are is for its operation to
say.

* `Follows.advance`: a call that follows its operation goes on plainly or ends with its finale.
* `begins_call`, `Follows.move`: what becomes of every call.
-/

namespace MachineInterface

/-- Only plain deeds are done. -/
abbrev Session.Bides : Session → Session → Prop := Session.Does fun _ => False

open Session (Does Bides)

/-- The session after a deed, if there is one to do. -/
def Deed.after (d? : Option Deed) (s : Session) : Session := d?.elim s fun d => d.apply s

/-! ## Calls -/

namespace Call

variable {α β : Type} {release? : Option Deed} {last? : α → Option Deed} {c : Call α}

/--
A call does plain deeds only, but for a last one that belongs to its answer, and one when it is
given up.
-/
def Follows (release? : Option Deed) (last? : α → Option Deed) : Call α → Prop
  | done a => last? a = none
  | step run next =>
    (∀ s, Bides s (run s).2 ∧ (next (run s).1).Follows release? last?) ∨
      ∃ d a, last? a = some d ∧ ∀ s, (run s).2 = d.apply s ∧ next (run s).1 = done a
  | reply _ release next =>
    (∀ s, ∃ u, Bides s u ∧ (release s = u ∨ release s = Deed.after release? u)) ∧
      ∀ r, (next r).Follows release? last?
  | ending _ next => ∀ b, (next b).Follows release? last?

theorem follows_bind {f : α → Call β} {last? : β → Option Deed} (hc : c.Through fun _ => False)
    (hf : ∀ a, (f a).Follows release? last?) : (c.bind f).Follows release? last? := by
  induction c with
  | done a => exact hf a
  | step run next ih => exact .inl fun s => ⟨(hc s).1, ih _ (hc s).2⟩
  | reply ticket release next ih =>
    exact ⟨fun s => ⟨_, hc.1 s, .inl rfl⟩, fun r => ih r (hc.2 r)⟩
  | ending patient next ih => exact fun b => ih b (hc b)

/-- All that a call can give satisfies a condition. -/
def Gives (P : α → Prop) : Call α → Prop
  | done a => P a
  | step _ next => ∀ b, (next b).Gives P
  | reply _ _ next => ∀ r, (next r).Gives P
  | ending _ next => ∀ b, (next b).Gives P

theorem follows_holding_bind {P : α → Prop} {d : Deed} {f : α → Call β} {last? : β → Option Deed}
    (hc : c.Through fun _ => False) (hgives : c.Gives P)
    (hf : ∀ a, P a → (f a).Follows (some d) last?) :
    ((c.holding d.apply).bind f).Follows (some d) last? := by
  induction c with
  | done a => exact hf a hgives
  | step run next ih => exact .inl fun s => ⟨(hc s).1, ih _ (hc s).2 (hgives _)⟩
  | reply ticket release next ih =>
    exact ⟨fun s => ⟨_, hc.1 s, .inr rfl⟩, fun r => ih r (hc.2 r) (hgives r)⟩
  | ending patient next ih => exact fun b => ih b (hc b) (hgives b)

theorem gives_bind {P : β → Prop} (c : Call α) {f : α → Call β} (hf : ∀ a, (f a).Gives P) :
    (c.bind f).Gives P := by
  induction c with
  | done a => exact hf a
  | step run next ih => exact fun b => ih b
  | reply ticket release next ih => exact fun r => ih r
  | ending patient next ih => exact fun b => ih b

theorem Through.follows (hc : c.Through fun _ => False) (hlast : ∀ a, last? a = none) :
    c.Follows release? last? := by
  have hbind : (c.bind done).Follows release? last? := follows_bind hc hlast
  rwa [bind_done] at hbind

/-- A call goes on plainly, or it ends with the deed that belongs to its answer. -/
theorem Follows.advance (h : c.Follows release? last?) (s : Session) :
    (∃ c' u, Bides s u ∧ c.advance s = (c', u) ∧ c'.result? = none ∧ c'.Follows release? last?) ∨
      ∃ a u, Bides s u ∧ c.advance s = (done a, Deed.after (last? a) u) := by
  induction c generalizing s with
  | done a =>
    refine .inr ⟨a, s, Does.refl s, ?_⟩
    rw [show last? a = none from h]
    rfl
  | step run next ih =>
    rcases h with h | ⟨d, a, hd, h⟩
    · obtain ⟨hrun, hnext⟩ := h s
      rcases ih _ hnext (run s).2 with ⟨c', u, hdoes, hc', hrest⟩ | ⟨a, u, hdoes, hend⟩
      · exact .inl ⟨c', u, hrun.trans hdoes, hc', hrest⟩
      · exact .inr ⟨a, u, hrun.trans hdoes, hend⟩
    · obtain ⟨hrun, hnext⟩ := h s
      refine .inr ⟨a, s, Does.refl s, ?_⟩
      rw [Call.advance, hnext, hrun, hd]
      rfl
  | reply ticket release next ih =>
    unfold Call.advance
    split
    · exact ih _ (h.2 _) s
    · exact .inl ⟨_, s, Does.refl s, rfl, rfl, h⟩
  | ending patient next ih =>
    unfold Call.advance
    split
    · exact ih _ (h true) s
    · exact .inl ⟨_, s, Does.refl s, rfl, rfl, h⟩

theorem Follows.expire (h : c.Follows release? last?) : c.expire.Follows release? last? := by
  cases c with
  | ending patient next =>
    cases patient with
    | true => exact h
    | false => exact h false
  | _ => exact h

theorem Follows.drop (h : c.Follows release? last?) (s : Session) :
    ∃ u, Bides s u ∧ (c.drop s = u ∨ c.drop s = Deed.after release? u) := by
  cases c with
  | reply ticket release next =>
    have habandon : Bides s { s with exchange := s.exchange.abandon ticket } :=
      Does.plain (d := .abandon ticket) trivial s trivial
    obtain ⟨u, hdoes, hrelease⟩ := h.1 { s with exchange := s.exchange.abandon ticket }
    exact ⟨u, habandon.trans hdoes, hrelease⟩
  | _ => exact ⟨s, Does.refl s, .inl rfl⟩

end Call

namespace CallM

variable {α β : Type} {release? : Option Deed} {last? : Except Error β → Option Deed}

theorem follows_bind {c : CallM α} {f : α → CallM β} (hlast : ∀ e, last? (.error e) = none)
    (hc : c.Through fun _ => False) (hf : ∀ a, (f a).run.Follows release? last?) :
    (c >>= f).run.Follows release? last? := by
  refine Call.follows_bind hc fun r => ?_
  cases r with
  | ok a => exact hf a
  | error e => exact hlast e

theorem gives_bind {P : Except Error β → Prop} (c : CallM α) {f : α → CallM β}
    (herror : ∀ e, P (.error e)) (hf : ∀ a, (f a).run.Gives P) : (c >>= f).run.Gives P := by
  refine Call.gives_bind c fun r => ?_
  cases r with
  | ok a => exact hf a
  | error e => exact herror e

theorem run_lift_bind {c : Call α} {f : α → CallM β} :
    ((ExceptT.lift c : CallM α) >>= f).run = c.bind fun a => (f a).run :=
  Call.bind_assoc c _ _

/-- What depends on something that may have failed. -/
theorem run_except_bind (e : Except Error α) (f : α → CallM β) :
    ((liftM e : CallM α) >>= f).run =
      match e with
      | .ok a => (f a).run
      | .error e => .done (.error e) := by
  cases e <;> rfl

variable {s u : Session}

theorem advance_locked_bind {run : Session → Except Error α × Session} {f : α → CallM β} {a : α}
    (h : run s = (.ok a, u)) : (locked run >>= f).run.advance s = (f a).run.advance u := by
  change (ExceptT.bindCont f (run s).1).advance (run s).2 = _
  rw [h]
  rfl

theorem advance_locked_bind_error {run : Session → Except Error α × Session} {f : α → CallM β}
    {e : Error} (h : run s = (.error e, u)) :
    (locked run >>= f).run.advance s = (.done (.error e), u) := by
  change (ExceptT.bindCont f (run s).1).advance (run s).2 = _
  rw [h]
  rfl

theorem advance_modify_bind {g : Session → Session} {f : Unit → CallM β} :
    (modify g >>= f).run.advance s = (f ()).run.advance (g s) := rfl

theorem advance_read_bind {look : Session → α} {f : α → CallM β} :
    (read look >>= f).run.advance s = (f (look s)).run.advance s := rfl

end CallM

/-! ## Operations -/

namespace Operation

open Session

/-- The deed with which a call of an operation opens. -/
def opening? : Operation → Option Deed
  | bringUp _ | startLocal _ _ | startSsh _ _ _ => some .connect
  | addBreakpoint d => d.location.toOption.map .reserve
  | clearBreakpoints source => some (.takeSource source)
  | _ => none

/-- The deed with which a call of an operation is given up. -/
def release? : Operation → Option Deed
  | addBreakpoint d => d.location.toOption.map (.settle · none)
  | _ => none

/-- The deed with which an addition ends. -/
def settlement? (d : Descriptor) : Except Error Addition → Option Deed
  | .ok .alreadyInstalled => none
  | outcome => d.location.toOption.map (.settle · (standing outcome))

/-- The deed with which a removal ends that has found a breakpoint. -/
def removal? (found : UInt32) (d : Descriptor) : Except Error Bool → Option Deed
  | .ok true => d.location.toOption.map (.forget · found)
  | _ => none

/-- The deed with which a call of an operation ends if it gives an answer. -/
def finale? (found : UInt32) : (op : Operation) → op.Answer → Option Deed
  | bringUp _, r | startLocal _ _, r | startSsh _ _ _, r => r.toOption.map fun _ => .tellReady
  | start _, r => r.toOption.map fun _ => .markStarted
  | addBreakpoint d, r => settlement? d r
  | removeBreakpoint d, r => removal? found d r
  | _, _ => none

theorem settlement?_of_ne {d : Descriptor} {l : Location} {r : Except Error Addition}
    (hl : d.location = .ok l) (h : r ≠ .ok .alreadyInstalled) :
    settlement? d r = some (.settle l (standing r)) := by
  unfold settlement?
  split
  · exact absurd rfl h
  · rw [hl]
    rfl

end Operation

/-! ## What is left after the opening -/

namespace Session

open CallM

variable {s : Session}

/-- With a debugger, every command gets a ticket. -/
theorem issueAll_of_open (commands : List (String × Bool)) (h : s.link = .open) :
    ∃ tickets, (issueAll commands s).1 = .ok tickets ∧ tickets.length = commands.length := by
  induction commands generalizing s with
  | nil => exact ⟨[], rfl, rfl⟩
  | cons c commands ih =>
    have hissue := issue_of_open h c.1 c.2
    obtain ⟨tickets, htickets, hlength⟩ := ih (s := (s.issue c.1 c.2).2) (by rw [hissue]; exact h)
    rw [hissue] at htickets
    refine ⟨s.exchange.issued :: tickets, ?_, congrArg (· + 1) hlength⟩
    simp only [issueAll, hissue, htickets]
    rfl

/-- What is left of a bring-up once its commands are written. -/
def awaitSetup (features : Nat) (others : List Nat) : CallM Unit := do
  let answer ← attempt (await features)
  modify fun s => { s with features := (answer.map listed).toOption.getD [] }
  others.forM fun ticket => discard (await ticket)
  modify (·.emit .debugReady)

theorem follows_awaitSetup (l : Launch) (features : Nat) (others : List Nat) :
    (awaitSetup features others).run.Follows none (Operation.finale? 0 (.bringUp l)) := by
  have herror : ∀ e, Operation.finale? 0 (.bringUp l) (.error e) = none := fun _ => rfl
  have hlearn : ∀ (features : List String) s, Bides s { s with features } :=
    fun features s => does_learn features s.targetFeatures s.registerNames s (.refl _)
  have hothers : (others.forM fun ticket => discard (await ticket)).Through fun _ => False :=
    relates_forM (fun _ => relates_discard (through_await _)) _
  unfold awaitSetup
  refine follows_bind herror (relates_attempt (through_await _)) fun answer => ?_
  refine follows_bind herror (relates_modify (hlearn _)) fun _ => ?_
  refine follows_bind herror hothers fun _ => ?_
  exact .inr ⟨.tellReady, .ok (), rfl, fun s => ⟨rfl, rfl⟩⟩

/-- A bring-up whose commands are written waits for the answers. -/
theorem advance_bringUp_of_issueAll {l : Launch} {first features : Nat} {rest : List Nat}
    {u : Session} (hlink : s.link = .none)
    (hissue : issueAll (l.commands s.config.debugger) { s with link := .open } =
      (.ok (first :: features :: rest), u)) :
    (bringUp l).run.advance s = (awaitSetup features (first :: rest)).run.advance u := by
  have hconnect : s.connect = (.ok (), { s with link := .open }) := by
    simp [connect, hlink]
  exact (advance_locked_bind hconnect).trans (advance_locked_bind hissue)

/-- A bring-up is refused, or all its commands are written at once. -/
theorem advance_bringUp (l : Launch) (s : Session) :
    (bringUp l).run.advance s = (.done (.error .alreadyStarted), Deed.connect.apply s) ∨
      ∃ features others u, Bides (Deed.connect.apply s) u ∧
        (bringUp l).run.advance s = (awaitSetup features others).run.advance u := by
  by_cases hlink : s.link = .none
  · have hconnect : s.connect = (.ok (), { s with link := .open }) := by
      simp [connect, hlink]
    obtain ⟨tickets, htickets, hlength⟩ :=
      issueAll_of_open (s := { s with link := .open }) (l.commands s.config.debugger) rfl
    obtain ⟨later, hcommands⟩ := l.commands_prefix s.config.debugger
    rw [hcommands] at hlength
    obtain ⟨first, features, rest, rfl⟩ : ∃ first features rest,
        tickets = first :: features :: rest := by
      cases tickets with
      | nil => simp at hlength
      | cons first tickets =>
        cases tickets with
        | nil => simp at hlength
        | cons features rest => exact ⟨first, features, rest, rfl⟩
    refine .inr ⟨features, first :: rest,
      (issueAll (l.commands s.config.debugger) { s with link := .open }).2, ?_, ?_⟩
    · rw [Deed.apply, hconnect]
      exact does_issueAll _ _
    · exact advance_bringUp_of_issueAll hlink (Prod.ext htickets rfl)
  · have hconnect : s.connect = (.error .alreadyStarted, s.connect.2) := by
      cases h : s.link <;> simp_all [connect]
    exact .inl (advance_locked_bind_error hconnect)

theorem follows_start (stopAtEntry : Bool) :
    (start stopAtEntry).run.Follows none (Operation.finale? 0 (.start stopAtEntry)) := by
  have herror : ∀ e, Operation.finale? 0 (.start stopAtEntry) (.error e) = none := fun _ => rfl
  have hrest : ∀ command, (CallM.modify (·.emitLine .console "Running executable") >>= fun _ =>
      CallM.ask command >>= fun answer => CallM.modify markStarted >>= fun _ =>
        (pure (saysRunning answer) : CallM Bool)).run.Follows none
          (Operation.finale? 0 (.start stopAtEntry)) := by
    intro command
    refine follows_bind herror (relates_modify (does_emitLine _ _)) fun _ => ?_
    refine follows_bind herror (through_ask _) fun answer => ?_
    exact .inr ⟨.markStarted, .ok (saysRunning answer), rfl, fun s => ⟨rfl, rfl⟩⟩
  unfold start
  refine follows_bind herror (through_read _) fun knowsOption => ?_
  dsimp only
  cases stopAtEntry && !knowsOption with
  | true => exact follows_bind herror (through_setEntryBreakpoint _) fun _ => hrest _
  | false => exact hrest _

/-- What is left of an addition once its location is reserved. -/
def addReserved (l : Location) (d : Descriptor) : CallM Addition := do
  let outcome ← ExceptT.lift ((install l d).run.holding (settle l none))
  modify (settle l (standing outcome))
  outcome

theorem advance_addBreakpoint_of_error {d : Descriptor} {e : Error} (hl : d.location = .error e) :
    (addBreakpoint d).run.advance s = (.done (.error e), s) := by
  unfold addBreakpoint
  rw [hl]
  rfl

theorem advance_addBreakpoint {d : Descriptor} {l : Location} (hl : d.location = .ok l)
    (hfree : s.board.isFree l = true) :
    (addBreakpoint d).run.advance s = (addReserved l d).run.advance (s.reserve l).2 := by
  unfold addBreakpoint
  rw [hl]
  change Call.advance (ExceptT.run (if (s.reserve l).1 = true then _ else pure _)) (s.reserve l).2 = _
  rw [reserve_of_isFree hfree]
  rfl

/-- An attempt to insert a breakpoint does not find another in its place. -/
theorem gives_install (l : Location) (d : Descriptor) :
    (install l d).run.Gives (· ≠ .ok .alreadyInstalled) := by
  unfold install
  have herror : ∀ e : Error, (.error e : Except Error Addition) ≠ .ok .alreadyInstalled := by
    rintro _ ⟨⟩
  refine gives_bind _ herror fun _ => gives_bind _ herror fun answer => ?_
  refine gives_bind _ herror fun breakpoint => gives_bind _ herror fun condition => ?_
  refine gives_bind _ herror fun message => ?_
  split
  · rintro ⟨⟩
  · rintro ⟨⟩

theorem follows_addReserved {d : Descriptor} {l : Location} (hl : d.location = .ok l) :
    (addReserved l d).run.Follows (Operation.release? (.addBreakpoint d))
      (Operation.settlement? d) := by
  have hrelease : Operation.release? (.addBreakpoint d) = some (.settle l none) := by
    simp [Operation.release?, hl, Except.toOption]
  unfold addReserved
  rw [hrelease, run_lift_bind]
  refine Call.follows_holding_bind (through_install l d) (gives_install l d) fun outcome hne => ?_
  have hlast := Operation.settlement?_of_ne hl hne
  exact .inr ⟨.settle l (standing outcome), outcome, hlast, fun s => ⟨rfl, rfl⟩⟩

/-- What is left of a removal that has found a breakpoint. -/
def removeFound (l : Location) (id : UInt32) : CallM Bool := do
  let answer ← CallM.ask (deleteCommand id)
  if answer.outcome = .done then
    CallM.modify (forget l id)
    return true
  else return false

theorem advance_removeBreakpoint_of_error {d : Descriptor} {e : Error}
    (hl : d.location = .error e) : (removeBreakpoint d).run.advance s = (.done (.error e), s) := by
  unfold removeBreakpoint
  rw [hl]
  rfl

theorem advance_removeBreakpoint_of_none {d : Descriptor} {l : Location} (hl : d.location = .ok l)
    (h : s.board.get? l = none) :
    (removeBreakpoint d).run.advance s = (.done (.ok false), s) := by
  unfold removeBreakpoint
  rw [hl]
  change (CallM.read (·.board.get? l) >>= _).run.advance s = _
  rw [advance_read_bind, h]
  rfl

theorem advance_removeBreakpoint_of_some {d : Descriptor} {l : Location} {b : Breakpoint}
    (hl : d.location = .ok l) (h : s.board.get? l = some b) :
    (removeBreakpoint d).run.advance s = (removeFound l b.id).run.advance s := by
  unfold removeBreakpoint
  rw [hl]
  change (CallM.read (·.board.get? l) >>= _).run.advance s = _
  rw [advance_read_bind, h]
  rfl

theorem follows_removeFound {d : Descriptor} {l : Location} (hl : d.location = .ok l)
    (id : UInt32) : (removeFound l id).run.Follows none (Operation.removal? id d) := by
  have hforget : Operation.removal? id d (.ok true) = some (.forget l id) := by
    rw [Operation.removal?, hl]
    rfl
  unfold removeFound
  refine follows_bind (fun _ => rfl) (through_ask _) fun answer => ?_
  split
  · exact .inr ⟨.forget l id, .ok true, hforget, fun s => ⟨rfl, rfl⟩⟩
  · rfl

/-- What is left of a call that clears a file once the breakpoints are taken. -/
def clearTaken (taken : List Breakpoint) : CallM Unit := do
  let (tickets, unwritten) ← issueDeletes taken
  let unanswered ← awaitAll tickets
  match unwritten.or unanswered with
  | some e => throw e
  | none => return

theorem through_clearTaken (taken : List Breakpoint) :
    (clearTaken taken).Through fun _ => False := by
  unfold clearTaken
  refine relates_bind (through_issueDeletes _) fun written => ?_
  refine relates_bind (through_awaitAll _) fun unanswered => ?_
  split
  · exact relates_throw _
  · exact relates_pure _

theorem advance_clearBreakpoints (source : Option String) (s : Session) :
    (clearBreakpoints source).run.advance s =
      (clearTaken (s.takeSource source).1).run.advance (s.takeSource source).2 := rfl

end Session

/-! ## All operations -/

namespace Operation

open Session

/-- The session after the deed with which a call of an operation opens. -/
def opened (op : Operation) (s : Session) : Session := Deed.after op.opening? s

/-- A call opens with its deed, and then it follows its operation. -/
theorem advance_course (op : Operation) (s : Session) :
    ∃ found c u, Bides (op.opened s) u ∧ Call.Follows op.release? (op.finale? found) c ∧
      op.course.advance s = c.advance u := by
  have hlaunch : ∀ l, ∃ c u, Bides (Deed.connect.apply s) u ∧
      Call.Follows none (finale? 0 (.bringUp l)) c ∧
      (Session.bringUp l).run.advance s = c.advance u := by
    intro l
    rcases advance_bringUp l s with hrefused | ⟨features, others, u, hdoes, hadvance⟩
    · exact ⟨.done (.error .alreadyStarted), _, Does.refl _, rfl, hrefused⟩
    · exact ⟨_, u, hdoes, follows_awaitSetup l features others, hadvance⟩
  have hplain : ∀ {α : Type} {c : Call α}, c.Through (fun _ => False) →
      c.Follows none fun _ => none := fun h => h.follows fun _ => rfl
  have hthrough := op.through_course
  cases op with
  | bringUp l => exact ⟨0, hlaunch l⟩
  | startLocal host l => exact ⟨0, hlaunch l⟩
  | startSsh host a l => exact ⟨0, hlaunch l⟩
  | start stopAtEntry =>
    exact ⟨0, _, s, Does.refl s, follows_start stopAtEntry, rfl⟩
  | addBreakpoint d =>
    refine ⟨0, ?_⟩
    cases hl : d.location with
    | error e =>
      have hopened : opened (.addBreakpoint d) s = s := by
        simp [opened, opening?, hl, Except.toOption, Deed.after]
      have hlast : settlement? d (.error e) = none := by
        simp [settlement?, hl, Except.toOption]
      rw [hopened]
      exact ⟨.done (.error e), s, Does.refl s, hlast, advance_addBreakpoint_of_error hl⟩
    | ok l =>
      have hopened : opened (.addBreakpoint d) s = (s.reserve l).2 := by
        simp [opened, opening?, hl, Except.toOption, Deed.after, Deed.apply]
      rw [hopened]
      cases hfree : s.board.isFree l with
      | true =>
        exact ⟨_, _, Does.refl _, follows_addReserved hl, advance_addBreakpoint hl hfree⟩
      | false =>
        rw [reserve_of_not_free hfree]
        exact ⟨.done (.ok .alreadyInstalled), s, Does.refl s, rfl,
          advance_of_taken hl (Board.isFree_eq_false_iff.mp hfree)⟩
  | removeBreakpoint d =>
    cases hl : d.location with
    | error e =>
      exact ⟨0, .done (.error e), s, Does.refl s, rfl, advance_removeBreakpoint_of_error hl⟩
    | ok l =>
      cases hget : s.board.get? l with
      | none =>
        exact ⟨0, .done (.ok false), s, Does.refl s, rfl, advance_removeBreakpoint_of_none hl hget⟩
      | some b =>
        exact ⟨b.id, _, s, Does.refl s, follows_removeFound hl b.id,
          advance_removeBreakpoint_of_some hl hget⟩
  | clearBreakpoints source =>
    exact ⟨0, _, _, Does.refl _, hplain (through_clearTaken _), advance_clearBreakpoints source s⟩
  | _ => exact ⟨0, _, s, Does.refl s, hplain hthrough, rfl⟩

end Operation

/-! ## Calls of an ensemble -/

namespace Ongoing

/-- Whether a call waits. -/
def isWaiting (o : Ongoing) : Bool := o.rest?.any fun c => c.result?.isNone

/-- The deed with which a call ends that is done, as far as its answer tells. -/
def finale? (o : Ongoing) : Option Deed := (o.rest?.bind Call.result?).bind (o.op.finale? 0)

/-- A call that waits follows its operation. -/
def Follows (o : Ongoing) : Prop :=
  o.isWaiting = true → ∀ rest, o.rest? = some rest →
    ∃ found, rest.Follows o.op.release? (o.op.finale? found)

/-- What becomes of a call that goes on, and of its session. -/
inductive Goes (op : Operation) (s : Session) : Ongoing → Session → Prop
  | waits {c : Call op.Answer} {u : Session} (hc : c.result? = none) (h : Bides s u) :
    Goes op s ⟨op, some c⟩ u
  | ends {a : op.Answer} {u : Session} (found : UInt32) (h : Bides s u) :
    Goes op s ⟨op, some (.done a)⟩ (Deed.after (op.finale? found a) u)

/-- What becomes of a call that moves, and of its session. -/
inductive Moves (s : Session) : Ongoing → Ongoing → Session → Prop
  /-- The call was done or given up. -/
  | rests {o : Ongoing} (ho : o.isWaiting = false) : Moves s o o s
  | goes {o o' : Ongoing} {u : Session} (ho : o.isWaiting = true) (h : Goes o.op s o' u) :
    Moves s o o' u
  /-- The call is given up. -/
  | leaves {o : Ongoing} {u : Session} {d? : Option Deed} (ho : o.isWaiting = true) (h : Bides s u)
    (hd : d? = none ∨ d? = o.op.release?) : Moves s o ⟨o.op, none⟩ (Deed.after d? u)

variable {s : Session}

theorem isWaiting_some {op : Operation} {c : Call op.Answer} :
    isWaiting ⟨op, some c⟩ = true ↔ c.result? = none := by
  simp [isWaiting]

theorem Goes.after_bides {op : Operation} {o : Ongoing} {u v : Session} (h : Bides s u)
    (hgoes : Goes op u o v) : Goes op s o v := by
  cases hgoes with
  | waits hc hdoes => exact .waits hc (h.trans hdoes)
  | ends found hdoes => exact .ends found (h.trans hdoes)

/-- A call that follows its operation goes on to wait or to end. -/
theorem goes_advance {op : Operation} {c : Call op.Answer} {found : UInt32}
    (h : c.Follows op.release? (op.finale? found)) (s : Session) :
    Follows ⟨op, some (c.advance s).1⟩ ∧ Goes op s ⟨op, some (c.advance s).1⟩ (c.advance s).2 := by
  rcases h.advance s with ⟨c', u, hdoes, hadvance, hc', hfollows⟩ | ⟨a, u, hdoes, hadvance⟩
  · rw [hadvance]
    refine ⟨?_, .waits hc' hdoes⟩
    rintro - _ ⟨⟩
    exact ⟨found, hfollows⟩
  · rw [hadvance]
    refine ⟨?_, .ends found hdoes⟩
    rintro ⟨⟩

/-- A call that is done or was given up stays as it is. -/
theorem move_of_not_waiting {o : Ongoing} (h : o.isWaiting = false) (m : Move) (s : Session) :
    o.move m s = (o, s) := by
  obtain ⟨op, rest?⟩ := o
  cases rest? with
  | none => rfl
  | some rest =>
    cases hresult : rest.result? with
    | some a =>
      obtain rfl := Call.eq_done_of_result? hresult
      cases m <;> rfl
    | none =>
      rw [isWaiting_some.mpr hresult] at h
      cases h

theorem Follows.move {o : Ongoing} (h : o.Follows) (m : Move) (s : Session) :
    (o.move m s).1.Follows ∧ Moves s o (o.move m s).1 (o.move m s).2 := by
  cases hwaits : o.isWaiting with
  | false =>
    rw [move_of_not_waiting hwaits]
    exact ⟨h, .rests hwaits⟩
  | true =>
    obtain ⟨op, rest?⟩ := o
    cases rest? with
    | none => cases hwaits
    | some rest =>
      have hresult := isWaiting_some.mp hwaits
      obtain ⟨found, hrest⟩ := h hwaits rest rfl
      cases m with
      | resume =>
        obtain ⟨hfollows, hgoes⟩ := goes_advance hrest s
        exact ⟨hfollows, .goes hwaits hgoes⟩
      | expire =>
        obtain ⟨hfollows, hgoes⟩ := goes_advance hrest.expire s
        exact ⟨hfollows, .goes hwaits hgoes⟩
      | giveUp =>
        have hmove : Ongoing.move ⟨op, some rest⟩ .giveUp s = (⟨op, none⟩, rest.drop s) := by
          simp only [Ongoing.move, hresult, Option.isSome_none, Bool.false_eq_true, if_false]
        have hfollows : Follows ⟨op, none⟩ := by
          rintro ⟨⟩
        rw [hmove]
        obtain ⟨u, hdoes, hdrop | hdrop⟩ := hrest.drop s
        · rw [hdrop]
          have hleaves : Moves s ⟨op, some rest⟩ ⟨op, none⟩ (Deed.after none u) :=
            .leaves hwaits hdoes (.inl rfl)
          exact ⟨hfollows, hleaves⟩
        · rw [hdrop]
          exact ⟨hfollows, .leaves hwaits hdoes (.inr rfl)⟩

end Ongoing

namespace Operation

/-- What becomes of a new call, and of its session. -/
inductive Begins (op : Operation) (s : Session) : Ongoing → Session → Prop
  /-- The debugger that the call needs cannot be started. -/
  | fails {a : op.Answer} {detail : String} (h : op.launchFailure? s.config = some detail)
    (ha : op.finale? 0 a = none) : Begins op s ⟨op, some (.done a)⟩ (s.launchFailed detail)
  | goes {o : Ongoing} {u : Session} (h : Ongoing.Goes op (op.opened s) o u) : Begins op s o u

/-- A call that cannot start its debugger fails. -/
theorem advance_call_refused {op : Operation} {s : Session} {detail : String}
    (h : op.launchFailure? s.config = some detail) :
    ∃ a, op.finale? 0 a = none ∧ op.call.advance s = (.done a, s.launchFailed detail) := by
  cases op with
  | startLocal host l => exact ⟨_, rfl, advance_bringUpStarted_of_some h l⟩
  | startSsh host a l => exact ⟨_, rfl, advance_bringUpStarted_of_some h l⟩
  | _ => cases h

theorem begins_call (op : Operation) (s : Session) :
    Ongoing.Follows ⟨op, some (op.call.advance s).1⟩ ∧
      Begins op s ⟨op, some (op.call.advance s).1⟩ (op.call.advance s).2 := by
  cases hlaunch : op.launchFailure? s.config with
  | none =>
    obtain ⟨found, c, u, hdoes, hfollows, hadvance⟩ := op.advance_course s
    obtain ⟨hnext, hgoes⟩ := Ongoing.goes_advance hfollows u
    rw [advance_call_of_launched hlaunch, hadvance]
    exact ⟨hnext, .goes (hgoes.after_bides hdoes)⟩
  | some detail =>
    obtain ⟨a, ha, hadvance⟩ := advance_call_refused hlaunch
    rw [hadvance]
    refine ⟨?_, .fails hlaunch ha⟩
    rintro ⟨⟩

end Operation

namespace Ensemble

/-- Every call that waits follows its operation. -/
def Follows (e : Ensemble) : Prop := ∀ o ∈ e.calls, o.Follows

theorem Follows.turn {e : Ensemble} (h : e.Follows) (t : Turn) : (e.turn t).Follows :=
  forall_calls_turn (fun op => (op.begins_call e.session).1)
    (fun _ ho m => (ho.move m e.session).1) h t

theorem follows_run (config : Config) (turns : List Turn) : (run config turns).Follows := by
  induction turns using List.reverseRecOn with
  | nil =>
    intro o ho
    cases ho
  | append_singleton turns t ih =>
    rw [run_snoc]
    exact ih.turn t

end Ensemble

end MachineInterface

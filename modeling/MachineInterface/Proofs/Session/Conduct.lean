import MachineInterface.Proofs.Session.Ensemble

/-!
# How calls conduct themselves

A relation between the session before a section and after it, for all sections of a call. What the
front end does not word itself starts with words that are fixed for each operation. So only the calls
that run the program backwards write the commands for that, and ask whether the target can do it.

* `Apart.append`: what is fixed about a command keeps it apart from these, whatever follows.
* `relates_call`: every operation, one case for each.
-/

namespace MachineInterface

/-! ## Words -/

/-- The command with which the program goes on backwards. -/
def Motion.backwards (motion : Motion) : String := motion.command ++ " --reverse"

/-- The command that asks what the target can do. -/
def Session.targetQuery : String := "list-target-features"

namespace Command

/-- The commands that have to do with running backwards. -/
def reserved : List String :=
  Session.targetQuery ::
    [Motion.continue, Motion.next, Motion.step, Motion.finish].map Motion.backwards

theorem backwards_mem_reserved (motion : Motion) : motion.backwards ∈ reserved := by
  cases motion <;> decide

/-- A text that no such command starts with, whatever follows it. -/
def Apart (text : String) : Prop := ∀ word ∈ reserved, ¬ text.toList <+: word.toList

instance (text : String) : Decidable (Apart text) :=
  inferInstanceAs (Decidable (∀ word ∈ reserved, ¬ text.toList <+: word.toList))

theorem Apart.append {text : String} (h : Apart text) (rest : String) : Apart (text ++ rest) := by
  intro word hword hstarts
  rw [String.toList_append] at hstarts
  exact h word hword ((List.prefix_append _ _).trans hstarts)

theorem Apart.not_reserved {text : String} (h : Apart text) : text ∉ reserved :=
  fun hword => h text hword List.prefix_rfl

end Command

/-! ## Sections -/

namespace Session

/-- The part of a session that calls change only by writing, and by learning what the target can do. -/
def posture (s : Session) : Link × Exchange × List Outgoing × Option (List String) :=
  (s.link, s.exchange, s.outbox, s.targetFeatures)

/-- A relation that holds of every section that writes no command to do with running backwards. -/
structure Conduct (r : Session → Session → Prop) : Prop where
  quiet {s u : Session} (h : u.posture = s.posture) : r s u
  trans {s u v : Session} (h : r s u) (h' : r u v) : r s v
  connect (s : Session) : r s s.connect.2
  write (line : String) (s : Session) : r s (s.write line).2
  issue {command : String} (h : command ∉ Command.reserved) (tolerant : Bool) (s : Session) :
    r s (s.issue command tolerant).2

/-- A relation that holds of every command that is issued. -/
def IssuesFreely (r : Session → Session → Prop) : Prop :=
  ∀ command tolerant s, r s (s.issue command tolerant).2

/-- A relation that holds of every section, whatever it writes or learns. -/
structure Conduct.Free (r : Session → Session → Prop) : Prop extends Conduct r where
  free : IssuesFreely r
  learn (features : List String) (s : Session) : r s { s with targetFeatures := some features }

namespace Conduct

open CallM

variable {r : Session → Session → Prop} (h : Conduct r)

include h

theorem refl (s : Session) : r s s := h.quiet rfl

theorem read {α : Type} (f : Session → α) : (CallM.read f).Relates r :=
  relates_lift (Call.relates_locked fun s => h.refl s)

theorem modify {f : Session → Session} (hf : ∀ s, (f s).posture = s.posture) :
    (CallM.modify f).Relates r := relates_modify fun s => h.quiet (hf s)

theorem locked {α : Type} {run : Session → α × Session}
    (hrun : ∀ s, (run s).2.posture = s.posture) : (Call.locked run).Relates r :=
  Call.relates_locked fun s => h.quiet (hrun s)

theorem await (ticket : Nat) : (CallM.await ticket).Relates r :=
  ⟨fun s => h.refl s, fun _ => trivial⟩

theorem send {command : String} (hc : command ∉ Command.reserved) (tolerant : Bool) :
    (CallM.send command tolerant).Relates r :=
  relates_bind (relates_locked (h.issue hc tolerant)) h.await

theorem ask {command : String} (hc : command ∉ Command.reserved) :
    (CallM.ask command).Relates r := h.send hc false

end Conduct

section

open CallM Command

variable {r : Session → Session → Prop} (h : Conduct r)

include h

/-! ## Bring-up -/

theorem relates_issueAll (hfree : IssuesFreely r)
    (commands : List (String × Bool)) (s : Session) : r s (issueAll commands s).2 := by
  induction commands generalizing s with
  | nil => exact h.refl s
  | cons c commands ih =>
    have hissue := hfree c.1 c.2 s
    rw [issueAll]
    cases hwritten : s.issue c.1 c.2 with
    | mk written u =>
      rw [hwritten] at hissue
      cases written with
      | error e => exact hissue
      | ok ticket => exact h.trans hissue (ih u)

theorem relates_bringUp (hfree : IssuesFreely r)
    (l : Launch) : (bringUp l).Relates r := by
  unfold bringUp
  refine relates_bind (relates_locked h.connect) fun _ => ?_
  refine relates_bind (h.read _) fun config => ?_
  refine relates_bind (relates_locked (relates_issueAll h hfree _)) fun tickets => ?_
  split
  · refine relates_bind (relates_attempt (h.await _)) fun answer => ?_
    refine relates_bind (h.modify fun _ => rfl) fun _ => ?_
    refine relates_bind (relates_forM (fun _ => relates_discard (h.await _)) _) fun _ => ?_
    exact h.modify fun _ => rfl
  · exact relates_pure _

theorem relates_bringUpStarted (hfree : IssuesFreely r)
    (started : Except String Unit) (l : Launch) : (bringUpStarted started l).Relates r := by
  have hfailed : ∀ detail (s : Session), (s.launchFailed detail).posture = s.posture := by
    intro detail s
    have hposture := congrArg posture (backdrop_onQuit (s.emit (.launchError detail)))
    exact hposture
  unfold bringUpStarted
  split
  · exact relates_bringUp h hfree l
  · exact relates_bind (h.modify (hfailed _)) fun _ => relates_throw _

/-! ## Running the program -/

theorem relates_setEntryBreakpoint (entry : String) : (setEntryBreakpoint entry).Relates r :=
  relates_discard (h.ask (Apart.append (by decide) _).not_reserved)

theorem relates_start (stopAtEntry : Bool) : (start stopAtEntry).Relates r := by
  have hstarted : ∀ s : Session, s.markStarted.posture = s.posture := by
    intro s
    rw [markStarted]
    split <;> rfl
  have hrun : ∀ option : Bool, (if option then "exec-run --start" else "exec-run") ∉ reserved := by
    decide
  have hrest : ∀ option : Bool, (CallM.modify (·.emitLine .console "Running executable") >>= fun _ =>
      CallM.ask (if option then "exec-run --start" else "exec-run") >>= fun answer =>
        CallM.modify markStarted >>= fun _ => pure (saysRunning answer)).Relates r := by
    intro option
    refine relates_bind (h.modify fun _ => rfl) fun _ => ?_
    refine relates_bind (h.ask (hrun option)) fun answer => ?_
    exact relates_bind (h.modify hstarted) fun _ => relates_pure _
  unfold start
  refine relates_bind (h.read _) fun knowsOption => ?_
  dsimp only
  cases stopAtEntry && !knowsOption with
  | true => exact relates_bind (relates_setEntryBreakpoint h _) fun _ => hrest _
  | false => exact hrest _

/-- The program goes on forwards. -/
theorem relates_moveOn (motion : Motion) : (move motion false).Relates r := by
  have hmotion : motion.command ∉ reserved := by
    cases motion <;> decide
  unfold move
  exact relates_bind (h.ask hmotion) fun _ => relates_pure _

theorem relates_interrupt : interrupt.Relates r :=
  relates_bind (h.ask (by decide)) fun _ => relates_pure _

theorem relates_goto (file : Option String) (line : UInt32) : (goto file line).Relates r := by
  have hinsert : ∀ place, "break-insert -t " ++ place ∉ reserved :=
    fun _ => (Apart.append (by decide) _).not_reserved
  have hjump : ∀ place, "exec-jump " ++ place ∉ reserved :=
    fun _ => (Apart.append (by decide) _).not_reserved
  unfold goto
  exact relates_bind (relates_discard (h.ask (hinsert _))) fun _ =>
    relates_bind (h.ask (hjump _)) fun _ => relates_pure _

theorem relates_changeVariable (name value : String) : (changeVariable name value).Relates r :=
  relates_discard (h.ask (Apart.append (.append (.append (by decide) _) _) _).not_reserved)

theorem relates_endWith (line : String) : (endWith line).Relates r := by
  have hending : ∀ patient, (ExceptT.lift (Call.ending patient .done) : CallM Bool).Relates r :=
    fun _ => relates_lift fun _ => trivial
  have hkill : ∀ s : Session, s.killIfAlive.posture = s.posture := by
    intro s
    unfold killIfAlive
    split <;> rfl
  unfold endWith
  refine relates_bind (relates_locked (h.write line)) fun _ => ?_
  refine relates_bind (hending _) fun ended => ?_
  split
  · exact relates_pure _
  · exact relates_bind (h.modify hkill) fun _ => relates_discard (hending _)

/-! ## Breakpoints -/

theorem relates_setCondition (id : UInt32) (condition : Option String) :
    (setCondition id condition).Relates r := by
  unfold setCondition
  split
  · exact relates_discard
      (h.ask (Apart.append (.append (.append (by decide) _) _) _).not_reserved)
  · exact relates_pure _

theorem relates_setLogMessage (id : UInt32) (message : Option String) :
    (setLogMessage id message).Relates r := by
  have hcommands : ∀ template : LogTemplate, template.breakCommands id ∉ reserved :=
    fun _ => (Apart.append (.append (by decide) _) _).not_reserved
  unfold setLogMessage
  split
  · dsimp only
    split
    · exact h.modify fun _ => rfl
    · exact relates_bind (relates_discard (h.ask (hcommands _))) fun _ => h.modify fun _ => rfl
  · exact relates_pure _

theorem relates_install (l : Location) (d : Descriptor) : (install l d).Relates r := by
  have hwarn : ∀ s, (warnHits d.hitPolicy? s).posture = s.posture := by
    intro s
    unfold warnHits
    split <;> rfl
  have hinsert : insertCommand l d.hitPolicy? ∉ reserved :=
    (Apart.append (.append (by decide) _) _).not_reserved
  unfold install
  refine relates_bind (h.modify hwarn) fun _ => ?_
  refine relates_bind (h.ask hinsert) fun answer => ?_
  refine relates_bind (relates_except _) fun breakpoint => ?_
  refine relates_bind (relates_attempt (relates_setCondition h _ _)) fun condition => ?_
  refine relates_bind (relates_attempt (relates_setLogMessage h _ _)) fun message => ?_
  split
  · exact relates_pure _
  · exact relates_pure _

theorem relates_addBreakpoint (d : Descriptor) : (addBreakpoint d).Relates r := by
  have hreserve : ∀ l (s : Session), (s.reserve l).2.posture = s.posture := by
    intro l s
    obtain ⟨board, hboard⟩ := exists_reserve_eq s l
    rw [hboard]
    rfl
  unfold addBreakpoint
  refine relates_bind (relates_except _) fun l => ?_
  refine relates_bind (relates_lift (h.locked (hreserve l))) fun free => ?_
  split
  · refine relates_bind (relates_lift ?_) fun outcome => ?_
    · exact Call.relates_holding (r := r) h.trans (relates_install h l d) fun s => h.quiet rfl
    · exact relates_bind (h.modify fun _ => rfl) fun _ => relates_except _
  · exact relates_pure _

omit h in
theorem deleteCommand_not_reserved (id : UInt32) : deleteCommand id ∉ reserved :=
  (Apart.append (by decide) _).not_reserved

theorem relates_removeBreakpoint (d : Descriptor) : (removeBreakpoint d).Relates r := by
  unfold removeBreakpoint
  refine relates_bind (relates_except _) fun l => relates_bind (h.read _) fun found => ?_
  split
  · exact relates_pure _
  · refine relates_bind (h.ask (deleteCommand_not_reserved _)) fun answer => ?_
    split
    · exact relates_bind (h.modify fun _ => rfl) fun _ => relates_pure _
    · exact relates_pure _

theorem relates_issueDeletes (taken : List Breakpoint) : (issueDeletes taken).Relates r := by
  induction taken with
  | nil => exact relates_pure _
  | cons b taken ih =>
    have hissue := h.issue (deleteCommand_not_reserved b.id) false
    refine relates_bind (relates_attempt (relates_locked hissue)) fun written => ?_
    refine relates_bind ih fun others => ?_
    cases written with
    | ok ticket => exact relates_pure _
    | error e => exact relates_pure _

theorem relates_awaitAll (tickets : List Nat) : (awaitAll tickets).Relates r := by
  induction tickets with
  | nil => exact relates_pure _
  | cons ticket tickets ih =>
    refine relates_bind (relates_attempt (h.await _)) fun answer => ?_
    refine relates_bind ih fun failure => ?_
    split
    · exact relates_pure _
    · exact relates_pure _

theorem relates_clearBreakpoints (source : Option String) :
    (clearBreakpoints source).Relates r := by
  unfold clearBreakpoints
  refine relates_bind (relates_lift (h.locked fun _ => rfl)) fun taken => ?_
  refine relates_bind (relates_issueDeletes h _) fun written => ?_
  refine relates_bind (relates_awaitAll h _) fun unanswered => ?_
  split
  · exact relates_throw _
  · exact relates_pure _

/-! ## Looking into the program -/

theorem relates_threads : threads.Relates r := by
  unfold threads
  refine relates_bind (relates_attempt (h.ask (by decide))) fun answer => ?_
  split
  · exact relates_pure _
  · split
    · exact relates_pure _
    · exact relates_throw _
  · exact relates_throw _

omit h in
theorem apart_threadCommand {command : String} (hc : Apart command) (thread : UInt32) :
    Apart (threadCommand command thread) := by
  unfold threadCommand
  split
  · exact hc
  · exact (hc.append _).append _

theorem relates_stack (first count thread : UInt32) : (stack first count thread).Relates r := by
  have hdepth : Apart (threadCommand "stack-info-depth" thread) :=
    apart_threadCommand (by decide) thread
  have hframes : Apart (threadCommand "stack-list-frames" thread) :=
    apart_threadCommand (by decide) thread
  unfold stack
  refine relates_bind ?_ fun depth => ?_
  · unfold stackDepth
    refine relates_bind (h.ask hdepth.not_reserved) fun answer => ?_
    refine relates_bind (relates_except _) fun text => ?_
    split
    · exact relates_pure _
    · exact relates_throw _
  · split
    · exact relates_pure _
    · refine relates_bind (h.ask ?_) fun _ => relates_pure _
      exact (Apart.append (.append (.append (.append hframes _) _) _) _).not_reserved

theorem relates_stackVariables (thread level : UInt32) : (stackVariables thread level).Relates r := by
  refine relates_bind (h.ask ?_) fun _ => relates_pure _
  exact (Apart.append (.append (.append (.append (by decide) _) _) _) _).not_reserved

theorem relates_registers : registers.Relates r := by
  have hnames : nameRegisters.Relates r := by
    unfold nameRegisters
    refine relates_bind (h.read _) fun known => ?_
    split
    · exact relates_pure _
    · refine relates_bind (h.ask (by decide)) fun answer => ?_
      refine relates_bind (relates_except _) fun names => ?_
      exact relates_bind (h.modify fun _ => rfl) fun _ => relates_pure _
  unfold registers
  refine relates_bind hnames fun names => relates_bind (h.ask (by decide)) fun answer => ?_
  exact relates_bind (relates_except _) fun _ => relates_pure _

theorem relates_evaluate (expression : String) (thread level : UInt32) :
    (evaluate expression thread level).Relates r :=
  relates_bind (h.ask (Apart.append (.append (by decide) _) _).not_reserved) fun _ =>
    relates_except _

theorem relates_readMemory (reference : String) (offset : Int) (count : UInt64) :
    (readMemory reference offset count).Relates r := by
  have hread : ∀ a, Address.readCommand a count ∉ reserved :=
    fun _ => (Apart.append (.append (.append (by decide) _) _) _).not_reserved
  unfold readMemory
  refine relates_bind (relates_except _) fun address => ?_
  split
  · exact relates_pure _
  · refine relates_bind (h.send (hread _) _) fun answer => ?_
    split
    · exact relates_except _
    · split
      · exact relates_pure _
      · exact relates_throw _

theorem relates_completions (text : String) : (completions text).Relates r :=
  relates_bind (h.send (Apart.append (by decide) _).not_reserved _) fun _ =>
    relates_bind (relates_except _) fun _ => relates_pure _

/-! ## Variables -/

theorem relates_createVariable (expression : String) (name : Option String)
    (thread level : UInt32) : (createVariable expression name thread level).Relates r := by
  unfold createVariable
  refine relates_bind (h.ask ?_) fun answer => ?_
  · exact (Apart.append (.append (.append (.append (by decide) _) _) _) _).not_reserved
  · split
    · exact relates_pure _
    · exact relates_throw _

theorem relates_updateVariable (name : String) : (updateVariable name).Relates r :=
  relates_bind (h.ask (Apart.append (by decide) _).not_reserved) fun _ =>
    relates_lift (h.locked fun _ => rfl)

theorem relates_listChildren (name : String) : (listChildren name).Relates r :=
  relates_bind (h.ask (Apart.append (by decide) _).not_reserved) fun _ => relates_pure _

theorem relates_assignVariable (name expression : String) :
    (assignVariable name expression).Relates r :=
  relates_bind (h.ask (Apart.append (.append (.append (by decide) _) _) _).not_reserved) fun _ =>
    relates_except _

theorem relates_evaluateVariable (name : String) : (evaluateVariable name).Relates r :=
  relates_bind (h.ask (Apart.append (by decide) _).not_reserved) fun _ => relates_except _

theorem relates_memoryReference (o : VariableObject) : (memoryReference o).Relates r := by
  unfold memoryReference
  split
  · trivial
  · trivial
  · exact Call.relates_bind (relates_evaluate h _ _ _) fun _ => trivial

theorem relates_describe (o : VariableObject) : (describe o).Relates r := by
  refine Call.relates_bind (relates_memoryReference h o) fun reference => ?_
  exact Call.relates_bind (h.locked fun _ => rfl) fun _ => trivial

theorem relates_rowOfLocal (scope : Handle) (key : ScopeKey) (name : String) :
    (rowOfLocal scope key name).Relates r := by
  have hrefresh : ∀ name, (refresh name).Relates r := by
    intro name
    unfold refresh
    refine relates_bind (h.read _) fun known => ?_
    split
    · exact relates_pure _
    · refine relates_bind (relates_attempt (relates_updateVariable h _)) fun updated => ?_
      split
      · exact h.read _
      · split
        · exact relates_pure _
        · exact relates_throw _
  have hobject : (objectOfLocal scope key name).Relates r := by
    unfold objectOfLocal
    refine relates_bind (hrefresh _) fun known => ?_
    split
    · exact relates_pure _
    · exact relates_bind (relates_createVariable h _ _ _ _) fun _ => relates_pure _
  unfold rowOfLocal
  refine Call.relates_bind hobject fun object => ?_
  split
  · exact relates_describe h _
  · trivial

theorem relates_expand (handle : Handle) : (expand handle).Relates r := by
  unfold expand
  refine relates_bind (h.read _) fun entry => ?_
  split
  · exact relates_pure _
  · unfold rowsOfScope
    split
    · exact relates_bind (relates_registers h) fun _ => relates_pure _
    · refine relates_bind (relates_stackVariables h _ _) fun locals => ?_
      exact relates_mapM (fun _ => relates_lift (relates_rowOfLocal h _ _ _)) _
  · refine relates_bind (relates_listChildren h _) fun children => ?_
    exact relates_mapM (fun _ => relates_lift (relates_describe h _)) _

end

/-! ## Running backwards -/

theorem relates_supportsReverse {r : Session → Session → Prop} (h : Conduct.Free r) :
    supportsReverse.Relates r := by
  have hlearn : ∀ features : List String, (CallM.modify (fun s =>
      { s with targetFeatures := some features }) >>= fun _ =>
        pure (features.contains "reverse")).Relates r :=
    fun features => CallM.relates_bind (CallM.relates_modify (h.learn features)) fun _ => trivial
  have hask : (CallM.ask "list-target-features").Relates r :=
    CallM.relates_bind (CallM.relates_locked (h.free _ _)) h.await
  unfold supportsReverse
  refine CallM.relates_bind (h.read _) fun known => ?_
  split
  · trivial
  · refine CallM.relates_bind (CallM.relates_attempt hask) fun answer => ?_
    dsimp only
    split
    · exact CallM.relates_bind (CallM.relates_pure _) hlearn
    · exact CallM.relates_bind (CallM.relates_pure _) hlearn
    · exact CallM.relates_bind (CallM.relates_throw _) hlearn

theorem relates_move {r : Session → Session → Prop} (h : Conduct.Free r) (motion : Motion)
    (backwards : Bool) : (move motion backwards).Relates r := by
  have hask : ∀ command, (CallM.ask command).Relates r := fun command =>
    CallM.relates_bind (CallM.relates_locked (h.free _ _)) h.await
  unfold move
  dsimp only
  split
  · refine CallM.relates_bind (relates_supportsReverse h) fun supported => ?_
    split
    · exact CallM.relates_bind (hask _) fun _ => trivial
    · trivial
  · exact CallM.relates_bind (hask _) fun _ => trivial

end Session

/-! ## All operations -/

namespace Operation

open Session CallM

/-- Whether an operation depends on whether the target can run backwards. -/
def isReverse : Operation → Bool
  | supportsReverse => true
  | move _ backwards => backwards
  | _ => false

/-- Whether commands of an operation are in the words of the front end or of the settings. -/
def isWorded : Operation → Bool
  | bringUp _ | startLocal _ _ | startSsh _ _ _ | send _ _ | sendInput _ _ | sendUserInput _ _ _ =>
    true
  | _ => false

/-- A relation covers all that an operation may write or learn, besides its fixed words. -/
structure CoveredBy (r : Session → Session → Prop) (op : Operation) : Prop where
  worded : op.isWorded = true → IssuesFreely r
  reverse : op.isReverse = true → Conduct.Free r

/--
The sections of every operation conduct themselves; those in the words of the front end and those
that run the program backwards need a relation that covers them.
-/
theorem relates_call {r : Session → Session → Prop} (h : Conduct r) {op : Operation}
    (hop : op.CoveredBy r) : op.call.Relates r := by
  cases op with
  | bringUp l => exact relates_bringUp h (hop.worded rfl) l
  | startLocal host l =>
    exact relates_bind (h.read _) fun config => relates_bringUpStarted h (hop.worded rfl) _ l
  | startSsh host a l => exact relates_bringUpStarted h (hop.worded rfl) _ l
  | start stopAtEntry => exact relates_start h stopAtEntry
  | setEntryBreakpoint entry => exact relates_setEntryBreakpoint h entry
  | supportsReverse => exact relates_supportsReverse (hop.reverse rfl)
  | move motion backwards =>
    cases backwards with
    | true => exact relates_move (hop.reverse rfl) motion true
    | false => exact relates_moveOn h motion
  | interrupt => exact relates_interrupt h
  | goto file line => exact relates_goto h file line
  | changeVariable name value => exact relates_changeVariable h name value
  | stopDebugger => exact relates_endWith h _
  | detach => exact relates_endWith h _
  | addBreakpoint d => exact relates_addBreakpoint h d
  | removeBreakpoint d => exact relates_removeBreakpoint h d
  | clearBreakpoints source => exact relates_clearBreakpoints h source
  | breakpoints => exact h.locked fun _ => rfl
  | features => exact h.locked fun _ => rfl
  | threads => exact relates_threads h
  | stack first count thread => exact relates_stack h first count thread
  | stackVariables thread level => exact relates_stackVariables h thread level
  | registers => exact relates_registers h
  | evaluate expression thread level => exact relates_evaluate h expression thread level
  | readMemory reference offset count => exact relates_readMemory h reference offset count
  | completions text => exact relates_completions h text
  | createVariable expression name thread level =>
    exact relates_createVariable h expression name thread level
  | updateVariable name => exact relates_updateVariable h name
  | listChildren name => exact relates_listChildren h name
  | assignVariable name expression => exact relates_assignVariable h name expression
  | evaluateVariable name => exact relates_evaluateVariable h name
  | memoryReference o => exact relates_memoryReference h o
  | scopes frame => exact h.locked fun _ => rfl
  | expand handle => exact relates_expand h handle
  | send command tolerant =>
    exact relates_bind (relates_locked (hop.worded rfl _ _)) h.await
  | sendInput text tolerant =>
    exact relates_bind (relates_locked (hop.worded rfl _ _)) h.await
  | sendUserInput text thread level =>
    exact relates_bind (relates_locked (hop.worded rfl _ _)) h.await
  | write line => exact relates_locked (h.write line)

end Operation

/-! ## Runs -/

open Session (Conduct)

variable {r : Session → Session → Prop}

namespace Ongoing

/-- The sections of what is left of a call are related. -/
def Relates (r : Session → Session → Prop) (o : Ongoing) : Prop :=
  ∀ rest, o.rest? = some rest → rest.Relates r

/-- A call waits for the answer to the command with a ticket. -/
def Expects (o : Ongoing) (ticket : Nat) : Prop :=
  ∃ release next, o.rest? = some (.reply ticket release next)

/-- A move is made of sections, but for a caller who gives up the wait for an answer. -/
theorem Relates.move {o : Ongoing} (h : Conduct r) (ho : o.Relates r) (m : Move) (s : Session) :
    (o.move m s).1.Relates r ∧ (r s (o.move m s).2 ∨ ∃ ticket, m = .giveUp ∧ o.Expects ticket ∧
      r { s with exchange := s.exchange.abandon ticket } (o.move m s).2) := by
  unfold Ongoing.move
  split
  · exact ⟨ho, .inl (h.refl s)⟩
  · rename_i rest hrest
    have hcall := ho rest hrest
    cases m with
    | resume =>
      obtain ⟨hsections, hnext⟩ := hcall.advance h.refl h.trans s
      refine ⟨?_, .inl hsections⟩
      rintro _ ⟨⟩
      exact hnext
    | expire =>
      obtain ⟨hsections, hnext⟩ := hcall.expire.advance h.refl h.trans s
      refine ⟨?_, .inl hsections⟩
      rintro _ ⟨⟩
      exact hnext
    | giveUp =>
      dsimp only
      split
      · exact ⟨ho, .inl (h.refl s)⟩
      · refine ⟨by rintro _ ⟨⟩, ?_⟩
        rcases hcall.drop h.refl s with hsame | ⟨ticket, release, next, rfl, hrelease⟩
        · exact .inl hsame
        · exact .inr ⟨ticket, rfl, ⟨release, next, hrest⟩, hrelease⟩

end Ongoing

namespace Ensemble

/-- The operation whose call is made or goes on in a turn. -/
def actor? (e : Ensemble) : Turn → Option Operation
  | .call op => some op
  | .move i _ => e.calls[i]?.map Ongoing.op
  | .news _ => none

theorem relates_run (h : Conduct r) (config : Config) (turns : List Turn) :
    ∀ o ∈ (run config turns).calls, o.op.CoveredBy r → o.Relates r := by
  induction turns using List.reverseRecOn with
  | nil =>
    intro o ho
    cases ho
  | append_singleton turns t ih =>
    rw [run_snoc]
    refine forall_calls_turn (P := fun o => o.op.CoveredBy r → o.Relates r) ?_ ?_ ih t
    · intro op hop rest hrest
      cases hrest
      exact ((Operation.relates_call h hop).advance h.refl h.trans _).2
    · intro o ho m hop
      rw [Ongoing.op_move] at hop
      exact ((ho hop).move h m _).1

/-- A turn is made of the sections of one call, unless a caller gives up or the debugger acts. -/
theorem relates_turn (h : Conduct r) (config : Config) (turns : List Turn) {t : Turn}
    (hop : ∀ op, (run config turns).actor? t = some op → op.CoveredBy r)
    (hnews : ∀ n, t ≠ .news n) :
    r (run config turns).session ((run config turns).turn t).session ∨
      ∃ i o ticket, t = .move i .giveUp ∧ (run config turns).calls[i]? = some o ∧
        o.Expects ticket ∧ r { (run config turns).session with
          exchange := (run config turns).session.exchange.abandon ticket }
            ((run config turns).turn t).session := by
  cases t with
  | call op => exact .inl ((Operation.relates_call h (hop op rfl)).advance h.refl h.trans _).1
  | move i m =>
    cases hi : (run config turns).calls[i]? with
    | none =>
      rw [turn_move_none hi]
      exact .inl (h.refl _)
    | some o =>
      have ho := relates_run h config turns o (List.mem_of_getElem? hi)
        (hop o.op (by rw [actor?, hi]; rfl))
      rw [turn_move hi]
      rcases (ho.move h m (run config turns).session).2 with hsections | ⟨ticket, rfl, hwaits, hrest⟩
      · exact .inl hsections
      · exact .inr ⟨i, o, ticket, rfl, hi, hwaits, hrest⟩
  | news n => exact absurd rfl (hnews n)

/-- Where it makes no difference which answers are awaited, no caller who gives up is an exception. -/
theorem relates_turn_of_blind (h : Conduct r)
    (hblind : ∀ s u x, r { s with exchange := x } u → r s u) (config : Config) (turns : List Turn)
    {t : Turn} (hop : ∀ op, (run config turns).actor? t = some op → op.CoveredBy r)
    (hnews : ∀ n, t ≠ .news n) :
    r (run config turns).session ((run config turns).turn t).session := by
  rcases relates_turn h config turns hop hnews with hsections | ⟨i, o, ticket, -, -, -, hrest⟩
  · exact hsections
  · exact hblind _ _ _ hrest

end Ensemble

end MachineInterface

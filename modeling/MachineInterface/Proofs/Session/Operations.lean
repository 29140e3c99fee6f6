import MachineInterface.Proofs.Session.Deeds

/-!
# The deeds of the operations

Most operations write commands, wait for the answers and keep what these say. Only a few do more:
they launch the debugger, start the program, or change which breakpoints stand.

* `through_course`: which deeds each operation needs besides the plain ones.
-/

namespace MachineInterface

namespace Session

open CallM

variable {extra : Deed → Prop}

/-! ## Running the program -/

theorem through_setEntryBreakpoint (entry : String) : (setEntryBreakpoint entry).Through extra :=
  relates_discard (through_ask _)

theorem through_start (h : extra .markStarted) (stopAtEntry : Bool) :
    (start stopAtEntry).Through extra := by
  have hrest : ∀ command, (CallM.modify (·.emitLine .console "Running executable") >>= fun _ =>
      CallM.ask command >>= fun answer =>
        CallM.modify markStarted >>= fun _ => pure (saysRunning answer)).Through extra := by
    intro command
    refine relates_bind (relates_modify (does_emitLine _ _)) fun _ => ?_
    refine relates_bind (through_ask _) fun answer => ?_
    exact relates_bind (relates_modify (Does.of_extra h)) fun _ => relates_pure _
  unfold start
  refine relates_bind (through_read _) fun knowsOption => ?_
  dsimp only
  cases stopAtEntry && !knowsOption with
  | true => exact relates_bind (through_setEntryBreakpoint _) fun _ => hrest _
  | false => exact hrest _

theorem through_supportsReverse : supportsReverse.Through extra := by
  have hrest : ∀ features : List String, (CallM.modify (fun s =>
      { s with targetFeatures := some features }) >>= fun _ =>
        pure (features.contains "reverse")).Through extra := by
    intro features
    refine relates_bind (relates_modify fun s => ?_) fun _ => relates_pure _
    exact does_learn s.features (some features) s.registerNames s (.refl _)
  unfold supportsReverse
  refine relates_bind (through_read _) fun known => ?_
  split
  · exact relates_pure _
  · refine relates_bind (relates_attempt (through_ask _)) fun answer => ?_
    dsimp only
    split
    · exact relates_bind (relates_pure _) hrest
    · exact relates_bind (relates_pure _) hrest
    · exact relates_bind (relates_throw _) hrest

theorem through_move (motion : Motion) (backwards : Bool) :
    (move motion backwards).Through extra := by
  unfold move
  dsimp only
  split
  · refine relates_bind through_supportsReverse fun supported => ?_
    split
    · exact relates_bind (through_ask _) fun _ => relates_pure _
    · exact relates_throw _
  · exact relates_bind (through_ask _) fun _ => relates_pure _

theorem through_goto (file : Option String) (line : UInt32) : (goto file line).Through extra :=
  relates_bind (relates_discard (through_ask _)) fun _ =>
    relates_bind (through_ask _) fun _ => relates_pure _

theorem through_endWith (line : String) : (endWith line).Through extra := by
  have hending : ∀ patient, (ExceptT.lift (Call.ending patient .done) : CallM Bool).Through extra :=
    fun _ => relates_lift fun _ => trivial
  have hkill : ∀ s, Does extra s (killIfAlive s) := by
    intro s
    unfold killIfAlive
    split
    · exact Does.refl s
    · exact Does.plain (d := .requestKill) trivial s trivial
  unfold endWith
  refine relates_bind (through_write _) fun _ => relates_bind (hending _) fun ended => ?_
  split
  · exact relates_pure _
  · exact relates_bind (relates_modify hkill) fun _ => relates_discard (hending _)

/-! ## Bring-up -/

theorem through_bringUp (hconnect : extra .connect) (hready : extra .tellReady) (l : Launch) :
    (bringUp l).Through extra := by
  have hlearn : ∀ (features : List String) s, Does extra s { s with features } :=
    fun features s => does_learn features s.targetFeatures s.registerNames s (.refl _)
  unfold bringUp
  refine relates_bind (relates_locked (Does.of_extra hconnect)) fun _ => ?_
  refine relates_bind (through_read _) fun config => ?_
  refine relates_bind (relates_locked (does_issueAll _)) fun tickets => ?_
  split
  · refine relates_bind (relates_attempt (through_await _)) fun answer => ?_
    refine relates_bind (relates_modify (hlearn _)) fun _ => ?_
    refine relates_bind (relates_forM (fun _ => relates_discard (through_await _)) _) fun _ => ?_
    exact relates_modify (Does.of_extra hready)
  · exact relates_pure _

/-! ## Breakpoints -/

theorem through_setCondition (id : UInt32) (condition : Option String) :
    (setCondition id condition).Through extra := by
  unfold setCondition
  split
  · exact relates_discard (through_ask _)
  · exact relates_pure _

theorem through_setLogMessage (id : UInt32) (message : Option String) :
    (setLogMessage id message).Through extra := by
  have hregister : ∀ template s, Does extra s
      { s with logPoints := s.logPoints.register id template } :=
    fun template s => Does.plain (d := .register id template) trivial s trivial
  unfold setLogMessage
  split
  · dsimp only
    split
    · exact relates_modify (hregister _)
    · exact relates_bind (relates_discard (through_ask _)) fun _ => relates_modify (hregister _)
  · exact relates_pure _

theorem through_install (l : Location) (d : Descriptor) : (install l d).Through extra := by
  unfold install
  refine relates_bind (relates_modify (does_warnHits _)) fun _ => ?_
  refine relates_bind (through_ask _) fun answer => ?_
  refine relates_bind (relates_except _) fun breakpoint => ?_
  refine relates_bind (relates_attempt (through_setCondition _ _)) fun condition => ?_
  refine relates_bind (relates_attempt (through_setLogMessage _ _)) fun message => ?_
  split
  · exact relates_pure _
  · exact relates_pure _

theorem through_addBreakpoint {d : Descriptor}
    (hreserve : ∀ l, d.location = .ok l → extra (.reserve l))
    (hsettle : ∀ l outcome, d.location = .ok l → extra (.settle l outcome)) :
    (addBreakpoint d).Through extra := by
  unfold addBreakpoint
  cases hl : d.location with
  | error e => trivial
  | ok l =>
    refine relates_ok_bind.mpr ?_
    refine relates_bind (relates_lift (Call.relates_locked (Does.of_extra (hreserve l hl)))) ?_
    intro free
    split
    · refine relates_bind (relates_lift ?_) fun outcome => ?_
      · exact Call.relates_holding (r := Does extra) Does.trans (through_install l d)
          (Does.of_extra (hsettle l none hl))
      · refine relates_bind (relates_modify ?_) fun _ => relates_except _
        exact Does.of_extra (hsettle l (standing outcome) hl)
    · exact relates_pure _

theorem through_removeBreakpoint {d : Descriptor}
    (h : ∀ l id, d.location = .ok l → extra (.forget l id)) :
    (removeBreakpoint d).Through extra := by
  unfold removeBreakpoint
  cases hl : d.location with
  | error e => trivial
  | ok l =>
    refine relates_ok_bind.mpr ?_
    refine relates_bind (through_read _) fun breakpoint => ?_
    split
    · exact relates_pure _
    · refine relates_bind (through_ask _) fun answer => ?_
      split
      · exact relates_bind (relates_modify (Does.of_extra (h l _ hl))) fun _ => relates_pure _
      · exact relates_pure _

theorem through_issueDeletes (taken : List Breakpoint) : (issueDeletes taken).Through extra := by
  induction taken with
  | nil => exact relates_pure _
  | cons b taken ih =>
    refine relates_bind (relates_attempt (relates_locked (does_issue _ _))) fun written => ?_
    refine relates_bind ih fun others => ?_
    cases written with
    | ok ticket => exact relates_pure _
    | error e => exact relates_pure _

theorem through_awaitAll (tickets : List Nat) : (awaitAll tickets).Through extra := by
  induction tickets with
  | nil => exact relates_pure _
  | cons ticket tickets ih =>
    refine relates_bind (relates_attempt (through_await _)) fun answer => ?_
    refine relates_bind ih fun failure => ?_
    split
    · exact relates_pure _
    · exact relates_pure _

theorem through_clearBreakpoints {source : Option String} (h : extra (.takeSource source)) :
    (clearBreakpoints source).Through extra := by
  unfold clearBreakpoints
  refine relates_bind (relates_lift (Call.relates_locked (Does.of_extra h))) fun taken => ?_
  refine relates_bind (through_issueDeletes _) fun written => ?_
  refine relates_bind (through_awaitAll _) fun unanswered => ?_
  split
  · exact relates_throw _
  · exact relates_pure _

/-! ## Looking into the program -/

theorem through_threads : threads.Through extra := by
  unfold threads
  refine relates_bind (relates_attempt (through_ask _)) fun answer => ?_
  split
  · exact relates_pure _
  · split
    · exact relates_pure _
    · exact relates_throw _
  · exact relates_throw _

theorem through_stack (first count thread : UInt32) : (stack first count thread).Through extra := by
  unfold stack
  refine relates_bind ?_ fun depth => ?_
  · unfold stackDepth
    refine relates_bind (through_ask _) fun answer => relates_bind (relates_except _) fun text => ?_
    split
    · exact relates_pure _
    · exact relates_throw _
  · split
    · exact relates_pure _
    · exact relates_bind (through_ask _) fun _ => relates_pure _

theorem through_stackVariables (thread level : UInt32) :
    (stackVariables thread level).Through extra :=
  relates_bind (through_ask _) fun _ => relates_pure _

theorem through_nameRegisters : nameRegisters.Through extra := by
  have hlearn : ∀ names s, Does extra s { s with registerNames := some names } :=
    fun names s => does_learn s.features s.targetFeatures (some names) s (.refl _)
  unfold nameRegisters
  refine relates_bind (through_read _) fun known => ?_
  split
  · exact relates_pure _
  · refine relates_bind (through_ask _) fun answer => relates_bind (relates_except _) fun names => ?_
    exact relates_bind (relates_modify (hlearn _)) fun _ => relates_pure _

theorem through_registers : registers.Through extra :=
  relates_bind through_nameRegisters fun _ => relates_bind (through_ask _) fun _ =>
    relates_bind (relates_except _) fun _ => relates_pure _

theorem through_evaluate (expression : String) (thread level : UInt32) :
    (evaluate expression thread level).Through extra :=
  relates_bind (through_ask _) fun _ => relates_except _

theorem through_readMemory (reference : String) (offset : Int) (count : UInt64) :
    (readMemory reference offset count).Through extra := by
  unfold readMemory
  refine relates_bind (relates_except _) fun address => ?_
  split
  · exact relates_pure _
  · refine relates_bind (through_send _ _) fun answer => ?_
    split
    · exact relates_except _
    · split
      · exact relates_pure _
      · exact relates_throw _

theorem through_completions (text : String) : (completions text).Through extra :=
  relates_bind (through_send _ _) fun _ => relates_bind (relates_except _) fun _ => relates_pure _

/-! ## Variables -/

theorem through_createVariable (expression : String) (name : Option String)
    (thread level : UInt32) : (createVariable expression name thread level).Through extra := by
  unfold createVariable
  refine relates_bind (through_ask _) fun answer => ?_
  split
  · exact relates_pure _
  · exact relates_throw _

theorem does_registry {α : Type} {run : Session → α × Session}
    (h : ∀ s, ∃ registry, s.registry.Later registry ∧ (run s).2 = { s with registry })
    (s : Session) : Does extra s (run s).2 := by
  obtain ⟨registry, hlater, hrun⟩ := h s
  rw [hrun]
  exact does_learn s.features s.targetFeatures s.registerNames s hlater

theorem through_updateVariable (name : String) : (updateVariable name).Through extra :=
  relates_bind (through_ask _) fun _ =>
    relates_lift (Call.relates_locked (does_registry fun _ => ⟨_, .applyAll _ _, rfl⟩))

theorem through_listChildren (name : String) : (listChildren name).Through extra :=
  relates_bind (through_ask _) fun _ => relates_pure _

theorem through_memoryReference (o : VariableObject) : (memoryReference o).Through extra := by
  unfold memoryReference
  split
  · trivial
  · trivial
  · exact Call.relates_bind (through_evaluate _ _ _) fun _ => trivial

theorem through_describe (o : VariableObject) : (describe o).Through extra := by
  refine Call.relates_bind (through_memoryReference o) fun reference => ?_
  have htrack : ∀ s, Does extra s (track o s).2 :=
    does_registry fun _ => ⟨_, .serve _ (.track o), rfl⟩
  exact Call.relates_bind (Call.relates_locked htrack) fun _ => trivial

theorem through_refresh (name : String) : (refresh name).Through extra := by
  unfold refresh
  refine relates_bind (through_read _) fun known => ?_
  split
  · exact relates_pure _
  · refine relates_bind (relates_attempt (through_updateVariable _)) fun updated => ?_
    split
    · exact through_read _
    · split
      · exact relates_pure _
      · exact relates_throw _

theorem through_rowOfLocal (scope : Handle) (key : ScopeKey) (name : String) :
    (rowOfLocal scope key name).Through extra := by
  have hobject : (objectOfLocal scope key name).Through extra := by
    unfold objectOfLocal
    refine relates_bind (through_refresh _) fun known => ?_
    split
    · exact relates_pure _
    · exact relates_bind (through_createVariable _ _ _ _) fun _ => relates_pure _
  unfold rowOfLocal
  refine Call.relates_bind hobject fun object => ?_
  split
  · exact through_describe _
  · trivial

theorem through_expand (handle : Handle) : (expand handle).Through extra := by
  unfold expand
  refine relates_bind (through_read _) fun entry => ?_
  split
  · exact relates_pure _
  · unfold rowsOfScope
    split
    · exact relates_bind through_registers fun _ => relates_pure _
    · refine relates_bind (through_stackVariables _ _) fun locals => ?_
      exact relates_mapM (fun _ => relates_lift (through_rowOfLocal _ _ _)) _
  · refine relates_bind (through_listChildren _) fun children => ?_
    exact relates_mapM (fun _ => relates_lift (through_describe _)) _

end Session

/-! ## All operations -/

namespace Operation

open Session

/-- The deeds of an operation besides the plain ones. -/
def extra : Operation → Deed → Prop
  | bringUp _ | startLocal _ _ | startSsh _ _ _ => fun deed => deed = .connect ∨ deed = .tellReady
  | start _ => fun deed => deed = .markStarted
  | addBreakpoint d => fun deed =>
    ∃ l, d.location = .ok l ∧ (deed = .reserve l ∨ ∃ outcome, deed = .settle l outcome)
  | removeBreakpoint d => fun deed => ∃ l id, d.location = .ok l ∧ deed = .forget l id
  | clearBreakpoints source => fun deed => deed = .takeSource source
  | _ => fun _ => False

/-- None of these deeds learns anything. -/
theorem serves_of_extra {op : Operation} {d : Deed} (h : op.extra d) (s : Session) :
    d.Serves s := by
  cases op with
  | bringUp | startLocal | startSsh => rcases h with rfl | rfl <;> trivial
  | start =>
    obtain rfl := h
    trivial
  | addBreakpoint d' =>
    obtain ⟨l, -, rfl | ⟨outcome, rfl⟩⟩ := h
    · trivial
    · trivial
  | removeBreakpoint d' =>
    obtain ⟨l, id, -, rfl⟩ := h
    trivial
  | clearBreakpoints source =>
    obtain rfl := h
    trivial
  | _ => exact h.elim

theorem through_course (op : Operation) : op.course.Through op.extra := by
  cases op with
  | bringUp l => exact through_bringUp (.inl rfl) (.inr rfl) l
  | startLocal host l => exact through_bringUp (.inl rfl) (.inr rfl) l
  | startSsh host a l => exact through_bringUp (.inl rfl) (.inr rfl) l
  | start stopAtEntry =>
    have hstarted : (start stopAtEntry).extra .markStarted := rfl
    exact through_start hstarted stopAtEntry
  | setEntryBreakpoint entry => exact through_setEntryBreakpoint entry
  | supportsReverse => exact through_supportsReverse
  | move motion backwards => exact through_move motion backwards
  | interrupt => exact CallM.relates_bind (CallM.through_ask _) fun _ => CallM.relates_pure _
  | goto file line => exact through_goto file line
  | changeVariable name value => exact CallM.relates_discard (CallM.through_ask _)
  | stopDebugger => exact through_endWith _
  | detach => exact through_endWith _
  | addBreakpoint d =>
    exact through_addBreakpoint (fun l hl => ⟨l, hl, .inl rfl⟩)
      fun l outcome hl => ⟨l, hl, .inr ⟨outcome, rfl⟩⟩
  | removeBreakpoint d => exact through_removeBreakpoint fun l id hl => ⟨l, id, hl, rfl⟩
  | clearBreakpoints source => exact through_clearBreakpoints rfl
  | breakpoints => exact Call.through_read _
  | features => exact Call.through_read _
  | threads => exact through_threads
  | stack first count thread => exact through_stack first count thread
  | stackVariables thread level => exact through_stackVariables thread level
  | registers => exact through_registers
  | evaluate expression thread level => exact through_evaluate expression thread level
  | readMemory reference offset count => exact through_readMemory reference offset count
  | completions text => exact through_completions text
  | createVariable expression name thread level =>
    exact through_createVariable expression name thread level
  | updateVariable name => exact through_updateVariable name
  | listChildren name => exact through_listChildren name
  | assignVariable name expression =>
    exact CallM.relates_bind (CallM.through_ask _) fun _ => CallM.relates_except _
  | evaluateVariable name =>
    exact CallM.relates_bind (CallM.through_ask _) fun _ => CallM.relates_except _
  | memoryReference o => exact through_memoryReference o
  | scopes frame =>
    refine Call.relates_locked (does_registry fun _ => ⟨_, ?_, rfl⟩)
    exact (Registry.Later.serve _ (.scope _)).trans (.serve _ (.scope _))
  | expand handle => exact through_expand handle
  | send command tolerant => exact CallM.through_send command tolerant
  | sendInput text tolerant => exact CallM.through_send _ tolerant
  | sendUserInput text thread level => exact CallM.through_ask _
  | write line => exact CallM.through_write line

end Operation

end MachineInterface

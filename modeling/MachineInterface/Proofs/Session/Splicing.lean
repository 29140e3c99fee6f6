import MachineInterface.Proofs.Session.Tidy

/-!
# What becomes part of commands

The commands of each operation are made of fixed words, numbers and texts of the caller, of the
settings or of earlier answers. With tidy texts they stay in one line.

* `tidy_call`: every operation, one case for each.
* `tidy_run`: all that is written in a run.
-/

namespace MachineInterface

open Text

theorem Descriptor.Tidy.location {d : Descriptor} (h : d.Tidy) {l : Location}
    (hl : d.location = .ok l) : Unbroken l.text := by
  unfold Descriptor.location at hl
  split at hl
  · rename_i l' hl'
    cases hl
    unfold Descriptor.location? at hl'
    split at hl'
    · rename_i raw hraw
      cases hl'
      exact h.raw raw hraw
    · rename_i file line _ hfile _
      cases hl'
      exact h.file file hfile
    · cases hl'
  · cases hl

namespace Session

open CallM

/-- A text that is there and not empty is the one that was given. -/
theorem unbroken_nonEmpty {entry : Option String} (h : ∀ t ∈ entry, Unbroken t) {t : String}
    (ht : nonEmpty entry = some t) : Unbroken t :=
  h t (Option.filter_eq_some_iff.mp ht).1

/-! ## Bring-up -/

theorem tidy_optional {start : String} (hs : Unbroken start) {text : Option String}
    (h : ∀ t ∈ text, Unbroken t) : ∀ c ∈ Launch.optional start text, Unbroken c.1 := by
  intro c hc
  obtain ⟨_, hsome, rfl⟩ := Option.map_eq_some_iff.mp (Option.mem_toList.mp hc)
  exact unbroken_append.mpr ⟨hs, unbroken_nonEmpty h hsome⟩

theorem tidy_modeCommands {l : Launch} (h : l.Tidy) : ∀ c ∈ l.modeCommands, Unbroken c.1 := by
  have hcd : Unbroken "environment-cd " := by decide
  have hargs : Unbroken "exec-arguments " := by decide
  have htty : Unbroken "inferior-tty-set " := by decide
  have hselect : Unbroken "target-select " := by decide
  have hremote : Unbroken "target-select remote " := by decide
  have hattach : Unbroken "target-attach " := by decide
  have hcwd : Unbroken ("environment-cd " ++ Quote.quoted l.cwd) :=
    unbroken_append.mpr ⟨hcd, unbroken_quoted.mpr h.cwd⟩
  have hmode := h.mode
  unfold Launch.modeCommands
  cases hm : l.mode with
  | load target programArgs tty =>
    rw [hm] at hmode
    obtain ⟨-, hprogramArgs, htty'⟩ := hmode
    exact List.forall_mem_append.mpr
      ⟨tidy_optional hargs hprogramArgs, tidy_optional htty htty'⟩
  | attach target executable =>
    rw [hm] at hmode
    obtain ⟨htarget, hexecutable⟩ := hmode
    have hsymbols : ∀ command : String, Unbroken command →
        ∀ c ∈ ((nonEmpty executable).map fun path =>
          Launch.must (command ++ Quote.quoted (Target.join l.cwd path))).toList, Unbroken c.1 := by
      intro command hcommand c hc
      obtain ⟨path, hsome, rfl⟩ := Option.map_eq_some_iff.mp (Option.mem_toList.mp hc)
      have hpath := Target.unbroken_join h.cwd (unbroken_nonEmpty hexecutable hsome)
      exact unbroken_append.mpr ⟨hcommand, unbroken_quoted.mpr hpath⟩
    dsimp only
    split
    · refine List.forall_mem_cons.mpr ⟨unbroken_append.mpr ⟨hselect, htarget⟩, ?_⟩
      exact hsymbols _ (by decide)
    · refine List.forall_mem_append.mpr ⟨hsymbols _ (by decide), ?_⟩
      simpa [Launch.must] using And.intro hattach htarget
  | connect target executable =>
    rw [hm] at hmode
    have htarget : Unbroken target := hmode
    simpa [Launch.must] using And.intro hremote htarget
  | remoteLoad target programArgs =>
    rw [hm] at hmode
    exact List.forall_mem_cons.mpr ⟨hcwd, tidy_optional hargs hmode.2⟩
  | remoteAttach target =>
    rw [hm] at hmode
    have htarget : Unbroken target := hmode
    refine List.forall_mem_cons.mpr ⟨hcwd, ?_⟩
    simpa [Launch.must] using And.intro hattach htarget

theorem tidy_commonCommands {l : Launch} (h : l.Tidy) {config : DebuggerConfig}
    (hconfig : config.Tidy) : ∀ c ∈ l.commonCommands config, Unbroken c.1 := by
  have hdirectory : Unbroken "environment-directory " := by decide
  have hfile : Unbroken "file-exec-and-symbols " := by decide
  have hasync : Unbroken "gdb-set target-async on" := by decide
  have hfeatures : Unbroken "list-features" := by decide
  have hfilters : Unbroken "enable-frame-filters" := by decide
  have hsubstitute : Unbroken "gdb-set substitute-path " ∧ Unbroken " " := by decide
  have hsettings : Unbroken "settings append target.source-map " := by decide
  have hinterpreter : Unbroken "interpreter-exec console " := by decide
  have hsymbols : ∀ path, l.symbolFile = some path → Unbroken path := by
    intro path hpath
    have hmode := h.mode
    unfold Launch.symbolFile at hpath
    split at hpath
    · rename_i target _ _ hm
      cases hpath
      rw [hm] at hmode
      exact Target.unbroken_join h.cwd hmode.1
    · rename_i target _ hm
      cases hpath
      rw [hm] at hmode
      exact Target.unbroken_join h.cwd hmode.1
    · cases hpath
  have hmap : ∀ e ∈ config.sourceFileMap.entries,
      Unbroken (Launch.mapCommand config.flavor e) := by
    intro e he
    obtain ⟨hfrom, hto⟩ := hconfig.sourceFileMap e he
    unfold Launch.mapCommand
    split
    · simp only [unbroken_append, unbroken_quoted, hsubstitute, hfrom, hto, and_self]
    · simp only [unbroken_append, unbroken_quoted, hinterpreter, hsettings, hsubstitute, hfrom, hto,
        and_self]
  unfold Launch.commonCommands
  simp only [List.cons_append, List.forall_mem_cons, List.forall_mem_append, List.append_assoc]
  refine ⟨hasync, hfeatures, unbroken_append.mpr ⟨hdirectory, unbroken_quoted.mpr h.cwd⟩,
    ?_, ?_, ?_, ?_⟩
  · intro c hc
    obtain ⟨path, hpath, rfl⟩ := Option.map_eq_some_iff.mp (Option.mem_toList.mp hc)
    exact unbroken_append.mpr ⟨hfile, unbroken_quoted.mpr (hsymbols path hpath)⟩
  · split
    · simpa [Launch.must] using hfilters
    · simp
  · intro c hc
    obtain ⟨e, he, rfl⟩ := List.mem_map.mp hc
    exact hmap e he
  · intro c hc
    obtain ⟨setup, hsetup, rfl⟩ := List.mem_map.mp hc
    exact Command.unbroken_ofInput (hconfig.setupCommands setup hsetup)

theorem tidy_commands {l : Launch} (h : l.Tidy) {config : DebuggerConfig}
    (hconfig : config.Tidy) : ∀ c ∈ l.commands config, Unbroken c.1 := by
  unfold Launch.commands
  rw [List.forall_mem_append, List.forall_mem_append]
  refine ⟨⟨tidy_commonCommands h hconfig, tidy_modeCommands h⟩, ?_⟩
  intro c hc
  obtain ⟨line, hline, rfl⟩ := List.mem_map.mp hc
  exact Command.unbroken_userInput.mpr (h.autorun line hline)

theorem tidy_bringUp {l : Launch} (h : l.Tidy) : (bringUp l).Upholds tidy fun _ => True := by
  have hconnect : ∀ s : Session, s.Tidy → s.connect.2.Tidy := by
    intro s hs
    obtain ⟨link, hlink⟩ := exists_connect_eq s
    rw [hlink]
    exact hs.of_eq rfl
  have hread : CallM.Upholds tidy DebuggerConfig.Tidy (read (·.config.debugger)) :=
    upholds_read fun s hs => hs.config
  unfold bringUp
  refine upholds_bind (upholds_section hconnect) fun _ _ => ?_
  refine upholds_bind hread fun config hconfig => ?_
  refine upholds_bind (upholds_section fun s hs => hs.issueAll (tidy_commands h hconfig)) ?_
  intro tickets _
  split
  · refine upholds_bind (upholds_attempt (upholds_await _)) fun answer _ => ?_
    refine upholds_bind (tidy_modify fun _ => rfl) ?_
    intro _ _
    refine upholds_bind (upholds_forM (fun _ => upholds_discard (upholds_await _)) _) fun _ _ => ?_
    exact tidy_emit _
  · exact upholds_pure trivial

theorem tidy_bringUpStarted {l : Launch} (h : l.Tidy) (started : Except String Unit) :
    (bringUpStarted started l).Upholds tidy fun _ => True := by
  have hfailed : ∀ detail, ∀ s : Session, s.Tidy → (s.launchFailed detail).Tidy := by
    intro detail s hs
    have hbackdrop : (s.launchFailed detail).backdrop = s.backdrop := backdrop_onQuit _
    have hwording := congrArg wording hbackdrop
    exact hs.of_eq hwording
  unfold bringUpStarted
  cases started with
  | ok _ => exact tidy_bringUp h
  | error detail => exact upholds_bind (upholds_modify (hfailed detail)) fun _ _ => upholds_throw _

/-! ## Running the program -/

theorem tidy_setEntryBreakpoint {entry : String} (h : Unbroken entry) :
    (setEntryBreakpoint entry).Upholds tidy fun _ => True := by
  have hinsert : Unbroken "break-insert -t -f " := by decide
  exact upholds_discard (tidy_ask (unbroken_append.mpr ⟨hinsert, h⟩))

theorem tidy_start (stopAtEntry : Bool) : (start stopAtEntry).Upholds tidy fun _ => True := by
  have hmain : Unbroken "main" := by decide
  have hrun : Unbroken "exec-run --start" ∧ Unbroken "exec-run" := by decide
  have hstarted : (CallM.modify markStarted).Upholds tidy fun _ => True := by
    refine upholds_modify fun s hs => ?_
    unfold markStarted
    dsimp only
    split <;> exact hs.of_eq rfl
  have hrest : ∀ command, Unbroken command →
      CallM.Upholds tidy (fun _ => True)
        (CallM.modify (·.emitLine .console "Running executable") >>= fun _ =>
          CallM.ask command >>= fun answer =>
            CallM.modify markStarted >>= fun _ => pure (saysRunning answer)) := by
    intro command hcommand
    refine upholds_bind (tidy_emit _) fun _ _ => ?_
    refine upholds_bind (tidy_ask hcommand) fun answer _ => ?_
    exact upholds_bind hstarted fun _ _ => upholds_pure trivial
  unfold start
  refine upholds_bind (upholds_look _) fun known _ => ?_
  have hcommand : Unbroken (if stopAtEntry && known then "exec-run --start" else "exec-run") := by
    split
    · exact hrun.1
    · exact hrun.2
  dsimp only
  cases stopAtEntry && !known with
  | true => exact upholds_bind (tidy_setEntryBreakpoint hmain) fun _ _ => hrest _ hcommand
  | false => exact hrest _ hcommand

theorem tidy_supportsReverse : supportsReverse.Upholds tidy fun _ => True := by
  have hlist : Unbroken "list-target-features" := by decide
  have hrest : ∀ features : List String, True → CallM.Upholds tidy (fun _ => True)
      (CallM.modify (fun s => { s with targetFeatures := some features }) >>= fun _ =>
        pure (features.contains "reverse")) := by
    intro features _
    refine upholds_bind (tidy_modify fun _ => rfl) ?_
    exact fun _ _ => upholds_pure trivial
  unfold supportsReverse
  refine upholds_bind (upholds_look _) fun known _ => ?_
  split
  · exact upholds_pure trivial
  · refine upholds_bind (upholds_attempt (tidy_ask hlist)) fun answer _ => ?_
    dsimp only
    split
    · exact upholds_bind (upholds_pure trivial) hrest
    · exact upholds_bind (upholds_pure trivial) hrest
    · exact upholds_bind (upholds_throw _) hrest

theorem tidy_move (motion : Motion) (backwards : Bool) :
    (move motion backwards).Upholds tidy fun _ => True := by
  have hcommand : Unbroken motion.command := by cases motion <;> decide
  have hreverse : Unbroken " --reverse" := by decide
  unfold move
  dsimp only
  split
  · refine upholds_bind tidy_supportsReverse fun supported _ => ?_
    split
    · exact upholds_bind (tidy_ask (unbroken_append.mpr ⟨hcommand, hreverse⟩))
        fun _ _ => upholds_pure trivial
    · exact upholds_throw _
  · exact upholds_bind (tidy_ask hcommand) fun _ _ => upholds_pure trivial

theorem tidy_goto {file : Option String} (h : ∀ t ∈ file, Unbroken t) (line : UInt32) :
    (goto file line).Upholds tidy fun _ => True := by
  have hparts : Unbroken "break-insert -t " ∧ Unbroken "exec-jump " ∧ Unbroken "\"" := by
    decide
  have hgo : ∀ place, Unbroken place → CallM.Upholds tidy (fun _ => True)
      (discard (CallM.ask ("break-insert -t " ++ place)) >>= fun _ =>
        CallM.ask ("exec-jump " ++ place) >>= fun answer => pure (saysRunning answer)) := by
    intro place hplace
    refine upholds_bind (upholds_discard (tidy_ask (unbroken_append.mpr ⟨hparts.1, hplace⟩))) ?_
    intro _ _
    exact upholds_bind (tidy_ask (unbroken_append.mpr ⟨hparts.2.1, hplace⟩))
      fun _ _ => upholds_pure trivial
  unfold goto
  dsimp only
  split
  · rename_i text htext
    exact hgo _ (Location.unbroken_argument.mpr (unbroken_nonEmpty h htext))
  · exact hgo _ (by simp [hparts])

theorem tidy_changeVariable {name value : String} (hname : Unbroken name)
    (hvalue : Unbroken value) : (changeVariable name value).Upholds tidy fun _ => True := by
  have hparts : Unbroken "gdb-set var " ∧ Unbroken "=" := by decide
  exact upholds_discard (tidy_ask (by simp [hparts, hname, hvalue]))

theorem tidy_endWith {line : String} (h : Unbroken line) :
    (endWith line).Upholds tidy fun _ => True := by
  have hending : ∀ patient, CallM.Upholds tidy (fun _ => True)
      (ExceptT.lift (Call.ending patient .done)) :=
    fun _ => upholds_lift fun _ => trivial
  unfold endWith
  refine upholds_bind (tidy_write h) fun _ _ => upholds_bind (hending _) fun ended _ => ?_
  split
  · exact upholds_pure trivial
  · have hwording : ∀ s : Session, (killIfAlive s).wording = s.wording := by
      intro s
      unfold killIfAlive
      split <;> rfl
    exact upholds_bind (tidy_modify hwording) fun _ _ => upholds_discard (hending _)

/-! ## Breakpoints -/

theorem tidy_install {l : Location} (hl : Unbroken l.text) {d : Descriptor} (hd : d.Tidy) :
    (install l d).Upholds tidy fun _ => True := by
  have hwarn : (CallM.modify (warnHits d.hitPolicy?)).Upholds tidy fun _ => True := by
    refine upholds_modify fun s hs => ?_
    unfold warnHits
    split
    · exact hs.of_eq rfl
    · exact hs
  have hcondition : ∀ id, (setCondition id d.condition).Upholds tidy fun _ => True := by
    have hparts : Unbroken "break-condition " ∧ Unbroken " " := by decide
    intro id
    unfold setCondition
    split
    · rename_i c hc
      have hc' := unbroken_nonEmpty hd.condition hc
      exact upholds_discard (tidy_ask (by simp [hparts, hc']))
    · exact upholds_pure trivial
  have hmessage : ∀ id, (setLogMessage id d.logMessage).Upholds tidy fun _ => True := by
    intro id
    have hregister : ∀ template, (CallM.modify fun s =>
        { s with logPoints := s.logPoints.register id template }).Upholds tidy fun _ => True :=
      fun _ => tidy_modify fun _ => rfl
    unfold setLogMessage
    split
    · rename_i m _
      dsimp only
      split
      · exact hregister _
      · refine upholds_bind (upholds_discard (tidy_ask ?_)) fun _ _ => hregister _
        exact LogTemplate.unbroken_breakCommands m id
    · exact upholds_pure trivial
  unfold install
  refine upholds_bind hwarn fun _ _ => ?_
  refine upholds_bind (tidy_ask (unbroken_insertCommand.mpr hl)) fun answer _ => ?_
  refine upholds_bind (upholds_result _) fun breakpoint _ => ?_
  refine upholds_bind (upholds_attempt (hcondition _)) fun condition _ => ?_
  refine upholds_bind (upholds_attempt (hmessage _)) fun message _ => ?_
  split
  · exact upholds_pure trivial
  · exact upholds_pure trivial

theorem tidy_addBreakpoint {d : Descriptor} (h : d.Tidy) :
    (addBreakpoint d).Upholds tidy fun _ => True := by
  have hreserve : ∀ l, ∀ s : Session, s.Tidy → (s.reserve l).2.Tidy := by
    intro l s hs
    obtain ⟨board, hboard⟩ := exists_reserve_eq s l
    rw [hboard]
    exact hs.of_eq rfl
  have hsettle : ∀ l outcome, ∀ s : Session, s.Tidy → (s.settle l outcome).Tidy :=
    fun l outcome s hs => hs.of_eq rfl
  have hlocation : CallM.Upholds tidy (fun l : Location => Unbroken l.text) (liftM d.location) :=
    upholds_except fun l => h.location
  unfold addBreakpoint
  refine upholds_bind hlocation fun l hl => ?_
  refine upholds_bind (upholds_lift_section (hreserve l)) fun free _ => ?_
  split
  · refine upholds_bind (upholds_lift
      (Call.upholds_holding (tidy_install hl h) (hsettle l none))) fun outcome _ => ?_
    refine upholds_bind (upholds_modify (hsettle l _)) fun _ _ => ?_
    exact upholds_result _
  · exact upholds_pure trivial

theorem unbroken_deleteCommand (id : UInt32) : Unbroken (deleteCommand id) := by
  have hdelete : Unbroken "break-delete " := by decide
  simp [deleteCommand, hdelete]

theorem tidy_removeBreakpoint (d : Descriptor) :
    (removeBreakpoint d).Upholds tidy fun _ => True := by
  unfold removeBreakpoint
  refine upholds_bind (upholds_result _) fun l _ => ?_
  refine upholds_bind (upholds_look _) fun found _ => ?_
  split
  · exact upholds_pure trivial
  · refine upholds_bind (tidy_ask (unbroken_deleteCommand _)) fun answer _ => ?_
    split
    · refine upholds_bind (tidy_modify fun _ => rfl) ?_
      exact fun _ _ => upholds_pure trivial
    · exact upholds_pure trivial

theorem tidy_issueDeletes (taken : List Breakpoint) :
    (issueDeletes taken).Upholds tidy fun _ => True := by
  have hissue : ∀ id, (CallM.locked (issue (deleteCommand id) false)).Upholds tidy fun _ => True :=
    fun id => upholds_locked
      fun s hs => ⟨Tidy.issue hs (unbroken_deleteCommand id) false, fun _ _ => trivial⟩
  induction taken with
  | nil => exact upholds_pure trivial
  | cons b taken ih =>
    refine upholds_bind (upholds_attempt (hissue b.id)) fun written _ => ?_
    refine upholds_bind ih fun others _ => ?_
    cases written with
    | ok ticket => exact upholds_pure trivial
    | error e => exact upholds_pure trivial

theorem tidy_awaitAll (tickets : List Nat) : (awaitAll tickets).Upholds tidy fun _ => True := by
  induction tickets with
  | nil => exact upholds_pure trivial
  | cons ticket tickets ih =>
    refine upholds_bind (upholds_attempt (upholds_await _)) fun answer _ => ?_
    refine upholds_bind ih fun failure _ => ?_
    split
    · exact upholds_pure trivial
    · exact upholds_pure trivial

theorem tidy_clearBreakpoints (source : Option String) :
    (clearBreakpoints source).Upholds tidy fun _ => True := by
  unfold clearBreakpoints
  have htake : ∀ s : Session, s.Tidy → (s.takeSource source).2.Tidy :=
    fun s hs => hs.of_eq rfl
  refine upholds_bind (upholds_lift_section htake) fun taken _ => ?_
  refine upholds_bind (tidy_issueDeletes _) fun written _ => ?_
  refine upholds_bind (tidy_awaitAll _) fun unanswered _ => ?_
  split
  · exact upholds_throw _
  · exact upholds_pure trivial

/-! ## Looking into the program -/

theorem tidy_threads : threads.Upholds tidy fun _ => True := by
  have hinfo : Unbroken "thread-info" := by decide
  unfold threads
  refine upholds_bind (upholds_attempt (tidy_ask hinfo)) fun answer _ => ?_
  split
  · exact upholds_pure trivial
  · split
    · exact upholds_pure trivial
    · exact upholds_throw _
  · exact upholds_throw _

theorem unbroken_threadCommand {command : String} (h : Unbroken command) (thread : UInt32) :
    Unbroken (threadCommand command thread) := by
  have hthread : Unbroken " --thread " := by decide
  unfold threadCommand
  split
  · exact h
  · simp [h, hthread]

theorem tidy_stack (first count thread : UInt32) :
    (stack first count thread).Upholds tidy fun _ => True := by
  have hdepth : Unbroken "stack-info-depth" := by decide
  have hframes : Unbroken "stack-list-frames" ∧ Unbroken " " := by decide
  have hask := unbroken_threadCommand hdepth thread
  have hlist := unbroken_threadCommand hframes.1 thread
  have hcount : (stackDepth thread).Upholds tidy fun _ => True := by
    unfold stackDepth
    refine upholds_bind (tidy_ask hask) fun answer _ => upholds_bind (upholds_result _) ?_
    intro text _
    split
    · exact upholds_pure trivial
    · exact upholds_throw _
  unfold stack
  refine upholds_bind hcount fun depth _ => ?_
  split
  · exact upholds_pure trivial
  · refine upholds_bind (tidy_ask ?_) fun _ _ => upholds_pure trivial
    simp [hlist, hframes]

theorem tidy_stackVariables (thread level : UInt32) :
    (stackVariables thread level).Upholds tidy fun vs => ∀ v ∈ vs, Unbroken v.name := by
  have hparts : Unbroken "stack-list-variables --thread " ∧ Unbroken " --frame " ∧
      Unbroken " --simple-values" := by decide
  refine upholds_bind (tidy_ask (by simp [hparts])) fun answer hanswer => upholds_pure ?_
  intro v hv
  obtain ⟨entry, hentry, hvalue⟩ := List.mem_filterMap.mp hv
  obtain ⟨name, hname, rfl⟩ := Option.map_eq_some_iff.mp hvalue
  exact hanswer.element hentry name (Value.lookupText?_mem_texts hname)

theorem tidy_registers : registers.Upholds tidy fun _ => True := by
  have hnames : Unbroken "data-list-register-names" ∧ Unbroken "data-list-register-values N" := by
    decide
  have hname : nameRegisters.Upholds tidy fun _ => True := by
    unfold nameRegisters
    refine upholds_bind (upholds_look _) fun known _ => ?_
    split
    · exact upholds_pure trivial
    · refine upholds_bind (tidy_ask hnames.1) fun answer _ => ?_
      refine upholds_bind (upholds_result _) fun _ _ => ?_
      refine upholds_bind (tidy_modify fun _ => rfl) ?_
      exact fun _ _ => upholds_pure trivial
  refine upholds_bind hname fun _ _ => upholds_bind (tidy_ask hnames.2) fun _ _ => ?_
  exact upholds_bind (upholds_result _) fun _ _ => upholds_pure trivial

theorem tidy_evaluate {expression : String} (h : Unbroken expression) (thread level : UInt32) :
    (evaluate expression thread level).Upholds tidy fun _ => True := by
  have hevaluate : Unbroken "data-evaluate-expression " := by decide
  exact upholds_bind (tidy_ask (by simp [hevaluate, h])) fun _ _ =>
    upholds_result _

theorem tidy_readMemory (reference : String) (offset : Int) (count : UInt64) :
    (readMemory reference offset count).Upholds tidy fun _ => True := by
  unfold readMemory
  refine upholds_bind (upholds_result _) fun address _ => ?_
  split
  · exact upholds_pure trivial
  · refine upholds_bind (tidy_send (Address.unbroken_readCommand _ _) _) fun answer _ => ?_
    split
    · exact upholds_result _
    · split
      · exact upholds_pure trivial
      · exact upholds_throw _

theorem tidy_completions {text : String} (h : Unbroken text) :
    (completions text).Upholds tidy fun _ => True := by
  have hcomplete : Unbroken "complete " := by decide
  refine upholds_bind (tidy_send (by simp [hcomplete, h]) _) fun _ _ => ?_
  exact upholds_bind (upholds_result _) fun _ _ => upholds_pure trivial

/-! ## Variables -/

theorem tidy_createVariable {expression : String} (he : Unbroken expression) {name : Option String}
    (hn : ∀ t ∈ name, Unbroken t) (thread level : UInt32) :
    (createVariable expression name thread level).Upholds tidy VariableObject.Tidy := by
  have hparts : Unbroken "var-create " ∧ Unbroken " @ " := by decide
  have hname : Unbroken (name.getD "-") := by
    cases name with
    | none => decide
    | some name => exact hn name rfl
  unfold createVariable
  refine upholds_bind (tidy_ask (by simp [hparts, hname, he])) fun answer hanswer => ?_
  split
  · rename_i object hobject
    have htexts : ∀ t ∈ (Value.tuple answer.fields).texts, Unbroken t := by
      rw [Value.texts]
      exact hanswer
    exact upholds_pure (VariableObject.tidy_of_ofValue? htexts hobject)
  · exact upholds_throw _

theorem tidy_updateVariable {name : String} (h : Unbroken name) :
    (updateVariable name).Upholds tidy fun _ => True := by
  have hupdate : Unbroken "var-update --all-values " := by decide
  refine upholds_bind (tidy_ask (by simp [hupdate, h])) fun answer _ => ?_
  exact upholds_lift (Call.upholds_locked
    fun s hs => ⟨Tidy.withRegistry hs (hs.registry.applyAll _), trivial⟩)

theorem tidy_listChildren {name : String} (h : Unbroken name) :
    (listChildren name).Upholds tidy fun os => ∀ o ∈ os, o.Tidy := by
  have hlist : Unbroken "var-list-children --all-values " := by decide
  refine upholds_bind (tidy_ask (by simp [hlist, h])) fun answer hanswer => upholds_pure ?_
  intro o ho
  obtain ⟨entry, hentry, hobject⟩ := List.mem_filterMap.mp ho
  exact VariableObject.tidy_of_ofValue? (hanswer.element hentry) hobject

theorem tidy_assignVariable {name expression : String} (hn : Unbroken name)
    (he : Unbroken expression) : (assignVariable name expression).Upholds tidy fun _ => True := by
  have hparts : Unbroken "var-assign " ∧ Unbroken " " := by decide
  exact upholds_bind (tidy_ask (by simp [hparts, hn, he])) fun _ _ =>
    upholds_result _

theorem tidy_evaluateVariable {name : String} (h : Unbroken name) :
    (evaluateVariable name).Upholds tidy fun _ => True := by
  have hevaluate : Unbroken "var-evaluate-expression " := by decide
  exact upholds_bind (tidy_ask (by simp [hevaluate, h])) fun _ _ =>
    upholds_result _

theorem tidy_memoryReference {o : VariableObject} (h : o.Tidy) :
    (memoryReference o).Upholds tidy fun _ => True := by
  have haddress : Unbroken "&(" ∧ Unbroken ")" := by decide
  unfold memoryReference
  split
  · trivial
  · trivial
  · rename_i expression hhint
    have hexpression : expression = "&(" ++ o.expression ++ ")" := by
      unfold VariableObject.memoryHint at hhint
      dsimp only at hhint
      repeat' split at hhint
      all_goals cases hhint
      rfl
    have hunbroken : Unbroken expression := by
      simp [hexpression, haddress, h.expression]
    exact Call.upholds_bind (tidy_evaluate hunbroken 0 0) fun _ _ => trivial

theorem tidy_describe {o : VariableObject} (h : o.Tidy) :
    (describe o).Upholds tidy fun _ => True := by
  refine Call.upholds_bind (tidy_memoryReference h) fun reference _ => ?_
  have htrack : ∀ s : Session, s.Tidy → (track o s).2.Tidy :=
    fun s hs => hs.withRegistry (hs.registry.track h)
  exact Call.upholds_bind (Call.upholds_section htrack) fun _ _ => trivial

theorem tidy_refresh {name : String} (h : Unbroken name) :
    (refresh name).Upholds tidy fun found => ∀ o, found = some o → o.Tidy := by
  unfold refresh
  refine upholds_bind (upholds_look _) fun known _ => ?_
  split
  · refine upholds_pure ?_
    rintro o ⟨⟩
  · refine upholds_bind (upholds_attempt (tidy_updateVariable h)) fun updated _ => ?_
    split
    · exact upholds_read fun s hs o ho => hs.registry.byName? ho
    · split
      · refine upholds_pure ?_
        rintro o ⟨⟩
      · exact upholds_throw _

theorem tidy_rowOfLocal (scope : Handle) (key : ScopeKey) {name : String} (h : Unbroken name) :
    (rowOfLocal scope key name).Upholds tidy fun _ => True := by
  have hparts : Unbroken "var_" ∧ Unbroken "_" := by decide
  have hname : Unbroken (objectName scope name) := by simp [objectName, hparts, h]
  have hobject : (objectOfLocal scope key name).Upholds tidy VariableObject.Tidy := by
    unfold objectOfLocal
    refine upholds_bind (tidy_refresh hname) fun known hknown => ?_
    split
    · exact upholds_pure (hknown _ rfl)
    · have hgiven : ∀ t ∈ some (objectName scope name), Unbroken t := by
        rintro _ ⟨⟩
        exact hname
      have hcreate := tidy_createVariable h hgiven key.thread key.level
      exact upholds_bind hcreate fun o ho => upholds_pure ⟨ho.name, h⟩
  unfold rowOfLocal
  refine Call.upholds_bind hobject fun object ho => ?_
  split
  · exact tidy_describe (ho _ rfl)
  · trivial

theorem tidy_expand (handle : Handle) : (expand handle).Upholds tidy fun _ => True := by
  unfold expand
  have hread : (CallM.read (·.registry.entry? handle)).Upholds tidy fun entry =>
      ∀ o, entry = some (.object o) → o.Tidy :=
    upholds_read fun s hs o ho => Tidy.registry hs handle o ho
  refine upholds_bind hread fun entry hentry => ?_
  split
  · exact upholds_pure trivial
  · unfold rowsOfScope
    split
    · exact upholds_bind tidy_registers fun _ _ => upholds_pure trivial
    · refine upholds_bind (tidy_stackVariables _ _) fun locals hlocals => ?_
      exact (upholds_mapM (fun v hv => upholds_lift (tidy_rowOfLocal _ _ hv)) hlocals).mono
        fun _ _ => trivial
  · have hobject := hentry _ rfl
    refine upholds_bind (tidy_listChildren hobject.name) fun children hchildren => ?_
    exact (upholds_mapM (fun o ho => upholds_lift (tidy_describe ho)) hchildren).mono
      fun _ _ => trivial

theorem tidy_scopes (frame : FrameId) :
    (Call.locked (scopes frame)).Upholds tidy fun _ => True :=
  Call.upholds_locked fun _ hs =>
    ⟨Tidy.withRegistry hs ((hs.registry.scopeHandle _).scopeHandle _), trivial⟩

end Session

/-! ## All operations -/

namespace Operation

open Session

/-- With tidy texts every operation keeps its session tidy, as long as the answers are tidy. -/
theorem tidy_call {op : Operation} (h : op.Tidy) : op.call.Upholds tidy fun _ => True := by
  have hlift : ∀ {α : Type} {c : CallM α}, c.Upholds tidy (fun _ => True) →
      Call.Upholds tidy (fun _ => True) c.run := fun h => Call.Upholds.mono h fun _ _ => trivial
  have hexit : Unbroken "-gdb-exit" ∧ Unbroken "-target-detach" := by decide
  have hinterrupt : Unbroken "exec-interrupt" := by decide
  cases op with
  | bringUp l => exact hlift (tidy_bringUp h)
  | startLocal host l =>
    exact hlift (CallM.upholds_bind (CallM.upholds_look _) fun _ _ => tidy_bringUpStarted h _)
  | startSsh host a l => exact hlift (tidy_bringUpStarted h _)
  | start stopAtEntry => exact hlift (tidy_start stopAtEntry)
  | setEntryBreakpoint entry => exact hlift (tidy_setEntryBreakpoint h)
  | supportsReverse => exact hlift tidy_supportsReverse
  | move motion backwards => exact hlift (tidy_move motion backwards)
  | interrupt =>
    exact hlift (CallM.upholds_bind (tidy_ask hinterrupt) fun _ _ => CallM.upholds_pure trivial)
  | goto file line => exact hlift (tidy_goto h line)
  | changeVariable name value => exact hlift (tidy_changeVariable h.1 h.2)
  | stopDebugger => exact hlift (tidy_endWith hexit.1)
  | detach => exact hlift (tidy_endWith hexit.2)
  | addBreakpoint d => exact hlift (tidy_addBreakpoint h)
  | removeBreakpoint d => exact hlift (tidy_removeBreakpoint d)
  | clearBreakpoints source => exact hlift (tidy_clearBreakpoints source)
  | breakpoints => exact Call.upholds_read fun _ _ => trivial
  | features => exact Call.upholds_read fun _ _ => trivial
  | threads => exact hlift tidy_threads
  | stack first count thread => exact hlift (tidy_stack first count thread)
  | stackVariables thread level =>
    exact hlift ((tidy_stackVariables thread level).mono fun _ _ => trivial)
  | registers => exact hlift tidy_registers
  | evaluate expression thread level => exact hlift (tidy_evaluate h thread level)
  | readMemory reference offset count => exact hlift (tidy_readMemory reference offset count)
  | completions text => exact hlift (tidy_completions h)
  | createVariable expression name thread level =>
    exact hlift ((tidy_createVariable h.1 h.2 thread level).mono fun _ _ => trivial)
  | updateVariable name => exact hlift (tidy_updateVariable h)
  | listChildren name => exact hlift ((tidy_listChildren h).mono fun _ _ => trivial)
  | assignVariable name expression => exact hlift (tidy_assignVariable h.1 h.2)
  | evaluateVariable name => exact hlift (tidy_evaluateVariable h)
  | memoryReference o => exact tidy_memoryReference h
  | scopes frame => exact tidy_scopes frame
  | expand handle => exact hlift (tidy_expand handle)
  | send command tolerant => exact hlift ((tidy_send h tolerant).mono fun _ _ => trivial)
  | sendInput text tolerant =>
    exact hlift ((tidy_send (Command.unbroken_ofInput h) tolerant).mono fun _ _ => trivial)
  | sendUserInput text thread level =>
    exact hlift ((tidy_ask (Command.unbroken_userInput.mpr h)).mono fun _ _ => trivial)
  | write line => exact hlift (tidy_write h)

end Operation

/-! ## Runs -/

namespace Session

/-- What the debugger does leaves what was written alone, and may bring answers. -/
theorem Tidy.news {s : Session} (h : s.Tidy) (n : News)
    (hanswers : ∀ c ∈ (n.apply s).exchange.completions, TidyReply c.reply) :
    (n.apply s).Tidy := by
  have hsame : (n.apply s).config = s.config ∧ (n.apply s).registry = s.registry := by
    cases n with
    | hear chunk =>
      have hconfig := congrArg Session.config (held_receive s chunk)
      have hregistry := congrArg Session.registry (held_receive s chunk)
      exact ⟨hconfig, hregistry⟩
    | leave =>
      have hconfig := congrArg Session.config (held_finish s)
      have hregistry := congrArg Session.registry (held_finish s)
      exact ⟨hconfig, hregistry⟩
    | deafen =>
      obtain ⟨link, hdeafen⟩ := exists_deafen_eq s
      rw [News.apply, hdeafen]
      exact ⟨rfl, rfl⟩
    | _ => exact ⟨rfl, rfl⟩
  exact ⟨hsame.1 ▸ h.config, hsame.2 ▸ h.registry, hanswers, outbox_news s n ▸ h.outbox⟩

end Session

namespace Ensemble

/-- With tidy settings, texts and answers, all that is written in a run is in lines of its own. -/
theorem tidy_run {config : Config} (hconfig : config.debugger.Tidy) {turns : List Turn}
    (hops : ∀ op, .call op ∈ turns → op.Tidy)
    (hanswers : ∀ c ∈ (run config turns).session.exchange.completions, TidyReply c.reply) :
    (run config turns).session.Tidy ∧
      ∀ o ∈ (run config turns).calls, o.Upholds Session.tidy := by
  induction turns using List.reverseRecOn with
  | nil =>
    refine ⟨⟨hconfig, ?_, hanswers, fun o ho => by cases ho⟩, fun o ho => by cases ho⟩
    rintro handle o ⟨⟩
  | append_singleton turns t ih =>
    rw [run_snoc] at hanswers ⊢
    -- Answers are never taken back, so those before the turn are tidy as well.
    have hbefore : ∀ c ∈ (run config turns).session.exchange.completions, TidyReply c.reply :=
      fun c hc => hanswers c (((Proper.run config turns).grows_turn t).answers.subset hc)
    obtain ⟨hsession, hcalls⟩ := ih (fun op hop => hops op (List.mem_append_left _ hop)) hbefore
    refine upholds_turn hsession hcalls ?_ ?_
    · rintro op rfl
      have hop := hops op (List.mem_append_right _ (List.mem_singleton_self _))
      exact Operation.tidy_call hop
    · rintro n rfl hc
      rw [turn_news hc] at hanswers
      exact hsession.news n hanswers

end Ensemble

end MachineInterface

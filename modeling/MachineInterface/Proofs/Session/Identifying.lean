import MachineInterface.Proofs.Session.Refusing
import MachineInterface.Proofs.Session.Scoping
import MachineInterface.Proofs.Variable.Locals

/-!
# Frames by the handles of their scopes

A front end names a frame by one number and gets handles for the scopes of the frame. Whatever else
happens to the session, a handle goes on to stand for one scope, and the expansion of the scope asks
for what this says.

* `Ensemble.later_run`: the registry of a run serves requests and nothing else.
* `Given.represents`: a handle that was given for a scope stands for it from then on, and the
  expansion asks for the locals in the frame of the scope.
* `scopes_of_frames`: which thread and level a scope carries that was given for a frame, and which
  frames share it.
* `deep_frame_shared`: a level past the lower half gets the scopes of another frame.
-/

namespace MachineInterface

/-! ## Registries -/

namespace Registry

variable {r r' : Registry} {key other : ScopeKey} {h : Handle} {requests : List Request}

theorem scopes_scopeHandle (r : Registry) (key : ScopeKey) :
    (r.scopeHandle key).2.scopes.get? key = some (r.scopeHandle key).1 := by
  cases hget : r.scopes.get? key with
  | some handle => simp [scopeHandle, hget]
  | none => simp [scopeHandle, hget, Table.get?_insert]

/-- No request takes the handle of a scope away. -/
theorem scopes_serve (hget : r.scopes.get? key = some h) (a : Request) :
    (r.serve a).2.scopes.get? key = some h := by
  cases a with
  | scope other =>
    change (r.scopeHandle other).2.scopes.get? key = some h
    cases hother : r.scopes.get? other with
    | some handle => simpa [scopeHandle, hother] using hget
    | none =>
      have hne : other ≠ key := by
        rintro rfl
        cases hother.symm.trans hget
      simpa [scopeHandle, hother, allocate, Table.get?_insert, hne] using hget
  | track o =>
    change (r.track o).2.scopes.get? key = some h
    unfold track
    split <;> exact hget
  | change c =>
    change (r.apply c).2.scopes.get? key = some h
    unfold apply
    split
    · exact hget
    · split <;> exact hget

theorem Later.scopes (hlater : r.Later r') (hget : r.scopes.get? key = some h) :
    r'.scopes.get? key = some h := by
  obtain ⟨requests, rfl⟩ := hlater
  induction requests generalizing r with
  | nil => exact hget
  | cons a requests ih => exact ih (scopes_serve hget a)

theorem size_le_serve (r : Registry) (a : Request) : r.size ≤ (r.serve a).2.size := by
  cases a with
  | scope key => exact size_le_scopeHandle r key
  | track o => exact size_le_track r o
  | change c => exact size_le_apply r c

/-- A registry with room has had room for all its requests. -/
theorem numbers_of_room (hroom : (serveAll {} requests).2.size < capacity) :
    Numbers requests (serveAll {} requests).2 ∧ (keys requests).length < capacity := by
  induction requests using List.reverseRecOn with
  | nil => exact ⟨Numbers.empty, by decide⟩
  | append_singleton requests a ih =>
    rw [serveAll_concat] at hroom ⊢
    obtain ⟨hnumbers, hkeys⟩ := ih (Nat.lt_of_le_of_lt (size_le_serve _ a) hroom)
    have hmore := hnumbers.room_serve hkeys hroom
    exact ⟨(hnumbers.serve a hmore).2, hmore⟩

/-- As long as there is room, a handle stands for its scope and for no other one. -/
theorem scopes_of_room (hlater : Later {} r) (hroom : r.size < capacity)
    (hget : r.scopes.get? key = some h) : r.entry? h = some (.scope key) := by
  obtain ⟨requests, rfl⟩ := hlater
  obtain ⟨hnumbers, -⟩ := numbers_of_room hroom
  have hgiven := (hnumbers.scopes key).symm.trans hget
  rw [handleOf?] at hgiven
  split at hgiven
  · rename_i hmem
    cases hgiven
    exact hnumbers.entries _ hmem
  · cases hgiven

end Registry

/-! ## Runs -/

namespace Ensemble

variable {e : Ensemble}

theorem later_turn (h : e.Proper) (t : Turn) :
    e.session.registry.Later (e.turn t).session.registry := by
  cases t with
  | call op =>
    cases hlaunch : op.launchFailure? e.session.config with
    | none => exact (does_call hlaunch).later fun _ hd => Operation.serves_of_extra hd
    | some detail =>
      rw [session_call_of_launchFailure hlaunch, Session.launchFailed_eq]
      exact .refl _
  | move i m =>
    cases hi : e.calls[i]? with
    | none =>
      rw [turn_move_none hi]
      exact .refl _
    | some o => exact (h.does_move hi m).later fun _ hd => Operation.serves_of_extra hd
  | news n =>
    cases hc : e.session.isConnected with
    | true =>
      have hheld := congrArg Session.registry (Session.held_news e.session n)
      have hsame : (n.apply e.session).registry = e.session.registry := hheld
      rw [turn_news hc, hsame]
      exact .refl _
    | false =>
      rw [turn_news_of_not_connected hc]
      exact .refl _

theorem later_foldl_turn (h : e.Proper) (turns : List Turn) :
    e.session.registry.Later (turns.foldl turn e).session.registry := by
  induction turns generalizing e with
  | nil => exact .refl _
  | cons t turns ih => exact (later_turn h t).trans (ih (h.turn t))

/-- The registry of a run has served requests and nothing else. -/
theorem later_run (config : Config) (turns more : List Turn) :
    (run config turns).session.registry.Later (run config (turns ++ more)).session.registry := by
  rw [run_append]
  exact later_foldl_turn (Proper.run config turns) more

end Ensemble

/-! ## What an expansion asks for -/

namespace Session

open CallM

/-- The commands for the registers and their names. They are about no frame in particular. -/
def registerCommands : List String := ["data-list-register-names", "data-list-register-values N"]

/-- What is written to list registers, and nothing is promised of what comes of it. -/
abbrev WritesRegisters {α : Type} (c : CallM α) : Prop :=
  c.Writes (fun _ => True) (· ∈ registerCommands) fun _ => True

theorem writes_requireList (answer : ResultRecord) (command path : String) :
    WritesRegisters (liftM (answer.requireList command path) : CallM (List Value)) :=
  writes_except fun _ _ => trivial

theorem writes_nameRegisters : WritesRegisters nameRegisters := by
  have hlook : WritesRegisters (CallM.read (·.registerNames)) := writes_read fun _ _ => trivial
  have hlearn (names : List String) :
      WritesRegisters (CallM.modify fun s => { s with registerNames := some names }) :=
    writes_lift fun _ _ => ⟨.of_outbox_eq rfl, trivial⟩
  unfold nameRegisters
  refine writes_bind hlook fun known _ => ?_
  split
  · exact writes_pure trivial
  · refine writes_bind (writes_ask (by decide)) fun answer _ => ?_
    refine writes_bind (writes_requireList answer _ _) fun names _ => ?_
    exact writes_bind (hlearn _) fun _ _ => writes_pure trivial

theorem writes_registers : WritesRegisters registers := by
  unfold registers
  refine writes_bind writes_nameRegisters fun names _ => ?_
  refine writes_bind (writes_ask (by decide)) fun answer _ => ?_
  exact writes_bind (writes_requireList answer _ _) fun _ _ => writes_pure trivial

variable {s : Session} {h : Handle} {thread level : UInt32}

theorem stride_expand {key : ScopeKey} (hscope : s.registry.entry? h = some (.scope key)) :
    (expand h).run.stride s = ((rowsOfScope h key).run, s) := by
  unfold expand
  rw [stride_read_bind, hscope]

/-- What the expansion of the locals of a frame writes, whatever happens between its sections. -/
structure AsksLocals (s : Session) (h : Handle) (thread level : UInt32) : Prop where
  /-- A debugger that reads is asked at once for the locals of the frame. -/
  first : ∀ u : Session, u.link = .open → (expand h).run.written [s, u] =
    [.command u.exchange.freeToken (listCommand ⟨.locals, thread, level⟩)]
  /-- Objects are created for locals of the frame. -/
  only : ∀ us, ∀ o ∈ (expand h).run.written (s :: us), ∃ token text, o = .command token text ∧
    LocalsText h ⟨.locals, thread, level⟩ (s :: us) text

/-- What the expansion of registers writes, whatever happens between its sections. -/
def AsksRegisters (s : Session) (h : Handle) : Prop :=
  ∀ us, ∀ o ∈ (expand h).run.written (s :: us), ∃ token text, o = .command token text ∧
    text ∈ registerCommands

theorem asksLocals (hscope : s.registry.entry? h = some (.scope ⟨.locals, thread, level⟩)) :
    AsksLocals s h thread level where
  first u hu := by
    have hstride : ((rowsOfScope h ⟨.locals, thread, level⟩).run.stride u).2 =
      (u.issue (listCommand ⟨.locals, thread, level⟩) false).2 := rfl
    rw [Call.written, Call.written, stride_expand hscope, hstride, issue_of_open hu]
    simp [Call.written]
  only us o ho := by
    rw [Call.written, stride_expand hscope, List.drop_length, List.nil_append] at ho
    exact Call.Writes.written (writes_locals h thread level)
      (fun u hu => List.mem_cons_of_mem s hu) o ho

theorem asksRegisters (hscope : s.registry.entry? h = some (.scope ⟨.registers, thread, level⟩)) :
    AsksRegisters s h := by
  intro us o ho
  rw [Call.written, stride_expand hscope, List.drop_length, List.nil_append] at ho
  have hwrites : WritesRegisters (rowsOfScope h ⟨.registers, thread, level⟩) :=
    writes_bind writes_registers fun _ _ => writes_pure trivial
  exact hwrites.written (fun _ _ => trivial) o ho

end Session

/-! ## Scopes of frames -/

namespace FrameId

theorem mod_half_eq_iff {n : UInt32} : n % half = n ↔ n < half := by
  rw [← UInt32.toNat_inj, UInt32.toNat_mod, UInt32.lt_iff_toNat_lt]
  exact Nat.mod_eq_iff_lt (by decide)

end FrameId

namespace Ensemble

open Session FrameId

/-- A scope that a call for the scopes of a frame was answered with in a run. -/
def Given (config : Config) (turns : List Turn) (frame : FrameId) (scope : Scope) : Prop :=
  ∃ before after scopes, turns = before ++ .call (.scopes frame) :: after ∧
    ((Operation.scopes frame).call.advance (run config before).session).1 = .done scopes ∧
      scope ∈ scopes

variable {config : Config} {turns : List Turn} {frame : FrameId} {scope : Scope}

/-- The registry knows a scope that was given under its handle from then on. -/
theorem Given.scopes (h : Given config turns frame scope) :
    (run config turns).session.registry.scopes.get? ⟨scope.kind, frame.thread, frame.level⟩ =
      some scope.handle := by
  obtain ⟨before, after, scopes, rfl, hdone, hmem⟩ := h
  obtain rfl : (Session.scopes frame (run config before).session).1 = scopes :=
    Call.done.inj hdone
  have hlater := later_run config (before ++ [.call (.scopes frame)]) after
  rw [List.append_assoc, List.singleton_append, run_snoc] at hlater
  refine hlater.scopes ?_
  rcases List.mem_cons.mp hmem with rfl | hmem
  · exact Registry.scopes_serve (Registry.scopes_scopeHandle _ _) (.scope _)
  · obtain rfl := List.mem_singleton.mp hmem
    exact Registry.scopes_scopeHandle _ _

/-- What a handle stands for that was given for a scope, and what its expansion asks for. -/
structure Represents (s : Session) (scope : Scope) (thread level : UInt32) : Prop where
  entry : s.registry.entry? scope.handle = some (.scope ⟨scope.kind, thread, level⟩)
  locals : scope.kind = .locals → AsksLocals s scope.handle thread level
  registers : scope.kind = .registers → AsksRegisters s scope.handle

theorem Given.represents (h : Given config turns frame scope)
    (hroom : (run config turns).session.registry.size < Registry.capacity) :
    Represents (run config turns).session scope frame.thread frame.level := by
  have hentry := Registry.scopes_of_room (later_run config [] turns) hroom h.scopes
  refine ⟨hentry, fun hkind => ?_, fun hkind => ?_⟩
  · rw [hkind] at hentry
    exact asksLocals hentry
  · rw [hkind] at hentry
    exact asksRegisters hentry

/-- Two scopes that were given share a handle exactly if they are the same scope. -/
theorem Given.handle_eq_iff {frame' : FrameId} {scope' : Scope}
    (h : Given config turns frame scope) (h' : Given config turns frame' scope')
    (hroom : (run config turns).session.registry.size < Registry.capacity) :
    scope.handle = scope'.handle ↔ scope.kind = scope'.kind ∧ frame.thread = frame'.thread ∧
      frame.level = frame'.level := by
  have hkey : scope.handle = scope'.handle ↔
      (⟨scope.kind, frame.thread, frame.level⟩ : ScopeKey) =
        ⟨scope'.kind, frame'.thread, frame'.level⟩ := by
    constructor
    · intro heq
      have hentry := (h.represents hroom).entry
      rw [heq, (h'.represents hroom).entry] at hentry
      exact (HandleEntry.scope.inj (Option.some.inj hentry)).symm
    · intro heq
      exact Option.some.inj (h.scopes.symm.trans ((congrArg _ heq).trans h'.scopes))
  rw [hkey, ScopeKey.mk.injEq]

/--
In every run whose registry has room, a handle that was given for a scope of a frame stands for this
scope in the frame whose thread and level are the lower halves of those that were asked for. So it
carries the thread and the level themselves exactly if these are lower halves already, and two
scopes share a handle exactly if their kinds and these halves agree. The locals are asked for in the
frame of the lower halves, and the registers in none.
-/
theorem scopes_of_frames (config : Config) (turns : List Turn)
    (hroom : (run config turns).session.registry.size < Registry.capacity) :
    (∀ thread level scope, Given config turns (pack thread level) scope →
      Represents (run config turns).session scope (thread % half) (level % half) ∧
        ((run config turns).session.registry.entry? scope.handle =
          some (.scope ⟨scope.kind, thread, level⟩) ↔ thread < half ∧ level < half)) ∧
    ∀ thread level scope thread' level' scope', Given config turns (pack thread level) scope →
      Given config turns (pack thread' level') scope' →
        (scope.handle = scope'.handle ↔ scope.kind = scope'.kind ∧
          thread % half = thread' % half ∧ level % half = level' % half) := by
  constructor
  · intro thread level scope h
    have hrepr := h.represents hroom
    rw [thread_pack, level_pack] at hrepr
    refine ⟨hrepr, ?_⟩
    rw [hrepr.entry, ← mod_half_eq_iff, ← mod_half_eq_iff]
    simp only [Option.some.injEq, HandleEntry.scope.injEq, ScopeKey.mk.injEq, true_and]
  · intro thread level scope thread' level' scope' h h'
    rw [h.handle_eq_iff h' hroom, thread_pack, thread_pack, level_pack, level_pack]

/-- The scopes of two frames in the lower halves, the second with the largest numbers there are. -/
theorem scopes_of_frames_largest :
    let turns : List Turn := [.call (.scopes (pack 1 2)), .call (.scopes (pack 65535 65535))]
    let first : Scope := ⟨"Locals", .locals, 1⟩
    let last : Scope := ⟨"Registers", .registers, 4⟩
    (run {} turns).session.registry.size < Registry.capacity ∧
      Given {} turns (pack 1 2) first ∧ Given {} turns (pack 65535 65535) last ∧
        Represents (run {} turns).session first 1 2 ∧
          Represents (run {} turns).session last 65535 65535 ∧
          (first.handle = last.handle ↔ False) := by
  intro turns first last
  have hroom : (run {} turns).session.registry.size < Registry.capacity := by decide +kernel
  have hfirst : Given {} turns (pack 1 2) first := ⟨[], _, _, rfl, rfl, by decide +kernel⟩
  have hlast : Given {} turns (pack 65535 65535) last :=
    ⟨[.call (.scopes (pack 1 2))], [], _, rfl, rfl, by decide +kernel⟩
  obtain ⟨hrepr, hshared⟩ := scopes_of_frames {} turns hroom
  have hkinds := hshared _ _ _ _ _ _ hfirst hlast
  have hlargest : (65535 : UInt32) % half = 65535 := by decide
  have hsmall : (1 : UInt32) % half = 1 ∧ (2 : UInt32) % half = 2 := by decide
  have hfirstKey := (hrepr _ _ _ hfirst).1
  have hlastKey := (hrepr _ _ _ hlast).1
  rw [hsmall.1, hsmall.2] at hfirstKey
  rw [hlargest] at hlastKey
  refine ⟨hroom, hfirst, hlast, hfirstKey, hlastKey, hkinds.trans ?_⟩
  simp [first, last]

/--
Levels 0 and 65536 of a thread: both get the same handles, and the expansion of the locals asks for
those of level 0. The registers are asked for in no frame.
-/
theorem deep_frame_shared :
    let turns : List Turn := [.call (.bringUp { cwd := "/w", mode := .load "a.out" none none }),
      .call (.scopes (pack 1 0)), .call (.scopes (pack 1 65536)), .call (.expand 1),
      .call (.expand 2)]
    let locals : Scope := ⟨"Locals", .locals, 1⟩
    let registers : Scope := ⟨"Registers", .registers, 2⟩
    let s := (run {} turns).session
    Given {} turns (pack 1 0) locals ∧ Given {} turns (pack 1 65536) locals ∧
      Given {} turns (pack 1 65536) registers ∧
        s.registry.entry? 1 = some (.scope ⟨.locals, 1, 0⟩) ∧
          s.outbox.drop 5 =
            [.command 6 "stack-list-variables --thread 1 --frame 0 --simple-values",
              .command 7 "data-list-register-names"] := by
  intro turns locals registers s
  have hscopes (level : UInt32) (before after : List Turn) (scope : Scope)
      (hturns : turns = before ++ .call (.scopes (pack 1 level)) :: after)
      (hmem : scope ∈ (Session.scopes (pack 1 level) (run {} before).session).1) :
      Given {} turns (pack 1 level) scope := ⟨before, after, _, hturns, rfl, hmem⟩
  refine ⟨hscopes 0 (turns.take 1) _ locals rfl (by decide +kernel),
    hscopes 65536 (turns.take 2) _ locals rfl (by decide +kernel),
    hscopes 65536 (turns.take 2) _ registers rfl (by decide +kernel), by decide +kernel,
    by decide +kernel⟩

end Ensemble

end MachineInterface

import MachineInterface.Proofs.Session.Deleting
import MachineInterface.Proofs.Session.Inserting

/-!
# The files of breakpoints

A breakpoint stands under the file that was asked for, or else under the one that the debugger has
found. Clearing a file looks at this alone, and not at the location.

* `founded_run`: where the file of a breakpoint that stands comes from.
* `clearing_by_file`: which breakpoints leave when a file is cleared, and when these are the ones
  that were asked for in it.
-/

namespace MachineInterface

/-- The file in which a location is asked for; a raw place is in none. -/
def Location.file? : Location → Option String
  | raw _ => none
  | source file _ => some file

theorem Descriptor.location?_of_location {d : Descriptor} {l : Location} (h : d.location = .ok l) :
    d.location? = some l := by
  unfold Descriptor.location at h
  split at h
  · cases h
    assumption
  · cases h

/-- A source location is in the file of its descriptor. -/
theorem Descriptor.file_of_location? {d : Descriptor} {file : String} {line : UInt32}
    (h : d.location? = some (.source file line)) : d.file = some file := by
  unfold Descriptor.location? at h
  split at h
  · cases h
  · cases h
    assumption
  · cases h

/-- The file of a breakpoint is the one that was asked for, or else the one in the answer. -/
theorem Breakpoint.file_of_ofAnswer {command : String} {l : Location} {d : Descriptor}
    {answer : ResultRecord} {b : Breakpoint} (h : Breakpoint.ofAnswer command l d answer = .ok b) :
    b.file = (d.file <|> answer.text? "bkpt.file") := by
  unfold Breakpoint.ofAnswer at h
  split at h
  · cases h
  · cases h
    rfl

/-! ## One call -/

namespace Session

variable {s u v : Session} {l : Location} {d : Descriptor}

/-- An answer of the debugger describes a breakpoint as it was asked for. -/
def Founds (d : Descriptor) (u : Session) (b : Breakpoint) : Prop :=
  ∃ l ticket answer, d.location = .ok l ∧ u.exchange.reply? ticket = some (.ok answer) ∧
    Breakpoint.ofAnswer (insertCommand l d.hitPolicy?) l d answer = .ok b

/-- The breakpoint that a call has given is one that an answer describes. -/
def Founded (d : Descriptor) (r : Except Error Addition) (u : Session) : Prop :=
  ∀ a b, r = .ok a → a.breakpoint? = some b → Founds d u b

theorem Founds.mono {b : Breakpoint} (h : Founds d u b)
    (hv : u.exchange.completions <+: v.exchange.completions) : Founds d v b := by
  obtain ⟨l, ticket, answer, hl, hr, hb⟩ := h
  exact ⟨l, ticket, answer, hl, Exchange.reply?_of_prefix hv hr, hb⟩

theorem Founded.mono {r : Except Error Addition} (h : Founded d r u)
    (hv : u.exchange.completions <+: v.exchange.completions) : Founded d r v :=
  fun a b ha hb => (h a b ha hb).mono hv

theorem founded_error (e : Error) : Founded d (.error e) u := by
  rintro a b ⟨⟩

theorem meets_install_founded (hl : d.location = .ok l) :
    (install l d).run.Meets hearing (Founded d) s := by
  unfold install
  rw [CallM.meets_bind, CallM.meets_modify]
  dsimp only
  rw [CallM.meets_bind, CallM.ask, CallM.send, CallM.meets_bind, CallM.meets_locked]
  generalize issue _ _ _ = issued
  obtain ⟨ticket | ticket, w⟩ := issued
  · exact founded_error _
  refine CallM.meets_await.mpr fun u _ => ⟨trivial, fun r hr => ?_⟩
  cases r with
  | error e => exact founded_error e
  | ok answer =>
    dsimp only
    rw [CallM.meets_bind, CallM.meets_except]
    cases hb : Breakpoint.ofAnswer (insertCommand l d.hitPolicy?) l d answer with
    | error e => exact founded_error e
    | ok b =>
      have hcondition : (setCondition b.id d.condition).Through fun _ => False :=
        through_setCondition b.id d.condition
      have hmessage : (setLogMessage b.id d.logMessage).Through fun _ => False :=
        through_setLogMessage b.id d.logMessage
      dsimp only
      rw [CallM.meets_bind, CallM.meets_attempt]
      refine Call.Through.meets hcondition fun condition v hv => ?_
      dsimp only
      rw [CallM.meets_bind, CallM.meets_attempt]
      refine Call.Through.meets hmessage fun message w hw => ?_
      have hfounds : Founds d w b :=
        ⟨l, _, answer, hl, Exchange.reply?_of_prefix (hv.trans hw) hr, hb⟩
      dsimp only
      split
      · rintro _ _ ⟨⟩ ⟨⟩
        exact hfounds
      · rintro _ _ ⟨⟩ ⟨⟩
        exact hfounds

/-- What a call that adds a breakpoint gives is what an answer of the debugger describes. -/
theorem meets_addBreakpoint_founded (d : Descriptor) (s : Session) :
    (addBreakpoint d).run.Meets hearing (Founded d) s := by
  unfold addBreakpoint
  rw [CallM.meets_bind, CallM.meets_except]
  cases hl : d.location with
  | error e => exact founded_error e
  | ok l =>
    dsimp only
    rw [CallM.meets_bind, CallM.meets_lift, Call.meets_locked]
    dsimp only
    split
    · rw [CallM.meets_bind, CallM.meets_lift, Call.meets_holding]
      exact (meets_install_founded hl).mono fun r u h => h
    · rintro _ _ ⟨⟩ ⟨⟩

end Session

open Session (Founds Founded)

/-! ## Runs -/

/-- What a call that adds a breakpoint gives is going to be what an answer describes. -/
def Ongoing.Founds (o : Ongoing) (s : Session) : Prop :=
  ∀ d c, o = ⟨.addBreakpoint d, some c⟩ → c.Meets hearing (Founded d) s

namespace Ensemble

variable {e : Ensemble} {config : Config} {turns : List Turn} {l : Location} {b : Breakpoint}

theorem founds_turn (hp : e.Proper) (h : ∀ o ∈ e.calls, o.Founds e.session) (t : Turn) :
    ∀ o ∈ (e.turn t).calls, o.Founds (e.turn t).session := by
  have hanswers := (hp.grows_turn t).answers
  intro o ho d c hop
  obtain ⟨i, hi⟩ := List.getElem?_of_mem ho
  rcases getElem?_of_calls_turn hi with hold | ⟨m, o', rfl, hold, rfl⟩ | ⟨op, rfl, rfl⟩
  · subst hop
    have hmem := List.mem_of_getElem? hold
    have hpaused := (hp _ hmem c rfl).1
    exact (h _ hmem d c rfl).later admits_hearing (fun r _ _ hr => hr.mono) hpaused hanswers
  · obtain ⟨op, rest?⟩ := o'
    have hadds : op = .addBreakpoint d :=
      (Ongoing.op_move ⟨op, rest?⟩ m e.session).symm.trans (congrArg Ongoing.op hop)
    subst hadds
    rw [turn_move hold]
    cases rest? with
    | none => cases hop
    | some c' => exact Ongoing.meets_move admits_hearing (h _ (List.mem_of_getElem? hold) d c' rfl) hop
  · cases hop
    exact (Session.meets_addBreakpoint_founded d e.session).advance admits_hearing

theorem founds_run (config : Config) (turns : List Turn) :
    ∀ o ∈ (run config turns).calls, o.Founds (run config turns).session := by
  induction turns using List.reverseRecOn with
  | nil =>
    intro o ho
    cases ho
  | append_singleton turns t ih =>
    rw [run_snoc]
    exact founds_turn (Proper.run config turns) ih t

/-- A call that adds a breakpoint was made. -/
def Asks (e : Ensemble) (d : Descriptor) : Prop := ∃ o ∈ e.calls, o.op = .addBreakpoint d

theorem Asks.turn {d : Descriptor} (h : e.Asks d) (t : Turn) : (e.turn t).Asks d := by
  obtain ⟨o, ho, hop⟩ := h
  obtain ⟨i, hi⟩ := List.getElem?_of_mem ho
  rcases getElem?_calls_turn hi t with hsame | ⟨m, -, hmoved⟩
  · exact ⟨o, List.mem_of_getElem? hsame, hop⟩
  · exact ⟨_, List.mem_of_getElem? hmoved, (Ongoing.op_move o m e.session).trans hop⟩

/-- The breakpoint that a call has placed is what an answer said. -/
theorem placed_of_founds {o : Ongoing} {s : Session} (h : o.Founds s)
    (hl : o.op.adds? = some l) (hb : o.placed? = some b) :
    ∃ d, o.op = .addBreakpoint d ∧ d.location = .ok l ∧ Founds d s b := by
  obtain ⟨op, rest?⟩ := o
  obtain ⟨d, rfl, hd⟩ := Operation.location_of_adds? hl
  refine ⟨d, rfl, hd, ?_⟩
  obtain ⟨a, ha, hab⟩ := Option.bind_eq_some_iff.mp hb
  obtain ⟨r, hr, hra⟩ := Option.bind_eq_some_iff.mp ha
  cases rest? with
  | none => cases hr
  | some c =>
    have hmeets : Call.Meets hearing (Founded d) c s := h d c rfl
    have hdone : c = .done r := Call.eq_done_of_result? hr
    rw [hdone] at hmeets
    have hfounded : Founded d r s := hmeets
    cases r with
    | error e => cases hra
    | ok a' =>
      obtain rfl : a' = a := Option.some.inj hra
      exact hfounded a' b rfl hab

/-- Every breakpoint that stands is what an answer said of one that was asked for there. -/
theorem exists_founds_of_stands (h : (run config turns).session.board.get? l = some b) :
    ∃ d, (run config turns).Asks d ∧ d.location = .ok l ∧
      Founds d (run config turns).session b := by
  induction turns using List.reverseRecOn with
  | nil => cases h
  | append_singleton turns t ih =>
    have hproper := Proper.run config turns
    rw [run_snoc] at h ⊢
    by_cases hold : (run config turns).session.board.get? l = some b
    · obtain ⟨d, hasks, hl, hfounds⟩ := ih hold
      exact ⟨d, hasks.turn t, hl, hfounds.mono (hproper.grows_turn t).answers⟩
    · obtain ⟨o, ⟨before, old, after, -, hcalls, -⟩, hadds, hplaced⟩ :=
        puts_of_stands (follows_run config turns) (sound_board_run config turns) h hold
      have hmem : o ∈ ((run config turns).turn t).calls := by
        rw [hcalls]
        simp
      have hfounds := founds_turn hproper (founds_run config turns) t o hmem
      obtain ⟨d, hop, hl, hd⟩ := placed_of_founds hfounds hadds hplaced
      exact ⟨d, ⟨o, hmem, hop⟩, hl, hd⟩

theorem board_call_clear (config : Config) (turns : List Turn) (source : Option String) :
    (run config (turns ++ [.call (.clearBreakpoints source)])).session.board =
      ((run config turns).session.board.takeSource source).2 := by
  rw [run_snoc]
  let taken := (run config turns).session.takeSource source
  have hthrough := Call.Through.advance (Session.through_clearTaken taken.1) taken.2
  exact Session.board_of_bides hthrough.1

/--
Which breakpoints leave when a file is cleared: those that are recorded in this file. The recorded
file is the one of the descriptor, or else the one in the debugger's answer to the insert. So a
breakpoint at a source location leaves exactly with the file of its location, and never without a
file. A breakpoint at a raw place leaves without a file, and with no file, exactly if neither its
descriptor nor the answer names one; else it leaves exactly with the file that is named.
-/
theorem clearing_by_file (config : Config) (turns : List Turn) :
    let board := (run config turns).session.board
    let cleared := fun source =>
      (run config (turns ++ [.call (.clearBreakpoints source)])).session.board
    (∀ source l b, (cleared source).get? l = some b ↔
      board.get? l = some b ∧ b.file ≠ source) ∧
    ∀ l b, board.get? l = some b → ∃ d ticket answer, (run config turns).Asks d ∧
      d.location? = some l ∧
      (run config turns).session.exchange.reply? ticket = some (.ok answer) ∧
      b.file = (d.file <|> answer.text? "bkpt.file") ∧
      (∀ source, (cleared source).get? l = none ↔ b.file = source) ∧
      (∀ file line, l = .source file line → b.file = l.file?) ∧
      ∀ text, l = .raw text → ((∀ source, (cleared source).get? l = none ↔ l.file? = source) ↔
        d.file = none ∧ answer.text? "bkpt.file" = none) := by
  intro board cleared
  have hget : ∀ source l, (cleared source).get? l = (board.get? l).filter (·.file ≠ source) := by
    intro source l
    change (run config (turns ++ [.call (.clearBreakpoints source)])).session.board.get? l = _
    rw [board_call_clear]
    exact (sound_board_run config turns).get?_takeSource source l
  refine ⟨fun source l b => ?_, fun l b hb => ?_⟩
  · rw [hget, Option.filter_eq_some_iff, decide_eq_true_eq]
  have hgone : ∀ source, (cleared source).get? l = none ↔ b.file = source := by
    intro source
    rw [hget, hb, Option.filter_some]
    simp
  obtain ⟨d, hasks, hl, l', ticket, answer, hl', hreply, hanswer⟩ := exists_founds_of_stands hb
  have hlocation := Descriptor.location?_of_location hl
  have hfile := Breakpoint.file_of_ofAnswer hanswer
  refine ⟨d, ticket, answer, hasks, hlocation, hreply, hfile, hgone, ?_, ?_⟩
  · rintro file line rfl
    rw [hfile, Descriptor.file_of_location? hlocation]
    rfl
  · rintro text rfl
    have hagrees : (∀ source, (cleared source).get? (.raw text) = none ↔
        (Location.raw text).file? = source) ↔ b.file = none := by
      simp only [hgone]
      constructor
      · exact fun h => (h none).mpr rfl
      · exact fun h source => h ▸ Iff.rfl
    rw [hagrees, hfile]
    cases d.file <;> simp

/-- A breakpoint at a source location leaves with its file, whatever file the debugger has found. -/
theorem clearing_by_file_source :
    let spot : Descriptor := { file := some "a.c", line := some 3 }
    let turns : List Turn := [.call (.bringUp { cwd := "/w", mode := .load "a.out" none none }),
      .call (.addBreakpoint spot),
      .news (.hear (Text.Utf8.encode "6^done,bkpt=\x7bnumber=\"1\",file=\"b.c\"\x7d\n")),
      .move 1 .resume]
    (∃ b, (run {} turns).session.board.get? (.source "a.c" 3) = some b) ∧
      ∀ source, (run {} (turns ++ [.call (.clearBreakpoints source)])).session.board.get?
        (.source "a.c" 3) = none ↔ some "a.c" = source := by
  intro spot turns
  have hstands : ((run {} turns).session.board.get? (.source "a.c" 3)).isSome = true := by
    decide +kernel
  obtain ⟨b, hb⟩ := Option.isSome_iff_exists.mp hstands
  obtain ⟨d, ticket, answer, -, -, -, -, hgone, hsource, -⟩ := (clearing_by_file {} turns).2 _ b hb
  refine ⟨⟨b, hb⟩, fun source => ?_⟩
  have hfile := hsource "a.c" 3 rfl
  rw [Location.file?] at hfile
  rw [← hfile]
  exact hgone source

/--
The debugger names the file in which it has found a raw place. The breakpoint stays where no file
is given, without a delete, and it leaves with the file.
-/
theorem clearing_misses_raw :
    let main : Descriptor := { raw := some "main" }
    let turns : List Turn := [.call (.bringUp { cwd := "/w", mode := .load "a.out" none none }),
      .call (.addBreakpoint main),
      .news (.hear (Text.Utf8.encode "6^done,bkpt=\x7bnumber=\"1\",file=\"main.c\"\x7d\n")),
      .move 1 .resume]
    let cleared (source : Option String) :=
      (run {} (turns ++ [.call (.clearBreakpoints source)])).session
    ((run {} turns).session.board.get? (.raw "main")).map (·.file) = some (some "main.c") ∧
      (cleared none).board.get? (.raw "main") = (run {} turns).session.board.get? (.raw "main") ∧
      (cleared none).outbox = (run {} turns).session.outbox ∧
      (cleared (some "main.c")).board.get? (.raw "main") = none := by
  decide +kernel

end Ensemble

end MachineInterface

import MachineInterface.Proofs.Breakpoint.Board
import MachineInterface.Proofs.Session.Asking

/-!
# Adding a breakpoint

A breakpoint takes up to three commands. Its location is reserved meanwhile, and whatever becomes of
the commands, either the breakpoint stands or nothing has changed.

* `meets_install`: what is left of an attempt to insert a breakpoint at a reserved location.
* `addBreakpoint_atomic`: the same for the call that reserves, inserts and settles.
-/

namespace MachineInterface

namespace Session

open Text

variable {dropped left : Session → Prop} {s : Session}

/-! ## Conditions and messages -/

/-- A warning is all that comes of a hit policy that the debugger cannot keep. -/
theorem warnHits_eq (s : Session) (policy : Option HitPolicy) :
    ∃ events, warnHits policy s = { s with events } := by
  unfold warnHits
  split
  · exact ⟨_, rfl⟩
  · exact ⟨s.events, rfl⟩

theorem meets_setCondition {id : UInt32} {condition : Option String}
    {post : Except Error Unit → Session → Prop} (hd : ∀ u, Keeps s u → dropped u)
    (hp : ∀ r u, Keeps s u → post r u) :
    (setCondition id condition).run.Meets (keeping dropped left) post s := by
  unfold setCondition
  split
  · exact CallM.meets_discard.mpr (meets_ask hd fun r u hu _ => hp _ u hu)
  · exact hp _ s (Keeps.refl s)

/-- The board and the answers are kept; a message may be registered under the number. -/
structure Registers (id : UInt32) (s u : Session) : Prop where
  board : u.board = s.board
  templates : ∀ k, k ≠ id → u.logPoints.templates.get? k = s.logPoints.templates.get? k
  answers : s.exchange.completions <+: u.exchange.completions

theorem Keeps.registers {u : Session} (h : Keeps s u) (id : UInt32) : Registers id s u :=
  ⟨h.board, fun k _ => by rw [h.templates], h.answers⟩

theorem Keeps.registers_register {u : Session} (h : Keeps s u) (id : UInt32) (m : LogTemplate) :
    Registers id s { u with logPoints := u.logPoints.register id m } := by
  refine ⟨h.board, fun k hk => ?_, h.answers⟩
  rw [← h.templates]
  exact (Table.get?_insert u.logPoints.templates id k m).trans (if_neg (Ne.symm hk))

theorem Keeps.trans_registers {u v : Session} {id : UInt32} (h : Keeps s u)
    (h' : Registers id u v) : Registers id s v :=
  ⟨h'.board.trans h.board, fun k hk => (h'.templates k hk).trans (by rw [h.templates]),
    h.answers.trans h'.answers⟩

theorem meets_setLogMessage {id : UInt32} {message : Option String}
    {post : Except Error Unit → Session → Prop} (hd : ∀ u, Keeps s u → dropped u)
    (hp : ∀ r u, Registers id s u → post r u) :
    (setLogMessage id message).run.Meets (keeping dropped left) post s := by
  unfold setLogMessage
  split
  · rename_i m _
    dsimp only
    split
    · exact hp _ _ ((Keeps.refl s).registers_register id _)
    · rw [CallM.meets_bind, CallM.meets_discard]
      refine meets_ask hd fun r u hu _ => ?_
      cases r with
      | ok answer => exact hp _ _ (hu.registers_register id _)
      | error e => exact hp _ _ (hu.registers id)
  · exact hp _ s ((Keeps.refl s).registers id)

/-! ## Inserting -/

/-- The first command that was written from `s` on was answered with the number of a breakpoint. -/
def Numbered (s u : Session) (id : UInt32) : Prop :=
  ∃ answer : ResultRecord, u.exchange.reply? s.exchange.issued = some (.ok answer) ∧
    (answer.text? "bkpt.number").bind Numeral.readUInt32? = some id

/-- What an attempt to insert a breakpoint gives, and the session after it. -/
def Inserted (l : Location) (s : Session) : Except Error Addition → Session → Prop
  | .error _, u => Keeps s u
  | .ok a, u => ∃ b, (a = .added b ∨ ∃ e, a = .degraded b e) ∧ b.location = l ∧
      Registers b.id s u ∧ Numbered s u b.id

theorem ofAnswer_eq_ok {command : String} {l : Location} {d : Descriptor} {answer : ResultRecord}
    {b : Breakpoint} (h : Breakpoint.ofAnswer command l d answer = .ok b) :
    b.location = l ∧ (answer.text? "bkpt.number").bind Numeral.readUInt32? = some b.id := by
  unfold Breakpoint.ofAnswer at h
  split at h
  · cases h
  · rename_i id hid
    cases h
    exact ⟨rfl, hid⟩

/-- What is left of an attempt to insert a breakpoint. -/
theorem meets_install {l : Location} {d : Descriptor} (hd : ∀ u, Keeps s u → dropped u) :
    (install l d).run.Meets (keeping dropped left) (Inserted l s) s := by
  obtain ⟨events, hwarn⟩ := warnHits_eq s d.hitPolicy?
  have hkeeps : Keeps s { s with events } := ⟨rfl, rfl, List.prefix_rfl⟩
  unfold install
  rw [CallM.meets_bind, CallM.meets_modify, hwarn]
  dsimp only
  rw [CallM.meets_bind]
  refine meets_ask (fun u hu => hd u (hkeeps.trans hu)) fun r u hu hr => ?_
  replace hu := hkeeps.trans hu
  cases r with
  | error e => exact hu
  | ok answer =>
    have hanswer := hr answer rfl
    dsimp only
    rw [CallM.meets_bind, CallM.meets_except]
    cases hb : Breakpoint.ofAnswer (insertCommand l d.hitPolicy?) l d answer with
    | error e => exact hu
    | ok b =>
      obtain ⟨hlocation, hnumber⟩ := ofAnswer_eq_ok hb
      dsimp only
      rw [CallM.meets_bind, CallM.meets_attempt]
      refine meets_setCondition (fun v hv => hd v (hu.trans hv)) fun condition v hv => ?_
      dsimp only
      rw [CallM.meets_bind, CallM.meets_attempt]
      refine meets_setLogMessage (fun w hw => hd w ((hu.trans hv).trans hw)) fun message w hw => ?_
      have hregisters : Registers b.id s w := (hu.trans hv).trans_registers hw
      have hnumbered : Numbered s w b.id :=
        ⟨answer, Exchange.reply?_of_prefix (hv.answers.trans hw.answers) hanswer, hnumber⟩
      dsimp only
      split
      · rename_i failure _
        exact ⟨b, .inr ⟨failure, rfl⟩, hlocation, hregisters, hnumbered⟩
      · exact ⟨b, .inl rfl, hlocation, hregisters, hnumbered⟩

/-! ## Reserving and settling -/

/-- Whether a location has a breakpoint or one is on its way. -/
def Taken (l : Location) (s : Session) : Prop :=
  s.board.installed.contains l = true ∨ l ∈ s.board.reserved

/-- Neither the breakpoints nor the reservations nor the templates have changed. -/
def Unchanged (s u : Session) : Prop :=
  u.board = s.board ∧ u.logPoints.templates = s.logPoints.templates

/-- A breakpoint was added where there was none, under the debugger's number, and nothing else. -/
structure Stands (d : Descriptor) (s u : Session) (b : Breakpoint) : Prop where
  location : d.location = .ok b.location
  absent : s.board.get? b.location = none
  installed : u.board.installed.entries = s.board.installed.entries ++ [(b.location, b)]
  reserved : u.board.reserved = s.board.reserved
  numbered : Numbered s u b.id
  templates : ∀ k, k ≠ b.id → u.logPoints.templates.get? k = s.logPoints.templates.get? k

/-- What a call that adds a breakpoint gives, and the session after it. -/
def Added (d : Descriptor) (s : Session) : Except Error Addition → Session → Prop
  | .error _, u => Unchanged s u
  | .ok .alreadyInstalled, _ => ∃ l, d.location = .ok l ∧ Taken l s
  | .ok (.added b), u | .ok (.degraded b _), u => Stands d s u b

theorem reserve_of_isFree {l : Location} (h : s.board.isFree l = true) :
    reserve l s = (true, { s with board := s.board.withReserved l }) := by
  simp [reserve, Board.reserve?_of_isFree h]

/-- A reservation that came to nothing is undone. -/
theorem unchanged_settle_none {u : Session} {l : Location} (h : s.board.isFree l = true)
    (hu : Keeps { s with board := s.board.withReserved l } u) :
    Unchanged s (settle l none u) := by
  refine ⟨?_, hu.templates⟩
  rw [settle, hu.board]
  exact Board.settle_withReserved_none h

theorem stands_settle {u : Session} {d : Descriptor} {b : Breakpoint}
    (hl : d.location = .ok b.location) (h : s.board.isFree b.location = true)
    (hr : Registers b.id { s with board := s.board.withReserved b.location } u)
    (hn : Numbered s u b.id) : Stands d s (settle b.location (some b) u) b := by
  have hboard : (settle b.location (some b) u).board =
      (s.board.withReserved b.location).settle b.location (some b) := by
    rw [settle, hr.board]
  have hcontains := (Board.isFree_iff.mp h).1
  rw [Table.contains_eq_isSome, Option.isSome_eq_false_iff, Option.isNone_iff_eq_none] at hcontains
  refine ⟨hl, hcontains, ?_, ?_, hn, hr.templates⟩
  · rw [hboard, Board.entries_settle_withReserved h]
  · rw [hboard, Board.reserved_settle_withReserved h]

theorem meets_addBreakpoint (d : Descriptor) (s : Session) :
    (addBreakpoint d).run.Meets (keeping (Unchanged s) (Unchanged s)) (Added d s) s := by
  unfold addBreakpoint
  rw [CallM.meets_bind, CallM.meets_except]
  cases hl : d.location with
  | error e => exact ⟨rfl, rfl⟩
  | ok l =>
    dsimp only
    rw [CallM.meets_bind, CallM.meets_lift, Call.meets_locked]
    cases hfree : s.board.isFree l with
    | false =>
      rw [reserve_of_not_free hfree]
      exact ⟨l, hl, Board.isFree_eq_false_iff.mp hfree⟩
    | true =>
      rw [reserve_of_isFree hfree]
      dsimp only
      rw [if_pos rfl, CallM.meets_bind, CallM.meets_lift, Call.meets_holding]
      refine (meets_install fun u hu => unchanged_settle_none hfree hu).mono fun r u hru => ?_
      dsimp only
      rw [CallM.meets_bind, CallM.meets_modify]
      cases r with
      | error e => exact unchanged_settle_none hfree hru
      | ok a =>
        obtain ⟨b, rfl | ⟨e, rfl⟩, rfl, hr, hn⟩ := hru
        · exact stands_settle hl hfree hr hn
        · exact stands_settle hl hfree hr hn

theorem Unchanged.keeps {u v : Session} (h : Unchanged s u) (hk : Keeps u v) : Unchanged s v :=
  ⟨hk.board.trans h.1, hk.templates.trans h.2⟩

theorem Numbered.keeps {u v : Session} {id : UInt32} (h : Numbered s u id) (hk : Keeps u v) :
    Numbered s v id := by
  obtain ⟨answer, hanswer, hid⟩ := h
  exact ⟨answer, hk.reply? hanswer, hid⟩

theorem Stands.keeps {u v : Session} {d : Descriptor} {b : Breakpoint} (h : Stands d s u b)
    (hk : Keeps u v) : Stands d s v b := by
  refine ⟨h.location, h.absent, ?_, ?_, h.numbered.keeps hk, fun k hne => ?_⟩
  · rw [hk.board, h.installed]
  · rw [hk.board, h.reserved]
  · rw [hk.templates, h.templates k hne]

theorem Added.keeps {u v : Session} {d : Descriptor} {r : Except Error Addition}
    (h : Added d s r u) (hk : Keeps u v) : Added d s r v := by
  match r, h with
  | .error _, h => exact Unchanged.keeps h hk
  | .ok .alreadyInstalled, h => exact h
  | .ok (.added _), h => exact Stands.keeps h hk
  | .ok (.degraded _ _), h => exact Stands.keeps h hk

/-- A location that is taken is refused at once. -/
theorem advance_of_taken {d : Descriptor} {l : Location} (hl : d.location = .ok l)
    (ht : Taken l s) :
    (addBreakpoint d).run.advance s = (.done (.ok .alreadyInstalled), s) := by
  have hreserve := reserve_of_not_free (Board.isFree_eq_false_iff.mpr ht)
  unfold addBreakpoint
  rw [hl]
  change Call.advance (ExceptT.run (if (reserve l s).1 = true then _ else pure _)) (reserve l s).2 = _
  rw [hreserve]
  rfl

theorem waitsFor_install {l : Location} {d : Descriptor} (hopen : s.link = .open)
    (hr : s.exchange.reply? s.exchange.issued = none) :
    ∃ events, (install l d).run.WaitsFor s s.exchange.issued
      (issue (insertCommand l d.hitPolicy?) false { s with events }).2 := by
  obtain ⟨events, hwarn⟩ := warnHits_eq s d.hitPolicy?
  have hask := waitsFor_ask (s := { s with events }) hopen (insertCommand l d.hitPolicy?) hr
  refine ⟨events, ?_⟩
  unfold install
  rw [CallM.waitsFor_modify_bind, hwarn]
  exact CallM.waitsFor_bind hask _

/-- The first command for a location that is not taken inserts the breakpoint. -/
theorem waitsFor_addBreakpoint {d : Descriptor} {l : Location} (hl : d.location = .ok l)
    (ht : ¬ Taken l s) (hopen : s.link = .open)
    (hr : s.exchange.reply? s.exchange.issued = none) :
    ∃ u, (addBreakpoint d).run.WaitsFor s s.exchange.issued u ∧
      u.outbox = s.outbox ++ [.command s.exchange.freeToken (insertCommand l d.hitPolicy?)] := by
  have hfree : s.board.isFree l = true := by
    rw [← Bool.not_eq_false, Board.isFree_eq_false_iff]
    exact ht
  obtain ⟨events, hinstall⟩ :=
    waitsFor_install (s := { s with board := s.board.withReserved l }) (l := l) (d := d) hopen hr
  have houtbox := congrArg (·.2.outbox) <| issue_of_open
    (s := { s with board := s.board.withReserved l, events }) hopen
    (insertCommand l d.hitPolicy?) false
  refine ⟨_, ?_, houtbox⟩
  unfold addBreakpoint
  rw [hl, CallM.waitsFor_ok_bind, CallM.waitsFor_locked_bind, reserve_of_isFree hfree, if_pos rfl]
  exact CallM.waitsFor_bind (CallM.waitsFor_lift (hinstall.holding _)) _

/-! ## Any play -/

theorem result?_play_of_taken {d : Descriptor} {l : Location} (hl : d.location = .ok l)
    (ht : Taken l s) (turns : List Call.Turn) :
    (Call.play turns (addBreakpoint d).run s).1.result? = some (.ok .alreadyInstalled) := by
  rw [Call.play, advance_of_taken hl ht, Call.foldl_turn_done]
  rfl

/--
However the debugger behaves while a breakpoint is added, and wherever the call is given up: the
breakpoint stands as the debugger has numbered it, or nothing has changed. A location that is taken
is refused at once, and no other one stays reserved. The number is the one in the answer to the
first command of the call, which inserts the breakpoint.
-/
theorem addBreakpoint_atomic (d : Descriptor) (s : Session) (turns : List Call.Turn) :
    let p := Call.play turns (addBreakpoint d).run s
    (∀ b, p.1.result? = some (.ok (.added b)) ∨
      (∃ e, p.1.result? = some (.ok (.degraded b e))) → Stands d s p.2 b) ∧
    (p.1.result? = none ∨ (∃ e, p.1.result? = some (.error e)) → Unchanged s (p.1.drop p.2)) ∧
    (p.1.result? = some (.ok .alreadyInstalled) ↔ ∃ l, d.location = .ok l ∧ Taken l s) ∧
    (∀ l, d.location = .ok l → Taken l s →
      (addBreakpoint d).run.advance s = (.done (.ok .alreadyInstalled), s)) ∧
    (p.1.result? ≠ some (.ok .alreadyInstalled) →
      ∀ l, d.location = .ok l → l ∉ (p.1.drop p.2).board.reserved) ∧
    (∀ l, d.location = .ok l → ¬ Taken l s → s.link = .open →
      s.exchange.reply? s.exchange.issued = none →
      ∃ v, (addBreakpoint d).run.WaitsFor s s.exchange.issued v ∧
        v.outbox = s.outbox ++ [.command s.exchange.freeToken (insertCommand l d.hitPolicy?)]) := by
  intro p
  obtain ⟨hdone, hdropped⟩ : (∀ r, p.1.result? = some r → Added d s r p.2) ∧
      (p.1.result? = none → Unchanged s (p.1.drop p.2) ∨ Unchanged s (p.1.drop p.2)) :=
    (meets_addBreakpoint d s).play admits_keeping (fun _ _ _ h hk => h.keeps hk) turns
  have hnone : p.1.result? = none → Unchanged s (p.1.drop p.2) := fun h => (hdropped h).elim id id
  have hdrop : ∀ r, p.1.result? = some r → p.1.drop p.2 = p.2 := by
    intro r h
    rw [Call.eq_done_of_result? h]
    rfl
  have herror : ∀ e, p.1.result? = some (.error e) → Unchanged s (p.1.drop p.2) := by
    intro e h
    rw [hdrop _ h]
    exact hdone _ h
  have htaken : ∀ l, d.location = .ok l → Taken l s →
      p.1.result? = some (.ok .alreadyInstalled) :=
    fun l hl ht => result?_play_of_taken hl ht turns
  refine ⟨?_, ?_, ⟨hdone _, ?_⟩, fun l hl ht => advance_of_taken hl ht, ?_,
    fun l hl ht hopen hr => waitsFor_addBreakpoint hl ht hopen hr⟩
  · rintro b (h | ⟨e, h⟩)
    · exact hdone _ h
    · exact hdone _ h
  · rintro (h | ⟨e, h⟩)
    · exact hnone h
    · exact herror e h
  · rintro ⟨l, hl, ht⟩
    exact htaken l hl ht
  · intro hne l hl hmem
    have hfree : l ∉ s.board.reserved := fun h => hne (htaken l hl (.inr h))
    have hreserved : (p.1.drop p.2).board.reserved = s.board.reserved := by
      cases hresult : p.1.result? with
      | none => rw [(hnone hresult).1]
      | some r =>
        rw [hdrop r hresult]
        match r, hdone r hresult with
        | .error _, h => exact congrArg Board.reserved h.1
        | .ok .alreadyInstalled, _ => exact absurd hresult hne
        | .ok (.added _), h => exact h.reserved
        | .ok (.degraded _ _), h => exact h.reserved
    rw [hreserved] at hmem
    exact hfree hmem

/--
A debugger that takes the breakpoint and refuses its condition, and one that prints something else
until the caller gives up.
-/
theorem addBreakpoint_refused_or_given_up :
    let d : Descriptor := { raw := some "main", condition := some "x" }
    let s : Session := { link := .open }
    let refused := Call.play [.hear (Utf8.encode "1^done,bkpt=\x7bnumber=\"7\"\x7d\n"), .resume,
      .hear (Utf8.encode "2^error,msg=\"no\"\n"), .resume] (addBreakpoint d).run s
    let b : Breakpoint := ⟨7, .raw "main", none, none, some "x", none⟩
    let waiting := Call.play [.hear (Utf8.encode "~\"hello\"\n"), .resume] (addBreakpoint d).run s
    (refused.1.result? = some (.ok (.degraded b (.command "no" "break-condition 7 x"))) ∧
        Stands d s refused.2 b) ∧
      waiting.1.result? = none ∧ waiting.2.board.reserved = [.raw "main"] ∧
        Unchanged s (waiting.1.drop waiting.2) := by
  intro d s refused b waiting
  have hrefused : refused.1.result? =
      some (.ok (.degraded b (.command "no" "break-condition 7 x"))) := by decide +kernel
  have hwaiting : waiting.1.result? = none := by decide +kernel
  have hreserved : waiting.2.board.reserved = [.raw "main"] := by decide +kernel
  exact ⟨⟨hrefused, (addBreakpoint_atomic d s _).1 b (.inr ⟨_, hrefused⟩)⟩, hwaiting, hreserved,
    (addBreakpoint_atomic d s _).2.1 (.inl hwaiting)⟩

end Session

end MachineInterface

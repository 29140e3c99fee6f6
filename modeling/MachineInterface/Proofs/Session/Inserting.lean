import MachineInterface.Proofs.Session.Booking
import MachineInterface.Proofs.Session.Growth

/-!
# Inserting once

The debugger holds a breakpoint from its answer to the insert on, and the board learns of it when the
call ends. In between the call keeps its location reserved, and afterwards the board keeps the
breakpoint until a delete is written.

* `meets_addReserved`: a call that adds a breakpoint gives what the answer to its insert says.
* `custody_run`: who answers for a breakpoint after its insert was written.
* `insert_once`: when no second insert follows without a delete.
-/

namespace MachineInterface

open Text

open Session (Does Grows)

/-! ## The answer to an insert -/

/-- The terms of a call while others do what they like. -/
def hearing : Call.Terms where
  rely s u := s.exchange.completions <+: u.exchange.completions
  dropped _ := True
  left _ := True

theorem admits_hearing : hearing.Admits where
  refl _ := List.prefix_rfl
  trans h h' := h.trans h'
  receive s chunk := (Session.Keeps.receive s chunk).answers
  deafen s := (Session.Keeps.deafen s).answers
  finish s := (Session.Keeps.finish s).answers

theorem Call.Through.meets {α : Type} {extra : Deed → Prop} {c : Call α} {s : Session}
    {post : α → Session → Prop} (hc : c.Through extra)
    (hp : ∀ a u, s.exchange.completions <+: u.exchange.completions → post a u) :
    c.Meets hearing post s := by
  induction c generalizing s with
  | done a => exact hp a s List.prefix_rfl
  | step run next ih =>
    obtain ⟨hdoes, hnext⟩ := hc s
    exact ih _ hnext fun a u hu => hp a u ((Session.grows_of_does hdoes).answers.trans hu)
  | reply ticket release next ih =>
    exact fun u hu => ⟨trivial, fun r _ => ih r (hc.2 r) fun a v hv => hp a v (hu.trans hv)⟩
  | ending patient next ih =>
    intro u hu
    have hnext : ∀ b, (next b).Meets hearing post u :=
      fun b => ih b (hc b) fun a v hv => hp a v (hu.trans hv)
    exact ⟨trivial, fun _ => hnext true, fun _ => hnext false⟩

namespace Session

/-- The first command that was written from `s` on was answered, but without a number. -/
def Unnumbered (s u : Session) : Prop :=
  ∃ r : Reply, u.exchange.reply? s.exchange.issued = some r ∧
    ∀ answer, r = .ok answer → (answer.text? "bkpt.number").bind Numeral.readUInt32? = none

/-- What a call that adds a breakpoint gives is what the answer to its first command says. -/
def Answered (s : Session) : Except Error Addition → Session → Prop
  | .ok a, u => ∃ b, a.breakpoint? = some b ∧ Numbered s u b.id
  | .error _, u => Unnumbered s u

variable {s : Session}

theorem Numbered.mono {u v : Session} {id : UInt32} (h : Numbered s u id)
    (ha : u.exchange.completions <+: v.exchange.completions) : Numbered s v id := by
  obtain ⟨answer, hanswer, hid⟩ := h
  exact ⟨answer, Exchange.reply?_of_prefix ha hanswer, hid⟩

theorem Numbered.unique {u : Session} {id id' : UInt32} (h : Numbered s u id)
    (h' : Numbered s u id') : id = id' := by
  obtain ⟨answer, hanswer, hid⟩ := h
  obtain ⟨answer', hanswer', hid'⟩ := h'
  cases hanswer.symm.trans hanswer'
  exact Option.some.inj (hid.symm.trans hid')

theorem Unnumbered.not_numbered {u : Session} (h : Unnumbered s u) (id : UInt32) :
    ¬ Numbered s u id := by
  rintro ⟨answer, hanswer, hid⟩
  obtain ⟨r, hr, hnone⟩ := h
  rw [hnone answer (Option.some.inj (hr.symm.trans hanswer))] at hid
  cases hid

theorem Unnumbered.mono {u v : Session} (h : Unnumbered s u)
    (ha : u.exchange.completions <+: v.exchange.completions) : Unnumbered s v := by
  obtain ⟨r, hr, hnone⟩ := h
  exact ⟨r, Exchange.reply?_of_prefix ha hr, hnone⟩

theorem Answered.mono {r : Except Error Addition} {u v : Session} (h : Answered s r u)
    (ha : u.exchange.completions <+: v.exchange.completions) : Answered s r v := by
  cases r with
  | ok a =>
    obtain ⟨b, hb, hid⟩ := h
    exact ⟨b, hb, hid.mono ha⟩
  | error e => exact Unnumbered.mono h ha

theorem ofAnswer_eq_error {command : String} {l : Location} {d : Descriptor}
    {answer : ResultRecord} {e : Error} (h : Breakpoint.ofAnswer command l d answer = .error e) :
    (answer.text? "bkpt.number").bind Numeral.readUInt32? = none := by
  unfold Breakpoint.ofAnswer at h
  split at h
  · assumption
  · cases h

/-- What an attempt to insert a breakpoint gives is what the answer to its insert says. -/
theorem meets_install_hearing {l : Location} {d : Descriptor} (hopen : s.link = .open) :
    (install l d).run.Meets hearing (Answered s) s := by
  obtain ⟨events, hwarn⟩ := warnHits_eq s d.hitPolicy?
  have hissue := issue_of_open (s := { s with events }) hopen (insertCommand l d.hitPolicy?) false
  unfold install
  rw [CallM.meets_bind, CallM.meets_modify, hwarn]
  dsimp only
  rw [CallM.meets_bind, CallM.ask, CallM.send, CallM.meets_bind, CallM.meets_locked, hissue]
  refine CallM.meets_await.mpr fun u _ => ⟨trivial, fun r hr => ?_⟩
  cases r with
  | error e => exact ⟨_, hr, by rintro _ ⟨⟩⟩
  | ok answer =>
    dsimp only
    rw [CallM.meets_bind, CallM.meets_except]
    cases hb : Breakpoint.ofAnswer (insertCommand l d.hitPolicy?) l d answer with
    | error e =>
      refine ⟨_, hr, ?_⟩
      rintro _ ⟨⟩
      exact ofAnswer_eq_error hb
    | ok b =>
      have hnumber := (ofAnswer_eq_ok hb).2
      dsimp only
      have hcondition : (setCondition b.id d.condition).Through fun _ => False :=
        through_setCondition b.id d.condition
      have hmessage : (setLogMessage b.id d.logMessage).Through fun _ => False :=
        through_setLogMessage b.id d.logMessage
      rw [CallM.meets_bind, CallM.meets_attempt]
      refine Call.Through.meets hcondition fun condition v hv => ?_
      dsimp only
      rw [CallM.meets_bind, CallM.meets_attempt]
      refine Call.Through.meets hmessage fun message w hw => ?_
      have hnumbered : Numbered s w b.id :=
        ⟨answer, Exchange.reply?_of_prefix (hv.trans hw) hr, hnumber⟩
      dsimp only
      split
      · exact ⟨b, rfl, hnumbered⟩
      · exact ⟨b, rfl, hnumbered⟩

theorem meets_addReserved {l : Location} (d : Descriptor) (hopen : s.link = .open)
    (hfree : s.board.isFree l = true) :
    (addReserved l d).run.Meets hearing (Answered s) (s.reserve l).2 := by
  have hinstall : (install l d).run.Meets hearing (Answered (s.reserve l).2) (s.reserve l).2 := by
    apply meets_install_hearing
    rw [reserve_of_isFree hfree]
    exact hopen
  have hissued : (s.reserve l).2.exchange.issued = s.exchange.issued := by
    rw [reserve_of_isFree hfree]
  have hsettle : ∀ (r : Except Error Addition) u, Answered (s.reserve l).2 r u →
      Answered s r (settle l (standing r) u) := by
    intro r u h
    cases r with
    | ok a =>
      obtain ⟨b, hb, hid⟩ := h
      rw [Numbered, hissued] at hid
      exact ⟨b, hb, hid⟩
    | error e =>
      rw [Answered, Unnumbered, hissued] at h
      exact h
  unfold addReserved
  rw [CallM.run_lift_bind, Call.meets_bind, Call.meets_holding]
  exact hinstall.mono hsettle

end Session

open Session (Wrote Numbered Unnumbered Answered deleteCommand)

/-! ## Custody -/

namespace Ensemble

variable {s₀ : Session} {first e : Ensemble} {i : Nat} {l : Location}

/-- Nobody needs to answer for a breakpoint any more, or nobody does. -/
inductive Over (s₀ : Session) (first : Ensemble) (i : Nat) (l : Location) (e : Ensemble) : Prop
  | givenUp {o : Ongoing} (hi : e.calls[i]? = some o) (ho : o.rest? = none)
  | unnumbered (h : Unnumbered s₀ e.session)
  | deleted {id : UInt32} (hid : Numbered s₀ e.session id)
    (h : Wrote (deleteCommand id) first.session e.session)
  | cut (h : 2 ≤ e.session.link.stage)
  /-- A removal that was under way has taken another breakpoint for its own. -/
  | removed {j : Nat} {o o' : Ongoing} (hj : first.calls[j]? = some o) (ho : o.removing? = some l)
    (hj' : e.calls[j]? = some o') (ho' : o'.HasRemoved l)

/-- The removals at a location that wait did so at first. -/
def NoNewRemoval (first : Ensemble) (l : Location) (e : Ensemble) : Prop :=
  ∀ (j : Nat) (o : Ongoing), e.calls[j]? = some o → o.removing? = some l →
    ∃ o₁, first.calls[j]? = some o₁ ∧ o₁.removing? = some l

/-- Who answers for the breakpoint whose insert was written from `s₀` on. -/
inductive Custody (s₀ : Session) (first : Ensemble) (i : Nat) (l : Location) (e : Ensemble) : Prop
  /-- The call that adds it. -/
  | call {d : Descriptor} {c : Call (Except Error Addition)}
    (hi : e.calls[i]? = some ⟨.addBreakpoint d, some c⟩) (hl : d.location = .ok l)
    (hc : c.result? = none) (hmeets : c.Meets hearing (Answered s₀) e.session)
    (hremovals : NoNewRemoval first l e)
  /-- The board. -/
  | board {b : Breakpoint} (hget : e.session.board.get? l = some b)
    (hid : Numbered s₀ e.session b.id) (hremovals : NoNewRemoval first l e)
  | ended (h : Over s₀ first i l e)

theorem Over.turn (h : Over s₀ first i l e) (hp : e.Proper) (t : Turn) :
    Over s₀ first i l (e.turn t) := by
  have hgrows := hp.grows_turn t
  have hrests : ∀ {j : Nat} {o : Ongoing}, e.calls[j]? = some o → o.isWaiting = false →
      (e.turn t).calls[j]? = some o := by
    intro j o hj ho
    rcases getElem?_calls_turn hj t with hsame | ⟨m, -, hmoved⟩
    · exact hsame
    · rwa [Ongoing.move_of_not_waiting ho] at hmoved
  cases h with
  | givenUp hi ho =>
    refine .givenUp (hrests hi ?_) ho
    simp [Ongoing.isWaiting, ho]
  | unnumbered h => exact .unnumbered (h.mono hgrows.answers)
  | deleted hid h => exact .deleted (hid.mono hgrows.answers) (h.later hgrows)
  | cut h => exact .cut (h.trans hgrows.link)
  | removed hj ho hj' ho' =>
    refine .removed hj ho (hrests hj' ?_) ho'
    obtain ⟨d, -, rfl⟩ := ho'
    rfl

theorem NoNewRemoval.turn (h : NoNewRemoval first l e) (hf : e.Follows) (t : Turn)
    (hcall : ∀ op, t = .call op →
      Ongoing.removing? ⟨op, some (op.call.advance e.session).1⟩ ≠ some l) :
    NoNewRemoval first l (e.turn t) := by
  intro j o' hj ho'
  rcases getElem?_of_calls_turn hj with hold | ⟨m, o, rfl, hold, rfl⟩ | ⟨op, rfl, rfl⟩
  · exact h j o' hold ho'
  · rcases ((hf o (List.mem_of_getElem? hold)).move m e.session).2.removing? with hnone | hsame
    · rw [hnone] at ho'
      cases ho'
    · exact h j o hold (hsame ▸ ho')
  · exact absurd ho' (hcall op rfl)

/-- Where no breakpoint stands, a removal is done at once. -/
theorem removing?_call_of_none (hget : e.session.board.get? l = none) (op : Operation) :
    Ongoing.removing? ⟨op, some (op.call.advance e.session).1⟩ ≠ some l := by
  intro hremoving
  by_cases hremoves : op.removes? = some l
  · obtain ⟨d, rfl, hl⟩ := Operation.location_of_removes? hremoves
    have hadvance := Session.advance_removeBreakpoint_of_none hl hget
    simp only [Operation.call, hadvance] at hremoving
    cases hremoving
  · rw [Ongoing.removing?] at hremoving
    split at hremoving
    · exact hremoves hremoving
    · cases hremoving

/-- A new call leaves a breakpoint that stands, or it deletes it at once. -/
theorem stands_call {b : Breakpoint} (hget : e.session.board.get? l = some b)
    (hopen : e.session.link = .open) (op : Operation) :
    ((e.turn (.call op)).session.board.get? l = some b ∧
      Ongoing.removing? ⟨op, some (op.call.advance e.session).1⟩ ≠ some l) ∨
      Wrote (deleteCommand b.id) e.session (e.turn (.call op)).session := by
  by_cases hremoves : op.removes? = some l
  · right
    obtain ⟨d, rfl, hl⟩ := Operation.location_of_removes? hremoves
    have hadvance := Session.advance_removeBreakpoint_of_some hl hget
    simp only [Ensemble.turn, Operation.call, hadvance]
    exact Session.wrote_removeFound hopen l b.id
  have hremoving : Ongoing.removing? ⟨op, some (op.call.advance e.session).1⟩ ≠ some l := by
    rw [Ongoing.removing?]
    split
    · exact hremoves
    · rintro ⟨⟩
  rcases refused_or_free e op with ⟨a, ha⟩ | hfree
  · exact .inl ⟨ha ▸ hget, hremoving⟩
  have hadds : op.adds? ≠ some l := by
    intro hl
    have hnone := Board.get?_of_isFree (hfree l hl)
    rw [hget] at hnone
    cases hnone
  rcases op.get?_opened e.session hfree hget with hopened | ⟨source, rfl, hmem⟩
  · refine .inl ⟨?_, hremoving⟩
    have hbegins := (op.begins_call e.session).2
    change (op.call.advance e.session).2.board.get? l = some b
    generalize (⟨op, some (op.call.advance e.session).1⟩ : Ongoing) = o at hbegins
    generalize (op.call.advance e.session).2 = u at hbegins
    cases hbegins with
    | fails hlaunch ha => rw [Session.board_launchFailed, hget]
    | goes hgoes =>
      rcases hgoes.get? hadds with hsame | ⟨hl, -⟩
      · rw [hsame, hopened]
      · exact absurd hl hremoves
  · exact .inr (Session.wrote_clearTaken (s := (e.session.takeSource source).2) hmem hopen)

/-- The call hands its breakpoint to the board, unless the debugger gave it no number. -/
theorem custody_move {d : Descriptor} {c : Call (Except Error Addition)} (hf : e.Follows)
    (hi : e.calls[i]? = some ⟨.addBreakpoint d, some c⟩) (hl : d.location = .ok l)
    (hc : c.result? = none) (hmeets : c.Meets hearing (Answered s₀) e.session) (m : Ongoing.Move)
    (hremovals : NoNewRemoval first l (e.turn (.move i m))) :
    Custody s₀ first i l (e.turn (.move i m)) := by
  have hmoves := ((hf _ (List.mem_of_getElem? hi)).move m e.session).2
  have hnext : ∀ c', (Ongoing.move ⟨.addBreakpoint d, some c⟩ m e.session).1 =
      ⟨.addBreakpoint d, some c'⟩ →
      c'.Meets hearing (Answered s₀) (Ongoing.move ⟨.addBreakpoint d, some c⟩ m e.session).2 :=
    fun _ hc' => Ongoing.meets_move admits_hearing hmeets hc'
  have hwaits : Ongoing.isWaiting ⟨.addBreakpoint d, some c⟩ = true := Ongoing.isWaiting_some.mpr hc
  obtain ⟨hlt, -⟩ := List.getElem?_eq_some_iff.mp hi
  rw [turn_move hi] at hremovals ⊢
  generalize (Ongoing.move ⟨.addBreakpoint d, some c⟩ m e.session) = p at *
  obtain ⟨o', u⟩ := p
  have hset : (e.calls.set i o')[i]? = some o' := List.getElem?_set_self hlt
  cases hmoves with
  | rests ho =>
    rw [hwaits] at ho
    cases ho
  | goes ho hgoes =>
    cases hgoes with
    | waits hc' hdoes => exact .call hset hl hc' (hnext _ rfl) hremovals
    | @ends a v found hdoes =>
      have hanswered : Answered s₀ a _ := hnext (.done a) rfl
      cases a with
      | error error => exact .ended (.unnumbered hanswered)
      | ok addition =>
        obtain ⟨b, hb, hid⟩ := hanswered
        refine .board ?_ hid hremovals
        have hne : (.ok addition : Except Error Addition) ≠ .ok .alreadyInstalled := by
          rintro ⟨⟩
          cases hb
        have hlast := Operation.settlement?_of_ne hl hne
        change (Deed.after (Operation.settlement? d (.ok addition)) v).board.get? l = some b
        rw [hlast]
        change (v.board.settle l addition.breakpoint?).get? l = some b
        rw [hb]
        exact Board.get?_settle_self _ l b
  | leaves ho hdoes hd => exact .ended (.givenUp hset rfl)

/-- The board keeps its breakpoint, unless it is deleted or a removal that was under way ends. -/
theorem custody_of_board {b : Breakpoint} (hp : e.Proper) (hf : e.Follows) (hb : e.Booked)
    (hgrows : Grows first.session e.session) (hopen : e.session.link = .open)
    (hget : e.session.board.get? l = some b) (hid : Numbered s₀ e.session b.id)
    (hremovals : NoNewRemoval first l e) (t : Turn) : Custody s₀ first i l (e.turn t) := by
  have hlater := hid.mono (hp.grows_turn t).answers
  cases t with
  | call op =>
    rcases stands_call hget hopen op with ⟨hstays, hremoving⟩ | hwrote
    · refine .board hstays hlater (hremovals.turn hf _ fun op' hop' => ?_)
      cases hop'
      exact hremoving
    · exact .ended (.deleted hlater (hwrote.earlier hgrows))
  | move j m =>
    have hremovals' := hremovals.turn hf (.move j m) fun op h => Turn.noConfusion h
    cases hj : e.calls[j]? with
    | none =>
      rw [turn_move_none hj]
      exact .board hget hid hremovals
    | some o =>
      have hmoves := ((hf o (List.mem_of_getElem? hj)).move m e.session).2
      have hadding : o.adding? ≠ some l := by
        intro hl
        have hnone := hb.vacant l (hb.reserved j o l hj hl)
        rw [hget] at hnone
        cases hnone
      obtain ⟨hlt, -⟩ := List.getElem?_eq_some_iff.mp hj
      rw [turn_move hj] at hremovals' hlater ⊢
      generalize o.move m e.session = p at hmoves hremovals' hlater ⊢
      rcases hmoves.get? hadding with hsame | ⟨hremoving, hremoved⟩
      · exact .board (hsame.trans hget) hlater hremovals'
      · obtain ⟨o₁, hj₁, ho₁⟩ := hremovals j o hj hremoving
        exact .ended (.removed hj₁ ho₁ (List.getElem?_set_self hlt) hremoved)
  | news n =>
    have hremovals' := hremovals.turn hf (.news n) fun op h => Turn.noConfusion h
    cases hc : e.session.isConnected with
    | true =>
      rw [turn_news hc] at hremovals' hlater ⊢
      refine .board ?_ hlater hremovals'
      rw [Session.board_news, hget]
    | false =>
      rw [turn_news_of_not_connected hc]
      exact .board hget hid hremovals

theorem Custody.turn (h : Custody s₀ first i l e) (hp : e.Proper) (hf : e.Follows) (hb : e.Booked)
    (hgrows : Grows first.session e.session) (hfirst : 1 ≤ first.session.link.stage) (t : Turn) :
    Custody s₀ first i l (e.turn t) := by
  cases h with
  | @call d c hi hl hc hmeets hremovals =>
    -- While the location is reserved nothing stands there, so a new removal ends at once.
    have hvacant := hb.vacant l (hb.reserved i _ l hi (Ongoing.adding?_of_waiting hl hc))
    have hremovals' := hremovals.turn hf t fun op _ => removing?_call_of_none hvacant op
    rcases getElem?_calls_turn hi t with hsame | ⟨m, rfl, -⟩
    · obtain ⟨hpaused, -⟩ := hp _ (List.mem_of_getElem? hi) c rfl
      have hlater := hmeets.later admits_hearing (fun _ _ _ h hu => h.mono hu) hpaused
        (hp.grows_turn t).answers
      exact .call hsame hl hc hlater hremovals'
    · exact custody_move hf hi hl hc hmeets m hremovals'
  | board hget hid hremovals =>
    -- Without a debugger that reads no delete is written, but no insert is either.
    by_cases hcut : 2 ≤ e.session.link.stage
    · exact .ended ((Over.cut hcut).turn hp t)
    · have hopen : e.session.link = .open := by
        have hstage := hfirst.trans hgrows.link
        cases hlink : e.session.link <;> rw [hlink] at hcut hstage <;> simp_all [Link.stage]
      exact custody_of_board hp hf hb hgrows hopen hget hid hremovals t
  | ended h => exact .ended (h.turn hp t)

theorem Custody.foldl_turn (h : Custody s₀ first i l e) (hp : e.Proper) (hf : e.Follows)
    (hb : e.Booked) (hgrows : Grows first.session e.session)
    (hfirst : 1 ≤ first.session.link.stage) (turns : List Turn) :
    Custody s₀ first i l (turns.foldl Ensemble.turn e) := by
  induction turns generalizing e with
  | nil => exact h
  | cons t turns ih =>
    have hlater := hgrows.trans (hp.grows_turn t)
    exact ih (h.turn hp hf hb hgrows hfirst t) (hp.turn t) (hf.turn t) (hb.turn hf t) hlater

/-! ## Two inserts -/

/-- A new call would write the command that inserts a breakpoint at a location. -/
def Inserts (e : Ensemble) (d : Descriptor) (l : Location) : Prop :=
  d.location = .ok l ∧ ∃ token, (e.turn (.call (.addBreakpoint d))).session.outbox =
    e.session.outbox ++ [.command token (insertCommand l d.hitPolicy?)]

theorem Inserts.isFree {d : Descriptor} (h : e.Inserts d l) :
    e.session.board.isFree l = true := by
  obtain ⟨hl, token, houtbox⟩ := h
  rw [← Bool.not_eq_false]
  intro ht
  obtain ⟨a, ha⟩ := turn_of_taken (Operation.adds?_of_location hl) ht
  rw [ha] at houtbox
  simp at houtbox

theorem Inserts.link {d : Descriptor} (h : e.Inserts d l) : e.session.link = .open := by
  obtain ⟨-, token, houtbox⟩ := h
  by_contra hlink
  have hdoes : Does (Operation.addBreakpoint d).extra e.session
      (e.turn (.call (.addBreakpoint d))).session := does_call rfl
  have hsame := Session.outbox_of_not_open hdoes (fun deed hdeed => ?_) hlink
  · rw [hsame] at houtbox
    simp at houtbox
  · obtain ⟨k, -, rfl | ⟨outcome, rfl⟩⟩ := hdeed <;> rintro ⟨⟩

/-- After an insert was written, the call that wrote it answers for the breakpoint. -/
theorem custody_first {d : Descriptor} (ho : e.session.exchange.Orderly) (h : e.Inserts d l) :
    Custody e.session (e.turn (.call (.addBreakpoint d))) e.calls.length l
      (e.turn (.call (.addBreakpoint d))) := by
  have hl := h.1
  have hopen := h.link
  have ht : ¬ Session.Taken l e.session := by
    rw [Session.Taken, ← Board.isFree_eq_false_iff, h.isFree]
    rintro ⟨⟩
  obtain ⟨u, ⟨release, next, hwaits⟩, -⟩ :=
    Session.waitsFor_addBreakpoint hl ht hopen ho.reply?_issued
  have hafter := (Session.meets_addReserved d hopen h.isFree).advance admits_hearing
  rw [← Session.advance_addBreakpoint hl h.isFree] at hafter
  refine .call (c := ((Session.addBreakpoint d).run.advance e.session).1) ?_ hl ?_ hafter ?_
  · exact List.getElem?_concat_length
  · rw [hwaits]
    rfl
  · exact fun j o hj ho => ⟨o, hj, ho⟩

/-- After any turns somebody answers for the breakpoint, or nobody needs to. -/
theorem custody_run (config : Config) (earlier between : List Turn) {d : Descriptor}
    (h : (run config earlier).Inserts d l) :
    let before := run config earlier
    let first := before.turn (.call (.addBreakpoint d))
    Custody before.session first before.calls.length l (between.foldl Ensemble.turn first) := by
  intro before first
  have hrun : first = run config (earlier ++ [.call (.addBreakpoint d)]) :=
    (run_snoc config earlier _).symm
  have hproper : first.Proper := hrun ▸ Proper.run config _
  have hfollows : first.Follows := hrun ▸ follows_run config _
  have hbooked : first.Booked := hrun ▸ booked_run config _
  have hstage : 1 ≤ first.session.link.stage := by
    have hgrows := ((Proper.run config earlier).grows_turn (.call (.addBreakpoint d))).link
    rwa [h.link] at hgrows
  have hcustody := custody_first (accounted_run config earlier).orderly h
  exact hcustody.foldl_turn hproper hfollows hbooked (Grows.refl _) hstage between

/--
Two inserts at one location are written only if a delete of the first breakpoint was written in
between, unless the first call was given up or a removal from before has ended meanwhile.
-/
theorem insert_once (config : Config) (earlier between later : List Turn) {d d' : Descriptor}
    {l : Location} {id : UInt32} :
    let before := run config earlier
    let first := before.turn (.call (.addBreakpoint d))
    let last := between.foldl turn first
    let answered := later.foldl turn last
    before.Inserts d l → last.Inserts d' l → Numbered before.session answered.session id →
      (∀ o : Ongoing, last.calls[before.calls.length]? = some o → o.rest? ≠ none) →
      (∀ (j : Nat) (o o' : Ongoing), first.calls[j]? = some o → o.removing? = some l →
        last.calls[j]? = some o' → ¬ o'.HasRemoved l) →
      Wrote (deleteCommand id) first.session last.session := by
  intro before first last answered hfirst hsecond hid hkept hremovals
  have hrun : last = run config (earlier ++ [.call (.addBreakpoint d)] ++ between) := by
    rw [run_append, run_snoc]
  have hproper : last.Proper := hrun ▸ Proper.run config _
  have hbooked : last.Booked := hrun ▸ booked_run config _
  have hanswers := (hproper.grows_foldl_turn later).answers
  -- The second insert finds its location free, so neither the first call nor the board can still
  -- answer for the breakpoint.
  have hunreserved : l ∉ last.session.board.reserved := (Board.isFree_iff.mp hsecond.isFree).2
  have hvacant : last.session.board.get? l = none := Board.get?_of_isFree hsecond.isFree
  cases custody_run config earlier between hfirst with
  | call hi hl hc _ _ =>
    have hreserved := hbooked.reserved _ _ l hi (Ongoing.adding?_of_waiting hl hc)
    exact absurd hreserved hunreserved
  | board hget _ _ =>
    have hstands := hvacant.symm.trans hget
    cases hstands
  | ended h =>
    cases h with
    | givenUp hi ho => exact absurd ho (hkept _ hi)
    | unnumbered h => exact absurd hid ((h.mono hanswers).not_numbered id)
    | deleted hid' hwrote =>
      rw [hid.unique (hid'.mono hanswers)]
      exact hwrote
    | cut hcut =>
      rw [hsecond.link] at hcut
      exact absurd hcut (by decide)
    | removed hj ho hj' ho' => exact absurd ho' (hremovals _ _ _ hj ho hj')

theorem insert_once_after_removal :
    let d : Descriptor := { raw := some "main" }
    let earlier : List Turn := [.call (.bringUp { cwd := "/w", mode := .load "a.out" none none })]
    let before := run {} earlier
    let first := before.turn (.call (.addBreakpoint d))
    let between : List Turn := [.news (.hear (Utf8.encode "6^done,bkpt=\x7bnumber=\"1\"\x7d\n")),
      .move 1 .resume, .call (.removeBreakpoint d), .news (.hear (Utf8.encode "7^done\n")),
      .move 2 .resume]
    let last := between.foldl turn first
    let later : List Turn := [.call (.addBreakpoint d),
      .news (.hear (Utf8.encode "8^done,bkpt=\x7bnumber=\"2\"\x7d\n"))]
    let answered := later.foldl turn last
    before.Inserts d (.raw "main") ∧ last.Inserts d (.raw "main") ∧
      Numbered before.session answered.session 1 ∧ Numbered last.session answered.session 2 ∧
      Wrote (deleteCommand 1) first.session last.session := by
  intro d earlier before first between last later answered
  have hfirst : before.Inserts d (.raw "main") := ⟨rfl, 6, by decide +kernel⟩
  have hsecond : last.Inserts d (.raw "main") := ⟨rfl, 8, by decide +kernel⟩
  have hnumbered : Numbered before.session answered.session 1 :=
    ⟨⟨some 6, .done, [("bkpt", .tuple [("number", .const "1")])]⟩, by decide +kernel,
      by decide +kernel⟩
  have hnumbered' : Numbered last.session answered.session 2 :=
    ⟨⟨some 8, .done, [("bkpt", .tuple [("number", .const "2")])]⟩, by decide +kernel,
      by decide +kernel⟩
  have hkept : ∀ o : Ongoing, last.calls[before.calls.length]? = some o → o.rest? ≠ none := by
    have hall : last.calls[before.calls.length]?.all (·.rest?.isSome) = true := by decide +kernel
    intro o ho hnone
    rw [ho] at hall
    simp [hnone] at hall
  have hremovals : ∀ (j : Nat) (o o' : Ongoing), first.calls[j]? = some o →
      o.removing? = some (.raw "main") → last.calls[j]? = some o' →
      ¬ o'.HasRemoved (.raw "main") := by
    have hall : first.calls.all (·.removing?.isNone) = true := by decide +kernel
    intro j o o' hj ho
    have hnone := List.all_eq_true.mp hall o (List.mem_of_getElem? hj)
    rw [ho] at hnone
    cases hnone
  have hwrote := @insert_once {} earlier between later d d (.raw "main") 1
  exact ⟨hfirst, hsecond, hnumbered, hnumbered', hwrote hfirst hsecond hnumbered hkept hremovals⟩

/--
A call is given up after the debugger has numbered its breakpoint, and a removal from before takes a
later breakpoint for its own.
-/
theorem inserted_twice :
    let l : Launch := { cwd := "/w", mode := .load "a.out" none none }
    let main : Descriptor := { raw := some "main" }
    let guarded : Descriptor := { raw := some "main", condition := some "x" }
    let numbers (command number : String) : Turn := .news (.hear (Utf8.encode
      (command ++ "^done,bkpt=\x7bnumber=\"" ++ number ++ "\"\x7d\n")))
    let before := run {} [.call (.bringUp l)]
    let first := before.turn (.call (.addBreakpoint guarded))
    let last := [numbers "6" "1", .move 1 .resume, .move 1 .giveUp].foldl turn first
    let answered := [.call (.addBreakpoint main), numbers "8" "2"].foldl turn last
    let before' := [.call (.addBreakpoint main), numbers "6" "1", .move 1 .resume,
      .call (.removeBreakpoint main), .call (.clearBreakpoints none)].foldl turn before
    let first' := before'.turn (.call (.addBreakpoint main))
    let last' := [numbers "9" "2", .move 4 .resume, .news (.hear (Utf8.encode "7^done\n")),
      .move 2 .resume].foldl turn first'
    let answered' := [.call (.addBreakpoint main), numbers "10" "3"].foldl turn last'
    (before.Inserts guarded (.raw "main") ∧ last.Inserts main (.raw "main") ∧
        Numbered before.session answered.session 1 ∧ Numbered last.session answered.session 2 ∧
        ¬ Wrote (deleteCommand 1) first.session last.session) ∧
      before'.Inserts main (.raw "main") ∧ last'.Inserts main (.raw "main") ∧
        Numbered before'.session answered'.session 2 ∧
        Numbered last'.session answered'.session 3 ∧
        ¬ Wrote (deleteCommand 2) first'.session last'.session := by
  intro l main guarded numbers before first last answered before' first' last' answered'
  have hbetween : last.session.outbox.drop first.session.outbox.length =
      [.command 7 "break-condition 1 x"] := by decide +kernel
  have hbetween' : last'.session.outbox.drop first'.session.outbox.length = [] := by decide +kernel
  refine ⟨⟨⟨rfl, 6, by decide +kernel⟩, ⟨rfl, 8, by decide +kernel⟩, ?_, ?_, ?_⟩,
    ⟨rfl, 9, by decide +kernel⟩, ⟨rfl, 10, by decide +kernel⟩, ?_, ?_, ?_⟩
  · exact ⟨⟨some 6, .done, [("bkpt", .tuple [("number", .const "1")])]⟩, by decide +kernel,
      by decide +kernel⟩
  · exact ⟨⟨some 8, .done, [("bkpt", .tuple [("number", .const "2")])]⟩, by decide +kernel,
      by decide +kernel⟩
  · rintro ⟨token, hmem⟩
    rw [hbetween] at hmem
    obtain ⟨-, htext⟩ := Outgoing.command.inj (List.mem_singleton.mp hmem)
    exact absurd htext (by decide)
  · exact ⟨⟨some 9, .done, [("bkpt", .tuple [("number", .const "2")])]⟩, by decide +kernel,
      by decide +kernel⟩
  · exact ⟨⟨some 10, .done, [("bkpt", .tuple [("number", .const "3")])]⟩, by decide +kernel,
      by decide +kernel⟩
  · rintro ⟨token, hmem⟩
    rw [hbetween'] at hmem
    cases hmem

end Ensemble

end MachineInterface

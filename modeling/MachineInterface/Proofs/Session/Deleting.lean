import MachineInterface.Proofs.Breakpoint.Turnover
import MachineInterface.Proofs.Session.Closing
import MachineInterface.Proofs.Session.Tallying

/-!
# What a removal takes

A removal reads the number of the breakpoint at its location, lets the debugger delete it, and
empties the location when this is answered. Other calls run while it waits.

* `exists_changes_turn`: what a turn makes of the board, as changes of the board alone.
* `puts_of_stands`: a breakpoint that is new at its location was added by the call of this turn.
* `removal_takes`: which breakpoint leaves the board where a removal ends.
-/

namespace MachineInterface

open Session (Bides deleteCommand removeFound)

/-! ## Boards -/

namespace Board

/-- A board after some changes of another one. -/
def Leads (b b' : Board) : Prop := ∃ changes : List Change, b' = changes.foldl after b

variable {b b' b'' : Board}

theorem Leads.refl (b : Board) : Leads b b := ⟨[], rfl⟩

theorem Leads.trans (h : Leads b b') (h' : Leads b' b'') : Leads b b'' := by
  obtain ⟨changes, rfl⟩ := h
  obtain ⟨more, rfl⟩ := h'
  exact ⟨changes ++ more, List.foldl_append.symm⟩

theorem Leads.single (b : Board) (c : Change) : Leads b (b.after c) := ⟨[c], rfl⟩

end Board

namespace Operation

theorem leads_finale (op : Operation) (found : UInt32) (a : op.Answer) (s : Session) :
    s.board.Leads (Deed.after (op.finale? found a) s).board := by
  rcases op.board_finale found a s with h | ⟨l, outcome, -, h⟩ | ⟨l, -, -, h⟩
  · rw [h]
    exact .refl _
  · rw [h]
    exact .single _ (.settle l outcome)
  · rw [h]
    exact .single _ (.remove l)

theorem leads_opened (op : Operation) (s : Session)
    (hfree : ∀ l, op.adds? = some l → s.board.isFree l = true) :
    s.board.Leads (op.opened s).board := by
  rcases op.board_opened s hfree with ⟨h, -⟩ | ⟨l, hl, h⟩ | ⟨source, -, h⟩
  · rw [h]
    exact .refl _
  · have hreserve := Board.reserve?_of_isFree (hfree l hl)
    refine ⟨[.reserve l], ?_⟩
    rw [h, List.foldl_cons, List.foldl_nil, Board.after, hreserve, Option.getD_some]
  · rw [h]
    exact .single _ (.takeSource source)

end Operation

namespace Ongoing

variable {s u : Session} {o o' : Ongoing} {op : Operation}

theorem Goes.leads (h : Goes op s o u) : s.board.Leads u.board := by
  cases h with
  | waits hc hdoes =>
    rw [Session.board_of_bides hdoes]
    exact .refl _
  | @ends a v found hdoes =>
    rw [← Session.board_of_bides hdoes]
    exact op.leads_finale found a v

theorem Moves.leads (h : Moves s o o' u) : s.board.Leads u.board := by
  cases h with
  | rests ho => exact .refl _
  | goes ho hgoes => exact hgoes.leads
  | @leaves v d? ho hdoes hd =>
    rw [← Session.board_of_bides hdoes]
    rcases hd with rfl | rfl
    · exact .refl _
    · rcases o.op.board_release v with h | ⟨l, -, h⟩
      · rw [h]
        exact .refl _
      · rw [h]
        exact .single _ (.settle l none)

end Ongoing

theorem Operation.Begins.leads {op : Operation} {s u : Session} {o : Ongoing}
    (h : Operation.Begins op s o u) (hfree : ∀ l, op.adds? = some l → s.board.isFree l = true) :
    s.board.Leads u.board := by
  cases h with
  | fails hlaunch ha =>
    rw [Session.board_launchFailed]
    exact .refl _
  | goes hgoes => exact (op.leads_opened s hfree).trans hgoes.leads

namespace Ensemble

variable {e : Ensemble}

/-- A turn makes nothing else of the board than changes of a board do. -/
theorem Follows.leads_turn (h : e.Follows) (t : Turn) :
    e.session.board.Leads (e.turn t).session.board := by
  cases t with
  | call op =>
    rcases refused_or_free e op with ⟨a, ha⟩ | hfree
    · rw [ha]
      exact .refl _
    · exact (op.begins_call e.session).2.leads hfree
  | move i m =>
    cases hi : e.calls[i]? with
    | none =>
      rw [turn_move_none hi]
      exact .refl _
    | some o =>
      rw [turn_move hi]
      exact ((h o (List.mem_of_getElem? hi)).move m e.session).2.leads
  | news n =>
    cases hc : e.session.isConnected with
    | true =>
      rw [turn_news hc]
      dsimp only
      rw [Session.board_news]
      exact .refl _
    | false =>
      rw [turn_news_of_not_connected hc]
      exact .refl _

/-- In every run the board is one that changes of an empty board lead to. -/
theorem exists_board_run (config : Config) (turns : List Turn) :
    ∃ changes, (run config turns).session.board = Board.run changes := by
  induction turns using List.reverseRecOn with
  | nil => exact ⟨[], rfl⟩
  | append_singleton turns t ih =>
    obtain ⟨changes, hchanges⟩ := ih
    obtain ⟨more, hmore⟩ := (follows_run config turns).leads_turn t
    refine ⟨changes ++ more, ?_⟩
    rw [run_snoc, hmore, hchanges]
    exact List.foldl_append.symm

theorem sound_board_run (config : Config) (turns : List Turn) :
    (run config turns).session.board.Sound := by
  obtain ⟨changes, hchanges⟩ := exists_board_run config turns
  rw [hchanges]
  exact Board.sound_run changes

end Ensemble

/-! ## New breakpoints -/

namespace Operation

variable {l : Location} {b : Breakpoint} {s : Session}

/-- A breakpoint that is new after the last deed of a call was added by this call. -/
theorem placed?_of_finale {op : Operation} {found : UInt32} {a : op.Answer}
    (h : (Deed.after (op.finale? found a) s).board.get? l = some b)
    (hnew : s.board.get? l ≠ some b) :
    op.adds? = some l ∧ Ongoing.placed? ⟨op, some (.done a)⟩ = some b := by
  rcases op.board_finale found a s with hboard | ⟨k, outcome, hk, -⟩ | ⟨k, -, -, hboard⟩
  · rw [hboard] at h
    exact absurd h hnew
  · obtain ⟨d, rfl, hd⟩ := location_of_adds? hk
    by_cases ha : a = .ok .alreadyInstalled
    · subst ha
      exact absurd h hnew
    · have hlast : Operation.finale? found (.addBreakpoint d) a = some (.settle k (Session.standing a)) :=
        settlement?_of_ne hd ha
      rw [hlast] at h
      change (s.board.settle k (Session.standing a)).get? l = some b at h
      by_cases hkl : k = l
      · subst hkl
        refine ⟨hk, ?_⟩
        cases hstanding : Session.standing a with
        | none =>
          rw [hstanding] at h
          exact absurd h hnew
        | some b' =>
          rw [hstanding, Board.get?_settle_self] at h
          obtain rfl := Option.some.inj h
          cases a with
          | error e => cases hstanding
          | ok a => exact hstanding
      · rw [Board.get?_settle_of_ne _ hkl] at h
        exact absurd h hnew
  · rw [hboard, Board.get?_remove] at h
    split at h
    · cases h
    · exact absurd h hnew

/-- The opening of a call puts no breakpoint. -/
theorem get?_of_opened {op : Operation} (hsound : s.board.Sound)
    (hfree : ∀ l, op.adds? = some l → s.board.isFree l = true)
    (h : (op.opened s).board.get? l = some b) : s.board.get? l = some b := by
  rcases op.board_opened s hfree with ⟨hboard, -⟩ | ⟨k, -, hboard⟩ | ⟨source, -, hboard⟩
  · rwa [hboard] at h
  · rwa [hboard] at h
  · rw [hboard, hsound.get?_takeSource, Option.filter_eq_some_iff] at h
    exact h.1

end Operation

namespace Ongoing

variable {s u : Session} {o o' : Ongoing} {op : Operation} {l : Location} {b : Breakpoint}

theorem Goes.placed? (h : Goes op s o u) (hget : u.board.get? l = some b)
    (hnew : s.board.get? l ≠ some b) : op.adds? = some l ∧ o.op = op ∧ o.placed? = some b := by
  cases h with
  | waits hc hdoes =>
    rw [Session.board_of_bides hdoes] at hget
    exact absurd hget hnew
  | @ends a v found hdoes =>
    rw [← Session.board_of_bides hdoes] at hnew
    obtain ⟨hadds, hplaced⟩ := Operation.placed?_of_finale hget hnew
    exact ⟨hadds, rfl, hplaced⟩

theorem Moves.placed? (h : Moves s o o' u) (hget : u.board.get? l = some b)
    (hnew : s.board.get? l ≠ some b) :
    o.isWaiting = true ∧ o.op.adds? = some l ∧ o'.op = o.op ∧ o'.placed? = some b := by
  cases h with
  | rests ho => exact absurd hget hnew
  | goes ho hgoes => exact ⟨ho, hgoes.placed? hget hnew⟩
  | @leaves v d? ho hdoes hd =>
    rw [← Session.board_of_bides hdoes] at hnew
    rcases hd with rfl | rfl
    · exact absurd hget hnew
    · rcases o.op.board_release v with hboard | ⟨k, -, hboard⟩
      · rw [hboard] at hget
        exact absurd hget hnew
      · rw [hboard] at hget
        exact absurd hget hnew

end Ongoing

namespace Ensemble

variable {e : Ensemble} {l : Location} {b : Breakpoint}

/-- In a turn from `e`, a call that adds a breakpoint at a location has ended with this one. -/
def Puts (e : Ensemble) (t : Turn) (l : Location) (b : Breakpoint) : Prop :=
  ∃ o, e.Gains (e.turn t) o ∧ o.op.adds? = some l ∧ o.placed? = some b

theorem puts_of_stands (hf : e.Follows) (hsound : e.session.board.Sound) {t : Turn}
    (h : (e.turn t).session.board.get? l = some b) (hnew : e.session.board.get? l ≠ some b) :
    e.Puts t l b := by
  cases t with
  | call op =>
    rcases refused_or_free e op with ⟨a, ha⟩ | hfree
    · rw [ha] at h
      exact absurd h hnew
    · have hgains := gains_call e op
      have hbegins := (op.begins_call e.session).2
      have hsession : (e.turn (.call op)).session = (op.call.advance e.session).2 := rfl
      rw [hsession] at h
      refine ⟨_, hgains, ?_⟩
      generalize (⟨op, some (op.call.advance e.session).1⟩ : Ongoing) = o at hbegins
      generalize (op.call.advance e.session).2 = u at hbegins h
      cases hbegins with
      | fails hlaunch ha =>
        rw [Session.board_launchFailed] at h
        exact absurd h hnew
      | goes hgoes =>
        have hopened : (op.opened e.session).board.get? l ≠ some b :=
          fun hopened => hnew (Operation.get?_of_opened hsound hfree hopened)
        obtain ⟨hadds, hop, hplaced⟩ := hgoes.placed? h hopened
        exact ⟨hop ▸ hadds, hplaced⟩
  | move i m =>
    cases hi : e.calls[i]? with
    | none =>
      rw [turn_move_none hi] at h
      exact absurd h hnew
    | some o =>
      have hmoves := ((hf o (List.mem_of_getElem? hi)).move m e.session).2
      rw [turn_move hi] at h
      obtain ⟨hwaits, hadds, hop, hplaced⟩ := hmoves.placed? h hnew
      exact ⟨_, gains_move hi hwaits m, hop ▸ hadds, hplaced⟩
  | news n =>
    cases hc : e.session.isConnected with
    | true =>
      rw [turn_news hc] at h
      dsimp only at h
      rw [Session.board_news] at h
      exact absurd h hnew
    | false =>
      rw [turn_news_of_not_connected hc] at h
      exact absurd h hnew

theorem Placed.turn (h : e.Placed b) (t : Turn) : (e.turn t).Placed b := by
  obtain ⟨o, ho, hb⟩ := h
  obtain ⟨i, hi⟩ := List.getElem?_of_mem ho
  refine ⟨o, ?_, hb⟩
  rcases getElem?_calls_turn hi t with hsame | ⟨m, -, hmoved⟩
  · exact List.mem_of_getElem? hsame
  · cases hwaits : o.isWaiting with
    | false =>
      rw [Ongoing.move_of_not_waiting hwaits] at hmoved
      exact List.mem_of_getElem? hmoved
    | true =>
      rw [Ongoing.placed?_of_waiting hwaits] at hb
      cases hb

variable {config : Config}

/-- Every breakpoint that stands was placed by a call. -/
theorem placed_of_stands {turns : List Turn}
    (h : (run config turns).session.board.get? l = some b) : (run config turns).Placed b := by
  induction turns using List.reverseRecOn with
  | nil => cases h
  | append_singleton turns t ih =>
    rw [run_snoc] at h ⊢
    by_cases hold : (run config turns).session.board.get? l = some b
    · exact (ih hold).turn t
    · obtain ⟨o, hgains, -, hplaced⟩ :=
        puts_of_stands (follows_run config turns) (sound_board_run config turns) h hold
      exact (hgains.placed b).mpr (.inr hplaced)

theorem Placed.append {turns : List Turn} (h : (run config turns).Placed b) (more : List Turn) :
    (run config (turns ++ more)).Placed b := by
  induction more using List.reverseRecOn with
  | nil => rwa [List.append_nil]
  | append_singleton more t ih =>
    rw [← List.append_assoc, run_snoc]
    exact ih.turn t

/-- A breakpoint that stands has stood for some turns, or it was put in one of them. -/
theorem stood_or_put (earlier between : List Turn)
    (h : (run config (earlier ++ between)).session.board.get? l = some b) :
    (∀ before after, between = before ++ after →
      (run config (earlier ++ before)).session.board.get? l = some b) ∨
    ∃ before t after, between = before ++ t :: after ∧
      (run config (earlier ++ before)).Puts t l b := by
  induction between using List.reverseRecOn with
  | nil =>
    left
    intro before after hsplit
    obtain ⟨rfl, rfl⟩ := List.append_eq_nil_iff.mp hsplit.symm
    exact h
  | append_singleton between t ih =>
    rw [← List.append_assoc] at h
    by_cases hold : (run config (earlier ++ between)).session.board.get? l = some b
    · rcases ih hold with hstood | ⟨before, t', after, rfl, hputs⟩
      · left
        intro before after hsplit
        rcases List.eq_nil_or_concat after with rfl | ⟨after, t', rfl⟩
        · rw [List.append_nil] at hsplit
          rw [← hsplit, ← List.append_assoc]
          exact h
        · rw [List.concat_eq_append, ← List.append_assoc] at hsplit
          exact hstood before after (List.append_inj' hsplit rfl).1
      · exact .inr ⟨before, t', after ++ [t], by simp, hputs⟩
    · right
      rw [run_snoc] at h
      exact ⟨between, t, [], rfl, puts_of_stands (follows_run config _) (sound_board_run config _) h hold⟩

theorem nodup_numbers_of_append {turns more : List Turn}
    (h : (run config (turns ++ more)).numbers.Nodup) : (run config turns).numbers.Nodup := by
  induction more using List.reverseRecOn with
  | nil => rwa [List.append_nil] at h
  | append_singleton more t ih =>
    rw [← List.append_assoc, run_snoc] at h
    exact ih (nodup_numbers_turn _ t h)

end Ensemble

/-! ## Removals -/

namespace Session

variable {s : Session}

/-- An answer that is there as soon as its command was issued tells that nobody reads it. -/
theorem deaf_of_issue {command : String} {tolerant : Bool} {ticket : Nat} {u : Session} {r : Reply}
    (h : s.exchange.Orderly) (hissue : s.issue command tolerant = (.ok ticket, u))
    (hr : u.exchange.reply? ticket = some r) : s.link = .deaf ∧ r = .error .brokenPipe := by
  obtain rfl : ticket = s.exchange.issued := ticket_of_issue (by rw [hissue])
  unfold issue at hissue
  split at hissue
  · cases hissue
  · cases hissue
  · obtain ⟨-, rfl⟩ := Prod.mk.inj hissue
    have hnone : (s.exchange.register command tolerant).2.reply? s.exchange.issued = none :=
      h.reply?_issued
    cases hnone.symm.trans hr
  · rename_i hdeaf
    obtain ⟨-, rfl⟩ := Prod.mk.inj hissue
    exact ⟨hdeaf, h.reply?_cancel_register hr⟩

/-- A removal that has found a breakpoint writes its delete and does no more at first. -/
theorem snd_advance_removeFound (h : s.exchange.Orderly) (l : Location) (id : UInt32) :
    ((removeFound l id).run.advance s).2 = (s.issue (deleteCommand id) false).2 := by
  unfold removeFound CallM.ask CallM.send
  rw [bind_assoc]
  cases hissue : s.issue (deleteCommand id) false with
  | mk r u =>
    cases r with
    | error e => rw [CallM.advance_locked_bind_error hissue]
    | ok ticket =>
      rw [CallM.advance_locked_bind hissue]
      cases hr : u.exchange.reply? ticket with
      | none => exact congrArg Prod.snd (Call.advance_eq_self_of_waiting hr _ _)
      | some r =>
        obtain ⟨-, rfl⟩ := deaf_of_issue h hissue hr
        change (Call.advance (.reply _ _ _) u).2 = u
        simp only [Call.advance, hr]
        rfl

end Session

namespace Ensemble

variable {config : Config} {turns : List Turn}

theorem session_call_removal {d : Descriptor} {l : Location} {b : Breakpoint}
    (hl : d.location = .ok l) (hget : (run config turns).session.board.get? l = some b) :
    (run config (turns ++ [.call (.removeBreakpoint d)])).session =
      ((run config turns).session.issue (deleteCommand b.id) false).2 := by
  have hadvance := Session.advance_removeBreakpoint_of_some hl hget
  rw [run_snoc]
  change (Call.advance (Session.removeBreakpoint d).run (run config turns).session).2 = _
  rw [hadvance]
  exact Session.snd_advance_removeFound (accounted_run config turns).orderly l b.id

/-- The turn in which a removal is called leaves the board alone. -/
theorem board_call_removal (config : Config) (turns : List Turn) (d : Descriptor) :
    (run config (turns ++ [.call (.removeBreakpoint d)])).session.board =
      (run config turns).session.board := by
  have hdone : ∀ {a}, (Session.removeBreakpoint d).run.advance (run config turns).session =
      (.done a, (run config turns).session) →
      (run config (turns ++ [.call (.removeBreakpoint d)])).session.board =
        (run config turns).session.board := by
    intro a ha
    rw [run_snoc]
    change (Call.advance (Session.removeBreakpoint d).run (run config turns).session).2.board = _
    rw [ha]
  cases hl : d.location with
  | error e => exact hdone (Session.advance_removeBreakpoint_of_error hl)
  | ok l =>
    cases hget : (run config turns).session.board.get? l with
    | none => exact hdone (Session.advance_removeBreakpoint_of_none hl hget)
    | some b =>
      obtain ⟨exchange, outbox, hissue⟩ :=
        Session.exists_issue_eq (run config turns).session (deleteCommand b.id) false
      rw [session_call_removal hl hget, hissue]

/--
A call removes a breakpoint that stood at its location when it was made, and all that it did in the
turn in which it was made is to write the delete of this breakpoint.
-/
structure Deletes (config : Config) (turns : List Turn) (i : Nat) (d : Descriptor) (found : Breakpoint)
    (l : Location) (earlier between : List Turn) : Prop where
  split : turns = earlier ++ .call (.removeBreakpoint d) :: between
  index : i = (run config earlier).calls.length
  location : d.location = .ok l
  stood : (run config earlier).session.board.get? l = some found
  writes : (run config (earlier ++ [.call (.removeBreakpoint d)])).session =
    ((run config earlier).session.issue (deleteCommand found.id) false).2

theorem Deletes.later {i : Nat} {d : Descriptor} {b : Breakpoint} {l : Location}
    {earlier between : List Turn} (h : Deletes config turns i d b l earlier between) (t : Turn) :
    Deletes config (turns ++ [t]) i d b l earlier (between ++ [t]) :=
  ⟨by rw [h.split]; simp, h.index, h.location, h.stood, h.writes⟩

/-- A removal that waits is going to conclude with the breakpoint it has found. -/
def Seeks (config : Config) (turns : List Turn) (i : Nat) (o : Ongoing) : Prop :=
  ∀ d, o.op = .removeBreakpoint d → ∃ found?, o.Awaits found? ∧
    ∀ b, found? = some b → ∃ l earlier between, Deletes config turns i d b l earlier between

theorem seeks_run (config : Config) (turns : List Turn) (i : Nat) (o : Ongoing)
    (hi : (run config turns).calls[i]? = some o) : Seeks config turns i o := by
  induction turns using List.reverseRecOn generalizing i o with
  | nil => cases hi
  | append_singleton turns t ih =>
    have hlater : ∀ {o : Ongoing}, (run config turns).calls[i]? = some o →
        Seeks config (turns ++ [t]) i o := by
      intro o hold d hop
      obtain ⟨found?, hawaits, hfound⟩ := ih i o hold d hop
      refine ⟨found?, hawaits, fun b hb => ?_⟩
      obtain ⟨l, earlier, between, hdeletes⟩ := hfound b hb
      exact ⟨l, earlier, _, hdeletes.later t⟩
    rw [run_snoc] at hi
    cases t with
    | call op =>
      rcases getElem?_calls_call hi with hold | ⟨hindex, rfl⟩
      · exact hlater hold
      · intro d hop
        have hremoves : op = .removeBreakpoint d := hop
        have hconcerns : op.concernsBreakpoints = true := by rw [hremoves]; rfl
        have hconcludes := Operation.concludes_call hconcerns (run config turns).session
        refine ⟨_, (Ongoing.books_advance hconcludes).1, fun b hb => ?_⟩
        obtain ⟨d', l, rfl, hl, hget⟩ := Operation.of_found? hb
        obtain rfl := Operation.removeBreakpoint.inj hremoves
        exact ⟨l, turns, [], rfl, hindex, hl, hget, session_call_removal hl hget⟩
    | move j m =>
      rcases getElem?_of_calls_turn hi with hold | ⟨m', o, hm, hold, rfl⟩ | ⟨op, hc, -⟩
      · exact hlater hold
      · cases hwaits : o.isWaiting with
        | false =>
          rw [Ongoing.move_of_not_waiting hwaits]
          exact hlater hold
        | true =>
          intro d hop
          rw [Ongoing.op_move] at hop
          obtain ⟨found?, hawaits, hfound⟩ := hlater hold d hop
          exact ⟨found?, (hawaits.move hwaits m' (run config turns).session).1, hfound⟩
      · cases hc
    | news n =>
      rcases getElem?_of_calls_turn hi with hold | ⟨m, o, hm, -⟩ | ⟨op, hc, -⟩
      · exact hlater hold
      · cases hm
      · cases hc

/-- What stands where a removal found a breakpoint is this one, or one that was put since. -/
theorem Deletes.leaves {i : Nat} {d : Descriptor} {found b : Breakpoint} {l : Location}
    {earlier between : List Turn} (h : Deletes config turns i d found l earlier between)
    (hb : (run config turns).session.board.get? l = some b) :
    (b = found ∧ ∀ before after, between = before ++ after →
      (run config (earlier ++ .call (.removeBreakpoint d) :: before)).session.board.get? l =
        some b) ∨
    (∃ before t after, between = before ++ t :: after ∧
      (run config (earlier ++ .call (.removeBreakpoint d) :: before)).Puts t l b) ∧
      ((run config turns).numbers.Nodup → b.id ≠ found.id) := by
  have hturns := h.split
  rw [List.append_cons] at hturns
  have hcons : ∀ before, earlier ++ [Turn.call (.removeBreakpoint d)] ++ before =
      earlier ++ .call (.removeBreakpoint d) :: before := fun before => by simp
  rw [hturns] at hb
  rcases stood_or_put _ between hb with hstood | ⟨before, t, after, rfl, hputs⟩
  · have hfirst := hstood [] between rfl
    rw [List.append_nil, board_call_removal, h.stood] at hfirst
    refine .inl ⟨(Option.some.inj hfirst).symm, fun before after hsplit => ?_⟩
    rw [← hcons]
    exact hstood before after hsplit
  · rw [hcons] at hputs
    refine .inr ⟨⟨before, t, after, rfl, hputs⟩, fun hnodup => ?_⟩
    obtain ⟨o, hgains, -, hplaced⟩ := hputs
    have hlater := (placed_of_stands h.stood).append (.call (.removeBreakpoint d) :: before)
    have hnumbers : ((run config (earlier ++ .call (.removeBreakpoint d) :: before)).turn
        t).numbers.Nodup := by
      rw [← run_snoc]
      rw [h.split] at hnodup
      exact @nodup_numbers_of_append config _ after (by simpa using hnodup)
    exact (hgains.fresh hnumbers hplaced found hlater).symm

/--
Which breakpoint leaves the board where a removal goes on. The removal deleted the breakpoint that
it found when it was called, and this is the one that leaves, unless a call that added a breakpoint
at this location has ended in between: then the new breakpoint leaves, and it has another number.
-/
theorem removal_takes (config : Config) (turns : List Turn) (d : Descriptor) :
    (run config (turns ++ [.call (.removeBreakpoint d)])).session.board =
        (run config turns).session.board ∧
      ∀ (i : Nat) (m : Ongoing.Move) (o : Ongoing), (run config turns).calls[i]? = some o →
        o.op = .removeBreakpoint d →
        let board := (run config turns).session.board
        let board' := (run config (turns ++ [.move i m])).session.board
        (∀ k, board'.get? k = board.get? k) ∨
        ∃ found l earlier between, Deletes config turns i d found l earlier between ∧
          (∀ k, board'.get? k = if l = k then none else board.get? k) ∧
          ∀ b, board.get? l = some b →
            (b = found ∧ ∀ before after, between = before ++ after →
              (run config (earlier ++ .call (.removeBreakpoint d) :: before)).session.board.get? l =
                some b) ∨
            (∃ before t after, between = before ++ t :: after ∧
              (run config (earlier ++ .call (.removeBreakpoint d) :: before)).Puts t l b) ∧
              ((run config turns).numbers.Nodup → b.id ≠ found.id) := by
  refine ⟨board_call_removal config turns d, fun i m o hi hop => ?_⟩
  have hrun := run_snoc config turns (.move i m)
  rw [turn_move hi] at hrun
  dsimp only
  cases hwaits : o.isWaiting with
  | false =>
    rw [hrun, Ongoing.move_of_not_waiting hwaits]
    exact .inl fun _ => rfl
  | true =>
    obtain ⟨found?, hawaits, hfound⟩ := seeks_run config turns i o hi d hop
    have hbooks := (hawaits.move hwaits m (run config turns).session).2
    have hmoved := o.op_move m (run config turns).session
    rw [hop] at hmoved
    rw [hrun]
    generalize o.move m (run config turns).session = moved at hbooks hmoved
    obtain ⟨o', u⟩ := moved
    have hget : ∀ k, u.board.get? k = u.tables.installed.get? k := fun _ => rfl
    dsimp only at hbooks hmoved ⊢
    generalize u.tables = tables at hbooks hget
    cases hbooks with
    | keeps ho => exact .inl hget
    | puts ha hl hfills => cases hmoved
    | @takes d' l found hl hb =>
      obtain rfl := Operation.removeBreakpoint.inj hmoved
      obtain ⟨l', earlier, between, hdeletes⟩ := hfound found hb
      obtain rfl := Except.ok.inj (hl.symm.trans hdeletes.location)
      refine .inr ⟨found, l, earlier, between, hdeletes, fun k => ?_, fun b hb => ?_⟩
      · exact (hget k).trans (Table.get?_erase _ l k)
      · exact hdeletes.leaves hb

theorem removal_takes_found :
    let main : Descriptor := { raw := some "main" }
    let prints (text : String) : Turn := .news (.hear (Text.Utf8.encode text))
    let turns : List Turn := [.call (.bringUp { cwd := "/w", mode := .load "a.out" none none }),
      .call (.addBreakpoint main), prints "6^done,bkpt=\x7bnumber=\"1\"\x7d\n", .move 1 .resume,
      .call (.removeBreakpoint main), prints "7^done\n"]
    ∃ d found earlier between, Deletes {} turns 2 d found (.raw "main") earlier between ∧
      (run {} (turns ++ [.move 2 .resume])).session.board.get? (.raw "main") = none := by
  intro main prints turns
  have hcall : (run {} turns).calls[2]?.map (·.op.removes?) = some (some (.raw "main")) := by
    decide +kernel
  have hstood : ((run {} turns).session.board.get? (.raw "main")).isSome = true := by
    decide +kernel
  have hgone : (run {} (turns ++ [.move 2 .resume])).session.board.get? (.raw "main") = none := by
    decide +kernel
  obtain ⟨o, hi, hremoves⟩ := Option.map_eq_some_iff.mp hcall
  obtain ⟨d, hop, hl⟩ := Operation.location_of_removes? hremoves
  rcases (removal_takes {} turns d).2 2 .resume o hi hop with
    hsame | ⟨found, l, earlier, between, hdeletes, -⟩
  · rw [← hsame, hgone] at hstood
    cases hstood
  · obtain rfl := Except.ok.inj (hl.symm.trans hdeletes.location)
    exact ⟨d, found, earlier, between, hdeletes, hgone⟩

/--
A breakpoint is cleared and added again while its removal waits. The removal, which deleted the
first one, takes the second one from the board when it is answered.
-/
theorem removal_takes_another :
    let main : Descriptor := { raw := some "main" }
    let prints (text : String) : Turn := .news (.hear (Text.Utf8.encode text))
    let called : List Turn := [.call (.bringUp { cwd := "/w", mode := .load "a.out" none none }),
      prints "1^done\n2^done\n3^done\n4^done\n5^done\n", .move 0 .resume, .call (.addBreakpoint main),
      prints "6^done,bkpt=\x7bnumber=\"1\"\x7d\n", .move 1 .resume]
    let waiting := called ++ [.call (.removeBreakpoint main)]
    let answered := waiting ++ [.call (.clearBreakpoints none), .call (.addBreakpoint main),
      prints "9^done,bkpt=\x7bnumber=\"2\"\x7d\n", .move 4 .resume, prints "7^done\n8^done\n"]
    let last := run {} (answered ++ [.move 2 .resume, .move 3 .resume])
    (run {} waiting).session.outbox =
        (run {} called).session.outbox ++ [.command 7 "break-delete 1"] ∧
      last.numbers = [1, 2] ∧
      ((run {} answered).session.board.get? (.raw "main")).map (·.id) = some 2 ∧
      last.session.board.get? (.raw "main") = none ∧
      last.session.outbox.drop (run {} waiting).session.outbox.length =
        [.command 8 "break-delete 1", .command 9 "break-insert -f \"main\""] := by
  decide +kernel

end Ensemble

end MachineInterface

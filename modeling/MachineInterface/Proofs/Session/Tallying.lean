import MachineInterface.Proofs.Session.Booking
import MachineInterface.Proofs.Session.Concluding

/-!
# Log points that stand

The templates of log points are kept apart from the breakpoints they belong to. In every run the two
tell the same, unless a removal takes a breakpoint that was not there when it was called.

* `Kept.turn`: what each turn makes of the breakpoints and the templates.
* `logPoints_tally`: each template belongs to a breakpoint that stands, and each log point that was
  added in full has its template.
-/

namespace MachineInterface

open Session (tables)

/-! ## Openings and news -/

namespace Session

theorem tables_news (s : Session) (n : News) : (n.apply s).tables = s.tables := by
  have htemplates := congrArg (·.logPoints.templates) (held_news s n)
  change (n.apply s).logPoints.templates = s.logPoints.templates at htemplates
  rw [tables, tables, board_news, htemplates]

/-- The opening of a call leaves the tables alone, or it clears a file. -/
theorem tables_opened (op : Operation) (s : Session) : (op.opened s).tables = s.tables ∨
    ∃ source, op = .clearBreakpoints source ∧
      (op.opened s).tables = (s.takeSource source).2.tables := by
  cases op with
  | bringUp _ | startLocal _ _ | startSsh _ _ _ => exact .inl (tables_connect s)
  | addBreakpoint d =>
    left
    cases hl : d.location with
    | error e => simp [Operation.opened, Operation.opening?, hl, Except.toOption, Deed.after]
    | ok l =>
      simpa [Operation.opened, Operation.opening?, hl, Except.toOption, Deed.after, Deed.apply]
        using tables_reserve l s
  | clearBreakpoints source => exact .inr ⟨source, rfl, rfl⟩
  | _ => exact .inl rfl

end Session

/-! ## Calls that go on -/

namespace Ongoing

variable {found? : Option Breakpoint} {o : Ongoing} {op : Operation} {s : Session} {x : Tables}

/-- A call that waits concludes with what it has found. -/
def Awaits (found? : Option Breakpoint) (o : Ongoing) : Prop :=
  o.isWaiting = true → ∀ c, o.rest? = some c → ∀ u : Session,
    c.Concludes (o.op.Books found?) u.tables u

theorem addition?_of_waiting (h : o.isWaiting = true) : o.addition? = none := by
  obtain ⟨op, rest?⟩ := o
  cases rest? with
  | none => rfl
  | some c =>
    have hresult := isWaiting_some.mp h
    simp [addition?, hresult]

theorem placed?_of_waiting (h : o.isWaiting = true) : o.placed? = none := by
  rw [placed?, addition?_of_waiting h]
  rfl

theorem books_advance {c : Call op.Answer} (h : c.Concludes (op.Books found?) x s) :
    Awaits found? ⟨op, some (c.advance s).1⟩ ∧
      Books found? x ⟨op, some (c.advance s).1⟩ (c.advance s).2.tables := by
  have hlast := h.advance
  have hpaused := Call.isPaused_advance c s
  cases hresult : (c.advance s).1.result? with
  | some a =>
    rw [Call.eq_done_of_result? hresult] at hlast ⊢
    refine ⟨?_, hlast⟩
    rintro ⟨⟩
  | none =>
    obtain ⟨htables, hnext⟩ := hlast.waits hpaused hresult
    refine ⟨?_, htables ▸ .keeps (placed?_of_waiting (isWaiting_some.mpr hresult))⟩
    rintro - _ ⟨⟩ u
    exact hnext u

theorem Awaits.move (h : o.Awaits found?) (hwaits : o.isWaiting = true) (m : Move) (s : Session) :
    (o.move m s).1.Awaits found? ∧ Books found? s.tables (o.move m s).1 (o.move m s).2.tables := by
  obtain ⟨op, rest?⟩ := o
  cases rest? with
  | none => cases hwaits
  | some c =>
    have hresult := isWaiting_some.mp hwaits
    have hc : ∀ u : Session, c.Concludes (op.Books found?) u.tables u := h hwaits c rfl
    cases m with
    | resume => exact books_advance (hc s)
    | expire => exact books_advance (Call.Concludes.expire hc s)
    | giveUp =>
      have hmove : Ongoing.move ⟨op, some c⟩ .giveUp s = (⟨op, none⟩, c.drop s) := by
        simp only [Ongoing.move, hresult, Option.isSome_none, Bool.false_eq_true, if_false]
      rw [hmove]
      refine ⟨?_, ?_⟩
      · rintro ⟨⟩
      · rw [(hc s).drop s]
        exact .keeps rfl

end Ongoing

/-! ## Runs -/

namespace Ensemble

open Ongoing (Books)

variable {e e' : Ensemble} {o : Ongoing} {b : Breakpoint}

/-- The numbers of the breakpoints that calls have placed. -/
def numbers (e : Ensemble) : List UInt32 := e.calls.filterMap fun o => o.placed?.map (·.id)

/-- A call has placed a breakpoint. -/
def Placed (e : Ensemble) (b : Breakpoint) : Prop := ∃ o ∈ e.calls, o.placed? = some b

/-- A call has added a breakpoint in full. -/
def Added (e : Ensemble) (b : Breakpoint) : Prop := ∃ o ∈ e.calls, o.addition? = some (.added b)

/-- A call is new, or it takes the place of one that had added nothing. -/
def Gains (e e' : Ensemble) (o : Ongoing) : Prop :=
  ∃ before old after, e.calls = before ++ old ++ after ∧ e'.calls = before ++ [o] ++ after ∧
    ∀ o' ∈ old, o'.addition? = none

theorem Placed.number_mem (h : e.Placed b) : b.id ∈ e.numbers := by
  obtain ⟨o, ho, hb⟩ := h
  exact List.mem_filterMap.mpr ⟨o, ho, by rw [hb]; rfl⟩

namespace Gains

theorem exists_iff {P : Ongoing → Prop} (h : e.Gains e' o)
    (hnone : ∀ o' : Ongoing, o'.addition? = none → ¬ P o') :
    (∃ o' ∈ e'.calls, P o') ↔ (∃ o' ∈ e.calls, P o') ∨ P o := by
  obtain ⟨before, old, after, hcalls, hcalls', hold⟩ := h
  rw [hcalls, hcalls']
  simp only [List.mem_append, List.mem_singleton]
  constructor
  · rintro ⟨o', (hmem | rfl) | hmem, ho'⟩
    · exact .inl ⟨o', .inl (.inl hmem), ho'⟩
    · exact .inr ho'
    · exact .inl ⟨o', .inr hmem, ho'⟩
  · rintro (⟨o', (hmem | hmem) | hmem, ho'⟩ | ho)
    · exact ⟨o', .inl (.inl hmem), ho'⟩
    · exact absurd ho' (hnone o' (hold o' hmem))
    · exact ⟨o', .inr hmem, ho'⟩
    · exact ⟨o, .inl (.inr rfl), ho⟩

theorem placed (h : e.Gains e' o) (b : Breakpoint) :
    e'.Placed b ↔ e.Placed b ∨ o.placed? = some b :=
  h.exists_iff fun o' ho' => by simp [Ongoing.placed?, ho']

theorem added (h : e.Gains e' o) (b : Breakpoint) :
    e'.Added b ↔ e.Added b ∨ o.addition? = some (.added b) :=
  h.exists_iff fun o' ho' => by simp [ho']

theorem numbers (h : e.Gains e' o) : ∃ before after, e.numbers = before ++ after ∧
    e'.numbers = before ++ (o.placed?.map (·.id)).toList ++ after := by
  obtain ⟨before, old, after, hcalls, hcalls', hold⟩ := h
  have hnone : old.filterMap (fun o => o.placed?.map (·.id)) = [] := by
    rw [List.filterMap_eq_nil_iff]
    intro o' ho'
    rw [Ongoing.placed?, hold o' ho']
    rfl
  refine ⟨before.filterMap fun o => o.placed?.map (·.id),
    after.filterMap fun o => o.placed?.map (·.id), ?_, ?_⟩
  · rw [Ensemble.numbers, hcalls, List.filterMap_append, List.filterMap_append, hnone,
      List.append_nil]
  · rw [Ensemble.numbers, hcalls', List.filterMap_append, List.filterMap_append]
    cases hp : o.placed? <;> simp [hp]

/-- If no number occurs twice, that of a new breakpoint is new. -/
theorem fresh (h : e.Gains e' o) (hnodup : e'.numbers.Nodup) (hb : o.placed? = some b) :
    ∀ b', e.Placed b' → b'.id ≠ b.id := by
  intro b' hb' hid
  obtain ⟨before, after, hold, hnew⟩ := h.numbers
  have hmem := hb'.number_mem
  rw [hnew, hb] at hnodup
  rw [hold, hid] at hmem
  simp only [Option.map_some, Option.toList_some, List.append_assoc, List.singleton_append]
    at hnodup
  exact (List.nodup_middle.mp hnodup).notMem hmem

theorem nodup (h : e.Gains e' o) (hnodup : e'.numbers.Nodup) : e.numbers.Nodup := by
  obtain ⟨before, after, hold, hnew⟩ := h.numbers
  rw [hnew] at hnodup
  rw [hold]
  refine hnodup.sublist ?_
  exact (List.sublist_append_left before _).append (List.Sublist.refl after)

end Gains

theorem gains_call (e : Ensemble) (op : Operation) :
    e.Gains (e.turn (.call op)) ⟨op, some (op.call.advance e.session).1⟩ :=
  ⟨e.calls, [], [], by simp, by simp [Ensemble.turn], by simp⟩

theorem gains_move {i : Nat} (hi : e.calls[i]? = some o) (hwaits : o.isWaiting = true)
    (m : Ongoing.Move) : e.Gains (e.turn (.move i m)) (o.move m e.session).1 := by
  obtain ⟨hlt, hget⟩ := List.getElem?_eq_some_iff.mp hi
  refine ⟨e.calls.take i, [o], e.calls.drop (i + 1), ?_, ?_, ?_⟩
  · rw [← hget, List.append_assoc, List.singleton_append, ← List.drop_eq_getElem_cons hlt,
      List.take_append_drop]
  · rw [turn_move hi, List.set_eq_take_append_cons_drop, if_pos hlt]
    simp
  · intro o' ho'
    obtain rfl := List.mem_singleton.mp ho'
    exact Ongoing.addition?_of_waiting hwaits

/-- What a call that goes on makes of the tables keeps them in tally. -/
theorem Gains.tallies {found? : Option Breakpoint} {ousted : Breakpoint → Prop} {x y : Tables}
    (hgains : e.Gains e' o) (hnodup : e'.numbers.Nodup) (h : Tallies e.Placed e.Added ousted x)
    (hbooks : Books found? x o y)
    (hvacant : ∀ l, o.op.adds? = some l → o.placed?.isSome = true →
      x.installed.contains l = false)
    (htaken : ∀ l b, o.HasRemoved l → found? = some b → y.installed.get? l = none →
      b.location = l ∧ e.Placed b ∧
        ∀ b', x.installed.get? l = some b' → b'.id ≠ b.id → ousted b') :
    Tallies e'.Placed e'.Added ousted y := by
  have hplaced := hgains.placed
  have hadded := hgains.added
  have hfresh : ∀ {b}, o.placed? = some b → ∀ b', e.Placed b' → b'.id ≠ b.id :=
    hgains.fresh hnodup
  have hnone : o.placed? = none → Tallies e.Placed e.Added ousted y →
      Tallies e'.Placed e'.Added ousted y := by
    intro hnone h
    refine h.mono (fun b => ?_) (fun b => ?_) fun _ => id
    · simp [hplaced, hnone]
    · have hne : o.addition? ≠ some (.added b) := by
        intro ha
        rw [Ongoing.placed?, ha] at hnone
        cases hnone
      simp [hadded, hne]
  cases hbooks with
  | keeps ho => exact hnone ho h
  | @puts d a b templates ha hl hfills =>
    have hput := h.put (hvacant _ (Operation.adds?_of_location hl) (by
      change a.breakpoint?.isSome = true
      rw [ha]
      rfl)) (hfresh ha) hfills
    refine hput.mono (fun b' => ?_) (fun b' => ?_) fun _ => id
    · have hmade : a.breakpoint? = some b' ↔ b' = b := by
        rw [ha, Option.some.injEq]
        exact eq_comm
      exact (hplaced b').trans (or_congr_right hmade)
    · have hmade : some a = some (.added b') ↔ a = .added b ∧ b' = b := by
        rw [Option.some.injEq]
        constructor
        · rintro rfl
          obtain rfl := Option.some.inj ha
          exact ⟨rfl, rfl⟩
        · rintro ⟨hfull, rfl⟩
          exact hfull
      exact (hadded b').trans (or_congr_right hmade)
  | @takes d l b hl hfound =>
    have hgone : (x.installed.erase l).get? l = none := by
      rw [Table.get?_erase, if_pos rfl]
    obtain ⟨rfl, hb, hothers⟩ := htaken l b ⟨d, hl, rfl⟩ hfound hgone
    exact hnone rfl (h.take hb hothers)

/-! ## Every turn -/

variable {config : Config} {turns : List Turn}

/--
A removal has taken a breakpoint from its location although the breakpoint did not stand there when
the removal was called.
-/
def Ousted (config : Config) (turns : List Turn) (b : Breakpoint) : Prop :=
  ∃ (d : Descriptor) (earlier between later : List Turn) (m : Ongoing.Move),
    let called := earlier ++ .call (.removeBreakpoint d) :: between
    let last : Turn := .move (run config earlier).calls.length m
    turns = called ++ last :: later ∧ d.location = .ok b.location ∧
      (run config earlier).session.board.get? b.location ≠ some b ∧
      (run config called).session.board.get? b.location = some b ∧
      (run config (called ++ [last])).session.board.get? b.location = none

/-- A call is a removal, and a breakpoint stood at its location when it was made. -/
def Finds (config : Config) (turns : List Turn) (i : Nat) (op : Operation) (b : Breakpoint) :
    Prop :=
  (run config turns).Placed b ∧ ∃ (d : Descriptor) (earlier between : List Turn),
    op = .removeBreakpoint d ∧ d.location = .ok b.location ∧
      turns = earlier ++ .call (.removeBreakpoint d) :: between ∧
      i = (run config earlier).calls.length ∧
      (run config earlier).session.board.get? b.location = some b

/-- The tables are in tally, and each removal that waits has found the breakpoint it deletes. -/
structure Kept (config : Config) (turns : List Turn) : Prop where
  tallies : Tallies (run config turns).Placed (run config turns).Added (Ousted config turns)
    (run config turns).session.tables
  awaits : ∀ (i : Nat) (o : Ongoing), (run config turns).calls[i]? = some o →
    ∃ found?, o.Awaits found? ∧ ∀ b, found? = some b → Finds config turns i o.op b

theorem Ousted.later (h : Ousted config turns b) (t : Turn) : Ousted config (turns ++ [t]) b := by
  obtain ⟨d, earlier, between, later, m, rfl, hrest⟩ := h
  exact ⟨d, earlier, between, later ++ [t], m, by simp, hrest⟩

theorem Finds.later {i : Nat} {op : Operation} (h : Finds config turns i op b) {t : Turn}
    (hplaced : (run config turns).Placed b → (run config (turns ++ [t])).Placed b) :
    Finds config (turns ++ [t]) i op b := by
  obtain ⟨hb, d, earlier, between, hop, hl, rfl, hi, hget⟩ := h
  exact ⟨hplaced hb, d, earlier, between ++ [t], hop, hl, by simp, hi, hget⟩

namespace Kept

/-- A turn that only has to do with one call keeps what the others have found. -/
theorem later (h : Kept config turns) {t : Turn}
    (hplaced : ∀ b, (run config turns).Placed b → (run config (turns ++ [t])).Placed b)
    (htallies : Tallies (run config (turns ++ [t])).Placed (run config (turns ++ [t])).Added
      (Ousted config (turns ++ [t])) (run config (turns ++ [t])).session.tables)
    (hcalls : ∀ (i : Nat) (o : Ongoing), (run config (turns ++ [t])).calls[i]? = some o →
      (run config turns).calls[i]? = some o ∨
        ∃ found?, o.Awaits found? ∧ ∀ b, found? = some b → Finds config (turns ++ [t]) i o.op b) :
    Kept config (turns ++ [t]) := by
  refine ⟨htallies, fun i o hi => ?_⟩
  rcases hcalls i o hi with hold | hnew
  · obtain ⟨found?, hawaits, hfinds⟩ := h.awaits i o hold
    exact ⟨found?, hawaits, fun b hb => (hfinds b hb).later (hplaced b)⟩
  · exact hnew

theorem of_same (h : Kept config turns) {t : Turn}
    (hcalls : (run config (turns ++ [t])).calls = (run config turns).calls)
    (htables : (run config (turns ++ [t])).session.tables = (run config turns).session.tables) :
    Kept config (turns ++ [t]) := by
  refine h.later (fun b hb => ?_) ?_ fun i o hi => .inl (hcalls ▸ hi)
  · rwa [Placed, hcalls]
  · rw [htables]
    refine h.tallies.mono (fun b => ?_) (fun b => ?_) fun b hb => hb.later t
    · rw [Placed, Placed, hcalls]
    · rw [Added, Added, hcalls]

theorem of_gains (h : Kept config turns) {t : Turn} {i : Nat} {found? : Option Breakpoint}
    (hgains : (run config turns).Gains (run config (turns ++ [t])) o)
    (hcalls : ∀ (j : Nat) (o' : Ongoing), (run config (turns ++ [t])).calls[j]? = some o' →
      (run config turns).calls[j]? = some o' ∨ j = i ∧ o' = o)
    (hawaits : o.Awaits found?)
    (hfinds : ∀ b, found? = some b → Finds config (turns ++ [t]) i o.op b)
    (htallies : Tallies (run config (turns ++ [t])).Placed (run config (turns ++ [t])).Added
      (Ousted config (turns ++ [t])) (run config (turns ++ [t])).session.tables) :
    Kept config (turns ++ [t]) := by
  refine h.later (fun b hb => (hgains.placed b).mpr (.inl hb)) htallies fun j o' hj => ?_
  rcases hcalls j o' hj with hold | ⟨rfl, rfl⟩
  · exact .inl hold
  · exact .inr ⟨found?, hawaits, hfinds⟩

/-- What stands at a location was placed, and it stands nowhere else. -/
theorem of_get? (h : Kept config turns) {l : Location}
    (hget : (run config turns).session.board.get? l = some b) :
    b.location = l ∧ (run config turns).Placed b :=
  h.tallies.stands (l, b) (Table.mem_entries_of_get? hget)

/-- A breakpoint that stands in place of the one that a removal has found is ousted. -/
theorem ousted_of_move (h : Kept config turns) {i : Nat} {op : Operation} {m : Ongoing.Move}
    {found : Breakpoint} (hfinds : Finds config turns i op found)
    (hget : (run config turns).session.board.get? found.location = some b) (hne : b.id ≠ found.id)
    (hgone : (run config (turns ++ [.move i m])).session.board.get? found.location = none) :
    Ousted config (turns ++ [.move i m]) b := by
  obtain ⟨-, d, earlier, between, -, hl, rfl, rfl, hfound⟩ := hfinds
  have hlocation := (h.of_get? hget).1
  rw [← hlocation] at hl hget hgone hfound
  refine ⟨d, earlier, between, [], m, rfl, hl, ?_, hget, hgone⟩
  rw [hfound]
  rintro ⟨⟩
  exact hne rfl

theorem move (h : Kept config turns) (i : Nat) (m : Ongoing.Move)
    (hnodup : (run config (turns ++ [.move i m])).numbers.Nodup) :
    Kept config (turns ++ [.move i m]) := by
  have hrun := run_snoc config turns (.move i m)
  cases hi : (run config turns).calls[i]? with
  | none =>
    rw [turn_move_none hi] at hrun
    exact h.of_same (by rw [hrun]) (by rw [hrun])
  | some o =>
    cases hwaits : o.isWaiting with
    | false =>
      obtain ⟨hlt, hget⟩ := List.getElem?_eq_some_iff.mp hi
      rw [turn_move hi, Ongoing.move_of_not_waiting hwaits, ← hget, List.set_getElem_self] at hrun
      exact h.of_same (by rw [hrun]) (by rw [hrun])
    | true =>
      obtain ⟨found?, hawaits, hfinds⟩ := h.awaits i o hi
      obtain ⟨hnext, hbooks⟩ := hawaits.move hwaits m (run config turns).session
      have hop := o.op_move m (run config turns).session
      have hgains := gains_move hi hwaits m
      have hsession : (run config (turns ++ [.move i m])).session =
          (o.move m (run config turns).session).2 := by
        rw [hrun, turn_move hi]
      rw [← hrun] at hgains
      have hsame := h.tallies.mono (fun _ => Iff.rfl) (fun _ => Iff.rfl)
        fun b hb => Ousted.later hb (.move i m)
      refine h.of_gains (i := i) hgains (fun j o' hj => ?_) hnext (fun b hb => ?_) ?_
      · rcases getElem?_of_calls_turn (hrun ▸ hj) with hold | ⟨m', o₁, hm, hj', rfl⟩ | ⟨op, hc, -⟩
        · exact .inl hold
        · obtain ⟨rfl, rfl⟩ := Turn.move.inj hm
          obtain rfl := Option.some.inj (hi.symm.trans hj')
          exact .inr ⟨rfl, rfl⟩
        · cases hc
      · rw [hop]
        exact (hfinds b hb).later fun hb => (hgains.placed b).mpr (.inl hb)
      · rw [hsession]
        refine hgains.tallies hnodup hsame hbooks (fun l hl _ => ?_)
          (fun l b hremoved hb hgone => ?_)
        · rw [hop] at hl
          have hadding : o.adding? = some l := by rwa [Ongoing.adding?, if_pos hwaits]
          have hbooked := booked_run config turns
          have hvacant := hbooked.vacant l (hbooked.reserved i o l hi hadding)
          rw [Table.contains_eq_isSome, Option.isSome_eq_false_iff, Option.isNone_iff_eq_none]
          exact hvacant
        · obtain ⟨d, hl, hremoved⟩ := hremoved
          obtain ⟨hplaced, d', -, -, hop', hl', -⟩ := hfinds b hb
          have hsameop : Operation.removeBreakpoint d = .removeBreakpoint d' := by
            rw [← hop', ← hop, hremoved]
          obtain rfl := Operation.removeBreakpoint.inj hsameop
          obtain rfl := Except.ok.inj (hl.symm.trans hl')
          rw [← hsession] at hgone
          exact ⟨rfl, hplaced, fun b' hget hne => h.ousted_of_move (hfinds b hb) hget hne hgone⟩

/-- The opening of a new call keeps the tables in tally. -/
theorem opened (h : Kept config turns) (op : Operation) :
    Tallies (run config turns).Placed (run config turns).Added
      (Ousted config (turns ++ [.call op])) (op.opened (run config turns).session).tables := by
  have hsame := h.tallies.mono (fun _ => Iff.rfl) (fun _ => Iff.rfl)
    fun b hb => Ousted.later hb (.call op)
  rcases Session.tables_opened op (run config turns).session with htables | ⟨source, rfl, htables⟩
  · rw [htables]
    exact hsame
  · rw [htables]
    exact hsame.clear source

theorem call (h : Kept config turns) {op : Operation} (hop : op.concernsBreakpoints = true)
    (hnodup : (run config (turns ++ [.call op])).numbers.Nodup) :
    Kept config (turns ++ [.call op]) := by
  have hrun := run_snoc config turns (.call op)
  have hgains := gains_call (run config turns) op
  have hsession : (run config (turns ++ [.call op])).session =
      (op.call.advance (run config turns).session).2 := by
    rw [hrun]
    rfl
  rw [← hrun] at hgains
  obtain ⟨hawaits, hbooks⟩ :=
    Ongoing.books_advance (Operation.concludes_call hop (run config turns).session)
  refine h.of_gains (i := (run config turns).calls.length) hgains (fun j o' hj => ?_) hawaits
    (fun b hb => ?_) ?_
  · rw [hrun] at hj
    exact getElem?_calls_call hj
  · obtain ⟨d, l, rfl, hl, hget⟩ := Operation.of_found? hb
    obtain ⟨rfl, hplaced⟩ := h.of_get? hget
    exact ⟨(hgains.placed b).mpr (.inl hplaced), d, turns, [], rfl, hl, rfl, rfl, hget⟩
  · rw [hsession]
    refine hgains.tallies hnodup (h.opened op) hbooks (fun l hl hplaced => ?_)
      (fun l b hremoved hb _ => ?_)
    · obtain ⟨d, rfl, hlocation⟩ := Operation.location_of_adds? hl
      cases hfree : (run config turns).session.board.isFree l with
      | true =>
        rcases Session.tables_opened (.addBreakpoint d) (run config turns).session with
          htables | ⟨source, hclear, -⟩
        · rw [htables]
          exact (Board.isFree_iff.mp hfree).1
        · cases hclear
      | false =>
        -- A location that is taken is refused, and nothing is placed.
        have hadvance := Session.advance_of_taken hlocation (Board.isFree_eq_false_iff.mp hfree)
        simp only [Operation.call, hadvance] at hplaced
        cases hplaced
    · obtain ⟨d, l', rfl, hl', hget⟩ := Operation.of_found? hb
      obtain ⟨rfl, hplaced⟩ := h.of_get? hget
      obtain ⟨d', hl, hremoved⟩ := hremoved
      obtain rfl := Operation.removeBreakpoint.inj (congrArg Ongoing.op hremoved)
      obtain rfl := Except.ok.inj (hl'.symm.trans hl)
      refine ⟨rfl, hplaced, fun b' hget' hne => ?_⟩
      obtain rfl := Option.some.inj (hget'.symm.trans hget)
      exact absurd rfl hne

theorem turn (h : Kept config turns) {t : Turn}
    (hop : ∀ op, t = .call op → op.concernsBreakpoints = true)
    (hnodup : (run config (turns ++ [t])).numbers.Nodup) : Kept config (turns ++ [t]) := by
  cases t with
  | call op => exact h.call (hop op rfl) hnodup
  | move i m => exact h.move i m hnodup
  | news n =>
    have hrun := run_snoc config turns (.news n)
    cases hc : (run config turns).session.isConnected with
    | true =>
      rw [turn_news hc] at hrun
      refine h.of_same (by rw [hrun]) ?_
      rw [hrun, Session.tables_news]
    | false =>
      rw [turn_news_of_not_connected hc] at hrun
      exact h.of_same (by rw [hrun]) (by rw [hrun])

end Kept

/-- The numbers that were given so far stay among those that are given. -/
theorem nodup_numbers_turn (e : Ensemble) (t : Turn) (h : (e.turn t).numbers.Nodup) :
    e.numbers.Nodup := by
  cases t with
  | call op => exact (gains_call e op).nodup h
  | move i m =>
    cases hi : e.calls[i]? with
    | none => rwa [turn_move_none hi] at h
    | some o =>
      cases hwaits : o.isWaiting with
      | true => exact (gains_move hi hwaits m).nodup h
      | false =>
        obtain ⟨hlt, hget⟩ := List.getElem?_eq_some_iff.mp hi
        rwa [turn_move hi, Ongoing.move_of_not_waiting hwaits, ← hget, List.set_getElem_self] at h
  | news n =>
    cases hc : e.session.isConnected with
    | true => rwa [turn_news hc] at h
    | false => rwa [turn_news_of_not_connected hc] at h

/-- In every run of calls about breakpoints the tables are in tally, if no number is given twice. -/
theorem kept_run (config : Config) (turns : List Turn)
    (hops : ∀ op, .call op ∈ turns → op.concernsBreakpoints = true)
    (hnodup : (run config turns).numbers.Nodup) : Kept config turns := by
  -- From the end of the run: numbers that differ at the end have differed all along.
  induction turns using List.reverseRecOn with
  | nil =>
    refine ⟨Tallies.empty.mono (fun b => ⟨?_, False.elim⟩) (fun b => ⟨?_, False.elim⟩) fun _ => id,
      ?_⟩
    · rintro ⟨o, ho, -⟩
      cases ho
    · rintro ⟨o, ho, -⟩
      cases ho
    · intro i o hi
      cases hi
  | append_singleton turns t ih =>
    have hearlier := nodup_numbers_turn (run config turns) t (run_snoc config turns t ▸ hnodup)
    refine (ih (fun op hop => hops op (List.mem_append_left _ hop)) hearlier).turn ?_ hnodup
    rintro op rfl
    exact hops op (List.mem_append_right _ (List.mem_singleton_self _))

/--
Where no number is given to two breakpoints, each template belongs to a breakpoint that stands and
has this message, unless a removal that had found another breakpoint has taken it; and each
breakpoint that stands and was added in full has the template of its message. This holds at every
moment of a run of calls about breakpoints, whatever the debugger answers and wherever calls are
given up.
-/
theorem logPoints_tally (config : Config) (turns : List Turn)
    (hops : ∀ op, .call op ∈ turns → op.concernsBreakpoints = true)
    (hnumbers : (run config turns).numbers.Nodup) :
    let e := run config turns
    (∀ id t, e.session.logPoints.templates.get? id = some t →
      ∃ b : Breakpoint, b.id = id ∧ b.template? = some t ∧
        (b ∈ e.session.breakpoints ∨ Ousted config turns b)) ∧
    ∀ o ∈ e.calls, ∀ b t, o.addition? = some (.added b) → b ∈ e.session.breakpoints →
      b.template? = some t → e.session.logPoints.templates.get? b.id = some t := by
  intro e
  have hkept := kept_run config turns hops hnumbers
  have hmem : ∀ b, b ∈ e.session.breakpoints ↔ b ∈ e.session.board.installed.values :=
    fun b => List.mem_mergeSort
  refine ⟨fun id t ht => ?_, fun o ho b t ha hb ht => ?_⟩
  · obtain ⟨b, hid, htemplate, hb⟩ := hkept.tallies.owned id t ht
    exact ⟨b, hid, htemplate, hb.imp_left (hmem b).mpr⟩
  · exact hkept.tallies.registered b t ⟨o, ho, ha⟩ ((hmem b).mp hb) ht

theorem logPoints_tally_added :
    let logged : Descriptor :=
      { file := some "main.c", line := some 12, logMessage := some "hit" }
    let turns : List Turn := [.call (.bringUp { cwd := "/w", mode := .load "a.out" none none }),
      .call (.addBreakpoint logged),
      .news (.hear (Text.Utf8.encode "6^done,bkpt=\x7bnumber=\"1\"\x7d\n")), .move 1 .resume]
    (∀ op, .call op ∈ turns → op.concernsBreakpoints = true) ∧ (run {} turns).numbers.Nodup ∧
      (run {} turns).session.logPoints.templates.get? 1 = some (LogTemplate.ofMessage "hit") := by
  intro logged turns
  have hops : ∀ op, .call op ∈ turns → op.concernsBreakpoints = true := by
    intro op hop
    simp only [turns, List.mem_cons, Turn.call.injEq, List.not_mem_nil, or_false, reduceCtorEq]
      at hop
    rcases hop with rfl | rfl <;> rfl
  have hnumbers : (run {} turns).numbers.Nodup := by decide +kernel
  let b : Breakpoint := ⟨1, .source "main.c" 12, some "main.c", none, none, some "hit"⟩
  have hadded : some (.added b) ∈ (run {} turns).calls.map (·.addition?) := by decide +kernel
  have hstands : b ∈ (run {} turns).session.breakpoints := by decide +kernel
  obtain ⟨o, ho, ha⟩ := List.mem_map.mp hadded
  exact ⟨hops, hnumbers, (logPoints_tally {} turns hops hnumbers).2 o ho b _ ha hstands rfl⟩

/--
A removal is answered after its breakpoint was cleared and a log point was added in its place: the
log point leaves the board, and its template stays.
-/
theorem template_outlives_breakpoint :
    let place : Descriptor := { file := some "main.c", line := some 12 }
    let logged : Descriptor := { place with logMessage := some "hit" }
    let prints (text : String) : Turn := .news (.hear (Text.Utf8.encode text))
    let turns : List Turn := [.call (.bringUp { cwd := "/w", mode := .load "a.out" none none }),
      prints "1^done\n2^done\n3^done\n4^done\n5^done\n", .move 0 .resume,
      .call (.addBreakpoint place), prints "6^done,bkpt=\x7bnumber=\"1\"\x7d\n", .move 1 .resume,
      .call (.removeBreakpoint place), .call (.clearBreakpoints (some "main.c")),
      .call (.addBreakpoint logged), prints "9^done,bkpt=\x7bnumber=\"2\"\x7d\n", .move 4 .resume,
      prints "7^done\n8^done\n", .move 2 .resume, .move 3 .resume]
    let e := run {} turns
    e.numbers = [1, 2] ∧ (e.calls.all fun o => !o.isWaiting) = true ∧
      e.session.logPoints.contains 2 = true ∧ e.session.breakpoints = [] := by
  decide +kernel

end Ensemble

end MachineInterface

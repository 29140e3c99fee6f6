import MachineInterface.Proofs.Session.Finales

/-!
# Reservations

A location is reserved while a call adds a breakpoint there. No breakpoint stands there meanwhile,
and no other call adds one there.

* `Board.Yields`: what a call can make of the reservations of others.
* `booked_run`: in every run each location belongs to one call at a time.
-/

namespace MachineInterface

/-! ## Boards -/

namespace Board

variable {b : Board} {l l' : Location}

/--
No location is newly reserved and all stay so but one, and no breakpoint is put where one is on its
way.
-/
structure Yields (l? : Option Location) (b b' : Board) : Prop where
  old : ∀ l ∈ b'.reserved, l ∈ b.reserved
  kept : ∀ l ∈ b.reserved, l? ≠ some l → l ∈ b'.reserved
  vacant : ∀ l ∈ b'.reserved, b.get? l = none → b'.get? l = none

theorem yields_refl (l? : Option Location) (b : Board) : Yields l? b b :=
  ⟨fun _ h => h, fun _ h _ => h, fun _ _ h => h⟩

theorem yields_settle (b : Board) (l : Location) (outcome : Option Breakpoint) :
    Yields (some l) b (b.settle l outcome) := by
  refine ⟨fun k hk => ((mem_reserved_settle b outcome).mp hk).1, fun k hk hne => ?_, fun k hk h => ?_⟩
  · refine (mem_reserved_settle b outcome).mpr ⟨hk, ?_⟩
    rintro rfl
    exact hne rfl
  · have hne := ((mem_reserved_settle b outcome).mp hk).2
    rw [get?_settle_of_ne b hne.symm]
    exact h

theorem yields_remove (b : Board) (l : Location) : Yields none b (b.remove l) := by
  refine ⟨fun _ h => h, fun _ h _ => h, fun k _ h => ?_⟩
  rw [get?_remove, h, ite_self]

theorem yields_takeSource (b : Board) (source : Option String) :
    Yields none b (b.takeSource source).2 :=
  ⟨fun _ h => h, fun _ h _ => h, fun _ _ h => get?_takeSource_eq_none h source⟩

end Board

open Session (Does Bides)

/-! ## Deeds and boards -/

namespace Session

variable {s u : Session}

theorem board_of_bides (h : Bides s u) : u.board = s.board := by
  refine h.eq (f := Session.board) fun d hd s => ?_
  rcases hd with hd | hd
  · cases d with
    | issue command tolerant =>
      obtain ⟨exchange, outbox, hissue⟩ := exists_issue_eq s command tolerant
      rw [Deed.apply, hissue]
    | write line =>
      obtain ⟨outbox, hwrite⟩ := exists_write_eq s line
      rw [Deed.apply, hwrite]
    | abandon | tell | requestKill | learn | register => rfl
    | _ => cases hd
  · exact hd.elim

theorem board_news (s : Session) (n : News) : (n.apply s).board = s.board := by
  have hboard := congrArg Session.board (held_news s n)
  exact hboard

theorem board_launchFailed (s : Session) (detail : String) :
    (s.launchFailed detail).board = s.board := by
  have hboard := congrArg Session.board (backdrop_onQuit (s.emit (.launchError detail)))
  exact hboard

end Session

/-- A call has removed the breakpoint at a location. -/
def Ongoing.HasRemoved (l : Location) (o : Ongoing) : Prop :=
  ∃ d, d.location = .ok l ∧ o = ⟨.removeBreakpoint d, some (.done (.ok true))⟩

namespace Operation

/-- The location at which an operation adds a breakpoint. -/
def adds? : Operation → Option Location
  | addBreakpoint d => d.location.toOption
  | _ => none

/-- The location at which an operation removes a breakpoint. -/
def removes? : Operation → Option Location
  | removeBreakpoint d => d.location.toOption
  | _ => none

theorem adds?_of_location {d : Descriptor} {l : Location} (hl : d.location = .ok l) :
    (addBreakpoint d).adds? = some l := by
  rw [adds?, hl]
  rfl

theorem location_of_adds? {op : Operation} {l : Location} (h : op.adds? = some l) :
    ∃ d, op = addBreakpoint d ∧ d.location = .ok l := by
  cases op with
  | addBreakpoint d =>
    refine ⟨d, rfl, ?_⟩
    cases hl : d.location with
    | error e => simp [adds?, hl, Except.toOption] at h
    | ok k => simpa [adds?, hl, Except.toOption] using h
  | _ => cases h

theorem location_of_removes? {op : Operation} {l : Location} (h : op.removes? = some l) :
    ∃ d, op = removeBreakpoint d ∧ d.location = .ok l := by
  cases op with
  | removeBreakpoint d =>
    refine ⟨d, rfl, ?_⟩
    cases hl : d.location with
    | error e => simp [removes?, hl, Except.toOption] at h
    | ok k => simpa [removes?, hl, Except.toOption] using h
  | _ => cases h

variable {s : Session}

theorem board_finale (op : Operation) (found : UInt32) (a : op.Answer) (s : Session) :
    (Deed.after (op.finale? found a) s).board = s.board ∨
      (∃ l outcome, op.adds? = some l ∧
        (Deed.after (op.finale? found a) s).board = s.board.settle l outcome) ∨
      ∃ l, op.removes? = some l ∧ Ongoing.HasRemoved l ⟨op, some (.done a)⟩ ∧
        (Deed.after (op.finale? found a) s).board = s.board.remove l := by
  cases op with
  | bringUp _ | startLocal _ _ | startSsh _ _ _ =>
    left
    cases a <;> rfl
  | start _ =>
    left
    cases a with
    | error _ => rfl
    | ok _ =>
      change s.markStarted.board = s.board
      unfold Session.markStarted
      dsimp only
      split <;> rfl
  | addBreakpoint d =>
    simp only [finale?, adds?, settlement?]
    split
    · exact .inl rfl
    · cases hl : d.location with
      | error e => exact .inl rfl
      | ok l => exact .inr (.inl ⟨l, _, rfl, rfl⟩)
  | removeBreakpoint d =>
    simp only [finale?, removes?, removal?]
    split
    · cases hl : d.location with
      | error e => exact .inl rfl
      | ok l => exact .inr (.inr ⟨l, rfl, ⟨d, hl, rfl⟩, rfl⟩)
    · exact .inl rfl
  | _ => exact .inl rfl

theorem board_release (op : Operation) (s : Session) :
    (Deed.after op.release? s).board = s.board ∨
      ∃ l, op.adds? = some l ∧ (Deed.after op.release? s).board = s.board.settle l none := by
  cases op with
  | addBreakpoint d =>
    simp only [release?, adds?]
    cases d.location with
    | error e => exact .inl rfl
    | ok l => exact .inr ⟨l, rfl, rfl⟩
  | _ => exact .inl rfl

/-- What the opening of a call makes of the board, if the location that it needs is free. -/
theorem board_opened (op : Operation) (s : Session)
    (hfree : ∀ l, op.adds? = some l → s.board.isFree l = true) :
    ((op.opened s).board = s.board ∧ op.adds? = none) ∨
      (∃ l, op.adds? = some l ∧ (op.opened s).board = s.board.withReserved l) ∨
      ∃ source, op = .clearBreakpoints source ∧
        (op.opened s).board = (s.board.takeSource source).2 := by
  cases op with
  | bringUp _ | startLocal _ _ | startSsh _ _ _ =>
    obtain ⟨link, hconnect⟩ := Session.exists_connect_eq s
    refine .inl ⟨?_, rfl⟩
    change s.connect.2.board = s.board
    rw [hconnect]
  | addBreakpoint d =>
    cases hl : d.location with
    | error e =>
      left
      simp [opened, opening?, adds?, hl, Except.toOption, Deed.after]
    | ok l =>
      have hreserve := Session.reserve_of_isFree (hfree l (adds?_of_location hl))
      refine .inr (.inl ⟨l, adds?_of_location hl, ?_⟩)
      simp [opened, opening?, hl, Except.toOption, Deed.after, Deed.apply, hreserve]
  | clearBreakpoints source => exact .inr (.inr ⟨source, rfl, rfl⟩)
  | _ => exact .inl ⟨rfl, rfl⟩

/-- The opening of a call leaves a breakpoint that stands, or takes it with its file. -/
theorem get?_opened {l : Location} {bp : Breakpoint} (op : Operation) (s : Session)
    (hfree : ∀ l, op.adds? = some l → s.board.isFree l = true) (hget : s.board.get? l = some bp) :
    (op.opened s).board.get? l = some bp ∨
      ∃ source, op = .clearBreakpoints source ∧ bp ∈ (s.board.takeSource source).1 := by
  rcases op.board_opened s hfree with ⟨hboard, -⟩ | ⟨k, -, hboard⟩ | ⟨source, rfl, hboard⟩
  · exact .inl (hboard ▸ hget)
  · exact .inl (hboard ▸ hget)
  · rcases Board.get?_takeSource hget source with hmem | hstays
    · exact .inr ⟨source, rfl, hmem⟩
    · exact .inl (hboard ▸ hstays)

end Operation

/-! ## Calls and boards -/

namespace Ongoing

variable {s u : Session} {o o' : Ongoing} {op : Operation}

/-- The location at which a call adds a breakpoint, while it waits. -/
def adding? (o : Ongoing) : Option Location := if o.isWaiting then o.op.adds? else none

/-- The location at which a call removes a breakpoint, while it waits. -/
def removing? (o : Ongoing) : Option Location := if o.isWaiting then o.op.removes? else none

theorem adding?_of_waiting {d : Descriptor} {l : Location} {c : Call (Except Error Addition)}
    (hl : d.location = .ok l) (hc : c.result? = none) :
    adding? ⟨.addBreakpoint d, some c⟩ = some l := by
  rw [adding?, if_pos (isWaiting_some.mpr hc)]
  exact Operation.adds?_of_location hl

/-- A call that goes on gives up its own reservation at most, and not while it waits. -/
theorem Goes.yields (h : Goes op s o u) : ∃ l?, Board.Yields l? s.board u.board ∧
    (l? = none ∨ l? = op.adds?) ∧ (o.adding? = none ∨ l? = none ∧ o.adding? = op.adds?) := by
  cases h with
  | @waits c _ hc hdoes =>
    have hwaits : isWaiting ⟨op, some c⟩ = true := isWaiting_some.mpr hc
    rw [Session.board_of_bides hdoes, adding?, if_pos hwaits]
    exact ⟨none, Board.yields_refl none _, .inl rfl, .inr ⟨rfl, rfl⟩⟩
  | @ends a v found hdoes =>
    have hboard := Session.board_of_bides hdoes
    rcases op.board_finale found a v with h | ⟨l, outcome, hl, h⟩ | ⟨l, -, -, h⟩
    · rw [h, hboard]
      exact ⟨none, Board.yields_refl none _, .inl rfl, .inl rfl⟩
    · rw [h, hboard]
      exact ⟨some l, Board.yields_settle _ l outcome, .inr hl.symm, .inl rfl⟩
    · rw [h, hboard]
      exact ⟨none, Board.yields_remove _ l, .inl rfl, .inl rfl⟩

theorem Moves.yields (h : Moves s o o' u) : ∃ l?, Board.Yields l? s.board u.board ∧
    (l? = none ∨ l? = o.adding?) ∧ (o'.adding? = none ∨ l? = none ∧ o'.adding? = o.adding?) := by
  cases h with
  | rests ho => exact ⟨none, Board.yields_refl none _, .inl rfl, .inr ⟨rfl, rfl⟩⟩
  | goes ho hgoes =>
    have hadds : o.adding? = o.op.adds? := if_pos ho
    rw [hadds]
    exact hgoes.yields
  | @leaves v d? ho hdoes hd =>
    have hadds : o.adding? = o.op.adds? := if_pos ho
    have hboard := Session.board_of_bides hdoes
    have hsame : ∃ l?, Board.Yields l? s.board s.board ∧ (l? = none ∨ l? = o.op.adds?) ∧
        (adding? ⟨o.op, none⟩ = none ∨ l? = none ∧ adding? ⟨o.op, none⟩ = o.op.adds?) :=
      ⟨none, Board.yields_refl none _, .inl rfl, .inl rfl⟩
    rw [hadds]
    rcases hd with rfl | rfl
    · rw [Deed.after, Option.elim_none, hboard]
      exact hsame
    · rcases o.op.board_release v with h | ⟨l, hl, h⟩
      · rw [h, hboard]
        exact hsame
      · rw [h, hboard]
        exact ⟨some l, Board.yields_settle _ l none, .inr hl.symm, .inl rfl⟩

/--
A call that adds no breakpoint at a location leaves the one that stands there, unless it has removed
it.
-/
theorem Goes.get? {l : Location} (h : Goes op s o u) (hadd : op.adds? ≠ some l) :
    u.board.get? l = s.board.get? l ∨ op.removes? = some l ∧ o.HasRemoved l := by
  cases h with
  | waits hc hdoes => exact .inl (by rw [Session.board_of_bides hdoes])
  | @ends a v found hdoes =>
    rw [← Session.board_of_bides hdoes]
    rcases op.board_finale found a v with hboard | ⟨k, outcome, hk, hboard⟩ | ⟨k, hk, hremoved, hboard⟩
    · exact .inl (by rw [hboard])
    · rw [hboard]
      refine .inl (Board.get?_settle_of_ne _ ?_ outcome)
      rintro rfl
      exact hadd hk
    · by_cases hkl : k = l
      · exact .inr (hkl ▸ ⟨hk, hremoved⟩)
      · rw [hboard, Board.get?_remove, if_neg hkl]
        exact .inl rfl

theorem Moves.get? {l : Location} (h : Moves s o o' u) (hadd : o.adding? ≠ some l) :
    u.board.get? l = s.board.get? l ∨ o.removing? = some l ∧ o'.HasRemoved l := by
  cases h with
  | rests ho => exact .inl rfl
  | goes ho hgoes =>
    rw [adding?, if_pos ho] at hadd
    rw [removing?, if_pos ho]
    exact hgoes.get? hadd
  | @leaves v d? ho hdoes hd =>
    rw [adding?, if_pos ho] at hadd
    left
    rw [← Session.board_of_bides hdoes]
    rcases hd with rfl | rfl
    · rfl
    · rcases o.op.board_release v with hboard | ⟨k, hk, hboard⟩
      · rw [hboard]
      · rw [hboard]
        refine Board.get?_settle_of_ne _ ?_ none
        rintro rfl
        exact hadd hk

theorem Goes.removing? (h : Goes op s o u) : o.removing? = none ∨ o.removing? = op.removes? := by
  cases h with
  | waits hc hdoes => exact .inr (if_pos (isWaiting_some.mpr hc))
  | ends found hdoes => exact .inl rfl

theorem Moves.removing? (h : Moves s o o' u) :
    o'.removing? = none ∨ o'.removing? = o.removing? := by
  cases h with
  | rests ho => exact .inr rfl
  | goes ho hgoes =>
    have hremoves : o.removing? = o.op.removes? := if_pos ho
    rw [hremoves]
    exact hgoes.removing?
  | leaves ho hdoes hd => exact .inl rfl

end Ongoing

/-! ## Runs -/

namespace Ensemble

variable {e : Ensemble}

/-- Each location belongs to one call at a time, and no breakpoint stands there meanwhile. -/
structure Booked (e : Ensemble) : Prop where
  vacant : ∀ l ∈ e.session.board.reserved, e.session.board.get? l = none
  reserved : ∀ (i : Nat) (o : Ongoing) (l : Location), e.calls[i]? = some o →
    o.adding? = some l → l ∈ e.session.board.reserved
  apart : ∀ (i j : Nat) (o o' : Ongoing) (l : Location), e.calls[i]? = some o →
    e.calls[j]? = some o' → o.adding? = some l → o'.adding? = some l → i = j

/-- Every call that adds a breakpoint did so before, and its location was not given up. -/
theorem Booked.of_yields {e' : Ensemble} (h : e.Booked) (l? : Option Location)
    (hy : Board.Yields l? e.session.board e'.session.board)
    (hcalls : ∀ (i : Nat) (o' : Ongoing) (l : Location), e'.calls[i]? = some o' →
      o'.adding? = some l → l? ≠ some l ∧ ∃ o, e.calls[i]? = some o ∧ o.adding? = some l) :
    e'.Booked := by
  refine ⟨fun l hl => hy.vacant l hl (h.vacant l (hy.old l hl)), ?_, ?_⟩
  · intro i o' l hi hl
    obtain ⟨hne, o, ho, hadding⟩ := hcalls i o' l hi hl
    exact hy.kept l (h.reserved i o l ho hadding) hne
  · intro i j o₁ o₂ l hi hj h₁ h₂
    obtain ⟨-, o, ho, hadding⟩ := hcalls i o₁ l hi h₁
    obtain ⟨-, o', ho', hadding'⟩ := hcalls j o₂ l hj h₂
    exact h.apart i j o o' l ho ho' hadding hadding'

/-- One more call, which has its location for itself if it adds a breakpoint. -/
theorem Booked.push {o : Ongoing} (h : e.Booked) (ho : ∀ l, o.adding? = some l →
    l ∈ e.session.board.reserved ∧ ∀ o' ∈ e.calls, o'.adding? ≠ some l) :
    Booked { e with calls := e.calls ++ [o] } := by
  have hcases : ∀ {i : Nat} {o' : Ongoing}, (e.calls ++ [o])[i]? = some o' →
      e.calls[i]? = some o' ∨ i = e.calls.length ∧ o' = o := by
    intro i o' hi
    rw [List.getElem?_append] at hi
    split at hi
    · exact .inl hi
    · rw [List.getElem?_singleton] at hi
      split at hi
      · exact .inr ⟨by omega, (Option.some.inj hi).symm⟩
      · cases hi
  refine ⟨h.vacant, ?_, ?_⟩
  · intro i o' l hi hl
    rcases hcases hi with hi | ⟨-, rfl⟩
    · exact h.reserved i o' l hi hl
    · exact (ho l hl).1
  · intro i j o₁ o₂ l hi hj h₁ h₂
    rcases hcases hi with hold | ⟨hlast, rfl⟩
    · rcases hcases hj with hold' | ⟨-, rfl⟩
      · exact h.apart i j o₁ o₂ l hold hold' h₁ h₂
      · exact absurd h₁ ((ho l h₂).2 o₁ (List.mem_of_getElem? hold))
    · rcases hcases hj with hold' | ⟨hlast', -⟩
      · exact absurd h₂ ((ho l h₁).2 o₂ (List.mem_of_getElem? hold'))
      · exact hlast.trans hlast'.symm

theorem Booked.move (h : e.Booked) (hf : e.Follows) (i : Nat) (m : Ongoing.Move) :
    (e.turn (.move i m)).Booked := by
  cases hi : e.calls[i]? with
  | none =>
    rw [turn_move_none hi]
    exact h
  | some o =>
    have hmoves := ((hf o (List.mem_of_getElem? hi)).move m e.session).2
    obtain ⟨l?, hy, hl?, ho'⟩ := hmoves.yields
    rw [turn_move hi]
    refine h.of_yields l? hy fun j o₁ l hj hl => ?_
    rw [List.getElem?_set] at hj
    split at hj
    · rename_i hij
      split at hj
      · obtain rfl := Option.some.inj hj
        rcases ho' with ho' | ⟨rfl, ho'⟩
        · rw [ho'] at hl
          cases hl
        · exact ⟨by rintro ⟨⟩, o, hij ▸ hi, ho' ▸ hl⟩
      · cases hj
    · rename_i hij
      refine ⟨?_, o₁, hj, hl⟩
      rintro rfl
      rcases hl? with hl? | hl?
      · cases hl?
      · exact hij (h.apart i j o o₁ l hi hj hl?.symm hl)

theorem turn_of_taken {op : Operation} {l : Location} (hl : op.adds? = some l)
    (ht : e.session.board.isFree l = false) : ∃ a : op.Answer,
      e.turn (.call op) = { e with calls := e.calls ++ [⟨op, some (.done a)⟩] } := by
  obtain ⟨d, rfl, hd⟩ := Operation.location_of_adds? hl
  have hadvance := Session.advance_of_taken hd (Board.isFree_eq_false_iff.mp ht)
  refine ⟨.ok .alreadyInstalled, ?_⟩
  simp only [Ensemble.turn, Operation.call, hadvance]

/-- A new call is done at once, or the location that it needs is free. -/
theorem refused_or_free (e : Ensemble) (op : Operation) :
    (∃ a : op.Answer, e.turn (.call op) = { e with calls := e.calls ++ [⟨op, some (.done a)⟩] }) ∨
      ∀ l, op.adds? = some l → e.session.board.isFree l = true := by
  by_cases htaken : ∃ l, op.adds? = some l ∧ e.session.board.isFree l = false
  · obtain ⟨l, hl, ht⟩ := htaken
    exact .inl (turn_of_taken hl ht)
  · right
    intro l hl
    rw [← Bool.not_eq_false]
    exact fun ht => htaken ⟨l, hl, ht⟩

/-- The opening of a call leaves each location to its call. -/
theorem Booked.opened (h : e.Booked) {op : Operation}
    (hfree : ∀ l, op.adds? = some l → e.session.board.isFree l = true) :
    Booked { e with session := op.opened e.session } := by
  have hcalls : ∀ (i : Nat) (o' : Ongoing) (l : Location), e.calls[i]? = some o' →
      o'.adding? = some l →
        (none : Option Location) ≠ some l ∧ ∃ o, e.calls[i]? = some o ∧ o.adding? = some l :=
    fun i o' l hi hl => ⟨by rintro ⟨⟩, o', hi, hl⟩
  rcases op.board_opened e.session hfree with ⟨hboard, -⟩ | ⟨l, hl, hboard⟩ | ⟨source, -, hboard⟩
  · refine h.of_yields none ?_ hcalls
    rw [hboard]
    exact Board.yields_refl none _
  · refine ⟨?_, ?_, h.apart⟩
    · rw [hboard]
      intro k hk
      rcases List.mem_cons.mp hk with rfl | hk
      · have hvacant : e.session.board.get? k = none := Board.get?_of_isFree (hfree k hl)
        exact hvacant
      · exact h.vacant k hk
    · rw [hboard]
      exact fun i o k hi hk => List.mem_cons_of_mem l (h.reserved i o k hi hk)
  · refine h.of_yields none ?_ hcalls
    rw [hboard]
    exact Board.yields_takeSource _ source

/-- A call that begins has its location for itself. -/
theorem Booked.begins (h : e.Booked) {op : Operation} {o : Ongoing} {u : Session}
    (hfree : ∀ l, op.adds? = some l → e.session.board.isFree l = true)
    (hbegins : Operation.Begins op e.session o u) : Booked ⟨u, e.calls ++ [o]⟩ := by
  have hothers : ∀ l, op.adds? = some l → ∀ o ∈ e.calls, o.adding? ≠ some l := by
    intro l hl o ho hadding
    obtain ⟨i, hi⟩ := List.getElem?_of_mem ho
    exact (Board.isFree_iff.mp (hfree l hl)).2 (h.reserved i o l hi hadding)
  cases hbegins with
  | @fails a detail hlaunch ha =>
    have hold : Booked ⟨e.session.launchFailed detail, e.calls⟩ := by
      refine h.of_yields none ?_ fun i o l hi hl => ⟨by rintro ⟨⟩, o, hi, hl⟩
      rw [Session.board_launchFailed]
      exact Board.yields_refl none _
    refine hold.push fun l hl => ?_
    cases hl
  | goes hgoes =>
    obtain ⟨l?, hy, hl?, ho⟩ := hgoes.yields
    have hold : Booked ⟨u, e.calls⟩ := by
      refine (h.opened hfree).of_yields l? hy fun i o' l hi hl => ⟨?_, o', hi, hl⟩
      rintro rfl
      rcases hl? with hl? | hl?
      · cases hl?
      · exact hothers l hl?.symm o' (List.mem_of_getElem? hi) hl
    refine hold.push fun l hl => ?_
    rcases ho with ho | ⟨rfl, ho⟩
    · rw [ho] at hl
      cases hl
    · have hadds : op.adds? = some l := ho ▸ hl
      refine ⟨hy.kept l ?_ (by rintro ⟨⟩), hothers l hadds⟩
      rcases op.board_opened e.session hfree with ⟨-, hne⟩ | ⟨k, hk, hboard⟩ | ⟨source, rfl, -⟩
      · rw [hadds] at hne
        cases hne
      · obtain rfl := Option.some.inj (hadds.symm.trans hk)
        rw [hboard]
        exact List.mem_cons_self
      · cases hadds

theorem Booked.call (h : e.Booked) (op : Operation) : (e.turn (.call op)).Booked := by
  rcases refused_or_free e op with ⟨a, ha⟩ | hfree
  · rw [ha]
    refine h.push fun l hl => ?_
    cases hl
  · exact h.begins hfree (op.begins_call e.session).2

theorem Booked.turn (h : e.Booked) (hf : e.Follows) (t : Turn) : (e.turn t).Booked := by
  cases t with
  | call op => exact h.call op
  | move i m => exact h.move hf i m
  | news n =>
    cases hc : e.session.isConnected with
    | true =>
      rw [turn_news hc]
      refine h.of_yields none ?_ fun i o l hi hl => ⟨by rintro ⟨⟩, o, hi, hl⟩
      rw [Session.board_news]
      exact Board.yields_refl none _
    | false =>
      rw [turn_news_of_not_connected hc]
      exact h

/-- In every run each location belongs to one call at a time. -/
theorem booked_run (config : Config) (turns : List Turn) : (run config turns).Booked := by
  induction turns using List.reverseRecOn with
  | nil =>
    constructor
    · intro l hl
      cases hl
    · intro i o l hi
      cases hi
    · intro i j o o' l hi
      cases hi
  | append_singleton turns t ih =>
    rw [run_snoc]
    exact ih.turn (follows_run config turns) t

end Ensemble

end MachineInterface

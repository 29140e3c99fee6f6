import MachineInterface.Proofs.Session.Growth

/-!
# How long calls wait

Some calls are done after a number of answers, whatever these are.

* `Session.within_addBreakpoint`: an addition waits for three answers at most.
* `Due.turn`, `Ready.resume`: a call whose answer is there waits for one answer less.
-/

namespace MachineInterface

namespace Call

variable {α β : Type} {s u : Session}

/-- A call is done after so many answers at most, whatever these are. -/
def Within : (answers : Nat) → Call α → Prop
  | _, done _ => True
  | n, step _ next => ∀ b, (next b).Within n
  | 0, reply _ _ _ => False
  | n + 1, reply _ _ next => ∀ r, (next r).Within n
  | _, ending _ _ => False

theorem Within.mono {c : Call α} {m n : Nat} (h : c.Within m) (hmn : m ≤ n) : c.Within n := by
  induction c generalizing m n with
  | done a => trivial
  | step run next ih => exact fun b => ih b (h b) hmn
  | reply ticket release next ih =>
    match m, n with
    | 0, _ => cases h
    | m + 1, 0 => omega
    | m + 1, n + 1 => exact fun r => ih r (h r) (by omega)
  | ending patient next ih => cases m <;> cases h

theorem within_bind {c : Call α} {f : α → Call β} {m n : Nat} (hc : c.Within m)
    (hf : ∀ a, (f a).Within n) : (c.bind f).Within (m + n) := by
  induction c generalizing m with
  | done a => exact (hf a).mono (by omega)
  | step run next ih => exact fun b => ih b (hc b)
  | reply ticket release next ih =>
    match m with
    | 0 => cases hc
    | m + 1 =>
      rw [Nat.succ_add]
      exact fun r => ih r (hc r)
  | ending patient next ih => cases m <;> cases hc

theorem within_holding {c : Call α} {release : Session → Session} {n : Nat} (hc : c.Within n) :
    (c.holding release).Within n := by
  induction c generalizing n with
  | done a => trivial
  | step run next ih => exact fun b => ih b (hc b)
  | reply ticket inner next ih =>
    match n with
    | 0 => cases hc
    | n + 1 => exact fun r => ih r (hc r)
  | ending patient next ih => cases n <;> cases hc

theorem Within.advance {c : Call α} {n : Nat} (h : c.Within n) (s : Session) :
    (c.advance s).1.Within n := by
  induction c generalizing n s with
  | done a => trivial
  | step run next ih => exact ih _ (h _) _
  | reply ticket release next ih =>
    match n with
    | 0 => cases h
    | n + 1 =>
      unfold Call.advance
      split
      · exact (ih _ (h _) _).mono (Nat.le_succ n)
      · exact h
  | ending patient next ih => cases n <;> cases h

end Call

namespace CallM

variable {α β : Type}

theorem within_bind {c : CallM α} {f : α → CallM β} {m n : Nat} (hc : c.run.Within m)
    (hf : ∀ a, (f a).run.Within n) : (c >>= f).run.Within (m + n) := by
  refine Call.within_bind hc fun r => ?_
  cases r with
  | ok a => exact hf a
  | error e => trivial

theorem within_lift {c : Call α} {n : Nat} (hc : c.Within n) :
    (ExceptT.lift c : CallM α).run.Within n :=
  Call.within_bind (f := fun a => (Call.done (.ok a) : Call (Except Error α))) (n := 0) hc
    fun _ => trivial

theorem within_locked (run : Session → Except Error α × Session) : (locked run).run.Within 0 :=
  fun _ => trivial

theorem within_modify (f : Session → Session) : (modify f).run.Within 0 := fun _ => trivial

theorem within_ask (command : String) : (ask command).run.Within 1 :=
  within_bind (n := 1) (within_locked _) fun _ _ => trivial

end CallM

namespace Session

open CallM

theorem within_setCondition (id : UInt32) (condition : Option String) :
    (setCondition id condition).run.Within 1 := by
  unfold setCondition
  split
  · exact within_bind (n := 0) (within_ask _) fun _ => trivial
  · trivial

theorem within_setLogMessage (id : UInt32) (message : Option String) :
    (setLogMessage id message).run.Within 1 := by
  unfold setLogMessage
  split
  · dsimp only
    split
    · exact fun _ => trivial
    · refine within_bind (n := 0) ?_ fun _ => within_modify _
      exact within_bind (n := 0) (within_ask _) fun _ => trivial
  · trivial

theorem within_install (l : Location) (d : Descriptor) : (install l d).run.Within 3 := by
  unfold install
  refine within_bind (n := 3) (within_modify _) fun _ => ?_
  refine within_bind (n := 2) (within_ask _) fun answer => ?_
  refine within_bind (m := 0) (n := 2) trivial fun b => ?_
  refine within_bind (n := 1) (within_lift (within_setCondition _ _)) fun condition => ?_
  refine within_bind (n := 0) (within_lift (within_setLogMessage _ _)) fun message => ?_
  split <;> trivial

/-- An addition waits for three answers at most: to its insert, its condition and its message. -/
theorem within_addBreakpoint (d : Descriptor) : (addBreakpoint d).run.Within 3 := by
  have hinstall : ∀ l, ((install l d).run.holding (settle l none)).Within 3 :=
    fun l => Call.within_holding (within_install l d)
  unfold addBreakpoint
  refine within_bind (m := 0) (n := 3) trivial fun l => ?_
  refine within_bind (m := 0) (n := 3) (fun _ => trivial) fun isReserved => ?_
  split
  · refine within_bind (n := 0) (within_lift (hinstall l)) fun outcome => ?_
    exact within_bind (n := 0) (within_modify _) fun _ => trivial
  · trivial

end Session

/-! ## In an ensemble -/

namespace Ensemble

variable {e : Ensemble} {i n : Nat}

/-- A call is done after so many more answers at most. -/
def Due (e : Ensemble) (i n : Nat) : Prop :=
  ∃ op c, e.calls[i]? = some ⟨op, some c⟩ ∧ c.isPaused = true ∧ c.Within n

/-- A call waits for so many answers at most once it has gone on. -/
def Ready (e : Ensemble) (i n : Nat) : Prop :=
  ∃ op c, e.calls[i]? = some ⟨op, some c⟩ ∧
    ∀ u, e.session.exchange.completions <+: u.exchange.completions → (c.advance u).1.Within n

theorem Due.mono {m : Nat} (h : e.Due i m) (hmn : m ≤ n) : e.Due i n := by
  obtain ⟨op, c, hi, hpaused, hwithin⟩ := h
  exact ⟨op, c, hi, hpaused, hwithin.mono hmn⟩

theorem due_call (e : Ensemble) {op : Operation} (h : op.call.Within n) :
    (e.turn (.call op)).Due e.calls.length n :=
  ⟨op, _, List.getElem?_concat_length, Call.isPaused_advance _ _, h.advance _⟩

theorem Due.turn (h : e.Due i n) {t : Turn} (ht : ∀ m, t = .move i m → m = .resume) :
    (e.turn t).Due i n := by
  obtain ⟨op, c, hi, hpaused, hwithin⟩ := h
  rcases getElem?_calls_turn hi t with hsame | ⟨m, hmove, hmoved⟩
  · exact ⟨op, c, hsame, hpaused, hwithin⟩
  · obtain rfl := ht m hmove
    exact ⟨op, _, hmoved, Call.isPaused_advance _ _, hwithin.advance _⟩

theorem Ready.turn (h : e.Ready i n) (hp : e.Proper) {t : Turn} (ht : ∀ m, t ≠ .move i m) :
    (e.turn t).Ready i n := by
  obtain ⟨op, c, hi, hready⟩ := h
  have hanswers := (hp.grows_turn t).answers
  rcases getElem?_calls_turn hi t with hsame | ⟨m, hmove, -⟩
  · exact ⟨op, c, hsame, fun u hu => hready u (hanswers.trans hu)⟩
  · exact absurd hmove (ht m)

/-- A call whose answer is there waits for one answer less. -/
theorem Ready.resume (h : e.Ready i n) : (e.turn (.move i .resume)).Due i n := by
  obtain ⟨op, c, hi, hready⟩ := h
  refine ⟨op, (c.advance e.session).1, ?_, Call.isPaused_advance _ _, hready _ List.prefix_rfl⟩
  rw [turn_move hi, List.getElem?_set_self (List.getElem?_eq_some_iff.mp hi).1]
  rfl

theorem Due.ready (h : e.Due i (n + 1)) (hanswered : ∀ op ticket release next,
    e.calls[i]? = some ⟨op, some (.reply ticket release next)⟩ →
      e.session.exchange.reply? ticket ≠ none) : e.Ready i n := by
  obtain ⟨op, c, hi, hpaused, hwithin⟩ := h
  refine ⟨op, c, hi, fun u hu => ?_⟩
  cases c with
  | done a => trivial
  | step run next => cases hpaused
  | reply ticket release next =>
    obtain ⟨r, hr⟩ := Option.ne_none_iff_exists'.mp (hanswered _ _ _ _ hi)
    rw [Call.advance_reply_of_some (Exchange.reply?_of_prefix hu hr)]
    exact (hwithin r).advance u
  | ending patient next => cases hwithin

theorem Due.done (h : e.Due i 0) : ∃ o, e.calls[i]? = some o ∧ o.isWaiting = false := by
  obtain ⟨op, c, hi, hpaused, hwithin⟩ := h
  refine ⟨_, hi, ?_⟩
  cases c with
  | done a => rfl
  | step run next => cases hpaused
  | reply ticket release next => cases hwithin
  | ending patient next => cases hwithin

end Ensemble

end MachineInterface

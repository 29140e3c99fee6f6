import MachineInterface.Proofs.Session.Frame
import MachineInterface.Proofs.Session.Operations
import Mathlib.Data.List.Induction

/-!
# Ensembles

A session with all the calls that were made of it. The calls take turns in any order, each can be
given up while it waits, and in between the debugger does what it likes.

* `Ensemble.run`: the ensemble after any turns.
* `Proper.run`: in every run each call does the deeds of its operation alone.
-/

namespace MachineInterface

/-- A call that was made. -/
structure Ongoing : Type 1 where
  op : Operation
  /-- What is left of the call, unless it was given up. -/
  rest? : Option (Call op.Answer)

namespace Ongoing

/-- Something that becomes of a call. -/
inductive Move where
  /-- It goes on as far as it can. -/
  | resume
  /-- Its grace period passes, if it has one. -/
  | expire
  /-- The caller gives up, unless the call is done. -/
  | giveUp
  deriving Repr, DecidableEq

/-- A call and its session after something became of the call. -/
def move (o : Ongoing) (m : Move) (s : Session) : Ongoing × Session :=
  match o.rest? with
  | none => (o, s)
  | some rest =>
    match m with
    | .resume => (⟨o.op, some (rest.advance s).1⟩, (rest.advance s).2)
    | .expire => (⟨o.op, some (rest.expire.advance s).1⟩, (rest.expire.advance s).2)
    | .giveUp => if rest.result?.isSome then (o, s) else (⟨o.op, none⟩, rest.drop s)

theorem op_move (o : Ongoing) (m : Move) (s : Session) : (o.move m s).1.op = o.op := by
  unfold Ongoing.move
  split
  · rfl
  · cases m with
    | giveUp =>
      dsimp only
      split <;> rfl
    | _ => rfl

/-- A call meets after a move what it met before. -/
theorem meets_move {t : Call.Terms} (ht : t.Admits) {op : Operation} {c c' : Call op.Answer}
    {post : op.Answer → Session → Prop} {s : Session} (h : c.Meets t post s) {m : Move}
    (hc' : (move ⟨op, some c⟩ m s).1 = ⟨op, some c'⟩) : c'.Meets t post (move ⟨op, some c⟩ m s).2 := by
  cases m with
  | resume =>
    cases hc'
    exact h.advance ht
  | expire =>
    cases hc'
    exact (h.expire ht).advance ht
  | giveUp =>
    cases hresult : c.result? with
    | some a =>
      simp only [move, hresult, Option.isSome_some, if_true] at hc' ⊢
      cases hc'
      exact h
    | none =>
      simp only [move, hresult, Option.isSome_none, Bool.false_eq_true, if_false] at hc'
      cases hc'

end Ongoing

/-- Something that the debugger does by itself. -/
inductive News where
  /-- It prints bytes. -/
  | hear (chunk : List UInt8)
  /-- It prints on its error stream. -/
  | complain (text : String)
  /-- It could not be reached after all, which is told shortly before its end. -/
  | refuse (detail : String)
  /-- It stops reading. -/
  | deafen
  /-- It ends. -/
  | leave
  deriving Repr, DecidableEq

/-- The session after something that the debugger did. -/
def News.apply : News → Session → Session
  | hear chunk, s => s.receive chunk
  | complain text, s => s.emit (.message .stderr text)
  | refuse detail, s => s.emit (.launchError detail)
  | deafen, s => s.deafen
  | leave, s => s.finish

/-- What the debugger does by itself changes no more than its output and its end do. -/
theorem Session.held_news (s : Session) (n : News) : (n.apply s).held = s.held := by
  cases n with
  | hear chunk => exact held_receive s chunk
  | leave => exact held_finish s
  | deafen =>
    obtain ⟨link, hdeafen⟩ := exists_deafen_eq s
    rw [News.apply, hdeafen]
    rfl
  | _ => rfl

/-- Whether the debugger was started and has not ended. -/
def Session.isConnected (s : Session) : Bool := s.link = .open || s.link = .deaf

/-- A session and all calls that were made of it, in order. -/
structure Ensemble : Type 1 where
  session : Session
  calls : List Ongoing := []

/-- Something that happens to an ensemble. -/
inductive Turn where
  | call (op : Operation)
  | move (i : Nat) (m : Ongoing.Move)
  | news (n : News)

namespace Ensemble

/--
An ensemble after a turn. All runs on one thread, and a call is suspended nowhere but where it waits
for an answer or for the end of the debugger. So a call that has its turn runs all its sections up
to the next such wait, and nothing comes between them; `Call.exists_walk_eq_advance` takes a turn
apart into single sections.
-/
def turn (e : Ensemble) : Turn → Ensemble
  | .call op =>
    ⟨(op.call.advance e.session).2, e.calls ++ [⟨op, some (op.call.advance e.session).1⟩]⟩
  | .move i m =>
    match e.calls[i]? with
    | some o => ⟨(o.move m e.session).2, e.calls.set i (o.move m e.session).1⟩
    | none => e
  | .news n => if e.session.isConnected then { e with session := n.apply e.session } else e

/-- The ensemble of a new session after some turns. -/
def run (config : Config) (turns : List Turn) : Ensemble := turns.foldl turn { session := { config } }

theorem run_append (config : Config) (turns more : List Turn) :
    run config (turns ++ more) = more.foldl turn (run config turns) := List.foldl_append

theorem run_snoc (config : Config) (turns : List Turn) (t : Turn) :
    run config (turns ++ [t]) = (run config turns).turn t := run_append config turns [t]

/-! ## Turns -/

variable {e : Ensemble}

theorem turn_move {i : Nat} {o : Ongoing} (h : e.calls[i]? = some o) (m : Ongoing.Move) :
    e.turn (.move i m) = ⟨(o.move m e.session).2, e.calls.set i (o.move m e.session).1⟩ := by
  simp only [turn, h]

theorem turn_move_none {i : Nat} (h : e.calls[i]? = none) (m : Ongoing.Move) :
    e.turn (.move i m) = e := by
  simp only [turn, h]

theorem turn_news (h : e.session.isConnected = true) (n : News) :
    e.turn (.news n) = { e with session := n.apply e.session } := by
  simp only [turn, h, if_true]

theorem turn_news_of_not_connected (h : e.session.isConnected = false) (n : News) :
    e.turn (.news n) = e := by
  simp only [turn, h, Bool.false_eq_true, if_false]

theorem session_call_of_launchFailure {op : Operation} {detail : String}
    (h : op.launchFailure? e.session.config = some detail) :
    (e.turn (.call op)).session = e.session.launchFailed detail := by
  obtain ⟨a, ha⟩ := Operation.advance_call_of_launchFailure h
  simp only [turn, ha]

/-- What holds of all calls still does after a turn, if it holds of new calls and moves keep it. -/
theorem forall_calls_turn {P : Ongoing → Prop}
    (hcall : ∀ op : Operation, P ⟨op, some (op.call.advance e.session).1⟩)
    (hmove : ∀ o, P o → ∀ m, P (o.move m e.session).1) (h : ∀ o ∈ e.calls, P o) (t : Turn) :
    ∀ o ∈ (e.turn t).calls, P o := by
  cases t with
  | call op =>
    intro o ho
    rcases List.mem_append.mp ho with ho | ho
    · exact h o ho
    · obtain rfl := List.mem_singleton.mp ho
      exact hcall op
  | move i m =>
    cases hi : e.calls[i]? with
    | none =>
      rw [turn_move_none hi]
      exact h
    | some o =>
      rw [turn_move hi]
      intro o' ho'
      rcases List.mem_or_eq_of_mem_set ho' with ho' | rfl
      · exact h o' ho'
      · exact hmove o (h o (List.mem_of_getElem? hi)) m
  | news n =>
    cases hc : e.session.isConnected with
    | true =>
      rw [turn_news hc]
      exact h
    | false =>
      rw [turn_news_of_not_connected hc]
      exact h

/-- A call stays as it is in a turn, but for a move of its own. -/
theorem getElem?_calls_turn {i : Nat} {o : Ongoing} (h : e.calls[i]? = some o) (t : Turn) :
    (e.turn t).calls[i]? = some o ∨
      ∃ m, t = .move i m ∧ (e.turn t).calls[i]? = some (o.move m e.session).1 := by
  obtain ⟨hlt, -⟩ := List.getElem?_eq_some_iff.mp h
  cases t with
  | call op =>
    left
    rw [turn, List.getElem?_append_left hlt]
    exact h
  | move j m =>
    by_cases hij : j = i
    · subst hij
      refine .inr ⟨m, rfl, ?_⟩
      rw [turn_move h, List.getElem?_set_self hlt]
    · left
      cases hj : e.calls[j]? with
      | none =>
        rw [turn_move_none hj]
        exact h
      | some o' =>
        rw [turn_move hj, List.getElem?_set_ne hij]
        exact h
  | news n =>
    left
    cases hc : e.session.isConnected with
    | true =>
      rw [turn_news hc]
      exact h
    | false =>
      rw [turn_news_of_not_connected hc]
      exact h

/-- A new call comes last. -/
theorem getElem?_calls_call {i : Nat} {o : Ongoing} {op : Operation}
    (h : (e.turn (.call op)).calls[i]? = some o) : e.calls[i]? = some o ∨
      i = e.calls.length ∧ o = ⟨op, some (op.call.advance e.session).1⟩ := by
  rw [turn, List.getElem?_append] at h
  split at h
  · exact .inl h
  · rw [List.getElem?_singleton] at h
    split at h
    · exact .inr ⟨by omega, (Option.some.inj h).symm⟩
    · cases h

/-- After a turn each call was there before, perhaps before a move of its own, or it is new. -/
theorem getElem?_of_calls_turn {i : Nat} {o : Ongoing} {t : Turn}
    (h : (e.turn t).calls[i]? = some o) : e.calls[i]? = some o ∨
      (∃ m o', t = .move i m ∧ e.calls[i]? = some o' ∧ o = (o'.move m e.session).1) ∨
      ∃ op, t = .call op ∧ o = ⟨op, some (op.call.advance e.session).1⟩ := by
  cases hi : e.calls[i]? with
  | some o' =>
    rcases getElem?_calls_turn hi t with hsame | ⟨m, rfl, hmoved⟩
    · exact .inl (hsame.symm.trans h)
    · exact .inr (.inl ⟨m, o', rfl, rfl, Option.some.inj (h.symm.trans hmoved)⟩)
  | none =>
    have hle : e.calls.length ≤ i := List.getElem?_eq_none_iff.mp hi
    cases t with
    | call op =>
      refine .inr (.inr ⟨op, rfl, ?_⟩)
      rw [turn, List.getElem?_append_right hle, List.getElem?_singleton] at h
      split at h
      · exact (Option.some.inj h).symm
      · cases h
    | move j m =>
      cases hj : e.calls[j]? with
      | none =>
        rw [turn_move_none hj, hi] at h
        cases h
      | some o' =>
        rw [turn_move hj, List.getElem?_eq_none (by simpa using hle)] at h
        cases h
    | news n =>
      cases hc : e.session.isConnected with
      | true =>
        rw [turn_news hc, hi] at h
        cases h
      | false =>
        rw [turn_news_of_not_connected hc, hi] at h
        cases h

end Ensemble

/-! ## Deeds -/

open Session (Does)

/-- A call waits or is done, and what is left of it does the deeds of its operation alone. -/
def Ongoing.Proper (o : Ongoing) : Prop :=
  ∀ rest, o.rest? = some rest → rest.isPaused = true ∧ rest.Through o.op.extra

namespace Ongoing.Proper

variable {o : Ongoing}

theorem move (h : o.Proper) (m : Move) (s : Session) :
    (o.move m s).1.Proper ∧ Does o.op.extra s (o.move m s).2 := by
  unfold Ongoing.move
  split
  · exact ⟨h, Does.refl s⟩
  · rename_i rest hrest
    obtain ⟨hpaused, hthrough⟩ := h rest hrest
    cases m with
    | resume =>
      obtain ⟨hdoes, hnext⟩ := hthrough.advance s
      refine ⟨?_, hdoes⟩
      rintro _ ⟨⟩
      exact ⟨Call.isPaused_advance rest s, hnext⟩
    | expire =>
      obtain ⟨hdoes, hnext⟩ := hthrough.expire.advance s
      refine ⟨?_, hdoes⟩
      rintro _ ⟨⟩
      exact ⟨Call.isPaused_advance rest.expire s, hnext⟩
    | giveUp =>
      dsimp only
      split
      · exact ⟨h, Does.refl s⟩
      · refine ⟨?_, hthrough.drop s⟩
        rintro _ ⟨⟩

theorem call (op : Operation) (s : Session) : Proper ⟨op, some (op.call.advance s).1⟩ := by
  rintro _ ⟨⟩
  refine ⟨Call.isPaused_advance op.call s, ?_⟩
  cases hlaunch : op.launchFailure? s.config with
  | none =>
    rw [Operation.advance_call_of_launched hlaunch]
    exact (op.through_course.advance s).2
  | some detail =>
    obtain ⟨a, ha⟩ := Operation.advance_call_of_launchFailure hlaunch
    rw [ha]
    trivial

end Ongoing.Proper

namespace Ensemble

variable {e : Ensemble}

/-- All calls are proper. -/
def Proper (e : Ensemble) : Prop := ∀ o ∈ e.calls, o.Proper

theorem Proper.turn (h : e.Proper) (t : Turn) : (e.turn t).Proper :=
  forall_calls_turn (fun op => Ongoing.Proper.call op e.session)
    (fun _ ho m => (ho.move m e.session).1) h t

/-- In every run each call does the deeds of its operation alone. -/
theorem Proper.run (config : Config) (turns : List Turn) : (run config turns).Proper := by
  induction turns using List.reverseRecOn with
  | nil =>
    intro o ho
    cases ho
  | append_singleton turns t ih =>
    rw [run_snoc]
    exact ih.turn t

theorem does_call {op : Operation} (h : op.launchFailure? e.session.config = none) :
    Does op.extra e.session (e.turn (.call op)).session := by
  have hadvance := (op.through_course.advance e.session).1
  rw [← Operation.advance_call_of_launched h] at hadvance
  exact hadvance

theorem Proper.does_move (h : e.Proper) {i : Nat} {o : Ongoing} (hi : e.calls[i]? = some o)
    (m : Ongoing.Move) : Does o.op.extra e.session (e.turn (.move i m)).session := by
  rw [turn_move hi]
  exact ((h o (List.mem_of_getElem? hi)).move m e.session).2

/--
What happens to the session in a turn: the debugger could not be started, it did something by
itself, or a call did deeds of its operation.
-/
theorem Proper.session_turn (h : e.Proper) {r : Session → Prop} (t : Turn)
    (hfail : ∀ op detail, t = .call op → op.launchFailure? e.session.config = some detail →
      r (e.session.launchFailed detail))
    (hnews : ∀ n, t = .news n → e.session.isConnected = true → r (n.apply e.session))
    (hdoes : ∀ extra u, Does extra e.session u → r u) : r (e.turn t).session := by
  cases t with
  | call op =>
    cases hlaunch : op.launchFailure? e.session.config with
    | none => exact hdoes _ _ (does_call hlaunch)
    | some detail =>
      rw [session_call_of_launchFailure hlaunch]
      exact hfail op detail rfl hlaunch
  | move i m =>
    cases hi : e.calls[i]? with
    | none =>
      rw [turn_move_none hi]
      exact hdoes (fun _ => False) _ (Does.refl _)
    | some o => exact hdoes _ _ (h.does_move hi m)
  | news n =>
    cases hc : e.session.isConnected with
    | true =>
      rw [turn_news hc]
      exact hnews n rfl hc
    | false =>
      rw [turn_news_of_not_connected hc]
      exact hdoes (fun _ => False) _ (Does.refl _)

end Ensemble

end MachineInterface

import MachineInterface.Proofs.Session.Calls
import MachineInterface.Proofs.Session.Sections
import MachineInterface.Proofs.Variable.Handles
import MachineInterface.Session.Operation
import Mathlib.Logic.Relation

/-!
# Deeds

All that the calls of a front end do to their session comes from a few deeds. A property that every
deed keeps is kept by every call, in whatever order the sections of several calls run.

* `Does.rel`: what holds of every deed holds of any number of them.
* `Does.later`: what is learnt about variables comes from requests.
* `Through.advance`, `Through.drop`: what a call does while it goes on or is given up.
-/

namespace MachineInterface

/-- Something that a section of a call does to its session. -/
inductive Deed where
  | issue (command : String) (tolerant : Bool)
  | write (line : String)
  | abandon (ticket : Nat)
  | tell (channel : Channel) (text : String)
  | requestKill
  /-- Keeps what the debugger has said about itself and about variables. -/
  | learn (features : List String) (targetFeatures registerNames : Option (List String))
    (registry : Registry)
  | register (id : UInt32) (template : LogTemplate)
  | connect
  | tellReady
  | markStarted
  | reserve (l : Location)
  | settle (l : Location) (outcome : Option Breakpoint)
  | forget (l : Location) (id : UInt32)
  | takeSource (source : Option String)

namespace Deed

/-- The session after a deed. -/
def apply : Deed → Session → Session
  | issue command tolerant, s => (s.issue command tolerant).2
  | write line, s => (s.write line).2
  | abandon ticket, s => { s with exchange := s.exchange.abandon ticket }
  | tell channel text, s => s.emitLine channel text
  | requestKill, s => s.kill
  | learn features targetFeatures registerNames registry, s =>
    { s with features, targetFeatures, registerNames, registry }
  | register id template, s => { s with logPoints := s.logPoints.register id template }
  | connect, s => s.connect.2
  | tellReady, s => s.emit .debugReady
  | markStarted, s => s.markStarted
  | reserve l, s => (s.reserve l).2
  | settle l outcome, s => s.settle l outcome
  | forget l id, s => s.forget l id
  | takeSource source, s => (s.takeSource source).2

/-- Whether a deed may be part of any call. -/
def IsPlain : Deed → Prop
  | issue _ _ | write _ | abandon _ | tell _ _ | requestKill | learn _ _ _ _ | register _ _ => True
  | _ => False

/-- A registry that is learnt has served some more requests. -/
def Serves (s : Session) : Deed → Prop
  | learn _ _ _ registry => s.registry.Later registry
  | _ => True

/-- Whether a deed tells the front end nothing. -/
def IsMute : Deed → Prop
  | tell _ _ | tellReady | markStarted => False
  | _ => True

end Deed

namespace Session

/-- A deed that is plain or one of some others is done. -/
inductive Step (extra : Deed → Prop) : Session → Session → Prop
  | plain {d : Deed} (h : d.IsPlain) (s : Session) (hr : d.Serves s) : Step extra s (d.apply s)
  | extra {d : Deed} (h : extra d) (s : Session) : Step extra s (d.apply s)

/-- Plain deeds and some others are done. -/
def Does (extra : Deed → Prop) : Session → Session → Prop := Relation.ReflTransGen (Step extra)

namespace Does

variable {extra : Deed → Prop} {s u v : Session}

theorem refl (s : Session) : Does extra s s := Relation.ReflTransGen.refl

theorem trans (h : Does extra s u) (h' : Does extra u v) : Does extra s v :=
  Relation.ReflTransGen.trans h h'

theorem plain {d : Deed} (h : d.IsPlain) (s : Session) (hr : d.Serves s) :
    Does extra s (d.apply s) :=
  Relation.ReflTransGen.single (.plain h s hr)

theorem of_extra {d : Deed} (h : extra d) (s : Session) : Does extra s (d.apply s) :=
  Relation.ReflTransGen.single (.extra h s)

/-- What holds of every deed holds of any number of them. -/
theorem rel {r : Session → Session → Prop} (hrefl : ∀ s, r s s)
    (htrans : ∀ {s u v}, r s u → r u v → r s v)
    (hdeed : ∀ d, d.IsPlain ∨ extra d → ∀ s, r s (d.apply s)) (h : Does extra s u) : r s u := by
  induction h with
  | refl => exact hrefl s
  | tail _ hstep ih =>
    refine htrans ih ?_
    cases hstep with
    | plain hd => exact hdeed _ (.inl hd) _
    | extra hd => exact hdeed _ (.inr hd) _

theorem eq {γ : Type} {f : Session → γ}
    (hdeed : ∀ d, d.IsPlain ∨ extra d → ∀ s, f (d.apply s) = f s) (h : Does extra s u) :
    f u = f s :=
  rel (r := fun s u => f u = f s) (fun _ => rfl) (fun h h' => h'.trans h) hdeed h

end Does

/-! ## What deeds touch -/

section

variable (s : Session)

theorem exists_issue_eq (command : String) (tolerant : Bool) :
    ∃ exchange outbox, (s.issue command tolerant).2 = { s with exchange, outbox } := by
  unfold issue
  split
  · exact ⟨s.exchange, s.outbox, rfl⟩
  · exact ⟨s.exchange, s.outbox, rfl⟩
  · exact ⟨_, _, rfl⟩
  · exact ⟨_, s.outbox, rfl⟩

theorem exists_write_eq (line : String) : ∃ outbox, (s.write line).2 = { s with outbox } := by
  unfold write
  split
  · exact ⟨s.outbox, rfl⟩
  · exact ⟨s.outbox, rfl⟩
  · exact ⟨_, rfl⟩
  · exact ⟨s.outbox, rfl⟩

theorem exists_connect_eq : ∃ link, s.connect.2 = { s with link } := by
  unfold connect
  split
  · exact ⟨_, rfl⟩
  · exact ⟨s.link, rfl⟩

theorem exists_reserve_eq (l : Location) : ∃ board, (s.reserve l).2 = { s with board } := by
  unfold reserve
  split
  · exact ⟨_, rfl⟩
  · exact ⟨s.board, rfl⟩

/-- Nothing was told, and nothing about the program is known that was not. -/
structure Unmoved (s u : Session) : Prop where
  events : u.events = s.events
  runState : u.runState = s.runState
  crashed : u.crashed = s.crashed
  quit : u.quit = s.quit
  quitEmitted : u.quitEmitted = s.quitEmitted

theorem unmoved_apply {d : Deed} (hd : d.IsMute) : Unmoved s (d.apply s) := by
  cases d with
  | issue command tolerant =>
    obtain ⟨exchange, outbox, hissue⟩ := exists_issue_eq s command tolerant
    rw [Deed.apply, hissue]
    exact ⟨rfl, rfl, rfl, rfl, rfl⟩
  | write line =>
    obtain ⟨outbox, hwrite⟩ := exists_write_eq s line
    rw [Deed.apply, hwrite]
    exact ⟨rfl, rfl, rfl, rfl, rfl⟩
  | connect =>
    obtain ⟨link, hconnect⟩ := exists_connect_eq s
    rw [Deed.apply, hconnect]
    exact ⟨rfl, rfl, rfl, rfl, rfl⟩
  | reserve l =>
    obtain ⟨board, hreserve⟩ := exists_reserve_eq s l
    rw [Deed.apply, hreserve]
    exact ⟨rfl, rfl, rfl, rfl, rfl⟩
  | tell | tellReady | markStarted => exact hd.elim
  | _ => exact ⟨rfl, rfl, rfl, rfl, rfl⟩

/-- No deed but one that learns does anything about variables. -/
theorem later_apply {d : Deed} (h : d.Serves s) : s.registry.Later (d.apply s).registry := by
  cases d with
  | learn => exact h
  | issue command tolerant =>
    obtain ⟨exchange, outbox, hissue⟩ := exists_issue_eq s command tolerant
    rw [Deed.apply, hissue]
    exact .refl _
  | write line =>
    obtain ⟨outbox, hwrite⟩ := exists_write_eq s line
    rw [Deed.apply, hwrite]
    exact .refl _
  | connect =>
    obtain ⟨link, hconnect⟩ := exists_connect_eq s
    rw [Deed.apply, hconnect]
    exact .refl _
  | reserve l =>
    obtain ⟨board, hreserve⟩ := exists_reserve_eq s l
    rw [Deed.apply, hreserve]
    exact .refl _
  | markStarted =>
    rw [Deed.apply, markStarted]
    split <;> exact .refl _
  | _ => exact .refl _

theorem exchange_apply (d : Deed) : (d.apply s).exchange = s.exchange ∨
    (∃ command tolerant, d = .issue command tolerant) ∨ ∃ ticket, d = .abandon ticket := by
  cases d with
  | issue command tolerant => exact .inr (.inl ⟨command, tolerant, rfl⟩)
  | abandon ticket => exact .inr (.inr ⟨ticket, rfl⟩)
  | write line =>
    obtain ⟨outbox, hwrite⟩ := exists_write_eq s line
    rw [Deed.apply, hwrite]
    exact .inl rfl
  | connect =>
    obtain ⟨link, hconnect⟩ := exists_connect_eq s
    rw [Deed.apply, hconnect]
    exact .inl rfl
  | reserve l =>
    obtain ⟨board, hreserve⟩ := exists_reserve_eq s l
    rw [Deed.apply, hreserve]
    exact .inl rfl
  | markStarted =>
    rw [Deed.apply, markStarted]
    split <;> exact .inl rfl
  | _ => exact .inl rfl

/-- A deed writes at most one line, and only to a debugger that reads. -/
theorem outbox_apply (d : Deed) : (d.apply s).outbox = s.outbox ∨
    s.link = .open ∧ ∃ sent, (d.apply s).outbox = s.outbox ++ [sent] := by
  cases d with
  | issue command tolerant =>
    rw [Deed.apply, issue]
    split
    · exact .inl rfl
    · exact .inl rfl
    · exact .inr ⟨by assumption, _, rfl⟩
    · exact .inl rfl
  | write line =>
    rw [Deed.apply, write]
    split
    · exact .inl rfl
    · exact .inl rfl
    · exact .inr ⟨by assumption, _, rfl⟩
    · exact .inl rfl
  | connect =>
    obtain ⟨link, hconnect⟩ := exists_connect_eq s
    rw [Deed.apply, hconnect]
    exact .inl rfl
  | reserve l =>
    obtain ⟨board, hreserve⟩ := exists_reserve_eq s l
    rw [Deed.apply, hreserve]
    exact .inl rfl
  | markStarted =>
    rw [Deed.apply, markStarted]
    split <;> exact .inl rfl
  | _ => exact .inl rfl

/-- Only a connection starts a debugger, and only where none was started. -/
theorem link_apply (d : Deed) : (d.apply s).link = s.link ∨
    d = .connect ∧ s.link = .none ∧ (d.apply s).link = .open := by
  cases d with
  | connect =>
    cases hlink : s.link with
    | none => exact .inr ⟨rfl, rfl, by simp [Deed.apply, connect, hlink]⟩
    | «open» | deaf | closed => exact .inl (by simp [Deed.apply, connect, hlink])
  | issue command tolerant =>
    obtain ⟨exchange, outbox, hissue⟩ := exists_issue_eq s command tolerant
    rw [Deed.apply, hissue]
    exact .inl rfl
  | write line =>
    obtain ⟨outbox, hwrite⟩ := exists_write_eq s line
    rw [Deed.apply, hwrite]
    exact .inl rfl
  | reserve l =>
    obtain ⟨board, hreserve⟩ := exists_reserve_eq s l
    rw [Deed.apply, hreserve]
    exact .inl rfl
  | markStarted =>
    rw [Deed.apply, markStarted]
    split <;> exact .inl rfl
  | _ => exact .inl rfl

theorem exists_deafen_eq : ∃ link, s.deafen = { s with link } := by
  unfold deafen
  split
  · exact ⟨_, rfl⟩
  · exact ⟨s.link, rfl⟩

end

/-! ## Sections -/

section

variable {extra : Deed → Prop}

/-- What is learnt about variables comes from requests. -/
theorem Does.later {s u : Session} (hextra : ∀ d, extra d → ∀ s, d.Serves s)
    (h : Does extra s u) : s.registry.Later u.registry := by
  induction h with
  | refl => exact .refl _
  | tail _ hstep ih =>
    refine ih.trans ?_
    cases hstep with
    | plain hd _ hr => exact later_apply _ hr
    | extra hd => exact later_apply _ (hextra _ hd _)

theorem does_issue (command : String) (tolerant : Bool) (s : Session) :
    Does extra s (s.issue command tolerant).2 :=
  Does.plain (d := .issue command tolerant) trivial s trivial

theorem does_issueAll (commands : List (String × Bool)) (s : Session) :
    Does extra s (issueAll commands s).2 := by
  induction commands generalizing s with
  | nil => exact Does.refl s
  | cons c commands ih =>
    have hissue : Does extra s (s.issue c.1 c.2).2 := does_issue c.1 c.2 s
    unfold issueAll
    dsimp only
    split
    · rename_i e u h
      rw [h] at hissue
      exact hissue
    · rename_i ticket u h
      rw [h] at hissue
      exact hissue.trans (ih u)

theorem does_learn (features : List String) (targetFeatures registerNames : Option (List String))
    {registry : Registry} (s : Session) (h : s.registry.Later registry) :
    Does extra s { s with features, targetFeatures, registerNames, registry } :=
  Does.plain (d := .learn features targetFeatures registerNames registry) trivial s h

theorem does_emitLine (channel : Channel) (text : String) (s : Session) :
    Does extra s (s.emitLine channel text) :=
  Does.plain (d := .tell channel text) trivial s trivial

theorem does_warnHits (policy : Option HitPolicy) (s : Session) :
    Does extra s (warnHits policy s) := by
  unfold warnHits
  split
  · exact does_emitLine _ _ s
  · exact Does.refl s

end

end Session

open Session (Does)

/-! ## Calls -/

namespace Call

variable {α β : Type} {extra : Deed → Prop}

/-- A call does nothing but plain deeds and some others, whatever it is answered. -/
abbrev Through (extra : Deed → Prop) (c : Call α) : Prop := c.Relates (Does extra)

theorem through_read (f : Session → α) : (read f).Through extra := fun s => ⟨Does.refl s, trivial⟩

/-- A call goes on with its deeds alone, and there is nothing else in what is left of it. -/
theorem Through.advance {c : Call α} (hc : c.Through extra) (s : Session) :
    Does extra s (c.advance s).2 ∧ (c.advance s).1.Through extra :=
  Relates.advance Does.refl Does.trans hc s

theorem Through.expire {c : Call α} (hc : c.Through extra) : c.expire.Through extra :=
  Relates.expire hc

theorem Through.drop {c : Call α} (hc : c.Through extra) (s : Session) :
    Does extra s (c.drop s) := by
  rcases Relates.drop Does.refl hc s with hdoes | ⟨ticket, _, _, -, hdoes⟩
  · exact hdoes
  · exact (Does.plain (d := .abandon ticket) trivial s trivial).trans hdoes

end Call

namespace CallM

variable {α β : Type} {extra : Deed → Prop}

/-- A call that may fail does nothing but plain deeds and some others. -/
abbrev Through (extra : Deed → Prop) (c : CallM α) : Prop := c.Relates (Does extra)

theorem through_read (f : Session → α) : (read f).Through extra :=
  relates_lift (Call.through_read f)

theorem through_await (ticket : Nat) : (await ticket).Through extra :=
  ⟨fun s => Does.refl s, fun _ => trivial⟩

theorem through_send (command : String) (tolerant : Bool) :
    (send command tolerant).Through extra :=
  relates_bind (relates_locked (Session.does_issue command tolerant)) through_await

theorem through_ask (command : String) : (ask command).Through extra := through_send command false

theorem through_write (line : String) : (write line).Through extra :=
  relates_locked fun s => Does.plain (d := .write line) trivial s trivial

end CallM

end MachineInterface

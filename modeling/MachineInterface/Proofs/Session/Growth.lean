import MachineInterface.Proofs.Session.Closing
import MachineInterface.Proofs.Session.Finales

/-!
# What only grows

Answers and written commands are never taken back, and a debugger that has gone does not return.

* `Grows`: how a session can differ from an earlier one.
* `Proper.grows_turn`: no turn of an ensemble takes anything back.
* `wrote_removeFound`, `wrote_clearTaken`: a call that removes a breakpoint deletes it at once.
-/

namespace MachineInterface

/-- How far a debugger has come. -/
def Link.stage : Link → Nat
  | none => 0
  | «open» => 1
  | deaf => 2
  | closed => 3

namespace Session

variable {s u v : Session}

/-- Answers and written commands stay, and a debugger that has gone does not come back. -/
structure Grows (s u : Session) : Prop where
  outbox : s.outbox <+: u.outbox
  answers : s.exchange.completions <+: u.exchange.completions
  link : s.link.stage ≤ u.link.stage

namespace Grows

theorem refl (s : Session) : Grows s s := ⟨List.prefix_rfl, List.prefix_rfl, le_rfl⟩

theorem trans (h : Grows s u) (h' : Grows u v) : Grows s v :=
  ⟨h.outbox.trans h'.outbox, h.answers.trans h'.answers, h.link.trans h'.link⟩

theorem of_backdrop (h : u.backdrop = s.backdrop) : Grows s u := by
  have houtbox : u.outbox = s.outbox := by
    have hfield := congrArg Session.outbox h
    exact hfield
  have hexchange : u.exchange = s.exchange := by
    have hfield := congrArg Session.exchange h
    exact hfield
  have hlink : u.link = s.link := by
    have hfield := congrArg Session.link h
    exact hfield
  exact ⟨houtbox ▸ List.prefix_rfl, hexchange ▸ List.prefix_rfl, hlink ▸ le_rfl⟩

end Grows

theorem answers_apply (s : Session) (d : Deed) :
    s.exchange.completions <+: (d.apply s).exchange.completions := by
  rcases exchange_apply s d with hsame | ⟨command, tolerant, rfl⟩ | ⟨ticket, rfl⟩
  · exact hsame ▸ List.prefix_rfl
  · exact (Keeps.issue s command tolerant).answers
  · exact List.prefix_rfl

theorem grows_apply (s : Session) (d : Deed) : Grows s (d.apply s) := by
  refine ⟨?_, answers_apply s d, ?_⟩
  · rcases outbox_apply s d with houtbox | ⟨-, sent, houtbox⟩
    · exact houtbox ▸ List.prefix_rfl
    · exact houtbox ▸ List.prefix_append _ _
  · rcases link_apply s d with hlink | ⟨-, hnone, hlink⟩
    · exact hlink ▸ le_rfl
    · rw [hnone, hlink]
      exact Nat.zero_le _

theorem grows_of_does {extra : Deed → Prop} (h : Does extra s u) : Grows s u :=
  h.rel Grows.refl Grows.trans fun d _ s => grows_apply s d

/-- Where no debugger reads, nothing is written until one is started. -/
theorem outbox_of_not_open {extra : Deed → Prop} (h : Does extra s u)
    (hextra : ∀ d, extra d → d ≠ .connect) (hs : s.link ≠ .open) : u.outbox = s.outbox := by
  have hplain : ∀ d : Deed, d.IsPlain → d ≠ .connect := by
    rintro _ hd rfl
    exact hd
  have hdeed : ∀ d : Deed, d ≠ .connect → ∀ s : Session, s.link ≠ .open →
      (d.apply s).link ≠ .open ∧ (d.apply s).outbox = s.outbox := by
    intro d hd s hs
    constructor
    · rcases link_apply s d with hlink | ⟨hconnect, -⟩
      · rwa [hlink]
      · exact absurd hconnect hd
    · rcases outbox_apply s d with houtbox | ⟨hopen, -⟩
      · exact houtbox
      · exact absurd hopen hs
  have hboth : s.link ≠ .open → u.link ≠ .open ∧ u.outbox = s.outbox := by
    refine h.rel (r := fun s u => s.link ≠ .open → u.link ≠ .open ∧ u.outbox = s.outbox) ?_ ?_ ?_
    · exact fun _ hs => ⟨hs, rfl⟩
    · intro s u v h h' hs
      obtain ⟨hu, houtbox⟩ := h hs
      obtain ⟨hv, houtbox'⟩ := h' hu
      exact ⟨hv, houtbox'.trans houtbox⟩
    · exact fun d hd s hs => hdeed d (hd.elim (hplain d) (hextra d)) s hs
  exact (hboth hs).2

theorem outbox_news (s : Session) (n : News) : (n.apply s).outbox = s.outbox := by
  cases n with
  | hear chunk =>
    have hfield := congrArg Session.outbox (held_receive s chunk)
    exact hfield
  | deafen =>
    obtain ⟨link, hdeafen⟩ := exists_deafen_eq s
    rw [News.apply, hdeafen]
  | leave =>
    have hfield := congrArg Session.outbox (held_finish s)
    exact hfield
  | _ => rfl

theorem grows_news (s : Session) (n : News) : Grows s (n.apply s) := by
  have houtbox : s.outbox <+: (n.apply s).outbox := outbox_news s n ▸ List.prefix_rfl
  cases n with
  | hear chunk =>
    refine ⟨houtbox, (Keeps.receive s chunk).answers, ?_⟩
    rw [News.apply, link_receive]
  | deafen =>
    refine ⟨houtbox, (Keeps.deafen s).answers, ?_⟩
    rw [News.apply, deafen]
    split
    · rename_i hopen
      rw [hopen]
      exact Nat.le_succ 1
    · exact le_rfl
  | leave =>
    refine ⟨houtbox, (Keeps.finish s).answers, ?_⟩
    rw [News.apply, link_finish]
    cases s.link <;> decide
  | _ => exact ⟨houtbox, List.prefix_rfl, le_rfl⟩

/-! ## Deletes -/

/-- A command was written after `s`. -/
def Wrote (text : String) (s u : Session) : Prop :=
  ∃ token, .command token text ∈ u.outbox.drop s.outbox.length

namespace Wrote

variable {text : String}

theorem later (h : Wrote text s u) (hv : Grows u v) : Wrote text s v := by
  obtain ⟨token, hmem⟩ := h
  obtain ⟨more, hmore⟩ := hv.outbox
  refine ⟨token, ?_⟩
  rw [← hmore, List.drop_append]
  exact List.mem_append_left _ hmem

theorem earlier (hs : Grows s u) (h : Wrote text u v) : Wrote text s v := by
  obtain ⟨token, hmem⟩ := h
  exact ⟨token, List.drop_subset_drop_left _ hs.outbox.length_le hmem⟩

end Wrote

theorem wrote_issue (hopen : s.link = .open) (command : String) :
    Wrote command s (s.issue command false).2 := by
  refine ⟨s.exchange.freeToken, ?_⟩
  rw [issue_of_open hopen, List.drop_left]
  exact List.mem_singleton_self _

theorem link_issue (s : Session) (command : String) : (s.issue command false).2.link = s.link := by
  obtain ⟨exchange, outbox, hissue⟩ := exists_issue_eq s command false
  rw [hissue]

theorem grows_advance {α : Type} {extra : Deed → Prop} {c : Call α} (hc : c.Through extra)
    (s : Session) : Grows s (c.advance s).2 :=
  grows_of_does (hc.advance s).1

/-- A command that is written is not lost in what follows. -/
theorem wrote_advance {α β : Type} {extra : Deed → Prop} {f : α → CallM β}
    {run : Session → Except Error α × Session} {a : α} {text : String} {u : Session}
    (hrun : run s = (.ok a, u)) (h : Wrote text s u) (hf : (f a).Through extra) :
    Wrote text s ((CallM.locked run >>= f).run.advance s).2 := by
  rw [CallM.advance_locked_bind hrun]
  exact h.later (grows_advance hf u)

/-- A removal that has found a breakpoint deletes it at once. -/
theorem wrote_removeFound (hopen : s.link = .open) (l : Location) (id : UInt32) :
    Wrote (deleteCommand id) s ((removeFound l id).run.advance s).2 := by
  have hissue : s.issue (deleteCommand id) false =
      (.ok s.exchange.issued, (s.issue (deleteCommand id) false).2) := by
    rw [issue_of_open hopen]
  have hforget : ∀ s, Does (· = .forget l id) s (forget l id s) :=
    Does.of_extra (d := .forget l id) rfl
  have hrest : CallM.Through (· = .forget l id) (CallM.await s.exchange.issued >>= fun answer =>
      if answer.outcome = .done then do
        CallM.modify (forget l id)
        pure true
      else
        pure false) := by
    refine CallM.relates_bind (CallM.through_await _) fun answer => ?_
    split
    · exact CallM.relates_bind (CallM.relates_modify hforget) fun _ => CallM.relates_pure _
    · exact CallM.relates_pure _
  unfold removeFound CallM.ask CallM.send
  rw [bind_assoc]
  exact wrote_advance hissue (wrote_issue hopen _) hrest

theorem wrote_issueDeletes {α : Type} {taken : List Breakpoint} {b : Breakpoint} (hb : b ∈ taken)
    (hopen : s.link = .open) {f : List Nat × Option Error → CallM α}
    (hf : ∀ r, (f r).Through fun _ => False) :
    Wrote (deleteCommand b.id) s ((issueDeletes taken >>= f).run.advance s).2 := by
  induction taken generalizing s f with
  | nil => cases hb
  | cons b' taken ih =>
    have hthrough := CallM.relates_bind (through_issueDeletes (b' :: taken)) hf
    rcases List.mem_cons.mp hb with rfl | hb
    · obtain ⟨-, hnext⟩ := hthrough s
      exact (wrote_issue hopen _).later (grows_advance hnext _)
    · have hlink := (link_issue s (deleteCommand b'.id)).trans hopen
      have hgrows := grows_apply s (.issue (deleteCommand b'.id) false)
      unfold issueDeletes
      rw [bind_assoc]
      change Wrote _ s (((issueDeletes taken >>= _) >>= f).run.advance
        (s.issue (deleteCommand b'.id) false).2).2
      rw [bind_assoc]
      refine (ih hb hlink ?_).earlier hgrows
      rintro ⟨tickets, failure⟩
      refine CallM.relates_bind ?_ hf
      dsimp only
      split
      · exact CallM.relates_pure _
      · exact CallM.relates_pure _

theorem wrote_clearTaken {taken : List Breakpoint} {b : Breakpoint} (hb : b ∈ taken)
    (hopen : s.link = .open) :
    Wrote (deleteCommand b.id) s ((clearTaken taken).run.advance s).2 := by
  refine wrote_issueDeletes hb hopen fun r => ?_
  refine CallM.relates_bind (through_awaitAll _) fun unanswered => ?_
  split
  · exact CallM.relates_throw _
  · exact CallM.relates_pure _

end Session

/-! ## Ensembles -/

open Session (Grows)

namespace Ensemble

variable {e : Ensemble}

theorem Proper.grows_turn (h : e.Proper) (t : Turn) : Grows e.session (e.turn t).session := by
  refine h.session_turn (r := Grows e.session) t ?_ ?_ ?_
  · exact fun _ _ _ _ => .of_backdrop (Session.backdrop_onQuit _)
  · exact fun n _ _ => Session.grows_news e.session n
  · exact fun _ u hd => Session.grows_of_does hd

theorem Proper.grows_foldl_turn (h : e.Proper) (turns : List Turn) :
    Grows e.session (turns.foldl Ensemble.turn e).session := by
  induction turns generalizing e with
  | nil => exact Grows.refl _
  | cons t turns ih => exact (h.grows_turn t).trans (ih (h.turn t))

end Ensemble

end MachineInterface

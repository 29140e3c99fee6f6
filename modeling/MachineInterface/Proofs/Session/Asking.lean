import MachineInterface.Proofs.Session.Calls
import MachineInterface.Proofs.Session.Frame
import MachineInterface.Session.Breakpoints

/-!
# Asking the debugger

While a call waits for an answer, the debugger prints and may end. None of this touches the
breakpoints, and an answer that was received stays.

* `admits_keeping`: all that the debugger does by itself keeps breakpoints and answers.
* `meets_ask`: the rule for a command whose answer is awaited.
-/

namespace MachineInterface

namespace Session

/-- Breakpoints, templates and answers are kept; answers may be added. -/
structure Keeps (s u : Session) : Prop where
  board : u.board = s.board
  templates : u.logPoints.templates = s.logPoints.templates
  answers : s.exchange.completions <+: u.exchange.completions

namespace Keeps

variable {s u v : Session}

theorem refl (s : Session) : Keeps s s := ⟨rfl, rfl, List.prefix_rfl⟩

theorem trans (h : Keeps s u) (h' : Keeps u v) : Keeps s v :=
  ⟨h'.board.trans h.board, h'.templates.trans h.templates, h.answers.trans h'.answers⟩

theorem of_held (h : u.held = s.held) (ha : s.exchange.completions <+: u.exchange.completions) :
    Keeps s u := by
  have hboard := congrArg Session.board h
  have htemplates := congrArg (·.logPoints.templates) h
  exact ⟨hboard, htemplates, ha⟩

theorem receive (s : Session) (chunk : List UInt8) : Keeps s (s.receive chunk) := by
  refine of_held (held_receive s chunk) ?_
  rw [exchange_receive]
  exact Exchange.completions_foldl_hearLine _ _

theorem finish (s : Session) : Keeps s s.finish := by
  refine of_held (held_finish s) ?_
  rw [exchange_finish]
  exact (Exchange.completions_foldl_hearLine _ _).trans (Exchange.completions_failAll _ _)

theorem deafen (s : Session) : Keeps s s.deafen := by
  unfold Session.deafen
  split
  · exact ⟨rfl, rfl, List.prefix_rfl⟩
  · exact refl s

theorem abandon (s : Session) (ticket : Nat) :
    Keeps s { s with exchange := s.exchange.abandon ticket } :=
  ⟨rfl, rfl, List.prefix_rfl⟩

theorem issue (s : Session) (command : String) (tolerant : Bool) :
    Keeps s (s.issue command tolerant).2 := by
  unfold Session.issue
  split
  · exact refl s
  · exact refl s
  · exact ⟨rfl, rfl, List.prefix_rfl⟩
  · exact ⟨rfl, rfl, Exchange.completions_cancel (s.exchange.register command tolerant).2 _ _⟩

theorem reply? (h : Keeps s u) {ticket : Nat} {r : Reply}
    (hr : s.exchange.reply? ticket = some r) : u.exchange.reply? ticket = some r :=
  Exchange.reply?_of_prefix h.answers hr

end Keeps

/-- A command that is written gets the next ticket. -/
theorem ticket_of_issue {s : Session} {command : String} {tolerant : Bool} {ticket : Nat}
    (h : (s.issue command tolerant).1 = .ok ticket) : ticket = s.exchange.issued := by
  unfold issue at h
  split at h
  · cases h
  · cases h
  · cases h
    rfl
  · cases h
    rfl

end Session

/-- A debugger that runs gets the command under the next ticket. -/
theorem Session.issue_of_open {s : Session} (h : s.link = .open) (command : String) (tolerant : Bool) :
    s.issue command tolerant = (.ok s.exchange.issued,
      { s with
        exchange := (s.exchange.register command tolerant).2
        outbox := s.outbox ++ [.command s.exchange.freeToken command] }) := by
  simp [Session.issue, h, Exchange.register]

open Session (Keeps)

/-- The terms of a call that is alone with the debugger. -/
def keeping (dropped left : Session → Prop) : Call.Terms := ⟨Keeps, dropped, left⟩

variable {dropped left : Session → Prop} {s : Session}

/-- All that the debugger does by itself keeps breakpoints and answers. -/
theorem admits_keeping : (keeping dropped left).Admits :=
  ⟨Keeps.refl, Keeps.trans, Keeps.receive, Keeps.deafen, Keeps.finish⟩

/-- A command is written and its answer awaited; breakpoints are kept, however it ends. -/
theorem meets_ask {command : String} {post : Except Error ResultRecord → Session → Prop}
    (hd : ∀ u, Keeps s u → dropped u)
    (hp : ∀ r u, Keeps s u →
      (∀ answer, r = .ok answer → u.exchange.reply? s.exchange.issued = some (.ok answer)) →
      post r u) :
    (CallM.ask command).run.Meets (keeping dropped left) post s := by
  have hissue := Keeps.issue s command false
  unfold CallM.ask CallM.send
  rw [CallM.meets_bind, CallM.meets_locked]
  cases hticket : (s.issue command false).1 with
  | error e => exact hp _ _ hissue fun answer h => nomatch h
  | ok ticket =>
    obtain rfl := Session.ticket_of_issue hticket
    refine CallM.meets_await.mpr fun u hu => ⟨?_, fun r hr => ?_⟩
    · exact hd _ ((hissue.trans hu).trans (Keeps.abandon u _))
    · refine hp r u (hissue.trans hu) ?_
      rintro answer rfl
      exact hr

/-- A command is written, and its answer is not there yet. -/
theorem waitsFor_ask (h : s.link = .open) (command : String)
    (hr : s.exchange.reply? s.exchange.issued = none) :
    (CallM.ask command).run.WaitsFor s s.exchange.issued (s.issue command false).2 := by
  have hissue := Session.issue_of_open h command false
  have hwait : (s.issue command false).2.exchange.reply? s.exchange.issued = none := by
    rw [hissue]
    exact hr
  refine ⟨id, .done, ?_⟩
  change Call.advance (Call.bind (.done (s.issue command false).1) _) (s.issue command false).2 = _
  rw [hissue] at hwait ⊢
  exact Call.advance_eq_self_of_waiting hwait _ _

end MachineInterface

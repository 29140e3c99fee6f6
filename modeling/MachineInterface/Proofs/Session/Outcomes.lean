import MachineInterface.Proofs.Session.Faults
import MachineInterface.Proofs.Session.SettingUp
import MachineInterface.Proofs.Session.Tallying
import MachineInterface.Proofs.Session.Upholding

/-!
# Outcomes of calls

A call of a run was made in a turn of its own, and it gives what it promised to the session of that
turn. A command that fails does so for few reasons, in every run.

* `meets_of_call`: what a call of a run meets, it met when it was made.
* `Upholds.meets`: what is promised of a result, whatever the answers, is promised in every run.
* `explained_run`: why the commands of a run can have failed.
-/

namespace MachineInterface

open Session (Does Grows)

/-! ## Promises -/

/-- The terms of a call while nothing is taken back. -/
def growing : Call.Terms where
  rely := Grows
  dropped _ := True
  left _ := True

theorem admits_growing : growing.Admits where
  refl := Grows.refl
  trans := Grows.trans
  receive s chunk := Session.grows_news s (.hear chunk)
  deafen s := Session.grows_news s .deafen
  finish s := Session.grows_news s .leave

/-- The premise of calls of which nothing is known. -/
def anyPremise : Premise where
  holds _ := True
  sound _ := True
  answers _ _ _ _ := trivial
  abandon _ _ := trivial

namespace Call

variable {α : Type} {post : α → Prop}

theorem upholds_any (c : Call α) : c.Upholds anyPremise fun _ => True := by
  induction c with
  | done a => trivial
  | step run next ih => exact fun s _ => ⟨trivial, ih _⟩
  | reply ticket release next ih => exact ⟨fun _ _ => trivial, fun r _ => ih r⟩
  | ending patient next ih => exact ih

/-- What is promised of a result, whatever the answers, the call gives at any time. -/
theorem Upholds.meets {c : Call α} (hc : c.Upholds anyPremise post) (s : Session) :
    c.Meets growing (fun a _ => post a) s := by
  induction c generalizing s with
  | done a => exact hc
  | step run next ih => exact ih _ (hc s trivial).2 _
  | reply ticket release next ih => exact fun u _ => ⟨trivial, fun r _ => ih r (hc.2 r trivial) u⟩
  | ending patient next ih =>
    exact fun u _ => ⟨trivial, fun _ => ih true (hc true) u, fun _ => ih false (hc false) u⟩

end Call

theorem CallM.upholds_any {α : Type} (c : CallM α) : c.Upholds anyPremise fun _ => True :=
  Call.Upholds.mono (Call.upholds_any c.run) fun _ _ _ _ => trivial

namespace Ensemble

variable {config : Config} {turns : List Turn}

/-- What a call of a run meets, it met when it was made, in a turn of its own. -/
theorem meets_of_call {i : Nat} {op : Operation} {rest : Call op.Answer}
    (h : (run config turns).calls[i]? = some ⟨op, some rest⟩) :
    ∃ before after, turns = before ++ .call op :: after ∧
      ∀ post : op.Answer → Session → Prop, (∀ a u v, post a u → Grows u v → post a v) →
        op.call.Meets growing post (run config before).session →
        rest.Meets growing post (run config turns).session := by
  induction turns using List.reverseRecOn generalizing rest with
  | nil => cases h
  | append_singleton turns t ih =>
    have hproper := Proper.run config turns
    rw [run_snoc] at h ⊢
    rcases getElem?_of_calls_turn h with hold | ⟨m, o, rfl, hold, hmoved⟩ | ⟨op', rfl, hnew⟩
    · obtain ⟨before, after, hturns, hmeets⟩ := ih hold
      refine ⟨before, after ++ [t], by rw [hturns, List.append_assoc, List.cons_append], ?_⟩
      intro post hpost hcall
      have hpaused := (hproper _ (List.mem_of_getElem? hold) rest rfl).1
      exact (hmeets post hpost hcall).later admits_growing hpost hpaused (hproper.grows_turn t)
    · obtain ⟨op', rest?⟩ := o
      obtain rfl : op = op' := (congrArg Ongoing.op hmoved).trans (Ongoing.op_move _ m _)
      cases rest? with
      | none => cases hmoved
      | some c =>
        obtain ⟨before, after, hturns, hmeets⟩ := ih hold
        refine ⟨before, after ++ [.move i m], by
          rw [hturns, List.append_assoc, List.cons_append], ?_⟩
        intro post hpost hcall
        rw [turn_move hold]
        exact Ongoing.meets_move admits_growing (hmeets post hpost hcall) hmoved.symm
    · cases hnew
      exact ⟨turns, [], rfl, fun post _ hcall => hcall.advance admits_growing⟩

/-- What a call gives in a run is what it promised to the session of its turn. -/
theorem outcome_of_call {op : Operation} {a : op.Answer}
    (h : ⟨op, some (.done a)⟩ ∈ (run config turns).calls) :
    ∃ before after, turns = before ++ .call op :: after ∧
      ∀ post : op.Answer → Session → Prop, (∀ a u v, post a u → Grows u v → post a v) →
        op.call.Meets growing post (run config before).session →
        post a (run config turns).session := by
  obtain ⟨i, hi⟩ := List.getElem?_of_mem h
  exact meets_of_call hi

end Ensemble

/-! ## Failures -/

/-- Why a command can fail: its own error, the end of the debugger, or its deafness. -/
inductive Error.IsReply : Error → Prop
  | told (message command : String) : IsReply (.command message command)
  | ended : IsReply .sessionClosed
  | unread : IsReply .brokenPipe

namespace Exchange

/-- All commands that have failed did so for one of the reasons. -/
def Explained (x : Exchange) : Prop := ∀ c ∈ x.completions, ∀ e, c.reply = .error e → e.IsReply

namespace Explained

variable {x : Exchange}

theorem complete (h : x.Explained) (p : Pending) {reply : Reply}
    (hreply : ∀ e, reply = .error e → e.IsReply) : (x.complete p reply).Explained := by
  intro c hc
  unfold Exchange.complete at hc
  dsimp only at hc
  split at hc
  · rcases List.mem_append.mp hc with hc | hc
    · exact h c hc
    · obtain rfl := List.mem_singleton.mp hc
      exact hreply
  · exact h c hc

theorem foldl_hearLine (h : x.Explained) (lines : List String) :
    (lines.foldl Exchange.hearLine x).Explained := by
  induction lines generalizing x with
  | nil => exact h
  | cons line lines ih =>
    refine ih ?_
    unfold hearLine
    split
    · rename_i r _
      rcases x.resolve_cases_error r with hsame | ⟨p, -, reply, hcomplete, herror⟩
      · rwa [hsame]
      · rw [hcomplete]
        refine h.complete p fun e he => ?_
        obtain ⟨message, rfl⟩ := herror e he
        exact .told message p.command
    · exact h

theorem failAll (h : x.Explained) {e : Error} (he : e.IsReply) : (x.failAll e).Explained := by
  unfold Exchange.failAll
  generalize x.pending = ps
  induction ps generalizing x with
  | nil => exact h
  | cons p ps ih =>
    refine ih (h.complete p ?_)
    rintro _ ⟨⟩
    exact he

theorem cancel (h : x.Explained) (token : UInt64) {e : Error} (he : e.IsReply) :
    (x.cancel token e).Explained := by
  unfold Exchange.cancel
  split
  · exact h
  · refine h.complete _ ?_
    rintro _ ⟨⟩
    exact he

theorem reply (h : x.Explained) {ticket : Nat} {e : Error}
    (he : x.reply? ticket = some (.error e)) : e.IsReply := by
  obtain ⟨c, hc, hreply⟩ := Option.map_eq_some_iff.mp he
  exact h c (List.mem_of_find?_eq_some hc) e hreply

end Explained

end Exchange

namespace Session

variable {s : Session}

theorem explained_apply (h : s.exchange.Explained) (d : Deed) : (d.apply s).exchange.Explained := by
  rcases exchange_apply s d with hsame | ⟨command, tolerant, rfl⟩ | ⟨ticket, rfl⟩
  · rwa [hsame]
  · have hregister : (s.exchange.register command tolerant).2.Explained := h
    rw [Deed.apply]
    unfold issue
    split
    · exact h
    · exact h
    · exact hregister
    · exact hregister.cancel _ .unread
  · exact h

theorem explained_news (h : s.exchange.Explained) (n : News) :
    (n.apply s).exchange.Explained := by
  rcases exchange_news s n with hsame | ⟨-, hends⟩
  · rw [hsame]
    exact h.foldl_hearLine _
  · rw [hends]
    exact (h.foldl_hearLine _).failAll .ended

end Session

/-- In every run the commands that have failed did so for one of the reasons. -/
theorem Ensemble.explained_run (config : Config) (turns : List Turn) :
    (run config turns).session.exchange.Explained := by
  induction turns using List.reverseRecOn with
  | nil =>
    intro c hc
    cases hc
  | append_singleton turns t ih =>
    rw [run_snoc]
    refine (Proper.run config turns).session_turn (r := fun u => u.exchange.Explained) t ?_ ?_ ?_
    · intro op detail _ _
      have hsame := congrArg Session.exchange
        (Session.backdrop_onQuit ((run config turns).session.emit (.launchError detail)))
      change ((run config turns).session.launchFailed detail).exchange =
        (run config turns).session.exchange at hsame
      rwa [hsame]
    · exact fun n _ _ => Session.explained_news ih n
    · intro extra u hdoes
      refine hdoes.rel (r := fun s u => s.exchange.Explained → u.exchange.Explained) (fun _ h => h)
        (fun h h' hs => h' (h hs)) (fun d _ s hs => Session.explained_apply hs d) ih

end MachineInterface

import MachineInterface.Proofs.Session.Interleaving

/-!
# Why commands fail

A command that has a ticket fails when the debugger says so, when the debugger ends before it has
answered, or when it does not read any more.

* `Owes`: what is recorded of a command, and why it can have failed.
* `Owes.issue_self`, `Owes.drifts`: a command that is issued is recorded so, whatever comes next.
-/

namespace MachineInterface

namespace Exchange

/-- A result is passed to one command that waits, or to none; an error names that command. -/
theorem resolve_cases_error (x : Exchange) (r : ResultRecord) : (x.resolve r).2 = x ∨
    ∃ p ∈ x.pending, ∃ reply : Reply, (x.resolve r).2 = x.complete p reply ∧
      ∀ e, reply = .error e → ∃ message, e = .command message p.command := by
  unfold resolve
  split
  · exact .inl rfl
  · rename_i p hp
    obtain ⟨token, -, hp⟩ := Option.bind_eq_some_iff.mp hp
    refine .inr ⟨p, (mem_of_pending? hp).1, ?_⟩
    split
    · exact ⟨_, rfl, fun e he => by cases he⟩
    · dsimp only
      split
      · exact ⟨_, rfl, fun e he => by cases he⟩
      · refine ⟨_, rfl, fun e he => ?_⟩
        cases he
        exact ⟨_, rfl⟩

/-- What is recorded of a command, when it can fail for some reasons only. -/
structure Records (ticket : Nat) (command : String) (reason : Error → Prop) (x : Exchange) :
    Prop where
  issued : ticket < x.issued
  waiting : ∀ p ∈ x.pending, p.ticket = ticket → p.command = command
  answered : ∀ c ∈ x.completions, c.ticket = ticket → ∀ e, c.reply = .error e → reason e

namespace Records

variable {ticket : Nat} {command : String} {reason : Error → Prop} {x : Exchange}

theorem mono {reason' : Error → Prop} (h : Records ticket command reason x)
    (hr : ∀ e, reason e → reason' e) : Records ticket command reason' x :=
  ⟨h.issued, h.waiting, fun c hc ht e he => hr e (h.answered c hc ht e he)⟩

theorem complete (h : Records ticket command reason x) {p : Pending} {reply : Reply}
    (hreply : p.ticket = ticket → ∀ e, reply = .error e → reason e) :
    Records ticket command reason (x.complete p reply) := by
  refine ⟨h.issued, fun q hq => h.waiting q (List.mem_of_mem_filter hq), fun c hc ht e he => ?_⟩
  unfold Exchange.complete at hc
  dsimp only at hc
  split at hc
  · rcases List.mem_append.mp hc with hc | hc
    · exact h.answered c hc ht e he
    · obtain rfl := List.mem_singleton.mp hc
      exact hreply ht e he
  · exact h.answered c hc ht e he

theorem hearLine (h : Records ticket command reason x)
    (hr : ∀ message, reason (.command message command)) (line : String) :
    Records ticket command reason (x.hearLine line) := by
  unfold Exchange.hearLine
  split
  · rename_i r _
    rcases x.resolve_cases_error r with hsame | ⟨p, hp, reply, hcomplete, herror⟩
    · rw [hsame]
      exact h
    · rw [hcomplete]
      refine h.complete fun ht e he => ?_
      obtain ⟨message, rfl⟩ := herror e he
      rw [h.waiting p hp ht]
      exact hr message
  · exact h

theorem foldl_hearLine (h : Records ticket command reason x)
    (hr : ∀ message, reason (.command message command)) (lines : List String) :
    Records ticket command reason (lines.foldl Exchange.hearLine x) := by
  induction lines generalizing x with
  | nil => exact h
  | cons line lines ih => exact ih (h.hearLine hr line)

theorem failAll (h : Records ticket command reason x) {e : Error} (he : reason e) :
    Records ticket command reason (x.failAll e) := by
  have hfold : ∀ (ps : List Pending) (y : Exchange), Records ticket command reason y →
      Records ticket command reason (ps.foldl (fun y p => y.complete p (.error e)) y) := by
    intro ps
    induction ps with
    | nil => exact fun y hy => hy
    | cons p ps ih =>
      intro y hy
      refine ih _ (hy.complete fun _ e' he' => ?_)
      cases he'
      exact he
  exact hfold x.pending x h

theorem register (h : Records ticket command reason x) (other : String) (tolerant : Bool) :
    Records ticket command reason (x.register other tolerant).2 := by
  refine ⟨Nat.lt_succ_of_lt h.issued, fun p hp ht => ?_, h.answered⟩
  rcases List.mem_append.mp hp with hp | hp
  · exact h.waiting p hp ht
  · obtain rfl := List.mem_singleton.mp hp
    exact absurd ht (Nat.ne_of_gt h.issued)

theorem cancel (h : Records ticket command reason x) (token : UInt64) {e : Error} (he : reason e) :
    Records ticket command reason (x.cancel token e) := by
  unfold Exchange.cancel
  split
  · exact h
  · refine h.complete fun _ e' he' => ?_
    cases he'
    exact he

/-- The next command to be registered is recorded so. -/
theorem register_self (h : x.Orderly) (command : String) (tolerant : Bool) :
    Records x.issued command reason (x.register command tolerant).2 := by
  refine ⟨Nat.lt_succ_self _, fun p hp ht => ?_, fun c hc ht => ?_⟩
  · rcases List.mem_append.mp hp with hp | hp
    · exact absurd ht (Nat.ne_of_lt (h.waiting p hp))
    · obtain rfl := List.mem_singleton.mp hp
      rfl
  · exact absurd ht (Nat.ne_of_lt (h.answered c hc))

end Records

end Exchange

namespace Session

open Exchange (Records)

variable {ticket : Nat} {command : String} {s u : Session}

theorem Drifts.orderly (h : Drifts s u) (hs : s.exchange.Orderly) : u.exchange.Orderly := by
  refine h.rel (r := fun s u => s.exchange.Orderly → u.exchange.Orderly) (fun _ h => h)
    (fun h h' hs => h' (h hs)) (fun s n hs => ?_) hs
  cases n with
  | hear chunk =>
    rw [News.apply, exchange_receive]
    exact hs.foldl_hearLine _
  | leave =>
    rw [News.apply, exchange_finish]
    exact (hs.foldl_hearLine _).failAll _
  | deafen =>
    obtain ⟨link, hdeafen⟩ := exists_deafen_eq s
    rw [News.apply, hdeafen]
    exact hs
  | complain text => exact hs
  | refuse detail => exact hs

/-- Why a command can have failed: its own error, the end of the debugger, or its deafness. -/
inductive Blames (command : String) (u : Session) : Error → Prop where
  | told (message : String) : Blames command u (.command message command)
  | ended (h : u.link = .closed) : Blames command u .sessionClosed
  | unread (h : u.link = .deaf ∨ u.link = .closed) : Blames command u .brokenPipe

theorem Blames.later {e : Error} (h : Blames command s e) (hu : Grows s u) :
    Blames command u e := by
  have hclosed : ∀ l : Link, Link.closed.stage ≤ l.stage → l = .closed := by
    intro l
    cases l <;> simp [Link.stage]
  have hdeaf : ∀ l : Link, Link.deaf.stage ≤ l.stage → l = .deaf ∨ l = .closed := by
    intro l
    cases l <;> simp [Link.stage]
  cases h with
  | told message => exact .told message
  | ended h => exact .ended (hclosed _ (h ▸ hu.link))
  | unread h =>
    rcases h with h | h
    · exact .unread (hdeaf _ (h ▸ hu.link))
    · exact .unread (.inr (hclosed _ (h ▸ hu.link)))

/-- What is recorded of a command, when it fails for reasons that the session shows. -/
def Owes (ticket : Nat) (command : String) (s : Session) : Prop :=
  Records ticket command (Blames command s) s.exchange

namespace Owes

theorem of_grows (h : Owes ticket command s) (hu : Grows s u)
    (hx : ∀ {reason : Error → Prop}, Records ticket command reason s.exchange →
      (∀ e, Blames command u e → reason e) → Records ticket command reason u.exchange) :
    Owes ticket command u :=
  hx (h.mono fun _ he => he.later hu) fun _ he => he

theorem news (h : Owes ticket command s) (n : News) : Owes ticket command (n.apply s) := by
  refine h.of_grows (grows_news s n) fun hrecords hr => ?_
  have htold := fun message => hr _ (.told message)
  cases n with
  | hear chunk =>
    rw [News.apply, exchange_receive]
    exact hrecords.foldl_hearLine htold _
  | leave =>
    rw [News.apply] at hr ⊢
    rw [exchange_finish]
    exact (hrecords.foldl_hearLine htold _).failAll (hr _ (.ended (link_finish s)))
  | deafen =>
    obtain ⟨link, hdeafen⟩ := exists_deafen_eq s
    rw [News.apply, hdeafen]
    exact hrecords
  | complain text => exact hrecords
  | refuse detail => exact hrecords

theorem drifts (h : Owes ticket command s) (hu : Drifts s u) : Owes ticket command u :=
  hu.rel (r := fun s u => Owes ticket command s → Owes ticket command u) (fun _ h => h)
    (fun h h' hs => h' (h hs)) (fun _ n hs => hs.news n) h

theorem issue (h : Owes ticket command s) (other : String) :
    Owes ticket command (s.issue other false).2 := by
  have hgrows : Grows s (s.issue other false).2 := grows_apply s (.issue other false)
  refine h.of_grows hgrows fun hrecords hr => ?_
  unfold Session.issue at hr ⊢
  split
  · exact hrecords
  · exact hrecords
  · exact hrecords.register other false
  · rename_i hdeaf
    refine (hrecords.register other false).cancel _ (hr _ (.unread (.inl ?_)))
    rw [hdeaf]

/-- A command that is issued is recorded from then on. -/
theorem issue_self (h : s.exchange.Orderly) (hticket : (s.issue command false).1 = .ok ticket) :
    Owes ticket command (s.issue command false).2 := by
  unfold Session.issue at hticket ⊢
  split at hticket
  · cases hticket
  · cases hticket
  · cases hticket
    exact Records.register_self h command false
  · rename_i hdeaf
    cases hticket
    exact (Records.register_self h command false).cancel _ (.unread (.inl hdeaf))

/-- A command that has failed has done so for a reason that the session shows. -/
theorem blames (h : Owes ticket command s) {e : Error}
    (hr : s.exchange.reply? ticket = some (.error e)) : Blames command s e := by
  obtain ⟨c, hc, hreply⟩ := Option.map_eq_some_iff.mp hr
  have hticket : c.ticket = ticket := by simpa using List.find?_some hc
  exact h.answered c (List.mem_of_find?_eq_some hc) hticket e hreply

end Owes

end Session

end MachineInterface

import MachineInterface.Proofs.Session.Interleaving

/-!
# Calls that complete

A debugger that goes on reading and answers each command lets every call come to its end that waits
for nothing but answers to its own commands. What the call gives then follows from the answers,
whatever else the debugger does in between.

* `Call.Completes`: what a call gives, section by section, if it only waits for such answers.
* `Completes.attended`: a call that is attended comes to its end and gives just that.
-/

namespace MachineInterface

namespace Session

variable {s u : Session}

theorem Drifts.reply? {ticket : Nat} {r : Reply} (h : Drifts s u)
    (hr : s.exchange.reply? ticket = some r) : u.exchange.reply? ticket = some r :=
  Exchange.reply?_of_prefix h.grows.answers hr

/-- A command under a ticket is answered, or the caller still waits for the answer. -/
def Awaits (s : Session) (ticket : Nat) : Prop :=
  (∃ r, s.exchange.reply? ticket = some r) ∨
    ∃ p ∈ s.exchange.pending, p.ticket = ticket ∧ p.awaited = true

theorem awaits_issue (h : s.link = .open) (command : String) :
    (s.issue command false).2.Awaits s.exchange.issued := by
  rw [issue_of_open h]
  exact .inr ⟨_, List.mem_append_right _ (List.mem_singleton_self _), rfl, rfl⟩

end Session

namespace Call

open Session (Drifts)

variable {α β : Type}

/--
A call that starts in a session waits for nothing but answers to commands that it has written, and
gives only what a condition allows. The debugger acts between its sections, and each session that
these meet with or leave behind is among those that are seen.
-/
def Completes (seen : Session → Prop) (post : α → Session → Prop) : Call α → Session → Prop
  | done a, s => ∀ u, Drifts s u → post a u
  | step run next, s => ∀ u, Drifts s u → seen u → seen (run u).2 →
    (next (run u).1).Completes seen post (run u).2
  | reply ticket _ next, s => s.Awaits ticket ∧ ∀ r u, Drifts s u → seen u →
    u.exchange.reply? ticket = some r → (next r).Completes seen post u
  | ending _ _, _ => False

variable {seen : Session → Prop} {s : Session}

theorem completes_bind {pre : α → Session → Prop} {post : β → Session → Prop} {c : Call α}
    {f : α → Call β} (h : c.Completes seen pre s)
    (hf : ∀ a u, (∀ v, Drifts u v → pre a v) → (f a).Completes seen post u) :
    (c.bind f).Completes seen post s := by
  induction c generalizing s with
  | done a => exact hf a s h
  | step run next ih => exact fun u hu hseen hleft => ih _ (h u hu hseen hleft)
  | reply ticket release next ih =>
    exact ⟨h.1, fun r u hu hseen hr => ih r (h.2 r u hu hseen hr)⟩
  | ending patient next ih => exact h

theorem Completes.mono {post post' : α → Session → Prop} {c : Call α}
    (h : c.Completes seen post s) (hp : ∀ a u, post a u → post' a u) :
    c.Completes seen post' s := by
  have hbind : (c.bind done).Completes seen post' s :=
    completes_bind h fun a u ha v hv => hp a v (ha v hv)
  rwa [bind_done] at hbind

/-! ## Endless walks -/

/-- A call and its session after the first beats of an endless walk. -/
def moment (beats : Nat → Beat) (c : Call α) (s : Session) : Nat → Call α × Session
  | 0 => (c, s)
  | n + 1 => beat (moment beats c s n) (beats n)

/--
The call goes on time and again, and the debugger reads all the while and answers each command that
is waited for.
-/
structure Attended (beats : Nat → Beat) (c : Call α) (s : Session) : Prop where
  goes : ∀ n, ∃ m, n ≤ m ∧ beats m = .go
  reads : ∀ n, (moment beats c s n).2.link = .open
  answers : ∀ n, ∀ p ∈ (moment beats c s n).2.exchange.pending, p.awaited = true →
    ∃ m, n ≤ m ∧ ∃ r, (moment beats c s m).2.exchange.reply? p.ticket = some r

variable {beats : Nat → Beat} {c : Call α}

/-- The session at one of the moments of an endless walk. -/
def Met (beats : Nat → Beat) (c : Call α) (s u : Session) : Prop :=
  ∃ n, u = (moment beats c s n).2

/-- Where a call is done and nothing more happens, all stays as it is. -/
theorem moment_of_done {N : Nat} {a : α} (hdone : (moment beats c s N).1.result? = some a)
    (hgo : ∀ k, N ≤ k → beats k = .go) (j : Nat) :
    moment beats c s (N + j) = moment beats c s N := by
  induction j with
  | zero => rfl
  | succ j ih =>
    change beat (moment beats c s (N + j)) (beats (N + j)) = _
    rw [ih, hgo (N + j) (Nat.le_add_right N j), beat, eq_done_of_result? hdone, stride,
      ← eq_done_of_result? hdone]

theorem exists_moment_le {N : Nat} {a : α} (hdone : (moment beats c s N).1.result? = some a)
    (hgo : ∀ k, N ≤ k → beats k = .go) (n : Nat) :
    ∃ k, k ≤ N ∧ moment beats c s n = moment beats c s k := by
  rcases Nat.le_total n N with hn | hn
  · exact ⟨n, hn, rfl⟩
  · obtain ⟨j, rfl⟩ := Nat.exists_eq_add_of_le hn
    exact ⟨N, Nat.le_refl N, moment_of_done hdone hgo j⟩

/-- A call that is done with all commands answered has been attended. -/
theorem attended_of_done {N : Nat} {a : α} (hdone : (moment beats c s N).1.result? = some a)
    (hgo : ∀ k, N ≤ k → beats k = .go) (hreads : ∀ k, k ≤ N → (moment beats c s k).2.link = .open)
    (hanswers : ∀ k, k ≤ N → ∀ p ∈ (moment beats c s k).2.exchange.pending,
      ((moment beats c s N).2.exchange.reply? p.ticket).isSome = true) :
    Attended beats c s := by
  refine ⟨fun n => ?_, fun n => ?_, fun n p hp _ => ?_⟩
  · exact ⟨max n N, Nat.le_max_left n N, hgo _ (Nat.le_max_right n N)⟩
  · obtain ⟨k, hk, hn⟩ := exists_moment_le hdone hgo n
    rw [hn]
    exact hreads k hk
  · obtain ⟨k, hk, hn⟩ := exists_moment_le hdone hgo n
    rw [hn] at hp
    obtain ⟨r, hr⟩ := Option.isSome_iff_exists.mp (hanswers k hk p hp)
    refine ⟨N + n, Nat.le_add_left n N, r, ?_⟩
    rw [moment_of_done hdone hgo]
    exact hr

/-- A call that has to wait stands still until a beat moves it on, whatever the debugger does. -/
theorem moves_or_rests {c' : Call α} {moves : Session → Prop}
    (hrest : ∀ v b, ¬ (b = .go ∧ moves v) →
      (beat (c', v) b).1 = c' ∧ Drifts v (beat (c', v) b).2)
    {n : Nat} (hn : (moment beats c s n).1 = c') (j : Nat) :
    (∃ k, (moment beats c s k).1 = c' ∧ Drifts (moment beats c s n).2 (moment beats c s k).2 ∧
      beats k = .go ∧ moves (moment beats c s k).2) ∨
    (moment beats c s (n + j)).1 = c' ∧
      Drifts (moment beats c s n).2 (moment beats c s (n + j)).2 := by
  induction j with
  | zero => exact .inr ⟨hn, Drifts.refl _⟩
  | succ j ih =>
    rcases ih with hmoves | ⟨hstands, hdrifts⟩
    · exact .inl hmoves
    · by_cases hmoves : beats (n + j) = .go ∧ moves (moment beats c s (n + j)).2
      · exact .inl ⟨n + j, hstands, hdrifts, hmoves⟩
      · obtain ⟨hstays, hdrift⟩ := hrest _ _ hmoves
        have hnext : moment beats c s (n + (j + 1)) =
            beat (c', (moment beats c s (n + j)).2) (beats (n + j)) := by
          rw [← hstands]
          rfl
        rw [hnext]
        exact .inr ⟨hstays, hdrifts.trans hdrift⟩

theorem rests_step {γ : Type} {run : Session → γ × Session} {next : γ → Call α} (v : Session)
    (b : Beat) (h : ¬ (b = .go ∧ True)) : (beat (step run next, v) b).1 = step run next ∧
      Drifts v (beat (step run next, v) b).2 := by
  cases b with
  | go => exact absurd ⟨rfl, trivial⟩ h
  | expire => exact ⟨rfl, Drifts.refl v⟩
  | news n => exact ⟨rfl, Drifts.single v n⟩

theorem rests_reply {ticket : Nat} {release : Session → Session} {next : Reply → Call α}
    (v : Session) (b : Beat) (h : ¬ (b = .go ∧ ∃ r, v.exchange.reply? ticket = some r)) :
    (beat (reply ticket release next, v) b).1 = reply ticket release next ∧
      Drifts v (beat (reply ticket release next, v) b).2 := by
  cases b with
  | go =>
    cases hr : v.exchange.reply? ticket with
    | some r => exact absurd ⟨rfl, r, hr⟩ h
    | none =>
      simp only [beat, stride, hr]
      exact ⟨trivial, Drifts.refl v⟩
  | expire => exact ⟨rfl, Drifts.refl v⟩
  | news n => exact ⟨rfl, Drifts.single v n⟩

/-- The answer to a command that is waited for comes in the end. -/
theorem Attended.exists_reply (h : Attended beats c s) {n ticket : Nat}
    (hn : (moment beats c s n).2.Awaits ticket) :
    ∃ m, n ≤ m ∧ ∃ r, (moment beats c s m).2.exchange.reply? ticket = some r := by
  rcases hn with hr | ⟨p, hp, rfl, hawaited⟩
  · exact ⟨n, Nat.le_refl n, hr⟩
  · exact h.answers n p hp hawaited

/-- From each moment on, the call goes on when it can. -/
theorem Attended.exists_step (h : Attended beats c s) {γ : Type} {run : Session → γ × Session}
    {next : γ → Call α} {n : Nat} (hn : (moment beats c s n).1 = step run next) :
    ∃ k, Drifts (moment beats c s n).2 (moment beats c s k).2 ∧
      moment beats c s (k + 1) =
        (next (run (moment beats c s k).2).1, (run (moment beats c s k).2).2) := by
  have hgoes : ∃ k, (moment beats c s k).1 = step run next ∧
      Drifts (moment beats c s n).2 (moment beats c s k).2 ∧ beats k = .go ∧ True := by
    obtain ⟨m, hm, hgo⟩ := h.goes n
    obtain ⟨j, rfl⟩ := Nat.exists_eq_add_of_le hm
    rcases moves_or_rests rests_step hn j with hmoves | ⟨hstands, hdrifts⟩
    · exact hmoves
    · exact ⟨n + j, hstands, hdrifts, hgo, trivial⟩
  obtain ⟨k, hk, hdrifts, hgo, -⟩ := hgoes
  refine ⟨k, hdrifts, ?_⟩
  change beat (moment beats c s k) (beats k) = _
  rw [hgo, beat, hk]
  rfl

theorem Attended.exists_answer (h : Attended beats c s) {ticket : Nat}
    {release : Session → Session} {next : Reply → Call α} {n : Nat}
    (hn : (moment beats c s n).1 = reply ticket release next)
    (hawaits : (moment beats c s n).2.Awaits ticket) :
    ∃ k r, Drifts (moment beats c s n).2 (moment beats c s k).2 ∧
      (moment beats c s k).2.exchange.reply? ticket = some r ∧
      moment beats c s (k + 1) = (next r, (moment beats c s k).2) := by
  have hgoes : ∃ k, (moment beats c s k).1 = reply ticket release next ∧
      Drifts (moment beats c s n).2 (moment beats c s k).2 ∧ beats k = .go ∧
        ∃ r, (moment beats c s k).2.exchange.reply? ticket = some r := by
    obtain ⟨m, hm, r, hr⟩ := h.exists_reply hawaits
    obtain ⟨j, rfl⟩ := Nat.exists_eq_add_of_le hm
    rcases moves_or_rests rests_reply hn j with hmoves | ⟨hstands, hdrifts⟩
    · exact hmoves
    · obtain ⟨m', hm', hgo⟩ := h.goes (n + j)
      obtain ⟨j', rfl⟩ := Nat.exists_eq_add_of_le hm'
      rcases moves_or_rests rests_reply hstands j' with ⟨k, hk, hlater, hmoves⟩ | ⟨hstill, hlater⟩
      · exact ⟨k, hk, hdrifts.trans hlater, hmoves⟩
      · exact ⟨n + j + j', hstill, hdrifts.trans hlater, hgo, r, hlater.reply? hr⟩
  obtain ⟨k, hk, hdrifts, hgo, r, hr⟩ := hgoes
  refine ⟨k, r, hdrifts, hr, ?_⟩
  change beat (moment beats c s k) (beats k) = _
  rw [hgo, beat, hk]
  simp only [stride, hr]

theorem completes_from {post : α → Session → Prop} (h : Attended beats c s) (c' : Call α) (n : Nat)
    (hn : (moment beats c s n).1 = c')
    (hc : c'.Completes (Met beats c s) post (moment beats c s n).2) :
    ∃ m a, (moment beats c s m).1.result? = some a ∧ post a (moment beats c s m).2 := by
  induction c' generalizing n with
  | done a =>
    refine ⟨n, a, ?_, hc _ (Drifts.refl _)⟩
    rw [hn]
    rfl
  | step run next ih =>
    obtain ⟨k, hdrifts, hnext⟩ := h.exists_step hn
    refine ih _ (k + 1) (by rw [hnext]) ?_
    rw [hnext]
    exact hc _ hdrifts ⟨k, rfl⟩ ⟨k + 1, by rw [hnext]⟩
  | reply ticket release next ih =>
    obtain ⟨k, r, hdrifts, hr, hnext⟩ := h.exists_answer hn hc.1
    refine ih r (k + 1) (by rw [hnext]) ?_
    rw [hnext]
    exact hc.2 r _ hdrifts ⟨k, rfl⟩ hr
  | ending patient next => exact hc.elim

/-- A call that is attended and waits for nothing but answers comes to its end. -/
theorem Completes.attended {post : α → Session → Prop} (hc : c.Completes (Met beats c s) post s)
    (h : Attended beats c s) :
    ∃ n a, (moment beats c s n).1.result? = some a ∧ post a (moment beats c s n).2 :=
  completes_from h c 0 rfl hc

end Call

/-! ## Calls that may fail -/

namespace CallM

open Session (Drifts)

variable {α β : Type} {seen : Session → Prop} {s : Session}

theorem completes_pure {post : Except Error α → Session → Prop} {a : α}
    (h : ∀ u, Drifts s u → post (.ok a) u) : (pure a : CallM α).run.Completes seen post s := h

theorem completes_throw {post : Except Error α → Session → Prop} {e : Error}
    (h : ∀ u, Drifts s u → post (.error e) u) :
    (throw e : CallM α).run.Completes seen post s := h

theorem completes_bind {pre : Except Error α → Session → Prop}
    {post : Except Error β → Session → Prop} {c : CallM α} {f : α → CallM β}
    (hc : c.run.Completes seen pre s) (hok : ∀ a u, pre (.ok a) u → (f a).run.Completes seen post u)
    (herror : ∀ e u, pre (.error e) u → post (.error e) u) :
    (c >>= f).run.Completes seen post s := by
  have hbind : (c >>= f).run = c.run.bind (ExceptT.bindCont f) := rfl
  rw [hbind]
  refine Call.completes_bind hc fun r u hr => ?_
  cases r with
  | ok a => exact hok a u (hr u (Drifts.refl u))
  | error e => exact fun v hv => herror e v (hr v hv)

theorem completes_lift {pre : α → Session → Prop} {post : Except Error α → Session → Prop}
    {c : Call α} (hc : c.Completes seen pre s) (h : ∀ a u, pre a u → post (.ok a) u) :
    (ExceptT.lift c : CallM α).run.Completes seen post s :=
  Call.completes_bind (f := fun a => (Call.done (.ok a) : Call (Except Error α))) hc
    fun a _ ha v hv => h a v (ha v hv)

theorem completes_read {post : Except Error α → Session → Prop} {f : Session → α}
    (h : ∀ u v, Drifts s u → Drifts u v → post (.ok (f u)) v) :
    (read f).run.Completes seen post s := by
  have hread : (Call.read f).Completes seen
      (fun a v => ∃ u, Drifts s u ∧ Drifts u v ∧ a = f u) s :=
    fun u hu _ _ v hv => ⟨u, hu, hv, rfl⟩
  refine completes_lift hread ?_
  rintro a v ⟨u, hu, hv, rfl⟩
  exact h u v hu hv

/-- A command is written in a session that is seen, and its answer comes in another one. -/
theorem completes_ask {post : Except Error ResultRecord → Session → Prop} {command : String}
    (hopen : ∀ u, seen u → u.link = .open)
    (h : ∀ r u v w, Drifts s u → seen u → seen (u.issue command false).2 →
      Drifts (u.issue command false).2 v → seen v →
      v.exchange.reply? u.exchange.issued = some r → Drifts v w → post r w) :
    (ask command).run.Completes seen post s := by
  have hcall : (ask command).run = Call.step (Session.issue command false) fun r =>
      (Call.done r).bind (ExceptT.bindCont await) := rfl
  rw [hcall]
  intro u hu hseen hleft
  have hticket : (u.issue command false).1 = .ok u.exchange.issued := by
    rw [Session.issue_of_open (hopen u hseen)]
  rw [hticket]
  refine ⟨Session.awaits_issue (hopen u hseen) command, fun r v hv hanswered hr w hw => ?_⟩
  exact h r u v w hu hseen hleft hv hanswered hr hw

end CallM

end MachineInterface

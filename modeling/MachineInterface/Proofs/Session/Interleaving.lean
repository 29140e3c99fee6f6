import MachineInterface.Proofs.Session.Growth

/-!
# Between the sections of a call

A call lets go of the session after each of its sections, also where it has nothing to wait for. The
debugger may act at each such moment, and not only while the call waits.

* `Call.walk`: a call taken section by section, with what the debugger does in between.
* `Treads.walk`: what a call keeps to from section to section holds at each moment of every walk.
-/

namespace MachineInterface

namespace Session

variable {s u v : Session}

/-- The session after something that the debugger did, if there is one. -/
def undergo (s : Session) (n : News) : Session := if s.isConnected then n.apply s else s

/-- The session after the debugger has acted by itself for a while. -/
def Drifts (s u : Session) : Prop := ∃ news : List News, u = news.foldl undergo s

namespace Drifts

theorem refl (s : Session) : Drifts s s := ⟨[], rfl⟩

theorem single (s : Session) (n : News) : Drifts s (s.undergo n) := ⟨[n], rfl⟩

theorem trans (h : Drifts s u) (h' : Drifts u v) : Drifts s v := by
  obtain ⟨news, rfl⟩ := h
  obtain ⟨more, rfl⟩ := h'
  exact ⟨news ++ more, List.foldl_append.symm⟩

/-- What each act of the debugger brings about holds once it has acted for a while. -/
theorem rel {r : Session → Session → Prop} (h : Drifts s u) (hrefl : ∀ s, r s s)
    (htrans : ∀ {s u v}, r s u → r u v → r s v) (hnews : ∀ s (n : News), r s (n.apply s)) :
    r s u := by
  obtain ⟨news, rfl⟩ := h
  induction news generalizing s with
  | nil => exact hrefl s
  | cons n news ih =>
    refine htrans ?_ ih
    unfold undergo
    split
    · exact hnews s n
    · exact hrefl s

theorem grows (h : Drifts s u) : Grows s u := h.rel Grows.refl Grows.trans grows_news

theorem held (h : Drifts s u) : u.held = s.held :=
  h.rel (r := fun s u => u.held = s.held) (fun _ => rfl) (fun h h' => h'.trans h) held_news

theorem tables (h : Drifts s u) :
    u.board = s.board ∧ u.logPoints.templates = s.logPoints.templates := by
  have hboard := congrArg Session.board h.held
  have htemplates := congrArg (·.logPoints.templates) h.held
  exact ⟨hboard, htemplates⟩

/-- A debugger that reads in the end has read all along. -/
theorem link_eq_open (h : Drifts s u) (hu : u.link = .open) : s.link = .open := by
  refine h.rel (r := fun s u => u.link = .open → s.link = .open) (fun _ h => h)
    (fun h h' hv => h (h' hv)) (fun s n hn => ?_) hu
  cases n with
  | hear chunk => rwa [News.apply, link_receive] at hn
  | leave =>
    rw [News.apply, link_finish] at hn
    cases hn
  | deafen =>
    rw [News.apply, deafen] at hn
    split at hn
    · cases hn
    · exact hn
  | complain text => exact hn
  | refuse detail => exact hn

theorem outbox (h : Drifts s u) : u.outbox = s.outbox :=
  h.rel (r := fun s u => u.outbox = s.outbox) (fun _ => rfl) (fun h h' => h'.trans h) outbox_news

end Drifts

end Session

namespace Call

open Session (Drifts)

variable {α β : Type}

/-! ## Walks -/

/-- A call after one section, or after it took in what it waits for, if that has come. -/
def stride : Call α → Session → Call α × Session
  | done a, s => (done a, s)
  | step run next, s => (next (run s).1, (run s).2)
  | reply ticket release next, s =>
    match s.exchange.reply? ticket with
    | some r => (next r, s)
    | none => (reply ticket release next, s)
  | ending patient next, s => (if s.isClosed then next true else ending patient next, s)

/-- Something that happens while a call is under way. -/
inductive Beat where
  /-- The call does one section more, if it can. -/
  | go
  /-- The grace period passes. -/
  | expire
  /-- The debugger acts. -/
  | news (n : News)
  deriving Repr, DecidableEq

/-- A call under way and its session after a beat. -/
def beat (p : Call α × Session) : Beat → Call α × Session
  | .go => p.1.stride p.2
  | .expire => (p.1.expire, p.2)
  | .news n => (p.1, p.2.undergo n)

/-- A call and its session after some beats. -/
def walk (beats : List Beat) (c : Call α) (s : Session) : Call α × Session :=
  beats.foldl beat (c, s)

/-- A call that goes as far as it can does so section by section. -/
theorem exists_walk_eq_advance (c : Call α) (s : Session) :
    ∃ n, walk (.replicate n .go) c s = c.advance s := by
  induction c generalizing s with
  | done a => exact ⟨0, rfl⟩
  | step run next ih =>
    obtain ⟨n, hn⟩ := ih (run s).1 (run s).2
    exact ⟨n + 1, hn⟩
  | reply ticket release next ih =>
    cases hr : s.exchange.reply? ticket with
    | none => exact ⟨0, (advance_eq_self_of_waiting hr release next).symm⟩
    | some r =>
      obtain ⟨n, hn⟩ := ih r s
      refine ⟨n + 1, ?_⟩
      rw [advance_reply_of_some hr, ← hn]
      simp only [walk, List.replicate_succ, List.foldl_cons, beat, stride, hr]
  | ending patient next ih =>
    cases hc : s.isClosed with
    | false => exact ⟨0, by simp [walk, advance, hc]⟩
    | true =>
      obtain ⟨n, hn⟩ := ih true s
      refine ⟨n + 1, ?_⟩
      rw [advance, if_pos hc, ← hn]
      simp only [walk, List.replicate_succ, List.foldl_cons, beat, stride, hc, if_true]

/-! ## Keeping to something -/

/--
Whatever the debugger does between two sections, a call gives only what a condition allows. Until
then another condition holds at each moment, which depends on whether the call waits, and a third
one once the caller has given up the wait.
-/
def Treads (now : Bool → Session → Prop) (gone : Session → Prop) (post : α → Session → Prop) :
    Call α → Session → Prop
  | done a, s => ∀ u, Drifts s u → post a u
  | step run next, s => ∀ u, Drifts s u →
    now false u ∧ (next (run u).1).Treads now gone post (run u).2
  | reply ticket release next, s => ∀ u, Drifts s u →
    (now true u ∧ gone (release { u with exchange := u.exchange.abandon ticket })) ∧
      ∀ r, u.exchange.reply? ticket = some r → (next r).Treads now gone post u
  | ending patient next, s => ∀ u, Drifts s u → now true u ∧
    (u.isClosed = true → (next true).Treads now gone post u) ∧
      (patient = false → (next false).Treads now gone post u)

variable {now : Bool → Session → Prop} {gone : Session → Prop} {s u : Session}

theorem treads_bind {pre : α → Session → Prop} {post : β → Session → Prop} {c : Call α}
    {f : α → Call β} (h : c.Treads now gone pre s)
    (hf : ∀ a u, (∀ v, Drifts u v → pre a v) → (f a).Treads now gone post u) :
    (c.bind f).Treads now gone post s := by
  induction c generalizing s with
  | done a => exact hf a s h
  | step run next ih =>
    intro u hu
    obtain ⟨hnow, hnext⟩ := h u hu
    exact ⟨hnow, ih _ hnext⟩
  | reply ticket release next ih =>
    intro u hu
    obtain ⟨hnow, hnext⟩ := h u hu
    exact ⟨hnow, fun r hr => ih r (hnext r hr)⟩
  | ending patient next ih =>
    intro u hu
    obtain ⟨hnow, hend, hgrace⟩ := h u hu
    exact ⟨hnow, fun hc => ih true (hend hc), fun hp => ih false (hgrace hp)⟩

namespace Treads

variable {post : α → Session → Prop} {c : Call α}

theorem later (h : c.Treads now gone post s) (hu : Drifts s u) : c.Treads now gone post u := by
  cases c <;> exact fun v hv => h v (hu.trans hv)

theorem stride (h : c.Treads now gone post s) :
    (c.stride s).1.Treads now gone post (c.stride s).2 := by
  cases c with
  | done a => exact h
  | step run next => exact (h s (Drifts.refl s)).2
  | reply ticket release next =>
    cases hr : s.exchange.reply? ticket with
    | some r =>
      simp only [Call.stride, hr]
      exact (h s (Drifts.refl s)).2 r hr
    | none =>
      simp only [Call.stride, hr]
      exact h
  | ending patient next =>
    cases hc : s.isClosed with
    | true =>
      simp only [Call.stride, hc, if_true]
      exact (h s (Drifts.refl s)).2.1 hc
    | false =>
      simp only [Call.stride, hc, Bool.false_eq_true, if_false]
      exact h

theorem expire (h : c.Treads now gone post s) : c.expire.Treads now gone post s := by
  cases c with
  | ending patient next =>
    cases patient with
    | true => exact h
    | false => exact (h s (Drifts.refl s)).2.2 rfl
  | _ => exact h

/-- The step of a walk: after a beat a call still keeps to what it did. -/
theorem beat (h : c.Treads now gone post s) (b : Beat) :
    (Call.beat (c, s) b).1.Treads now gone post (Call.beat (c, s) b).2 := by
  cases b with
  | go => exact h.stride
  | expire => exact h.expire
  | news n => exact h.later (Drifts.single s n)

theorem foldl_beat (h : c.Treads now gone post s) (beats : List Beat) :
    (walk beats c s).1.Treads now gone post (walk beats c s).2 := by
  induction beats generalizing c s with
  | nil => exact h
  | cons b beats ih => exact ih (h.beat b)

/-- What a call keeps to holds at each moment of every walk, and of what it gives. -/
theorem walk (h : c.Treads now gone post s) (beats : List Beat) :
    (∀ a, (Call.walk beats c s).1.result? = some a → post a (Call.walk beats c s).2) ∧
      ((Call.walk beats c s).1.result? = none →
        now (Call.walk beats c s).1.isPaused (Call.walk beats c s).2 ∧
          ((Call.walk beats c s).1.drop (Call.walk beats c s).2 = (Call.walk beats c s).2 ∨
            gone ((Call.walk beats c s).1.drop (Call.walk beats c s).2))) := by
  have hend := h.foldl_beat beats
  generalize Call.walk beats c s = p at hend
  obtain ⟨c, s⟩ := p
  cases c with
  | done a =>
    constructor
    · rintro _ ⟨⟩
      exact hend s (Drifts.refl s)
    · rintro ⟨⟩
  | step run next =>
    constructor
    · rintro _ ⟨⟩
    · exact fun _ => ⟨(hend s (Drifts.refl s)).1, .inl rfl⟩
  | reply ticket release next =>
    obtain ⟨⟨hnow, hgone⟩, -⟩ := hend s (Drifts.refl s)
    constructor
    · rintro _ ⟨⟩
    · exact fun _ => ⟨hnow, .inr hgone⟩
  | ending patient next =>
    constructor
    · rintro _ ⟨⟩
    · exact fun _ => ⟨(hend s (Drifts.refl s)).1, .inl rfl⟩

end Treads

end Call

namespace CallM

open Call (Treads)

variable {α β : Type} {now : Bool → Session → Prop} {gone : Session → Prop} {s : Session}

theorem treads_bind {post : Except Error β → Session → Prop} {c : CallM α} {f : α → CallM β}
    (h : c.run.Treads now gone (fun r u => match r with
      | .ok a => (f a).run.Treads now gone post u
      | .error e => ∀ v, Session.Drifts u v → post (.error e) v) s) :
    (c >>= f).run.Treads now gone post s := by
  have hbind : (c >>= f).run = c.run.bind (ExceptT.bindCont f) := rfl
  rw [hbind]
  refine Call.treads_bind h fun r u hr => ?_
  have hnext := hr u (Session.Drifts.refl u)
  cases r <;> exact hnext

theorem treads_lift {post : Except Error α → Session → Prop} {c : Call α}
    (h : c.Treads now gone (fun a u => post (.ok a) u) s) :
    (ExceptT.lift c : CallM α).run.Treads now gone post s :=
  Call.treads_bind (f := fun a => (Call.done (.ok a) : Call (Except Error α))) h
    fun _ _ ha => ha

end CallM

end MachineInterface

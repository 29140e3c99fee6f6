import MachineInterface.Session.Call

/-!
# Reasoning about calls

A call waits for answers, and meanwhile others act on the session. What a call does is stated for
every way in which others may act between its sections.

* `meets_bind`, `meets_holding`: the rules for sequences and for what a call holds.
* `Meets.play`: what a call meets holds of every play of it, whether it ends or is given up.
-/

namespace MachineInterface

/-- The session after the debugger has stopped reading, if it ran. -/
def Session.deafen (s : Session) : Session := if s.link = .open then { s with link := .deaf } else s

namespace Call

/-- The terms on which a call runs. -/
structure Terms where
  /-- What others may make of the session while the call waits. -/
  rely : Session → Session → Prop
  /-- What holds once the caller has given up the wait for an answer. -/
  dropped : Session → Prop
  /-- What holds once the caller has given up the wait for the end. -/
  left : Session → Prop

variable {α β : Type} {t : Terms} {s s' : Session}

/-- Under its terms, a call that starts in a session gives only what a condition allows. -/
def Meets (t : Terms) (post : α → Session → Prop) : Call α → Session → Prop
  | done a, s => post a s
  | step run next, s => (next (run s).1).Meets t post (run s).2
  | reply ticket release next, s => ∀ u, t.rely s u →
    t.dropped (release { u with exchange := u.exchange.abandon ticket }) ∧
      ∀ r, u.exchange.reply? ticket = some r → (next r).Meets t post u
  | ending patient next, s => ∀ u, t.rely s u → t.left u ∧
    (u.isClosed = true → (next true).Meets t post u) ∧
      (patient = false → (next false).Meets t post u)

/-! ## Rules -/

theorem meets_bind {post : β → Session → Prop} {c : Call α} {f : α → Call β} :
    (c.bind f).Meets t post s ↔ c.Meets t (fun a u => (f a).Meets t post u) s := by
  induction c generalizing s with
  | done a => rfl
  | step run next ih => exact ih _
  | reply ticket release next ih => simp only [bind, Meets, ih]
  | ending patient next ih => simp only [bind, Meets, ih]

theorem meets_locked {run : Session → α × Session} {post : α → Session → Prop} :
    (locked run).Meets t post s ↔ post (run s).1 (run s).2 := Iff.rfl

theorem Meets.mono {post post' : α → Session → Prop} {c : Call α} (h : c.Meets t post s)
    (hp : ∀ a u, post a u → post' a u) : c.Meets t post' s := by
  induction c generalizing s with
  | done a => exact hp a s h
  | step run next ih => exact ih _ h
  | reply ticket release next ih =>
    intro u hu
    obtain ⟨hdropped, hnext⟩ := h u hu
    exact ⟨hdropped, fun r hr => ih r (hnext r hr)⟩
  | ending patient next ih =>
    intro u hu
    obtain ⟨hleft, hend, hgrace⟩ := h u hu
    exact ⟨hleft, fun hc => ih true (hend hc), fun hp => ih false (hgrace hp)⟩

theorem meets_congr {post post' : α → Session → Prop} {c : Call α}
    (hp : ∀ a u, post a u ↔ post' a u) : c.Meets t post s ↔ c.Meets t post' s :=
  ⟨fun h => h.mono fun a u => (hp a u).mp, fun h => h.mono fun a u => (hp a u).mpr⟩

/-- A call that holds something is released from it when it is given up. -/
theorem meets_holding {post : α → Session → Prop} {release : Session → Session} {c : Call α} :
    (c.holding release).Meets t post s ↔
      c.Meets { t with dropped := fun u => t.dropped (release u) } post s := by
  induction c generalizing s with
  | done a => rfl
  | step run next ih => exact ih _
  | reply ticket inner next ih => simp only [holding, Meets, ih, Function.comp_apply]
  | ending patient next ih => simp only [holding, Meets, ih]

/-! ## Running up to a wait -/

theorem advance_reply_of_some {ticket : Nat} {r : Reply} (h : s.exchange.reply? ticket = some r)
    (release : Session → Session) (next : Reply → Call α) :
    (reply ticket release next).advance s = (next r).advance s := by
  simp only [advance, h]

/-- A sequence goes as far as its first call goes, and then on from there. -/
theorem advance_bind (c : Call α) (f : α → Call β) (s : Session) :
    (c.bind f).advance s = ((c.advance s).1.bind f).advance (c.advance s).2 := by
  induction c generalizing s with
  | done a => rfl
  | step run next ih => exact ih _ _
  | reply ticket release next ih =>
    cases hr : s.exchange.reply? ticket with
    | some r => simp only [bind, advance, hr, ih]
    | none => simp only [bind, advance, hr]
  | ending patient next ih =>
    cases hc : s.isClosed with
    | true => simp only [bind, advance, hc, if_true, ih]
    | false => simp only [bind, advance, hc, Bool.false_eq_true, if_false]

theorem reply?_of_advance {c : Call α} {ticket : Nat} {release : Session → Session}
    {next : Reply → Call α} (h : c.advance s = (.reply ticket release next, s')) :
    s'.exchange.reply? ticket = none := by
  induction c generalizing s with
  | done a => cases h
  | step run rest ih => exact ih _ h
  | reply other inner rest ih =>
    unfold advance at h
    split at h
    · exact ih _ h
    · cases h
      assumption
  | ending patient rest ih =>
    unfold advance at h
    split at h
    · exact ih _ h
    · cases h

theorem advance_holding (c : Call α) (release : Session → Session) (s : Session) :
    (c.holding release).advance s = ((c.advance s).1.holding release, (c.advance s).2) := by
  induction c generalizing s with
  | done a => rfl
  | step run next ih => exact ih _ _
  | reply ticket inner next ih =>
    cases hr : s.exchange.reply? ticket with
    | some r => simp only [holding, advance, hr, ih]
    | none => simp only [holding, advance, hr]
  | ending patient next ih =>
    cases hc : s.isClosed with
    | true => simp only [holding, advance, hc, if_true, ih]
    | false => simp only [holding, advance, hc, Bool.false_eq_true, if_false]

/-- A call runs up to the wait for an answer, which is not there yet. -/
def WaitsFor (c : Call α) (s : Session) (ticket : Nat) (s' : Session) : Prop :=
  ∃ release next, c.advance s = (.reply ticket release next, s')

theorem WaitsFor.bind {c : Call α} {ticket : Nat} (h : c.WaitsFor s ticket s') (f : α → Call β) :
    (c.bind f).WaitsFor s ticket s' := by
  obtain ⟨release, next, h⟩ := h
  refine ⟨release, fun r => (next r).bind f, ?_⟩
  rw [advance_bind, h]
  exact advance_eq_self_of_waiting (reply?_of_advance h) _ _

theorem WaitsFor.holding {c : Call α} {ticket : Nat} (h : c.WaitsFor s ticket s')
    (release : Session → Session) : (c.holding release).WaitsFor s ticket s' := by
  obtain ⟨inner, next, h⟩ := h
  refine ⟨release ∘ inner, fun r => (next r).holding release, ?_⟩
  rw [advance_holding, h]
  rfl

/-! ## Plays -/

/-- Something that happens while a call is under way. -/
inductive Turn where
  /-- The debugger prints bytes. -/
  | hear (chunk : List UInt8)
  /-- The debugger stops reading. -/
  | deafen
  /-- The debugger ends. -/
  | leave
  /-- The call goes on, as far as it can. -/
  | resume
  /-- The grace period passes. -/
  | expire
  deriving Repr, DecidableEq

/-- A call under way and its session after a turn. -/
def turn (p : Call α × Session) : Turn → Call α × Session
  | .hear chunk => (p.1, p.2.receive chunk)
  | .deafen => (p.1, p.2.deafen)
  | .leave => (p.1, p.2.finish)
  | .resume => p.1.advance p.2
  | .expire => p.1.expire.advance p.2

/-- A call and its session after it was started and turns were taken. -/
def play (turns : List Turn) (c : Call α) (s : Session) : Call α × Session :=
  turns.foldl turn (c.advance s)

/-- Whether a call waits or is done. -/
def isPaused : Call α → Bool
  | step _ _ => false
  | _ => true

theorem isPaused_advance (c : Call α) (s : Session) : (c.advance s).1.isPaused = true := by
  induction c generalizing s with
  | done a => rfl
  | step run next ih => exact ih _ _
  | reply ticket release next ih =>
    unfold advance
    split
    · exact ih _ _
    · rfl
  | ending patient next ih =>
    unfold advance
    split
    · exact ih _ _
    · rfl

/-- What the debugger does by itself is among what others may do. -/
structure Terms.Admits (t : Terms) : Prop where
  refl (s : Session) : t.rely s s
  trans {s u v : Session} (h : t.rely s u) (h' : t.rely u v) : t.rely s v
  receive (s : Session) (chunk : List UInt8) : t.rely s (s.receive chunk)
  deafen (s : Session) : t.rely s s.deafen
  finish (s : Session) : t.rely s s.finish

variable {post : α → Session → Prop} {c : Call α}

theorem Meets.advance (ht : t.Admits) (h : c.Meets t post s) :
    (c.advance s).1.Meets t post (c.advance s).2 := by
  induction c generalizing s with
  | done a => exact h
  | step run next ih => exact ih _ h
  | reply ticket release next ih =>
    unfold Call.advance
    split
    · rename_i r hr
      exact ih r ((h s (ht.refl s)).2 r hr)
    · exact h
  | ending patient next ih =>
    unfold Call.advance
    split
    · rename_i hc
      exact ih true ((h s (ht.refl s)).2.1 hc)
    · exact h

/-- A call that waits meets the same after others have acted. -/
theorem Meets.later (ht : t.Admits) (hpost : ∀ a u v, post a u → t.rely u v → post a v)
    (hc : c.isPaused = true) (h : c.Meets t post s) (hs : t.rely s s') : c.Meets t post s' := by
  cases c with
  | done a => exact hpost a s s' h hs
  | step run next => cases hc
  | reply ticket release next => exact fun u hu => h u (ht.trans hs hu)
  | ending patient next => exact fun u hu => h u (ht.trans hs hu)

theorem Meets.expire (ht : t.Admits) (h : c.Meets t post s) : c.expire.Meets t post s := by
  cases c with
  | ending patient next =>
    cases patient with
    | true => exact h
    | false => exact (h s (ht.refl s)).2.2 rfl
  | _ => exact h

/-- The step of a play: a turn leaves a call that is paused and meets the same. -/
theorem Meets.turn (ht : t.Admits) (hpost : ∀ a u v, post a u → t.rely u v → post a v)
    (hc : c.isPaused = true) (h : c.Meets t post s) (move : Turn) :
    (Call.turn (c, s) move).1.isPaused = true ∧
      (Call.turn (c, s) move).1.Meets t post (Call.turn (c, s) move).2 := by
  cases move with
  | hear chunk => exact ⟨hc, h.later ht hpost hc (ht.receive s chunk)⟩
  | deafen => exact ⟨hc, h.later ht hpost hc (ht.deafen s)⟩
  | leave => exact ⟨hc, h.later ht hpost hc (ht.finish s)⟩
  | resume => exact ⟨isPaused_advance c s, h.advance ht⟩
  | expire => exact ⟨isPaused_advance _ s, (h.expire ht).advance ht⟩

theorem Meets.foldl_turn (ht : t.Admits) (hpost : ∀ a u v, post a u → t.rely u v → post a v)
    (turns : List Turn) (hc : c.isPaused = true) (h : c.Meets t post s) :
    (turns.foldl Call.turn (c, s)).1.isPaused = true ∧
      (turns.foldl Call.turn (c, s)).1.Meets t post (turns.foldl Call.turn (c, s)).2 := by
  induction turns generalizing c s with
  | nil => exact ⟨hc, h⟩
  | cons move turns ih =>
    obtain ⟨hc', h'⟩ := h.turn ht hpost hc move
    exact ih hc' h'

theorem eq_done_of_result? {a : α} (h : c.result? = some a) : c = .done a := by
  cases c with
  | done b => exact congrArg done (Option.some.inj h)
  | _ => cases h

/-- A call that is done stays so. -/
theorem foldl_turn_done (a : α) (turns : List Turn) (s : Session) :
    (turns.foldl turn (.done a, s)).1 = .done a := by
  induction turns generalizing s with
  | nil => rfl
  | cons move turns ih => cases move <;> exact ih _

/-- What a call meets holds of every play of it, whether it ends or is given up. -/
theorem Meets.play (ht : t.Admits) (hpost : ∀ a u v, post a u → t.rely u v → post a v)
    (h : c.Meets t post s) (turns : List Turn) :
    (∀ a, (Call.play turns c s).1.result? = some a → post a (Call.play turns c s).2) ∧
      ((Call.play turns c s).1.result? = none →
        t.dropped ((Call.play turns c s).1.drop (Call.play turns c s).2) ∨
          t.left ((Call.play turns c s).1.drop (Call.play turns c s).2)) := by
  obtain ⟨hc, hmeets⟩ := (h.advance ht).foldl_turn ht hpost turns (isPaused_advance c s)
  rw [show turns.foldl Call.turn ((c.advance s).1, (c.advance s).2) = Call.play turns c s from rfl]
    at hc hmeets
  generalize Call.play turns c s = p at hc hmeets
  obtain ⟨c, s⟩ := p
  cases c with
  | done a =>
    constructor
    · rintro _ ⟨⟩
      exact hmeets
    · rintro ⟨⟩
  | step run next => cases hc
  | reply ticket release next =>
    constructor
    · rintro _ ⟨⟩
    · exact fun _ => .inl (hmeets s (ht.refl s)).1
  | ending patient next =>
    constructor
    · rintro _ ⟨⟩
    · exact fun _ => .inr (hmeets s (ht.refl s)).1

end Call

/-! ## Calls that may fail -/

namespace CallM

open Call (Terms)

variable {α β : Type} {t : Terms} {s : Session} {post : Except Error α → Session → Prop}

theorem meets_bind {post : Except Error β → Session → Prop} {c : CallM α} {f : α → CallM β} :
    (c >>= f).run.Meets t post s ↔ c.run.Meets t (fun r u => match r with
      | .ok a => (f a).run.Meets t post u
      | .error e => post (.error e) u) s := by
  have hbind : (c >>= f).run = c.run.bind (ExceptT.bindCont f) := rfl
  rw [hbind, Call.meets_bind]
  refine Call.meets_congr fun r u => ?_
  cases r <;> rfl

theorem meets_except {e : Except Error α} :
    (liftM e : CallM α).run.Meets t post s ↔ post e s := Iff.rfl

theorem meets_lift {c : Call α} :
    (ExceptT.lift c : CallM α).run.Meets t post s ↔ c.Meets t (fun a u => post (.ok a) u) s := by
  have hbind : (ExceptT.lift c : CallM α).run = c.bind fun a => .done (.ok a) := rfl
  rw [hbind, Call.meets_bind]
  rfl

theorem meets_locked {run : Session → Except Error α × Session} :
    (locked run).run.Meets t post s ↔ post (run s).1 (run s).2 := Iff.rfl

theorem meets_modify {f : Session → Session} {post : Except Error Unit → Session → Prop} :
    (modify f).run.Meets t post s ↔ post (.ok ()) (f s) := Iff.rfl

theorem meets_await {ticket : Nat} {post : Except Error ResultRecord → Session → Prop} :
    (await ticket).run.Meets t post s ↔ ∀ u, t.rely s u →
      t.dropped { u with exchange := u.exchange.abandon ticket } ∧
        ∀ r, u.exchange.reply? ticket = some r → post r u := Iff.rfl

theorem meets_attempt {c : CallM α} {post : Except Error (Except Error α) → Session → Prop} :
    (attempt c).run.Meets t post s ↔ c.run.Meets t (fun r u => post (.ok r) u) s :=
  meets_lift

theorem meets_discard {c : CallM α} {post : Except Error Unit → Session → Prop} :
    (discard c).run.Meets t post s ↔
      c.run.Meets t (fun r u => post (r.map fun _ => ()) u) s := by
  have hbind : discard c = (c >>= fun _ => pure ()) := rfl
  rw [hbind, meets_bind]
  refine Call.meets_congr fun r u => ?_
  cases r <;> rfl

/-! ### Running up to a wait -/

variable {ticket : Nat} {u : Session}

theorem waitsFor_bind {c : CallM α} (h : c.run.WaitsFor s ticket u) (f : α → CallM β) :
    (c >>= f).run.WaitsFor s ticket u := h.bind (ExceptT.bindCont f)

theorem waitsFor_lift {c : Call α} (h : c.WaitsFor s ticket u) :
    (ExceptT.lift c : CallM α).run.WaitsFor s ticket u :=
  h.bind fun a => (Call.done (.ok a) : Call (Except Error α))

theorem waitsFor_ok_bind {a : α} {f : α → CallM β} :
    ((liftM (.ok a : Except Error α) : CallM α) >>= f).run.WaitsFor s ticket u ↔
      (f a).run.WaitsFor s ticket u := Iff.rfl

theorem waitsFor_modify_bind {g : Session → Session} {f : Unit → CallM β} :
    (modify g >>= f).run.WaitsFor s ticket u ↔ (f ()).run.WaitsFor (g s) ticket u := Iff.rfl

theorem waitsFor_locked_bind {run : Session → α × Session} {f : α → CallM β} :
    ((ExceptT.lift (Call.locked run) : CallM α) >>= f).run.WaitsFor s ticket u ↔
      (f (run s).1).run.WaitsFor (run s).2 ticket u := Iff.rfl

end CallM

end MachineInterface

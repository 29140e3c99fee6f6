import MachineInterface.Proofs.Session.Ensemble

/-!
# What calls uphold

A condition on the session that every section of a call keeps, whatever the answers say as long as
they are sound. What is promised of a call's result is known to the call that follows it.

* `upholds_bind`: the rule for sequences.
* `Upholds.advance`, `Upholds.drop`: a call that goes on or is given up keeps the condition.
* `upholds_turn`: a turn of an ensemble keeps it if new calls and the debugger do.
-/

namespace MachineInterface

/-- A condition on the session under which the answers that it holds are sound. -/
structure Premise where
  holds : Session → Prop
  sound : Reply → Prop
  answers {s : Session} (h : holds s) {ticket : Nat} {r : Reply}
    (hr : s.exchange.reply? ticket = some r) : sound r
  abandon {s : Session} (h : holds s) (ticket : Nat) :
    holds { s with exchange := s.exchange.abandon ticket }

namespace Call

variable {α β : Type} {p : Premise} {s : Session}

/-- Every section of a call keeps a condition, and the result is as promised. -/
def Upholds (p : Premise) (post : α → Prop) : Call α → Prop
  | done a => post a
  | step run next => ∀ s, p.holds s → p.holds (run s).2 ∧ (next (run s).1).Upholds p post
  | reply _ release next =>
    (∀ s, p.holds s → p.holds (release s)) ∧ ∀ r, p.sound r → (next r).Upholds p post
  | ending _ next => ∀ b, (next b).Upholds p post

theorem upholds_bind {pre : α → Prop} {post : β → Prop} {c : Call α} {f : α → Call β}
    (hc : c.Upholds p pre) (hf : ∀ a, pre a → (f a).Upholds p post) :
    (c.bind f).Upholds p post := by
  induction c with
  | done a => exact hf a hc
  | step run next ih => exact fun s hs => ⟨(hc s hs).1, ih _ (hc s hs).2⟩
  | reply ticket release next ih => exact ⟨hc.1, fun r hr => ih r (hc.2 r hr)⟩
  | ending patient next ih => exact fun b => ih b (hc b)

theorem Upholds.mono {post post' : α → Prop} {c : Call α} (hc : c.Upholds p post)
    (hp : ∀ a, post a → post' a) : c.Upholds p post' := by
  have hbind : (c.bind done).Upholds p post' := upholds_bind hc hp
  rwa [bind_done] at hbind

theorem upholds_locked {post : α → Prop} {run : Session → α × Session}
    (h : ∀ s, p.holds s → p.holds (run s).2 ∧ post (run s).1) : (locked run).Upholds p post := h

/-- A section of whose result nothing is promised. -/
theorem upholds_section {run : Session → α × Session} (h : ∀ s, p.holds s → p.holds (run s).2) :
    (locked run).Upholds p fun _ => True := fun s hs => ⟨h s hs, trivial⟩

theorem upholds_read {post : α → Prop} {f : Session → α} (h : ∀ s, p.holds s → post (f s)) :
    (read f).Upholds p post := fun s hs => ⟨hs, h s hs⟩

theorem upholds_holding {post : α → Prop} {c : Call α} {release : Session → Session}
    (hc : c.Upholds p post) (h : ∀ s, p.holds s → p.holds (release s)) :
    (c.holding release).Upholds p post := by
  induction c with
  | done a => exact hc
  | step run next ih => exact fun s hs => ⟨(hc s hs).1, ih _ (hc s hs).2⟩
  | reply ticket inner next ih =>
    exact ⟨fun s hs => h _ (hc.1 s hs), fun r hr => ih r (hc.2 r hr)⟩
  | ending patient next ih => exact fun b => ih b (hc b)

/-! ## Running -/

variable {post : α → Prop} {c : Call α}

theorem Upholds.advance (hc : c.Upholds p post) (hs : p.holds s) :
    p.holds (c.advance s).2 ∧ (c.advance s).1.Upholds p post := by
  induction c generalizing s with
  | done a => exact ⟨hs, hc⟩
  | step run next ih => exact ih _ (hc s hs).2 (hc s hs).1
  | reply ticket release next ih =>
    unfold Call.advance
    split
    · rename_i r hr
      exact ih r (hc.2 r (p.answers hs hr)) hs
    · exact ⟨hs, hc⟩
  | ending patient next ih =>
    unfold Call.advance
    split
    · exact ih true (hc true) hs
    · exact ⟨hs, hc⟩

theorem Upholds.expire (hc : c.Upholds p post) : c.expire.Upholds p post := by
  cases c with
  | ending patient next =>
    cases patient with
    | true => exact hc
    | false => exact hc false
  | _ => exact hc

theorem Upholds.drop (hc : c.Upholds p post) (hs : p.holds s) : p.holds (c.drop s) := by
  cases c with
  | reply ticket release next => exact hc.1 _ (p.abandon hs ticket)
  | _ => exact hs

end Call

/-! ## Calls that may fail -/

namespace CallM

variable {α β : Type} {p : Premise} {post : α → Prop}

/-- Every section of a call keeps a condition, and the result is as promised if there is one. -/
def Upholds (p : Premise) (post : α → Prop) (c : CallM α) : Prop :=
  Call.Upholds p (fun r => ∀ a, r = .ok a → post a) c.run

theorem upholds_pure {a : α} (h : post a) : (pure a : CallM α).Upholds p post := by
  rintro _ ⟨⟩
  exact h

theorem upholds_throw (e : Error) : (throw e : CallM α).Upholds p post := by
  rintro _ ⟨⟩

theorem upholds_except {e : Except Error α} (h : ∀ a, e = .ok a → post a) :
    (liftM e : CallM α).Upholds p post := h

theorem upholds_bind {post : β → Prop} {pre : α → Prop} {c : CallM α} {f : α → CallM β}
    (hc : c.Upholds p pre) (hf : ∀ a, pre a → (f a).Upholds p post) :
    (c >>= f).Upholds p post := by
  refine Call.upholds_bind hc fun r hr => ?_
  cases r with
  | ok a => exact hf a (hr a rfl)
  | error e => exact upholds_throw e

theorem Upholds.mono {post' : α → Prop} {c : CallM α} (hc : c.Upholds p post)
    (hp : ∀ a, post a → post' a) : c.Upholds p post' :=
  Call.Upholds.mono hc fun _ h a ha => hp a (h a ha)

theorem upholds_lift {c : Call α} (hc : c.Upholds p post) :
    CallM.Upholds p post (ExceptT.lift c) := by
  refine Call.upholds_bind hc fun a ha => ?_
  rintro _ ⟨⟩
  exact ha

theorem upholds_attempt {c : CallM α} (hc : c.Upholds p post) :
    (attempt c).Upholds p fun r => ∀ a, r = .ok a → post a := upholds_lift hc

theorem upholds_discard {c : CallM α} (hc : c.Upholds p post) :
    (discard c).Upholds p fun _ => True :=
  upholds_bind hc fun _ _ => upholds_pure trivial

theorem upholds_locked {run : Session → Except Error α × Session}
    (h : ∀ s, p.holds s → p.holds (run s).2 ∧ ∀ a, (run s).1 = .ok a → post a) :
    (locked run).Upholds p post := Call.upholds_locked h

theorem upholds_section {run : Session → Except Error α × Session}
    (h : ∀ s, p.holds s → p.holds (run s).2) : (locked run).Upholds p fun _ => True :=
  upholds_locked fun s hs => ⟨h s hs, fun _ _ => trivial⟩

theorem upholds_lift_section {run : Session → α × Session}
    (h : ∀ s, p.holds s → p.holds (run s).2) :
    CallM.Upholds p (fun _ => True) (ExceptT.lift (Call.locked run)) :=
  upholds_lift (Call.upholds_section h)

theorem upholds_modify {f : Session → Session} (h : ∀ s, p.holds s → p.holds (f s)) :
    (modify f).Upholds p fun _ => True := upholds_lift_section h

theorem upholds_look (f : Session → α) : (read f).Upholds p fun _ => True :=
  upholds_lift_section fun _ hs => hs

theorem upholds_result (e : Except Error α) : (liftM e : CallM α).Upholds p fun _ => True :=
  upholds_except fun _ _ => trivial

theorem upholds_read {f : Session → α} (h : ∀ s, p.holds s → post (f s)) :
    (read f).Upholds p post := upholds_lift (Call.upholds_read h)

/-- An answer that is awaited is sound. -/
theorem upholds_await (ticket : Nat) :
    (await ticket).Upholds p fun answer => p.sound (.ok answer) := by
  refine ⟨fun s hs => hs, fun r hr => ?_⟩
  rintro answer rfl
  exact hr

/-- A command can be sent if writing it keeps the condition. -/
theorem upholds_send {command : String} {tolerant : Bool}
    (h : ∀ s, p.holds s → p.holds (s.issue command tolerant).2) :
    (send command tolerant).Upholds p fun answer => p.sound (.ok answer) :=
  upholds_bind (upholds_section h) fun ticket _ => upholds_await ticket

theorem upholds_mapM {pre : α → Prop} {post : β → Prop} {f : α → CallM β}
    (hf : ∀ a, pre a → (f a).Upholds p post) {as : List α} (has : ∀ a ∈ as, pre a) :
    (as.mapM f).Upholds p fun bs => ∀ b ∈ bs, post b := by
  induction as with
  | nil => exact upholds_pure fun _ hb => absurd hb List.not_mem_nil
  | cons a as ih =>
    obtain ⟨ha, has⟩ := List.forall_mem_cons.mp has
    rw [List.mapM_cons]
    exact upholds_bind (hf a ha) fun _ hb => upholds_bind (ih has) fun _ hbs =>
      upholds_pure (List.forall_mem_cons.mpr ⟨hb, hbs⟩)

theorem upholds_forM {f : α → CallM PUnit} (hf : ∀ a, (f a).Upholds p fun _ => True)
    (as : List α) : (as.forM f).Upholds p fun _ => True := by
  induction as with
  | nil => exact upholds_pure trivial
  | cons a as ih => exact upholds_bind (hf a) fun _ _ => ih

end CallM

/-! ## Ensembles -/

/-- What is left of a call upholds a condition. -/
def Ongoing.Upholds (p : Premise) (o : Ongoing) : Prop :=
  ∀ rest, o.rest? = some rest → rest.Upholds p fun _ => True

theorem Ongoing.Upholds.move {p : Premise} {o : Ongoing} {s : Session} (h : o.Upholds p)
    (hs : p.holds s) (m : Ongoing.Move) : (o.move m s).1.Upholds p ∧ p.holds (o.move m s).2 := by
  unfold Ongoing.move
  split
  · exact ⟨h, hs⟩
  · rename_i rest hrest
    have hcall := h rest hrest
    cases m with
    | resume =>
      refine ⟨?_, (hcall.advance hs).1⟩
      rintro _ ⟨⟩
      exact (hcall.advance hs).2
    | expire =>
      refine ⟨?_, (hcall.expire.advance hs).1⟩
      rintro _ ⟨⟩
      exact (hcall.expire.advance hs).2
    | giveUp =>
      dsimp only
      split
      · exact ⟨h, hs⟩
      · refine ⟨?_, hcall.drop hs⟩
        rintro _ ⟨⟩

/-- A turn keeps a condition if a new call upholds it and what the debugger does keeps it. -/
theorem Ensemble.upholds_turn {p : Premise} {e : Ensemble} (hs : p.holds e.session)
    (hcalls : ∀ o ∈ e.calls, o.Upholds p) {t : Turn}
    (hcall : ∀ op, t = .call op → op.call.Upholds p fun _ => True)
    (hnews : ∀ n, t = .news n → e.session.isConnected = true → p.holds (n.apply e.session)) :
    p.holds (e.turn t).session ∧ ∀ o ∈ (e.turn t).calls, o.Upholds p := by
  cases t with
  | call op =>
    obtain ⟨hsession, hrest⟩ := (hcall op rfl).advance hs
    refine ⟨hsession, fun o ho => ?_⟩
    rcases List.mem_append.mp ho with ho | ho
    · exact hcalls o ho
    · obtain rfl := List.mem_singleton.mp ho
      rintro _ ⟨⟩
      exact hrest
  | move i m =>
    cases hi : e.calls[i]? with
    | none =>
      rw [turn_move_none hi]
      exact ⟨hs, hcalls⟩
    | some o =>
      obtain ⟨hmoved, hsession⟩ := (hcalls o (List.mem_of_getElem? hi)).move hs m
      rw [turn_move hi]
      refine ⟨hsession, fun o' ho' => ?_⟩
      rcases List.mem_or_eq_of_mem_set ho' with ho' | rfl
      · exact hcalls o' ho'
      · exact hmoved
  | news n =>
    cases hc : e.session.isConnected with
    | true =>
      rw [turn_news hc]
      exact ⟨hnews n rfl hc, hcalls⟩
    | false =>
      rw [turn_news_of_not_connected hc]
      exact ⟨hs, hcalls⟩

end MachineInterface

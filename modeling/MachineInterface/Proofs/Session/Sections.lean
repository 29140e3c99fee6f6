import MachineInterface.Session.Call

/-!
# Sections of calls

A call changes its session in sections, each at once, and when it is given up. A relation between
the session before and after each of these is kept by sequences of calls.

* `relates_bind`, `relates_holding`: the rules for sequences and for what a call holds.
* `Relates.advance`, `Relates.drop`: a call that goes on or is given up.
-/

namespace MachineInterface

/-! ## Calls -/

namespace Call

theorem bind_done {α : Type} (c : Call α) : c.bind done = c := by
  induction c with
  | done a => rfl
  | step run next ih => simp only [bind, ih]
  | reply ticket release next ih => simp only [bind, ih]
  | ending patient next ih => simp only [bind, ih]

instance : LawfulMonad Call :=
  LawfulMonad.mk' Call bind_done (fun _ _ => rfl) bind_assoc

variable {α β : Type} {r : Session → Session → Prop}

/-- Each section of a call relates the session before it to the one after it. -/
def Relates (r : Session → Session → Prop) : Call α → Prop
  | done _ => True
  | step run next => ∀ s, r s (run s).2 ∧ (next (run s).1).Relates r
  | reply _ release next => (∀ s, r s (release s)) ∧ ∀ a, (next a).Relates r
  | ending _ next => ∀ b, (next b).Relates r

theorem relates_bind {c : Call α} {f : α → Call β} (hc : c.Relates r)
    (hf : ∀ a, (f a).Relates r) : (c.bind f).Relates r := by
  induction c with
  | done a => exact hf a
  | step run next ih => exact fun s => ⟨(hc s).1, ih _ (hc s).2⟩
  | reply ticket release next ih => exact ⟨hc.1, fun a => ih a (hc.2 a)⟩
  | ending patient next ih => exact fun b => ih b (hc b)

theorem relates_locked {run : Session → α × Session} (h : ∀ s, r s (run s).2) :
    (locked run).Relates r := fun s => ⟨h s, trivial⟩

theorem relates_holding (htrans : ∀ {s u v}, r s u → r u v → r s v) {c : Call α}
    {release : Session → Session} (hc : c.Relates r) (h : ∀ s, r s (release s)) :
    (c.holding release).Relates r := by
  induction c with
  | done a => trivial
  | step run next ih => exact fun s => ⟨(hc s).1, ih _ (hc s).2⟩
  | reply ticket inner next ih =>
    exact ⟨fun s => htrans (hc.1 s) (h _), fun a => ih a (hc.2 a)⟩
  | ending patient next ih => exact fun b => ih b (hc b)

theorem Relates.advance (hrefl : ∀ s, r s s) (htrans : ∀ {s u v}, r s u → r u v → r s v)
    {c : Call α} (hc : c.Relates r) (s : Session) :
    r s (c.advance s).2 ∧ (c.advance s).1.Relates r := by
  induction c generalizing s with
  | done a => exact ⟨hrefl s, trivial⟩
  | step run next ih =>
    obtain ⟨hrun, hnext⟩ := hc s
    obtain ⟨hmore, hrest⟩ := ih _ hnext (run s).2
    exact ⟨htrans hrun hmore, hrest⟩
  | reply ticket release next ih =>
    unfold Call.advance
    split
    · exact ih _ (hc.2 _) s
    · exact ⟨hrefl s, hc⟩
  | ending patient next ih =>
    unfold Call.advance
    split
    · exact ih _ (hc true) s
    · exact ⟨hrefl s, hc⟩

theorem Relates.expire {c : Call α} (hc : c.Relates r) : c.expire.Relates r := by
  cases c with
  | ending patient next =>
    cases patient with
    | true => exact hc
    | false => exact hc false
  | _ => exact hc

/-- A call that is given up while it waits for an answer leaves the command and then releases. -/
theorem Relates.drop (hrefl : ∀ s, r s s) {c : Call α} (hc : c.Relates r) (s : Session) :
    r s (c.drop s) ∨ ∃ ticket release next, c = reply ticket release next ∧
      r { s with exchange := s.exchange.abandon ticket } (c.drop s) := by
  cases c with
  | reply ticket release next => exact .inr ⟨ticket, release, next, rfl, hc.1 _⟩
  | _ => exact .inl (hrefl s)

end Call

/-! ## Calls that may fail -/

namespace CallM

variable {α β : Type} {r : Session → Session → Prop}

/-- Each section of a call that may fail relates the session before it to the one after it. -/
def Relates (r : Session → Session → Prop) (c : CallM α) : Prop := Call.Relates r c.run

theorem relates_pure (a : α) : (pure a : CallM α).Relates r := trivial

theorem relates_throw (e : Error) : (throw e : CallM α).Relates r := trivial

theorem relates_except (e : Except Error α) : (liftM e : CallM α).Relates r := trivial

theorem relates_ok_bind {a : α} {f : α → CallM β} :
    ((liftM (.ok a : Except Error α) : CallM α) >>= f).Relates r ↔ (f a).Relates r := Iff.rfl

theorem relates_bind {c : CallM α} {f : α → CallM β} (hc : c.Relates r)
    (hf : ∀ a, (f a).Relates r) : (c >>= f).Relates r := by
  refine Call.relates_bind hc fun a => ?_
  cases a with
  | ok a => exact hf a
  | error e => trivial

theorem relates_lift {c : Call α} (hc : c.Relates r) : (ExceptT.lift c : CallM α).Relates r :=
  Call.relates_bind hc fun _ => trivial

theorem relates_attempt {c : CallM α} (hc : c.Relates r) : (attempt c).Relates r := relates_lift hc

theorem relates_discard {c : CallM α} (hc : c.Relates r) : (discard c).Relates r :=
  relates_bind hc fun _ => trivial

theorem relates_locked {run : Session → Except Error α × Session} (h : ∀ s, r s (run s).2) :
    (locked run).Relates r := Call.relates_locked h

theorem relates_modify {f : Session → Session} (h : ∀ s, r s (f s)) : (modify f).Relates r :=
  relates_lift (Call.relates_locked h)

theorem relates_mapM {f : α → CallM β} (hf : ∀ a, (f a).Relates r) (as : List α) :
    (as.mapM f).Relates r := by
  induction as with
  | nil => exact relates_pure _
  | cons a as ih =>
    rw [List.mapM_cons]
    exact relates_bind (hf a) fun b => relates_bind ih fun bs => relates_pure _

theorem relates_forM {f : α → CallM PUnit} (hf : ∀ a, (f a).Relates r) (as : List α) :
    (as.forM f).Relates r := by
  induction as with
  | nil => exact relates_pure _
  | cons a as ih => exact relates_bind (hf a) fun _ => ih

end CallM

end MachineInterface

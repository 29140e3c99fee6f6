import MachineInterface.Proofs.Breakpoint.Tables
import MachineInterface.Proofs.Breakpoint.Turnover
import MachineInterface.Proofs.Session.Faults

/-!
# Clearing a file

A call that clears a file takes its breakpoints and their templates at once, tries one delete after
the other and then awaits the answers one after the other. The debugger may act before each of
these.

* `Tried`: deletes that were tried one after the other, and what the debugger did in between.
* `treads_issueDeletes`, `treads_awaitAll`: what the two halves of the call keep to.
* `clears_source`: what a call that clears a file has done at each moment, and what it gives.
-/

namespace MachineInterface

namespace Session

variable {s u v : Session}

/-! ## Deletes that were tried -/

/-- A delete that was tried, and the session in which it was. -/
structure Attempt where
  breakpoint : Breakpoint
  session : Session

/-- How the debugger or the session has failed the command with a ticket. -/
def failed? (u : Session) (ticket : Nat) : Option Error :=
  match u.exchange.reply? ticket with
  | some (.error e) => some e
  | _ => none

theorem failed?_eq_some_iff {ticket : Nat} {e : Error} :
    failed? u ticket = some e ↔ u.exchange.reply? ticket = some (.error e) := by
  unfold failed?
  cases u.exchange.reply? ticket with
  | none => simp
  | some r => cases r <;> simp

namespace Attempt

variable (t : Attempt)

/-- The command of a delete. -/
def command : String := deleteCommand t.breakpoint.id

/-- The ticket of a delete, or why it could not be issued. -/
def outcome : Except Error Nat := (t.session.issue t.command false).1

/-- The session after a delete was tried. -/
def after : Session := (t.session.issue t.command false).2

/-- What was written, if the debugger reads. -/
def written? : Option Outgoing :=
  if t.session.link = .open then some (.command t.session.exchange.freeToken t.command) else none

/-- The ticket of a delete that was issued. -/
def ticket? : Option Nat := t.outcome.toOption

/-- Why a delete could not be issued. -/
def refusal? : Option Error :=
  match t.outcome with
  | .ok _ => none
  | .error e => some e

theorem outbox_after : t.after.outbox = t.session.outbox ++ t.written?.toList := by
  unfold after written? issue
  split <;> simp_all [Exchange.register]

theorem tables_after : t.after.board = t.session.board ∧
    t.after.logPoints.templates = t.session.logPoints.templates := by
  have hkeeps := Keeps.issue t.session t.command false
  exact ⟨hkeeps.board, hkeeps.templates⟩

end Attempt

/-- Deletes are tried one after the other. Before each of them and in the end the debugger acts. -/
inductive Tried : Session → List Attempt → Session → Prop where
  | nil {s u : Session} (h : Drifts s u) : Tried s [] u
  | cons {s u : Session} {t : Attempt} {tries : List Attempt} (h : Drifts s t.session)
      (rest : Tried t.after tries u) : Tried s (t :: tries) u

namespace Tried

variable {tries : List Attempt}

theorem later (h : Tried s tries u) (hv : Drifts u v) : Tried s tries v := by
  induction h with
  | nil h => exact .nil (h.trans hv)
  | cons h _ ih => exact .cons h (ih hv)

theorem earlier (h : Tried u tries v) (hs : Drifts s u) : Tried s tries v := by
  cases h with
  | nil h => exact .nil (hs.trans h)
  | cons h rest => exact .cons (hs.trans h) rest

/-- Deletes write what each of them writes, and the debugger writes nothing. -/
theorem outbox (h : Tried s tries u) : u.outbox = s.outbox ++ tries.filterMap Attempt.written? := by
  induction h with
  | nil h => rw [h.outbox, List.filterMap_nil, List.append_nil]
  | @cons s u t tries h _ ih =>
    rw [ih, t.outbox_after, h.outbox, List.append_assoc, List.filterMap_cons]
    cases t.written? <;> rfl

theorem tables (h : Tried s tries u) :
    u.board = s.board ∧ u.logPoints.templates = s.logPoints.templates := by
  induction h with
  | nil h => exact h.tables
  | @cons s u t tries h _ ih =>
    obtain ⟨hboard, htemplates⟩ := t.tables_after
    exact ⟨ih.1.trans (hboard.trans h.tables.1), ih.2.trans (htemplates.trans h.tables.2)⟩

/-- A debugger that still reads in the end was there for every delete. -/
theorem link_eq_open (h : Tried s tries u) (hu : u.link = .open) :
    ∀ t ∈ tries, t.session.link = .open := by
  have hlink : s.link = .open ∧ ∀ t ∈ tries, t.session.link = .open := by
    induction h with
    | nil h => exact ⟨h.link_eq_open hu, fun t ht => by cases ht⟩
    | @cons s u t tries h _ ih =>
      obtain ⟨hafter, htries⟩ := ih hu
      have hopen : t.session.link = .open := (link_issue t.session t.command).symm.trans hafter
      exact ⟨h.link_eq_open hopen, List.forall_mem_cons.mpr ⟨hopen, htries⟩⟩
  exact hlink.2

theorem owes {ticket : Nat} {command : String} (h : Tried s tries u)
    (hs : Owes ticket command s) : Owes ticket command u := by
  induction h with
  | nil h => exact hs.drifts h
  | cons h _ ih => exact ih ((hs.drifts h).issue _)

/-- The reason why an issued delete has failed is its own. -/
theorem blames (h : Tried s tries u) (ho : s.exchange.Orderly) {t : Attempt} (ht : t ∈ tries)
    {ticket : Nat} {e : Error} (hticket : t.outcome = .ok ticket)
    (hr : u.exchange.reply? ticket = some (.error e)) : Blames t.command u e := by
  induction h with
  | nil _ => cases ht
  | @cons s u t' tries h rest ih =>
    have horderly := h.orderly ho
    rcases List.mem_cons.mp ht with rfl | ht
    · exact (rest.owes (Owes.issue_self horderly hticket)).blames hr
    · exact ih (orderly_apply horderly (.issue t'.command false)) ht hr

end Tried

/-! ## The two halves -/

variable {now : Bool → Session → Prop} {gone : Session → Prop}

/-- Deletes are tried in order; their tickets and the first that could not be issued are known. -/
theorem treads_issueDeletes {todo : List Breakpoint}
    {post : Except Error (List Nat × Option Error) → Session → Prop}
    (hnow : ∀ tries u, tries.map (·.breakpoint) <+: todo → Tried s tries u → now false u)
    (hpost : ∀ tries u, tries.map (·.breakpoint) = todo → Tried s tries u →
      post (.ok (tries.filterMap Attempt.ticket?, tries.findSome? Attempt.refusal?)) u) :
    (issueDeletes todo).run.Treads now gone post s := by
  induction todo generalizing s post with
  | nil => exact fun u hu => hpost [] u rfl (.nil hu)
  | cons b todo ih =>
    refine CallM.treads_bind fun u hu => ⟨hnow [] u List.nil_prefix (.nil hu), fun v hv => ?_⟩
    let t : Attempt := ⟨b, u⟩
    have hcons : ∀ {tries w}, Tried v tries w → Tried s (t :: tries) w :=
      fun h => .cons hu (h.earlier hv)
    refine CallM.treads_bind (ih ?_ ?_)
    · intro tries w htries hw
      exact hnow (t :: tries) w (List.cons_prefix_cons.mpr ⟨rfl, htries⟩) (hcons hw)
    · intro tries w htries hw
      have hdone := fun w' hw' => hpost (t :: tries) w' (by rw [List.map_cons, htries])
        ((hcons hw).later hw')
      simp only [List.filterMap_cons, List.findSome?_cons, Attempt.ticket?,
        Attempt.refusal?] at hdone
      dsimp only
      change (match t.outcome with
        | .ok ticket => (pure (ticket :: _, _) : CallM _)
        | .error e => pure (_, some e)).run.Treads now gone post w
      cases ht : t.outcome with
      | ok ticket =>
        rw [ht] at hdone
        exact hdone
      | error e =>
        rw [ht] at hdone
        exact hdone

/-- The first failure among commands that all have their answers stays the same. -/
theorem findSome?_failed? {tickets : List Nat}
    (h : ∀ ticket ∈ tickets, ∃ r, u.exchange.reply? ticket = some r) (hv : Grows u v) :
    tickets.findSome? (failed? v) = tickets.findSome? (failed? u) := by
  induction tickets with
  | nil => rfl
  | cons ticket tickets ih =>
    obtain ⟨⟨r, hr⟩, h⟩ := List.forall_mem_cons.mp h
    have hsame : failed? v ticket = failed? u ticket := by
      unfold failed?
      rw [hr, Exchange.reply?_of_prefix hv.answers hr]
    rw [List.findSome?_cons, List.findSome?_cons, hsame, ih h]

/-- Answers are awaited in order; the first failure among them is known. -/
theorem treads_awaitAll {tickets : List Nat} {post : Except Error (Option Error) → Session → Prop}
    (hnow : ∀ u, Drifts s u → now true u)
    (hgone : ∀ u ticket, Drifts s u → gone { u with exchange := u.exchange.abandon ticket })
    (hpost : ∀ u, Drifts s u → (∀ ticket ∈ tickets, ∃ r, u.exchange.reply? ticket = some r) →
      post (.ok (tickets.findSome? (failed? u))) u) :
    (awaitAll tickets).run.Treads now gone post s := by
  induction tickets generalizing s post with
  | nil => exact fun u hu => hpost u hu fun ticket ht => by cases ht
  | cons ticket tickets ih =>
    refine CallM.treads_bind fun u hu => ⟨⟨hnow u hu, hgone u ticket hu⟩, fun r hr v hv => ?_⟩
    refine CallM.treads_bind (ih ?_ ?_ ?_)
    · exact fun w hw => hnow w ((hu.trans hv).trans hw)
    · exact fun w other hw => hgone w other ((hu.trans hv).trans hw)
    · intro w hw hanswered
      have hr' : w.exchange.reply? ticket = some r :=
        Exchange.reply?_of_prefix (hv.trans hw).grows.answers hr
      have hall : ∀ other ∈ ticket :: tickets, ∃ r, w.exchange.reply? other = some r :=
        List.forall_mem_cons.mpr ⟨⟨r, hr'⟩, hanswered⟩
      have hgives : ∀ w', Drifts w w' →
          post (.ok ((ticket :: tickets).findSome? (failed? w))) w' := by
        intro w' hw'
        rw [← findSome?_failed? hall hw'.grows]
        refine hpost w' (((hu.trans hv).trans hw).trans hw') fun other hother => ?_
        obtain ⟨r', hr'⟩ := hall other hother
        exact ⟨r', Exchange.reply?_of_prefix hw'.grows.answers hr'⟩
      rw [List.findSome?_cons, failed?, hr'] at hgives
      cases r with
      | ok answer => exact hgives
      | error e => exact hgives

/-! ## The whole call -/

/-- Why a delete that was issued has failed. -/
def Attempt.failure? (u : Session) (t : Attempt) : Option Error := t.ticket?.bind (failed? u)

/--
What comes of deletes: the first one that could not be issued counts before the first one that has
failed.
-/
def verdict (tries : List Attempt) (u : Session) : Except Error Unit :=
  match (tries.findSome? Attempt.refusal?).or (tries.findSome? (Attempt.failure? u)) with
  | some e => .error e
  | none => .ok ()

/-- A file was cleared, and the deletes of its breakpoints were tried from there on. -/
def Clears (source : Option String) (s : Session) (tries : List Attempt) (u : Session) : Prop :=
  ∃ v, Drifts s v ∧ Tried (v.takeSource source).2 tries u

/-- The tables are those of an earlier session, but without some breakpoints and their templates. -/
structure Cleared (source : Option String) (s u : Session) : Prop where
  installed : u.board.installed.entries =
    s.board.installed.entries.filter (·.2.file ≠ source)
  reserved : u.board.reserved = s.board.reserved
  templates : ∀ id, u.logPoints.templates.get? id =
    if id ∈ (s.board.takeSource source).1.map (·.id) then none
    else s.logPoints.templates.get? id

namespace Clears

variable {source : Option String} {tries : List Attempt}

theorem cleared (h : Clears source s tries u) : Cleared source s u := by
  obtain ⟨v, hv, htried⟩ := h
  obtain ⟨hboard, htemplates⟩ := hv.tables
  obtain ⟨hboard', htemplates'⟩ := htried.tables
  have htaken : u.board = (s.board.takeSource source).2 := by
    rw [hboard', ← hboard]
    rfl
  refine ⟨by rw [htaken]; rfl, by rw [htaken]; rfl, fun id => ?_⟩
  rw [htemplates', ← hboard, ← htemplates]
  exact LogPoints.get?_foldl_remove _ _ id

theorem outbox (h : Clears source s tries u) :
    u.outbox = s.outbox ++ tries.filterMap Attempt.written? := by
  obtain ⟨v, hv, htried⟩ := h
  rw [htried.outbox, ← hv.outbox]
  rfl

theorem blames (h : Clears source s tries u) (ho : s.exchange.Orderly) {t : Attempt}
    (ht : t ∈ tries) {ticket : Nat} {e : Error} (hticket : t.outcome = .ok ticket)
    (hr : u.exchange.reply? ticket = some (.error e)) : Blames t.command u e := by
  obtain ⟨v, hv, htried⟩ := h
  exact htried.blames (s := (v.takeSource source).2) (hv.orderly ho) ht hticket hr

theorem outbox_of_open (h : Clears source s tries u) (hu : u.link = .open) :
    u.outbox = s.outbox ++ tries.map fun t =>
      .command t.session.exchange.freeToken (deleteCommand t.breakpoint.id) := by
  obtain ⟨v, hv, htried⟩ := id h
  rw [h.outbox, List.append_cancel_left_eq, ← List.filterMap_eq_map]
  refine List.filterMap_congr fun t ht => ?_
  rw [Attempt.written?, if_pos (htried.link_eq_open hu t ht)]
  rfl

end Clears

/-- Where a call that clears a file is at some moment. -/
def ClearsSoFar (source : Option String) (s : Session) (waits : Bool) (u : Session) : Prop :=
  waits = false ∧ Drifts s u ∨ ∃ tries, Clears source s tries u ∧
    tries.map (·.breakpoint) <+: (s.board.takeSource source).1 ∧
    (waits = true → tries.map (·.breakpoint) = (s.board.takeSource source).1)

/-- What a call that clears a file has done in the end, and what it gives. -/
def ClearsAll (source : Option String) (s : Session) (r : Except Error Unit) (u : Session) : Prop :=
  ∃ tries, Clears source s tries u ∧
    tries.map (·.breakpoint) = (s.board.takeSource source).1 ∧
    (∀ t ∈ tries, ∀ ticket, t.outcome = .ok ticket → ∃ r, u.exchange.reply? ticket = some r) ∧
    r = verdict tries u

theorem findSome?_ticket? (tries : List Attempt) (u : Session) :
    (tries.filterMap Attempt.ticket?).findSome? (failed? u) =
      tries.findSome? (Attempt.failure? u) := by
  induction tries with
  | nil => rfl
  | cons t tries ih =>
    rw [List.findSome?_cons, ← ih, Attempt.failure?, List.filterMap_cons]
    cases t.ticket? with
    | none => rfl
    | some ticket => exact List.findSome?_cons

/-- A call that clears a file keeps to its course, whenever the debugger acts. -/
theorem treads_clearBreakpoints (source : Option String) (s : Session) :
    (clearBreakpoints source).run.Treads (ClearsSoFar source s) (Cleared source s)
      (ClearsAll source s) s := by
  refine CallM.treads_bind (CallM.treads_lift fun u hu => ⟨.inl ⟨rfl, hu⟩, fun w hw => ?_⟩)
  have htaken : (u.takeSource source).1 = (s.board.takeSource source).1 :=
    congrArg (fun b : Board => (b.takeSource source).1) hu.tables.1
  have hclears : ∀ {tries w'}, Tried w tries w' → Clears source s tries w' :=
    fun h => ⟨u, hu, h.earlier hw⟩
  refine CallM.treads_bind (treads_issueDeletes ?_ ?_)
  · intro tries w' htries hw'
    exact .inr ⟨tries, hclears hw', htaken ▸ htries, fun h => absurd h Bool.false_ne_true⟩
  intro tries x htries hx
  have hall : tries.map (·.breakpoint) = (s.board.takeSource source).1 := htries.trans htaken
  have hsofar : ∀ {y}, Drifts x y → Clears source s tries y := fun hy => hclears (hx.later hy)
  refine CallM.treads_bind (treads_awaitAll ?_ ?_ ?_)
  · exact fun y hy => .inr ⟨tries, hsofar hy, hall ▸ List.prefix_rfl, fun _ => hall⟩
  · intro y ticket hy
    obtain ⟨hinstalled, hreserved, htemplates⟩ := (hsofar hy).cleared
    exact ⟨hinstalled, hreserved, htemplates⟩
  intro y hy hanswered
  have hends : ∀ z, Drifts y z → ClearsAll source s (verdict tries y) z := by
    intro z hz
    refine ⟨tries, hsofar (hy.trans hz), hall, fun t ht ticket hticket => ?_, ?_⟩
    · obtain ⟨r, hr⟩ := hanswered ticket (List.mem_filterMap.mpr ⟨t, ht, by
        rw [Attempt.ticket?, hticket]; rfl⟩)
      exact ⟨r, Exchange.reply?_of_prefix hz.grows.answers hr⟩
    · rw [verdict, verdict, ← findSome?_ticket?, ← findSome?_ticket?,
        findSome?_failed? hanswered hz.grows]
  rw [verdict, ← findSome?_ticket?] at hends
  dsimp only
  split
  · rename_i e he
    rw [he] at hends
    exact hends
  · rename_i he
    rw [he] at hends
    exact hends

theorem exists_verdict_eq_error_iff {tries : List Attempt} :
    (∃ e, verdict tries u = .error e) ↔ ∃ t ∈ tries, (∃ e, t.outcome = .error e) ∨
      ∃ ticket e, t.outcome = .ok ticket ∧ u.exchange.reply? ticket = some (.error e) := by
  have hverdict : (∃ e, verdict tries u = .error e) ↔
      ((tries.findSome? Attempt.refusal?).or (tries.findSome? (Attempt.failure? u))).isSome := by
    unfold verdict
    cases (tries.findSome? Attempt.refusal?).or (tries.findSome? (Attempt.failure? u)) <;> simp
  have hrefusal : ∀ t : Attempt, t.refusal?.isSome ↔ ∃ e, t.outcome = .error e := by
    intro t
    unfold Attempt.refusal?
    cases t.outcome <;> simp
  have hfailure : ∀ t : Attempt, (t.failure? u).isSome ↔ ∃ ticket e, t.outcome = .ok ticket ∧
      u.exchange.reply? ticket = some (.error e) := by
    intro t
    unfold Attempt.failure? Attempt.ticket?
    cases t.outcome with
    | error e => simp [Except.toOption]
    | ok ticket => simp [Except.toOption, Option.isSome_iff_exists, failed?_eq_some_iff]
  rw [hverdict, Option.isSome_or, Bool.or_eq_true, List.findSome?_isSome_iff,
    List.findSome?_isSome_iff]
  simp only [hrefusal, hfailure, and_or_left, exists_or]

/--
A call that clears a file, at each moment of each walk. As long as its first section is still to
come, the tables are as they were and nothing is written. From then on exactly the breakpoints of
the file and their templates are gone, also if the caller gives up. Their deletes are tried in
ascending order, all of them before the first wait; each one is written to a debugger that reads at
that moment, and nothing else is. The call gives the first failure of a delete that could not be
issued, or else the first failure among the answers, which all are there; an answer fails because
the debugger says so, because it has ended, or because it stopped reading.
-/
theorem clears_source (s : Session) (source : Option String) (beats : List Call.Beat) :
    let p := Call.walk beats (clearBreakpoints source).run s
    let taken := (s.board.takeSource source).1
    (taken.Perm (s.board.installed.values.filter (·.file = source)) ∧
      taken.Pairwise fun b b' => b.id ≤ b'.id) ∧
    (p.1.isPaused = false ∧ p.2.board = s.board ∧
        p.2.logPoints.templates = s.logPoints.templates ∧ p.2.outbox = s.outbox ∨
      Cleared source s p.2 ∧ Cleared source s (p.1.drop p.2) ∧ ∃ tries,
        Clears source s tries p.2 ∧ tries.map (·.breakpoint) <+: taken ∧
        (p.1.isPaused = true → tries.map (·.breakpoint) = taken) ∧
        (∀ t ∈ tries, t.command = "break-delete " ++ toString t.breakpoint.id.toNat) ∧
        p.2.outbox = s.outbox ++ tries.filterMap Attempt.written? ∧
        (p.2.link = .open → p.2.outbox = s.outbox ++ tries.map fun t =>
          .command t.session.exchange.freeToken
            ("break-delete " ++ toString t.breakpoint.id.toNat)) ∧
        ∀ r, p.1.result? = some r → r = verdict tries p.2 ∧
          ((∃ e, r = .error e) ↔ ∃ t ∈ tries, (∃ e, t.outcome = .error e) ∨
            ∃ ticket e, t.outcome = .ok ticket ∧
              p.2.exchange.reply? ticket = some (.error e)) ∧
          (∀ t ∈ tries, ∀ ticket, t.outcome = .ok ticket →
            ∃ reply, p.2.exchange.reply? ticket = some reply) ∧
          (s.exchange.Orderly → ∀ t ∈ tries, ∀ ticket e, t.outcome = .ok ticket →
            p.2.exchange.reply? ticket = some (.error e) → Blames t.command p.2 e)) := by
  intro p taken
  refine ⟨⟨List.mergeSort_perm _ _, Board.pairwise_takeSource s.board source⟩, ?_⟩
  obtain ⟨hdone, hmidway⟩ := (treads_clearBreakpoints source s).walk beats
  change ∀ r, p.1.result? = some r → ClearsAll source s r p.2 at hdone
  change p.1.result? = none → ClearsSoFar source s p.1.isPaused p.2 ∧
    (p.1.drop p.2 = p.2 ∨ Cleared source s (p.1.drop p.2)) at hmidway
  cases hresult : p.1.result? with
  | some r =>
    obtain ⟨tries, hclears, hall, hanswered, hr⟩ := hdone r hresult
    have hp : p.1 = .done r := Call.eq_done_of_result? hresult
    refine .inr ⟨hclears.cleared, ?_, tries, hclears, hall ▸ List.prefix_rfl, fun _ => hall,
      fun _ _ => rfl, hclears.outbox, hclears.outbox_of_open, ?_⟩
    · rw [hp]
      exact hclears.cleared
    · rintro _ ⟨⟩
      refine ⟨hr, hr ▸ exists_verdict_eq_error_iff, hanswered, ?_⟩
      intro ho t ht ticket e hticket hreply
      exact hclears.blames ho ht hticket hreply
  | none =>
    obtain ⟨hnow, hdropped⟩ := hmidway hresult
    rcases hnow with ⟨hpaused, hdrifts⟩ | ⟨tries, hclears, hprefix, hall⟩
    · exact .inl ⟨hpaused, hdrifts.tables.1, hdrifts.tables.2, hdrifts.outbox⟩
    · refine .inr ⟨hclears.cleared, ?_, tries, hclears, hprefix, hall, fun _ _ => rfl,
        hclears.outbox, hclears.outbox_of_open, ?_⟩
      · rcases hdropped with hsame | hcleared
        · rw [hsame]
          exact hclears.cleared
        · exact hcleared
      · rintro _ ⟨⟩

/--
Two breakpoints of a file and one of another: the deletes are written by ascending number, and the
rejection of the first one is what the call gives, although the second one is confirmed before.
-/
theorem clears_source_two :
    let before : Breakpoint := ⟨10, .source "a.c" 3, some "a.c", none, none, none⟩
    let other : Breakpoint := ⟨4, .raw "main", some "b.c", none, none, none⟩
    let later : Breakpoint := ⟨2, .raw "f", some "a.c", none, none, none⟩
    let s : Session := {
      link := .open
      board.installed := ⟨[before, other, later].map fun b => (b.location, b)⟩
      logPoints :=
        (LogPoints.register {} 10 (.ofMessage "at {x}")).register 4 (.ofMessage "in {y}") }
    let answers := Text.Utf8.encode "2^done\n1^error,msg=\"No breakpoint 2.\"\n"
    let p := Call.walk [.go, .go, .go, .news (.hear answers), .go, .go]
      (clearBreakpoints (some "a.c")).run s
    p.2.board.installed.values = [other] ∧ p.2.logPoints.templates.get? 10 = none ∧
      p.2.logPoints.templates.get? 4 = some (.ofMessage "in {y}") ∧
      p.2.outbox.map (·.wire) = ["1-break-delete 2\n", "2-break-delete 10\n"] ∧
      p.1.result? = some (.error (.command "No breakpoint 2." "break-delete 2")) ∧
      ∃ tries : List Attempt, tries.map (·.breakpoint) = [later, before] ∧
        p.2.outbox = tries.map fun t => .command t.session.exchange.freeToken
          ("break-delete " ++ toString t.breakpoint.id.toNat) := by
  intro before other later s answers p
  have hsort : [before, later].mergeSort (fun b b' => b.id ≤ b'.id) = [later, before] := by
    simp [List.mergeSort, List.MergeSort.Internal.splitInTwo, before, later]
  have htaken : (s.board.takeSource (some "a.c")).1 = [later, before] := hsort
  have hp : p = Call.walk [.go, .go, .news (.hear answers), .go, .go]
      (clearTaken [later, before]).run (s.takeSource (some "a.c")).2 :=
    congrArg (fun taken => Call.walk _ (clearTaken taken).run _) htaken
  have hresult : p.1.result? = some (.error (.command "No breakpoint 2." "break-delete 2")) := by
    rw [hp]
    decide +kernel
  have hpaused : p.1.isPaused = true := by
    rw [hp]
    decide +kernel
  obtain ⟨-, hstill | ⟨⟨hinstalled, -, htemplates⟩, -, tries, -, -, hall, -, -, hopen, -⟩⟩ :=
    clears_source s (some "a.c") [.go, .go, .go, .news (.hear answers), .go, .go]
  · exact absurd (hpaused.symm.trans hstill.1) (by decide)
  · have hlink : p.2.link = .open := by rw [hp]; decide +kernel
    have htemplate : ∀ id, p.2.logPoints.templates.get? id = if id ∈ [2, 10] then none
        else s.logPoints.templates.get? id := by
      intro id
      rw [htemplates id, htaken]
      rfl
    have hwire : p.2.outbox.map (·.wire) = ["1-break-delete 2\n", "2-break-delete 10\n"] := by
      rw [hp]
      decide +kernel
    have hvalues : p.2.board.installed.values = [other] :=
      (congrArg (List.map Prod.snd) hinstalled).trans (by decide)
    exact ⟨hvalues, htemplate 10, htemplate 4, hwire, hresult, tries,
      (hall hpaused).trans htaken, hopen hlink⟩

end Session

end MachineInterface

import MachineInterface.Proofs.Session.Conduct
import MachineInterface.Proofs.Session.Growth
import MachineInterface.Proofs.Session.Starting

/-!
# Asking what the target can do

The calls that run the program backwards, and the one that tells whether they can, have one course:
what is known of the target decides them, and when nothing is known they ask.

* `supportsReverse_eq`, `move_eq`: the course of these calls.
* `asking_advance`, `decided_advance`: what becomes of a call that asks, and of one that is decided.
* `conduct_quiet`: all other calls write nothing to do with running backwards.
-/

namespace MachineInterface

/-! ## What is written -/

namespace Session

variable {s u : Session}

/-- Nothing to do with running backwards is written under a number. -/
def Quiet (s u : Session) : Prop :=
  ∃ more, u.outbox = s.outbox ++ more ∧
    ∀ token, ∀ text ∈ Command.reserved, Outgoing.command token text ∉ more

theorem Quiet.of_outbox_eq (h : u.outbox = s.outbox) : Quiet s u :=
  ⟨[], by rw [h, List.append_nil], fun _ _ _ => List.not_mem_nil⟩

theorem Quiet.not_wrote (h : Quiet s u) {text : String} (ht : text ∈ Command.reserved) :
    ¬ Wrote text s u := by
  rintro ⟨token, hmem⟩
  obtain ⟨more, hmore, hquiet⟩ := h
  rw [hmore, List.drop_left] at hmem
  exact hquiet token text ht hmem

theorem eq_of_wrote_issue {text command : String} {tolerant : Bool}
    (h : Wrote text s (s.issue command tolerant).2) : text = command := by
  obtain ⟨token, hmem⟩ := h
  unfold issue at hmem
  split at hmem <;> simp_all

theorem conduct_quiet : Conduct Quiet where
  quiet h := .of_outbox_eq (congrArg (·.2.2.1) h)
  trans := by
    rintro s u v ⟨more, hu, hmore⟩ ⟨rest, hv, hrest⟩
    refine ⟨more ++ rest, by rw [hv, hu, List.append_assoc], fun token text ht hmem => ?_⟩
    rcases List.mem_append.mp hmem with hmem | hmem
    · exact hmore token text ht hmem
    · exact hrest token text ht hmem
  connect s := by
    obtain ⟨link, hconnect⟩ := exists_connect_eq s
    rw [hconnect]
    exact .of_outbox_eq rfl
  write line s := by
    unfold write
    split
    · exact .of_outbox_eq rfl
    · exact .of_outbox_eq rfl
    · refine ⟨[.raw line], rfl, fun token text ht hmem => ?_⟩
      cases List.mem_singleton.mp hmem
    · exact .of_outbox_eq rfl
  issue hcommand tolerant s := by
    unfold issue
    split
    · exact .of_outbox_eq rfl
    · exact .of_outbox_eq rfl
    · refine ⟨[.command s.exchange.freeToken _], rfl, fun token text ht hmem => ?_⟩
      cases List.mem_singleton.mp hmem
      exact hcommand ht
    · exact .of_outbox_eq rfl

theorem issuesFreely_targetFeatures :
    IssuesFreely fun s u => u.targetFeatures = s.targetFeatures := by
  intro command tolerant s
  obtain ⟨exchange, outbox, hissue⟩ := exists_issue_eq s command tolerant
  rw [hissue]

theorem conduct_targetFeatures : Conduct fun s u => u.targetFeatures = s.targetFeatures where
  quiet h := congrArg (·.2.2.2) h
  trans h h' := h'.trans h
  connect s := by
    obtain ⟨link, hconnect⟩ := exists_connect_eq s
    rw [hconnect]
  write line s := by
    obtain ⟨outbox, hwrite⟩ := exists_write_eq s line
    rw [hwrite]
  issue _ tolerant s := issuesFreely_targetFeatures _ tolerant s

end Session

theorem Motion.backwards_injective {m n : Motion} (h : m.backwards = n.backwards) : m = n := by
  revert h
  cases m <;> cases n <;> decide

theorem Motion.backwards_ne_targetQuery (m : Motion) : m.backwards ≠ Session.targetQuery := by
  cases m <;> decide

/-! ## Calls that depend on the target -/

/-- A call that depends on whether the target can run backwards. -/
inductive Inquiry where
  | support
  | backwards (motion : Motion)
  deriving Repr, DecidableEq

namespace Inquiry

open Session

def op : Inquiry → Operation
  | support => .supportsReverse
  | backwards motion => .move motion true

/-- A call of it, and what is left of the call. -/
def ongoing (rest? : Option (Call (Except Error Bool))) : Inquiry → Ongoing
  | support => ⟨.supportsReverse, rest?⟩
  | backwards motion => ⟨.move motion true, rest?⟩

/-- What a call gives when the target cannot run backwards. -/
def refusal : Inquiry → Except Error Bool
  | support => .ok false
  | backwards motion => .error (.unsupported
      ("reverse execution (" ++ motion.command ++ ") is not supported by this target"))

/-- What is left of a call that has written its command. -/
def awaitMove (ticket : Nat) : CallM Bool := do
  return saysRunning (← CallM.await ticket)

/-- How a call goes on when the target can run backwards. -/
def goOn : Inquiry → CallM Bool
  | support => pure true
  | backwards motion => CallM.locked (Session.issue motion.backwards false) >>= awaitMove

/-- How a call goes on once it is known what the target can do. -/
def decided (q : Inquiry) (features : List String) : CallM Bool :=
  if features.contains "reverse" then q.goOn else liftM q.refusal

/--
What an answer tells about the target. A refusal of the debugger tells that it can do nothing of
note; when the question got lost, nothing is told.
-/
def verdict : Reply → Except Error (List String)
  | .ok answer => .ok (listed answer)
  | .error (.command _ _) => .ok []
  | .error e => .error e

/-- How a call goes on with the answer that it has received. -/
def heed (q : Inquiry) (r : Reply) : CallM Bool :=
  match verdict r with
  | .ok features => do
    CallM.modify fun s => { s with targetFeatures := some features }
    q.decided features
  | .error e => throw e

/-- What is left of a call that has asked. -/
def awaitAnswer (q : Inquiry) (ticket : Nat) : Call (Except Error Bool) :=
  .reply ticket id fun r => (q.heed r).run

/-- The course of a call. -/
def course (q : Inquiry) : CallM Bool := do
  match ← CallM.read (·.targetFeatures) with
  | some features => q.decided features
  | none => q.heed (← CallM.attempt (CallM.ask targetQuery))

/-! ## The course of a call -/

theorem exists_answer {r : Reply} {features : List String} (h : verdict r = .ok features)
    (hreverse : "reverse" ∈ features) : ∃ answer, r = .ok answer ∧ features = listed answer := by
  rcases r with e | answer
  · cases e with
    | command message text =>
      cases h
      cases hreverse
    | _ => cases h
  · cases h
    exact ⟨answer, rfl, rfl⟩

theorem decided_support (features : List String) :
    support.decided features = pure (features.contains "reverse") := by
  unfold decided
  cases features.contains "reverse" <;> rfl

theorem decided_backwards (motion : Motion) (features : List String) :
    (backwards motion).decided features = support.decided features >>= fun supported =>
      if supported then (backwards motion).goOn else liftM (backwards motion).refusal := by
  unfold decided
  cases features.contains "reverse" <;> rfl

theorem supportsReverse_eq : supportsReverse = support.course := by
  unfold supportsReverse course
  congr 1
  funext known
  cases known with
  | some features => exact (decided_support features).symm
  | none =>
    dsimp only
    congr 1
    funext answer
    unfold heed
    cases answer with
    | ok answer =>
      simp only [verdict, decided_support]
      rfl
    | error e =>
      cases e with
      | command message text =>
        simp only [verdict, decided_support]
        rfl
      | _ => rfl

theorem goOn_backwards (motion : Motion) : (backwards motion).goOn = do
    return saysRunning (← CallM.ask motion.backwards) := by
  unfold goOn CallM.ask CallM.send
  rw [bind_assoc]
  rfl

theorem move_eq (motion : Motion) : Session.move motion true = (backwards motion).course := by
  have hmove : Session.move motion true = supportsReverse >>= fun supported =>
      if supported then (backwards motion).goOn else liftM (backwards motion).refusal := by
    unfold Session.move
    simp only [if_true, goOn_backwards]
    congr 1
  rw [hmove, supportsReverse_eq]
  unfold course
  rw [bind_assoc]
  congr 1
  funext known
  cases known with
  | some features => exact (decided_backwards motion features).symm
  | none =>
    dsimp only
    rw [bind_assoc]
    congr 1
    funext answer
    unfold heed
    cases verdict answer with
    | ok features =>
      dsimp only
      rw [bind_assoc]
      simp only [decided_backwards]
    | error e => rfl

/-! ## What becomes of a call -/

/-- What becomes of a call, and of its session, once it is known what the target can do. -/
inductive Decided (features : List String) (s : Session) :
    Inquiry → Call (Except Error Bool) × Session → Prop
  | refused (q : Inquiry) (h : "reverse" ∉ features) : Decided features s q (.done q.refusal, s)
  | confirmed (h : "reverse" ∈ features) : Decided features s .support (.done (.ok true), s)
  | written {motion : Motion} {ticket : Nat} {u : Session} (h : "reverse" ∈ features)
    (hissue : s.issue motion.backwards false = (.ok ticket, u)) :
    Decided features s (.backwards motion) ((awaitMove ticket).run, u)
  /-- No debugger reads the command. -/
  | unwritten {motion : Motion} (e : Error) (h : "reverse" ∈ features) (hlink : s.link ≠ .open) :
    Decided features s (.backwards motion)
      (.done (.error e), (s.issue motion.backwards false).2)

/-- What becomes of a call, and of its session, that asks what the target can do. -/
inductive Asking (s : Session) (q : Inquiry) : Call (Except Error Bool) × Session → Prop
  | waits {ticket : Nat} {u : Session} (h : s.issue targetQuery false = (.ok ticket, u)) :
    Asking s q (q.awaitAnswer ticket, u)
  /-- No debugger reads the question. -/
  | unwritten (e : Error) (hlink : s.link ≠ .open) :
    Asking s q (.done (.error e), (s.issue targetQuery false).2)

variable {s u : Session} {q : Inquiry} {features : List String}

theorem decided_advance (h : s.exchange.Orderly) (q : Inquiry) (features : List String) :
    Decided features s q ((q.decided features).run.advance s) := by
  unfold decided
  split
  · rename_i hcontains
    have hmem : "reverse" ∈ features := List.contains_iff_mem.mp hcontains
    cases q with
    | support => exact .confirmed hmem
    | backwards motion =>
      unfold goOn awaitMove
      rcases advance_issue_await h motion.backwards fun answer => pure (saysRunning answer) with
        ⟨hlink, e, hfails⟩ | ⟨ticket, u, hissue, hwaits⟩
      · rw [hfails]
        exact .unwritten e hmem hlink
      · rw [hwaits]
        exact .written hmem hissue
  · rename_i hcontains
    exact .refused q fun hmem => hcontains (List.contains_iff_mem.mpr hmem)

/-- A question for which there is no debugger tells nothing. -/
theorem verdict_of_issue {command : String} {tolerant : Bool} {e : Error}
    (h : s.issue command tolerant = (.error e, u)) : verdict (.error e) = .error e := by
  unfold issue at h
  split at h
  · cases h
    rfl
  · cases h
    rfl
  · cases h
  · cases h

theorem advance_heed_of_error {r : Reply} {e : Error} (h : verdict r = .error e) :
    (q.heed r).run.advance s = (.done (.error e), s) := by
  rw [heed, h]
  rfl

theorem advance_heed_of_ok {r : Reply} (h : verdict r = .ok features) :
    (q.heed r).run.advance s =
      (q.decided features).run.advance { s with targetFeatures := some features } := by
  rw [heed, h]
  rfl

theorem advance_course_of_known (h : s.targetFeatures = some features) (q : Inquiry) :
    q.course.run.advance s = (q.decided features).run.advance s := by
  unfold course
  rw [CallM.advance_read_bind, h]

theorem asking_advance (h : s.exchange.Orderly) (hunknown : s.targetFeatures = none)
    (q : Inquiry) : Asking s q (q.course.run.advance s) := by
  have hcourse : q.course.run.advance s =
      ((CallM.attempt (CallM.ask targetQuery) >>= q.heed).run).advance s := by
    unfold course
    rw [CallM.advance_read_bind, hunknown]
  rw [hcourse]
  cases hissue : s.issue targetQuery false with
  | mk written u =>
    have hu : u = (s.issue targetQuery false).2 := by rw [hissue]
    change Asking s q (Call.advance (Call.bind (Call.bind (ExceptT.bindCont CallM.await
      (s.issue targetQuery false).1) _) _) (s.issue targetQuery false).2)
    rw [hissue]
    cases written with
    | error e =>
      change Asking s q ((q.heed (.error e)).run.advance u)
      rw [advance_heed_of_error (verdict_of_issue hissue), hu]
      refine .unwritten e fun hopen => ?_
      cases (issue_of_open hopen targetQuery false).symm.trans hissue
    | ok ticket =>
      change Asking s q ((q.awaitAnswer ticket).advance u)
      cases hr : u.exchange.reply? ticket with
      | none =>
        have hwaits : (q.awaitAnswer ticket).advance u = (q.awaitAnswer ticket, u) :=
          Call.advance_eq_self_of_waiting hr _ _
        rw [hwaits]
        exact .waits hissue
      | some r =>
        obtain ⟨hdeaf, rfl⟩ := deaf_of_issue h hissue hr
        have hgoes : (q.awaitAnswer ticket).advance u = (.done (.error .brokenPipe), u) := by
          rw [awaitAnswer, Call.advance_reply_of_some hr]
          rfl
        rw [hgoes, hu]
        exact .unwritten _ (by simp [hdeaf])

/-! ## Moves of a call -/

theorem ongoing_inj {q' : Inquiry} {rest? next? : Option (Call (Except Error Bool))}
    (h : q.ongoing rest? = q'.ongoing next?) : q = q' ∧ rest? = next? := by
  cases q <;> cases q' <;> cases h <;> exact ⟨rfl, rfl⟩

theorem exists_op {op : Operation} (h : op.isReverse = true) : ∃ q : Inquiry, op = q.op := by
  cases op with
  | supportsReverse => exact ⟨.support, rfl⟩
  | move motion reverse =>
    cases h
    exact ⟨.backwards motion, rfl⟩
  | _ => cases h

theorem exists_ongoing {o : Ongoing} (h : o.op.isReverse = true) :
    ∃ (q : Inquiry) (rest? : Option (Call (Except Error Bool))), o = q.ongoing rest? := by
  obtain ⟨op, rest?⟩ := o
  obtain ⟨q, rfl⟩ := exists_op h
  cases q with
  | support => exact ⟨.support, rest?, rfl⟩
  | backwards motion => exact ⟨.backwards motion, rest?, rfl⟩

theorem op_ongoing (q : Inquiry) (rest? : Option (Call (Except Error Bool))) :
    (q.ongoing rest?).op = q.op := by
  cases q <;> rfl

theorem op_injective {q' : Inquiry} (h : q.op = q'.op) : q = q' := by
  cases q <;> cases q' <;> cases h <;> rfl

theorem isReverse_op (q : Inquiry) : q.op.isReverse = true := by
  cases q <;> rfl

theorem move_none (q : Inquiry) (m : Ongoing.Move) (s : Session) :
    (q.ongoing none).move m s = (q.ongoing none, s) := by
  cases q <;> rfl

theorem move_done (q : Inquiry) (r : Except Error Bool) (m : Ongoing.Move) (s : Session) :
    (q.ongoing (some (.done r))).move m s = (q.ongoing (some (.done r)), s) := by
  cases q <;> cases m <;> rfl

/-- A call that waits for an answer goes on, or the caller gives up. -/
theorem move_reply (q : Inquiry) (ticket : Nat) (next : Reply → Call (Except Error Bool))
    (s : Session) : let c := Call.reply ticket id next
    (q.ongoing (some c)).move .giveUp s =
        (q.ongoing none, { s with exchange := s.exchange.abandon ticket }) ∧
      ∀ m, m ≠ .giveUp →
        (q.ongoing (some c)).move m s = (q.ongoing (some (c.advance s).1), (c.advance s).2) := by
  intro c
  refine ⟨by cases q <;> rfl, fun m hm => ?_⟩
  cases m with
  | giveUp => exact absurd rfl hm
  | _ => cases q <;> rfl

theorem awaitAnswer_inj {ticket ticket' : Nat} (h : q.awaitAnswer ticket = q.awaitAnswer ticket') :
    ticket = ticket' := by
  unfold awaitAnswer at h
  injection h

/-- Whether an answer of the debugger settles a call that waits for it. -/
def settledBy (r : Reply) : Call (Except Error Bool) → Bool
  | .reply _ _ next => (next r).result?.isSome
  | _ => false

/-- A call whose question is answered has a section to go, other than one that has written. -/
theorem awaitMove_ne_awaitAnswer (q : Inquiry) (ticket ticket' : Nat) :
    (awaitMove ticket).run ≠ q.awaitAnswer ticket' := by
  intro h
  have hsettled := congrArg (settledBy (.ok { token := none, outcome := .done, fields := [] })) h
  cases hsettled

theorem advance_awaitMove (ticket : Nat) (s : Session) :
    (awaitMove ticket).run.advance s = ((awaitMove ticket).run, s) ∨
      ∃ result, (awaitMove ticket).run.advance s = (.done result, s) := by
  cases hr : s.exchange.reply? ticket with
  | none => exact .inl (Call.advance_eq_self_of_waiting hr _ _)
  | some r =>
    right
    change ∃ result, Call.advance (.reply _ _ _) s = (.done result, s)
    simp only [Call.advance, hr]
    cases r with
    | ok answer => exact ⟨_, rfl⟩
    | error e => exact ⟨_, rfl⟩

theorem Decided.ne_awaitAnswer {p : Call (Except Error Bool) × Session}
    (h : Decided features s q p) (ticket : Nat) : p.1 ≠ q.awaitAnswer ticket := by
  cases h with
  | written h hissue => exact awaitMove_ne_awaitAnswer _ _ ticket
  | _ => rintro ⟨⟩

theorem Decided.targetFeatures {p : Call (Except Error Bool) × Session}
    (h : Decided features s q p) : p.2.targetFeatures = s.targetFeatures := by
  cases h with
  | refused q h => rfl
  | confirmed h => rfl
  | @written motion ticket u h hissue =>
    have hsame := issuesFreely_targetFeatures motion.backwards false s
    rwa [hissue] at hsame
  | unwritten e h hlink => exact issuesFreely_targetFeatures _ false s

theorem Asking.snd_eq {p : Call (Except Error Bool) × Session} (h : Asking s q p) :
    p.2 = (s.issue targetQuery false).2 := by
  cases h with
  | waits hissue => rw [hissue]
  | unwritten e hlink => rfl

/-- A call that is decided writes nothing to do with running backwards but its own command. -/
theorem Decided.of_wrote {p : Call (Except Error Bool) × Session} (h : Decided features s q p)
    {text : String} (hwrote : Wrote text s p.2) :
    ∃ motion : Motion, q = backwards motion ∧ text = motion.backwards ∧ "reverse" ∈ features := by
  have hnone : ¬ Wrote text s s := by
    rintro ⟨token, hmem⟩
    rw [List.drop_length] at hmem
    cases hmem
  cases h with
  | refused q h => exact absurd hwrote hnone
  | confirmed h => exact absurd hwrote hnone
  | @written motion ticket u h hissue =>
    have hu : u = (s.issue motion.backwards false).2 := by rw [hissue]
    exact ⟨motion, rfl, eq_of_wrote_issue (hu ▸ hwrote), h⟩
  | @unwritten motion e h hlink => exact ⟨motion, rfl, eq_of_wrote_issue hwrote, h⟩

end Inquiry

end MachineInterface

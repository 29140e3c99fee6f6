import MachineInterface.Proofs.Sequence
import MachineInterface.Proofs.Session.Inquiring

/-!
# Running backwards

A call that runs the program backwards needs to know what the target can do. Unless an answer was
received before, the call asks; the answer that is received last is what is known from then on.

* `stands_run`, `known_run`: where such a call stands in every run, and what is known.
* `answer_lasts`: when a later answer replaces an earlier one.
* `cautious_run`: nothing runs backwards without support.
* `answer_replaced`: two calls that ask side by side, and the second answer replaces the first.
-/

namespace MachineInterface

/-! ## Turns -/

open Inquiry (verdict awaitAnswer Decided Asking)

namespace Ensemble

/-- A call waits for the answer to what the target can do. -/
def Awaits (e : Ensemble) (i : Nat) (q : Inquiry) (ticket : Nat) : Prop :=
  e.calls[i]? = some (q.ongoing (some (q.awaitAnswer ticket)))

/-- In a turn, a call receives the answer to what the target can do. -/
def Receives (e : Ensemble) (t : Turn) (i : Nat) (q : Inquiry) (r : Reply) : Prop :=
  ∃ m ticket, t = .move i m ∧ m ≠ .giveUp ∧ e.Awaits i q ticket ∧
    e.session.exchange.reply? ticket = some r

variable {e : Ensemble} {t : Turn} {i : Nat} {q : Inquiry} {r : Reply} {features : List String}

theorem turn_inquiry (e : Ensemble) (q : Inquiry) : e.turn (.call q.op) =
    ⟨(q.course.run.advance e.session).2,
      e.calls ++ [q.ongoing (some (q.course.run.advance e.session).1)]⟩ := by
  cases q with
  | support =>
    rw [← Inquiry.supportsReverse_eq]
    rfl
  | backwards motion =>
    rw [← Inquiry.move_eq]
    rfl

theorem Receives.turn_eq (h : e.Receives t i q r) : e.turn t =
    ⟨((q.heed r).run.advance e.session).2,
      e.calls.set i (q.ongoing (some ((q.heed r).run.advance e.session).1))⟩ := by
  obtain ⟨m, ticket, rfl, hm, hi, hr⟩ := h
  have hadvance : (q.awaitAnswer ticket).advance e.session = (q.heed r).run.advance e.session := by
    rw [awaitAnswer, Call.advance_reply_of_some hr]
  have hmove := (q.move_reply ticket (fun r => (q.heed r).run) e.session).2 m hm
  rw [turn_move hi, awaitAnswer, hmove, ← awaitAnswer, hadvance]

/-- A call that asks does so at once. -/
theorem asking_turn (h : e.session.exchange.Orderly) (hunknown : e.session.targetFeatures = none)
    (q : Inquiry) : ∃ p, Asking e.session q p ∧
      e.turn (.call q.op) = ⟨p.2, e.calls ++ [q.ongoing (some p.1)]⟩ :=
  ⟨_, Inquiry.asking_advance h hunknown q, turn_inquiry e q⟩

/-- A call that does not need to ask is decided at once. -/
theorem decided_turn (h : e.session.exchange.Orderly)
    (hknown : e.session.targetFeatures = some features) (q : Inquiry) :
    ∃ p, Decided features e.session q p ∧
      e.turn (.call q.op) = ⟨p.2, e.calls ++ [q.ongoing (some p.1)]⟩ := by
  refine ⟨_, Inquiry.decided_advance h q features, ?_⟩
  rw [turn_inquiry, Inquiry.advance_course_of_known hknown]

/-- An answer decides the call that receives it. -/
theorem Receives.decided (h : e.session.exchange.Orderly) (ht : e.Receives t i q r)
    (hr : verdict r = .ok features) :
    ∃ p, Decided features { e.session with targetFeatures := some features } q p ∧
      e.turn t = ⟨p.2, e.calls.set i (q.ongoing (some p.1))⟩ := by
  have hdecided := Inquiry.decided_advance
    (s := { e.session with targetFeatures := some features }) h q features
  refine ⟨_, hdecided, ?_⟩
  rw [ht.turn_eq, Inquiry.advance_heed_of_ok hr]

/-- A question that got lost ends its call, and no more. -/
theorem Receives.lost (ht : e.Receives t i q r) {error : Error} (hr : verdict r = .error error) :
    e.turn t = ⟨e.session, e.calls.set i (q.ongoing (some (.done (.error error))))⟩ := by
  rw [ht.turn_eq, Inquiry.advance_heed_of_error hr]

variable {rest? : Option (Call (Except Error Bool))}

/-- After a turn, a call was there before, perhaps before a move of its own, or it is new. -/
theorem inquiry_of_calls_turn (h : (e.turn t).calls[i]? = some (q.ongoing rest?)) :
    e.calls[i]? = some (q.ongoing rest?) ∨
      (∃ m before?, t = .move i m ∧ e.calls[i]? = some (q.ongoing before?) ∧
        ((q.ongoing before?).move m e.session).1 = q.ongoing rest?) ∨
      t = .call q.op ∧ i = e.calls.length ∧ rest? = some (q.course.run.advance e.session).1 := by
  rcases getElem?_of_calls_turn h with hold | ⟨m, o, rfl, hold, hmoved⟩ | ⟨op, rfl, hnew⟩
  · exact .inl hold
  · have hop : o.op = q.op := by
      rw [← Ongoing.op_move o m e.session, ← hmoved, Inquiry.op_ongoing]
    obtain ⟨q', before?, rfl⟩ := Inquiry.exists_ongoing (hop ▸ q.isReverse_op)
    rw [Inquiry.op_ongoing] at hop
    obtain rfl := Inquiry.op_injective hop
    exact .inr (.inl ⟨m, before?, rfl, hold, hmoved.symm⟩)
  · rcases getElem?_calls_call h with hold | ⟨rfl, -⟩
    · exact .inl hold
    · have hop := congrArg Ongoing.op hnew
      rw [Inquiry.op_ongoing] at hop
      subst hop
      rw [turn_inquiry, List.getElem?_append_right le_rfl, Nat.sub_self] at h
      obtain ⟨-, hrest⟩ := Inquiry.ongoing_inj (Option.some.inj h)
      exact .inr (.inr ⟨rfl, rfl, hrest.symm⟩)

/-! ## Runs -/

variable {config : Config} {turns : List Turn}

/-- The call `i` was made when it was not known what the target can do, and did nothing but ask. -/
def Asked (config : Config) (turns : List Turn) (i : Nat) (q : Inquiry) (ticket : Nat) : Prop :=
  ∃ earlier later, turns = earlier ++ .call q.op :: later ∧
    i = (run config earlier).calls.length ∧ (run config earlier).session.targetFeatures = none ∧
    (run config earlier).session.issue Session.targetQuery false =
      (.ok ticket, (run config (earlier ++ [.call q.op])).session)

theorem Asked.later {ticket : Nat} (h : Asked config turns i q ticket) (t : Turn) :
    Asked config (turns ++ [t]) i q ticket := by
  obtain ⟨earlier, later, rfl, hasked⟩ := h
  exact ⟨earlier, later ++ [t], by simp, hasked⟩

/-- Where a call that may run the program backwards stands. -/
inductive Stands (config : Config) (turns : List Turn) (i : Nat) (q : Inquiry) :
    Option (Call (Except Error Bool)) → Prop
  | asks {ticket : Nat} (h : Asked config turns i q ticket) :
    Stands config turns i q (some (q.awaitAnswer ticket))
  | moves (ticket : Nat) : Stands config turns i q (some (Inquiry.awaitMove ticket).run)
  | ends (r : Except Error Bool) : Stands config turns i q (some (.done r))
  | leaves : Stands config turns i q none

theorem Stands.later (h : Stands config turns i q rest?) (t : Turn) :
    Stands config (turns ++ [t]) i q rest? := by
  cases h with
  | asks h => exact .asks (h.later t)
  | moves ticket => exact .moves ticket
  | ends r => exact .ends r
  | leaves => exact .leaves

theorem stands_of_decided {s : Session} {p : Call (Except Error Bool) × Session}
    (h : Decided features s q p) : Stands config turns i q (some p.1) := by
  cases h with
  | refused q h => exact .ends _
  | confirmed h => exact .ends _
  | written h hissue => exact .moves _
  | unwritten e h hlink => exact .ends _

/-- A call that has received an answer waits for no other one to its question. -/
theorem stands_of_heed {s : Session} (hs : s.exchange.Orderly) (q : Inquiry) (r : Reply) :
    Stands config turns i q (some ((q.heed r).run.advance s).1) ∧
      ∀ ticket, ((q.heed r).run.advance s).1 ≠ q.awaitAnswer ticket := by
  cases hr : verdict r with
  | error e =>
    rw [Inquiry.advance_heed_of_error hr]
    exact ⟨.ends _, by rintro _ ⟨⟩⟩
  | ok features =>
    have hdecided := Inquiry.decided_advance
      (s := { s with targetFeatures := some features }) hs q features
    rw [Inquiry.advance_heed_of_ok hr]
    exact ⟨stands_of_decided hdecided, hdecided.ne_awaitAnswer⟩

/-- What a move does to a call, and to the session unless an answer is received. -/
theorem Stands.move (h : Stands config turns i q rest?) (m : Ongoing.Move) {s : Session}
    (hs : s.exchange.Orderly) : ∃ next? u, (q.ongoing rest?).move m s = (q.ongoing next?, u) ∧
      Stands config turns i q next? ∧
      (∀ ticket, next? = some (q.awaitAnswer ticket) → rest? = next?) ∧
      ((∃ ticket r, m ≠ .giveUp ∧ rest? = some (q.awaitAnswer ticket) ∧
          s.exchange.reply? ticket = some r) ∨
        u.targetFeatures = s.targetFeatures ∧ u.outbox = s.outbox) := by
  cases h with
  | @asks ticket h =>
    obtain ⟨hgiveUp, hgoes⟩ := q.move_reply ticket (fun r => (q.heed r).run) s
    by_cases hm : m = .giveUp
    · subst hm
      exact ⟨none, _, hgiveUp, .leaves, by rintro _ ⟨⟩, .inr ⟨rfl, rfl⟩⟩
    · have hmove := hgoes m hm
      cases hr : s.exchange.reply? ticket with
      | none =>
        rw [Call.advance_eq_self_of_waiting hr] at hmove
        exact ⟨_, s, hmove, .asks h, fun _ _ => rfl, .inr ⟨rfl, rfl⟩⟩
      | some r =>
        have hreceives : ∃ ticket' r', m ≠ .giveUp ∧ some (q.awaitAnswer ticket) =
            some (q.awaitAnswer ticket') ∧ s.exchange.reply? ticket' = some r' :=
          ⟨ticket, r, hm, rfl, hr⟩
        have hheed : Stands config turns i q _ ∧ _ := stands_of_heed hs q r
        obtain ⟨hstands, hne⟩ := hheed
        rw [Call.advance_reply_of_some hr] at hmove
        exact ⟨_, _, hmove, hstands,
          fun ticket' hticket => absurd (Option.some.inj hticket) (hne ticket'), .inl hreceives⟩
  | moves ticket =>
    obtain ⟨hgiveUp, hgoes⟩ := q.move_reply ticket
      (fun r => Call.bind (.done r) (ExceptT.bindCont fun a => pure (Session.saysRunning a))) s
    by_cases hm : m = .giveUp
    · subst hm
      exact ⟨none, _, hgiveUp, .leaves, by rintro _ ⟨⟩, .inr ⟨rfl, rfl⟩⟩
    · have hmove : (q.ongoing (some (Inquiry.awaitMove ticket).run)).move m s =
          (q.ongoing (some ((Inquiry.awaitMove ticket).run.advance s).1),
            ((Inquiry.awaitMove ticket).run.advance s).2) := hgoes m hm
      rcases Inquiry.advance_awaitMove ticket s with hwaits | ⟨result, hdone⟩
      · rw [hwaits] at hmove
        exact ⟨_, s, hmove, .moves ticket, fun _ _ => rfl, .inr ⟨rfl, rfl⟩⟩
      · rw [hdone] at hmove
        exact ⟨_, s, hmove, .ends _, by rintro _ ⟨⟩, .inr ⟨rfl, rfl⟩⟩
  | ends result =>
    exact ⟨_, s, q.move_done result m s, .ends result, by rintro _ ⟨⟩, .inr ⟨rfl, rfl⟩⟩
  | leaves => exact ⟨_, s, q.move_none m s, .leaves, by rintro _ ⟨⟩, .inr ⟨rfl, rfl⟩⟩

/-- A call that asks in a turn, and waits then, has asked. -/
theorem asked_of_asking (horderly : (run config turns).session.exchange.Orderly) {ticket : Nat}
    (hunknown : (run config turns).session.targetFeatures = none)
    (h : q.awaitAnswer ticket = (q.course.run.advance (run config turns).session).1) :
    Asked config (turns ++ [.call q.op]) (run config turns).calls.length q ticket := by
  have hasking := Inquiry.asking_advance horderly hunknown q
  have hsession : (run config (turns ++ [.call q.op])).session =
      (q.course.run.advance (run config turns).session).2 := by
    rw [run_snoc, turn_inquiry]
  generalize q.course.run.advance (run config turns).session = p at h hasking hsession
  cases hasking with
  | waits hissue =>
    obtain rfl := Inquiry.awaitAnswer_inj h
    exact ⟨turns, [], rfl, rfl, hunknown, by rw [hissue, hsession]⟩
  | unwritten e hlink => cases h

/-- Where the call stands in every run. -/
theorem stands_run (hi : (run config turns).calls[i]? = some (q.ongoing rest?)) :
    Stands config turns i q rest? := by
  induction turns using List.reverseRecOn generalizing rest? with
  | nil => cases hi
  | append_singleton turns t ih =>
    have horderly := (accounted_run config turns).orderly
    rw [run_snoc] at hi
    rcases inquiry_of_calls_turn hi with hold | ⟨m, before?, rfl, hold, hmoved⟩ | ⟨rfl, rfl, rfl⟩
    · exact (ih hold).later t
    · obtain ⟨next?, u, hmove, hnext, -⟩ := (ih hold).move m horderly
      rw [hmove] at hmoved
      obtain ⟨-, rfl⟩ := Inquiry.ongoing_inj hmoved
      exact hnext.later _
    · cases hknown : (run config turns).session.targetFeatures with
      | some features =>
        rw [Inquiry.advance_course_of_known hknown]
        exact stands_of_decided (Inquiry.decided_advance horderly q features)
      | none =>
        have hasked : ∀ ticket, q.awaitAnswer ticket = _ → _ :=
          fun _ => asked_of_asking horderly hknown
        have hasking := Inquiry.asking_advance horderly hknown q
        generalize q.course.run.advance (run config turns).session = p at hasked hasking
        cases hasking with
        | waits hissue => exact .asks (hasked _ rfl)
        | unwritten e hlink => exact .ends _

theorem asked_run {ticket : Nat} (h : (run config turns).Awaits i q ticket) :
    Asked config turns i q ticket := by
  have hstands := stands_run h
  generalize hrest : some (q.awaitAnswer ticket) = rest? at hstands
  cases hstands with
  | asks hasked =>
    obtain rfl := Inquiry.awaitAnswer_inj (Option.some.inj hrest)
    exact hasked
  | moves other =>
    exact absurd (Option.some.inj hrest).symm (Inquiry.awaitMove_ne_awaitAnswer q other ticket)
  | ends r => cases hrest
  | leaves => cases hrest

/-- A call that waits for an answer did so before, or it asks in this turn. -/
theorem awaits_of_turn {ticket : Nat} (h : (run config (turns ++ [t])).Awaits i q ticket) :
    (run config turns).Awaits i q ticket ∨ (run config turns).session.targetFeatures = none := by
  have horderly := (accounted_run config turns).orderly
  unfold Awaits at h
  rw [run_snoc] at h
  rcases inquiry_of_calls_turn h with hold | ⟨m, before?, rfl, hold, hmoved⟩ | ⟨rfl, rfl, hnew⟩
  · exact .inl hold
  · obtain ⟨next?, u, hmove, -, hkept, -⟩ := (stands_run hold).move m horderly
    rw [hmove] at hmoved
    obtain ⟨-, rfl⟩ := Inquiry.ongoing_inj hmoved
    rw [hkept ticket rfl] at hold
    exact .inl hold
  · right
    cases hknown : (run config turns).session.targetFeatures with
    | none => rfl
    | some features =>
      rw [Inquiry.advance_course_of_known hknown] at hnew
      have hdecided := Inquiry.decided_advance horderly q features
      exact absurd (Option.some.inj hnew).symm (hdecided.ne_awaitAnswer ticket)

theorem targetFeatures_news (s : Session) (n : News) :
    (n.apply s).targetFeatures = s.targetFeatures := by
  have hfield := congrArg Session.targetFeatures (Session.held_news s n)
  exact hfield

/--
A turn that neither makes a call of this kind nor brings an answer to one leaves what is known, and
writes nothing of this kind, except in the words of the front end.
-/
theorem turn_apart (hcall : ∀ q : Inquiry, t ≠ .call q.op)
    (hmove : ∀ i q r, ¬ (run config turns).Receives t i q r) :
    ((run config turns).turn t).session.targetFeatures =
        (run config turns).session.targetFeatures ∧
      ((∀ op, (run config turns).actor? t = some op → op.isWorded = false) →
        (run config turns).session.Quiet ((run config turns).turn t).session) := by
  by_cases hnews : ∃ n, t = .news n
  · obtain ⟨n, rfl⟩ := hnews
    cases hc : (run config turns).session.isConnected with
    | true =>
      rw [turn_news hc]
      exact ⟨targetFeatures_news _ n, fun _ => .of_outbox_eq (Session.outbox_news _ n)⟩
    | false =>
      rw [turn_news_of_not_connected hc]
      exact ⟨rfl, fun _ => .of_outbox_eq rfl⟩
  by_cases hreverse : ∃ op, (run config turns).actor? t = some op ∧ op.isReverse = true
  · obtain ⟨op, hactor, hop⟩ := hreverse
    cases t with
    | news n => cases hactor
    | call op' =>
      cases hactor
      obtain ⟨q, rfl⟩ := Inquiry.exists_op hop
      exact absurd rfl (hcall q)
    | move i m =>
      obtain ⟨o, hi, rfl⟩ := Option.map_eq_some_iff.mp hactor
      obtain ⟨q, rest?, rfl⟩ := Inquiry.exists_ongoing hop
      obtain ⟨next?, u, hmoved, -, -, hreceives | ⟨hfeatures, houtbox⟩⟩ :=
        (stands_run hi).move m (accounted_run config turns).orderly
      · obtain ⟨ticket, r, hm, rfl, hr⟩ := hreceives
        exact absurd ⟨m, ticket, rfl, hm, hi, hr⟩ (hmove i q r)
      · rw [turn_move hi, hmoved]
        exact ⟨hfeatures, fun _ => .of_outbox_eq houtbox⟩
  · have hreverse' : ∀ op, (run config turns).actor? t = some op → op.isReverse ≠ true :=
      fun op hactor hop => hreverse ⟨op, hactor, hop⟩
    have hnews' : ∀ n, t ≠ .news n := fun n hn => hnews ⟨n, hn⟩
    constructor
    · exact relates_turn_of_blind Session.conduct_targetFeatures (fun _ _ _ h => h) config turns
        (fun op hactor => ⟨fun _ => Session.issuesFreely_targetFeatures,
          fun hop => absurd hop (hreverse' op hactor)⟩) hnews'
    · intro hworded
      exact relates_turn_of_blind Session.conduct_quiet (fun _ _ _ h => h) config turns
        (fun op hactor => ⟨fun hop => absurd hop (by simp [hworded op hactor]),
          fun hop => absurd hop (hreverse' op hactor)⟩) hnews'

/-! ## What is known -/

/-- In a turn, an answer is received that tells what the target can do. -/
def Learns (e : Ensemble) (t : Turn) (r : Reply) (features : List String) : Prop :=
  (∃ i q, e.Receives t i q r) ∧ verdict r = .ok features

/-- The last answer that told what the target can do. -/
def Latest (config : Config) (turns : List Turn) (r : Reply) (features : List String) : Prop :=
  ∃ earlier t later, turns = earlier ++ t :: later ∧ (run config earlier).Learns t r features ∧
    ∀ more t' rest, later = more ++ t' :: rest →
      ∀ r' features', ¬ (run config (earlier ++ t :: more)).Learns t' r' features'

theorem Learns.targetFeatures (horderly : (run config turns).session.exchange.Orderly)
    (h : (run config turns).Learns t r features) :
    (run config (turns ++ [t])).session.targetFeatures = some features := by
  obtain ⟨⟨i, q, hreceives⟩, hr⟩ := h
  obtain ⟨p, hdecided, hturn⟩ := hreceives.decided horderly hr
  rw [run_snoc, hturn]
  exact hdecided.targetFeatures

theorem targetFeatures_of_not_learns (h : ∀ r features, ¬ (run config turns).Learns t r features) :
    (run config (turns ++ [t])).session.targetFeatures =
      (run config turns).session.targetFeatures := by
  have horderly := (accounted_run config turns).orderly
  rw [run_snoc]
  by_cases hcall : ∃ q : Inquiry, t = .call q.op
  · obtain ⟨q, rfl⟩ := hcall
    cases hknown : (run config turns).session.targetFeatures with
    | none =>
      obtain ⟨p, hasking, hturn⟩ := asking_turn horderly hknown q
      rw [hturn, ← hknown, hasking.snd_eq]
      exact Session.issuesFreely_targetFeatures _ false _
    | some features =>
      obtain ⟨p, hdecided, hturn⟩ := decided_turn horderly hknown q
      rw [hturn, ← hknown]
      exact hdecided.targetFeatures
  by_cases hmove : ∃ i q r, (run config turns).Receives t i q r
  · obtain ⟨i, q, r, hreceives⟩ := hmove
    cases hr : verdict r with
    | error error => rw [hreceives.lost hr]
    | ok features => exact absurd ⟨⟨i, q, hreceives⟩, hr⟩ (h r features)
  · exact (turn_apart (fun q hq => hcall ⟨q, hq⟩)
      fun i q r hreceives => hmove ⟨i, q, r, hreceives⟩).1

theorem Latest.snoc (h : Latest config turns r features)
    (ht : ∀ r' features', ¬ (run config turns).Learns t r' features') :
    Latest config (turns ++ [t]) r features := by
  obtain ⟨earlier, t₀, later, rfl, hlearns, hlast⟩ := h
  refine ⟨earlier, t₀, later ++ [t], by simp, hlearns, fun more t' rest hsplit => ?_⟩
  rcases snoc_eq_append_cons_iff.mp hsplit with ⟨rest, rfl, rfl⟩ | ⟨rfl, rfl, rfl⟩
  · exact hlast more t' rest rfl
  · exact ht

/-- What is known is what was received last. -/
theorem known_run (config : Config) (turns : List Turn) (features : List String) :
    (run config turns).session.targetFeatures = some features ↔
      ∃ r, Latest config turns r features := by
  constructor
  · intro hknown
    induction turns using List.reverseRecOn generalizing features with
    | nil => cases hknown
    | append_singleton turns t ih =>
      by_cases hlearns : ∃ r features, (run config turns).Learns t r features
      · obtain ⟨r, features', hlearns⟩ := hlearns
        have hnow := hlearns.targetFeatures (accounted_run config turns).orderly
        obtain rfl : features' = features := Option.some.inj (hnow.symm.trans hknown)
        exact ⟨r, turns, t, [], rfl, hlearns, by simp⟩
      · have hnot : ∀ r features, ¬ (run config turns).Learns t r features :=
          fun r features h => hlearns ⟨r, features, h⟩
        rw [targetFeatures_of_not_learns hnot] at hknown
        obtain ⟨r, hlatest⟩ := ih features hknown
        exact ⟨r, hlatest.snoc hnot⟩
  · rintro ⟨r, earlier, t, later, rfl, hlearns, hlast⟩
    induction later using List.reverseRecOn with
    | nil => exact hlearns.targetFeatures (accounted_run config earlier).orderly
    | append_singleton later x ih =>
      have hbefore := ih fun more t' rest hsplit =>
        hlast more t' (rest ++ [x]) (by simp [hsplit])
      rw [append_cons_snoc, targetFeatures_of_not_learns (hlast later x [] rfl)]
      exact hbefore

/-- Once it is known what the target can do, it stays known. -/
theorem known_turn (h : (run config turns).session.targetFeatures ≠ none) (t : Turn) :
    (run config (turns ++ [t])).session.targetFeatures ≠ none := by
  by_cases hlearns : ∃ r features, (run config turns).Learns t r features
  · obtain ⟨r, features, hlearns⟩ := hlearns
    rw [hlearns.targetFeatures (accounted_run config turns).orderly]
    exact Option.some_ne_none features
  · rwa [targetFeatures_of_not_learns fun r features h => hlearns ⟨r, features, h⟩]

theorem known_of_learns {earlier : List Turn} (h : (run config earlier).Learns t r features)
    (later : List Turn) : (run config (earlier ++ t :: later)).session.targetFeatures ≠ none := by
  induction later using List.reverseRecOn with
  | nil =>
    rw [h.targetFeatures (accounted_run config earlier).orderly]
    exact Option.some_ne_none features
  | append_singleton later x ih =>
    rw [append_cons_snoc]
    exact known_turn ih x

/-- A call that waits for an answer after one was received waited for it then. -/
theorem awaits_of_learns {earlier : List Turn} (h : (run config earlier).Learns t r features)
    {later : List Turn} {ticket : Nat}
    (hi : (run config (earlier ++ t :: later)).Awaits i q ticket) :
    (run config (earlier ++ [t])).Awaits i q ticket := by
  induction later using List.reverseRecOn with
  | nil => exact hi
  | append_singleton later x ih =>
    rw [append_cons_snoc] at hi
    rcases awaits_of_turn hi with hold | hunknown
    · exact ih hold
    · exact absurd hunknown (known_of_learns h later)

/-- An answer holds for ever, unless a question that was under way then is answered otherwise. -/
theorem answer_lasts {earlier : List Turn} (h : (run config earlier).Learns t r features)
    (later : List Turn) :
    (run config (earlier ++ t :: later)).session.targetFeatures = some features ∨
      ∃ more t' rest i q ticket r' features', later = more ++ t' :: rest ∧
        (run config (earlier ++ [t])).Awaits i q ticket ∧
        (run config (earlier ++ t :: more)).Receives t' i q r' ∧ verdict r' = .ok features' ∧
        features' ≠ features := by
  induction later using List.reverseRecOn with
  | nil => exact .inl (h.targetFeatures (accounted_run config earlier).orderly)
  | append_singleton later x ih =>
    rw [append_cons_snoc]
    by_cases hlearns : ∃ r' features', (run config (earlier ++ t :: later)).Learns x r' features'
    · obtain ⟨r', features', hlearns⟩ := hlearns
      by_cases hsame : features' = features
      · left
        rw [hlearns.targetFeatures (accounted_run config _).orderly, hsame]
      · obtain ⟨⟨i, q, hreceives⟩, hr'⟩ := hlearns
        obtain ⟨m, ticket, hx, hm, hawaits, hreply⟩ := hreceives
        exact .inr ⟨later, x, [], i, q, ticket, r', features', rfl, awaits_of_learns h hawaits,
          ⟨m, ticket, hx, hm, hawaits, hreply⟩, hr', hsame⟩
    · rw [targetFeatures_of_not_learns fun r' features' hl => hlearns ⟨r', features', hl⟩]
      rcases ih with hkept | ⟨more, t', rest, i, q, ticket, r', features', rfl, hother⟩
      · exact .inl hkept
      · exact .inr ⟨more, t', rest ++ [x], i, q, ticket, r', features', by simp, hother⟩

/-! ## What is written in a run -/

/-- In a turn, what is written is not in the words of the front end or of the settings. -/
def IsFixed (e : Ensemble) (t : Turn) : Prop := ∀ op, e.actor? t = some op → op.isWorded = false

theorem Receives.actor? (h : e.Receives t i q r) : e.actor? t = some q.op := by
  obtain ⟨m, ticket, rfl, -, hi, -⟩ := h
  rw [Ensemble.actor?, hi, Option.map_some, Inquiry.op_ongoing]

/--
A command to do with running backwards is the question, in a call that finds nothing known, or it is
written in a turn in which it is known that the target can do it.
-/
theorem reserved_of_wrote (ht : (run config turns).IsFixed t) {text : String}
    (htext : text ∈ Command.reserved)
    (hwrote : (run config turns).session.Wrote text (run config (turns ++ [t])).session) :
    (text = Session.targetQuery ∧ (∃ q : Inquiry, t = .call q.op) ∧
        (run config turns).session.targetFeatures = none) ∨
      ∃ motion features, text = Motion.backwards motion ∧ "reverse" ∈ features ∧
        (run config turns).actor? t = some (.move motion true) ∧
        (run config (turns ++ [t])).session.targetFeatures = some features := by
  have horderly := (accounted_run config turns).orderly
  rw [run_snoc] at hwrote ⊢
  by_cases hcall : ∃ q : Inquiry, t = .call q.op
  · obtain ⟨q, rfl⟩ := hcall
    cases hknown : (run config turns).session.targetFeatures with
    | none =>
      obtain ⟨p, hasking, hturn⟩ := asking_turn horderly hknown q
      rw [hturn, hasking.snd_eq] at hwrote
      exact .inl ⟨Session.eq_of_wrote_issue hwrote, ⟨q, rfl⟩, rfl⟩
    | some features =>
      obtain ⟨p, hdecided, hturn⟩ := decided_turn horderly hknown q
      rw [hturn] at hwrote ⊢
      obtain ⟨motion, rfl, htext, hreverse⟩ := hdecided.of_wrote hwrote
      exact .inr ⟨motion, features, htext, hreverse, rfl, hdecided.targetFeatures.trans hknown⟩
  by_cases hmove : ∃ i q r, (run config turns).Receives t i q r
  · obtain ⟨i, q, r, hreceives⟩ := hmove
    cases hr : verdict r with
    | error error =>
      rw [hreceives.lost hr] at hwrote
      exact absurd hwrote (Session.Quiet.of_outbox_eq rfl |>.not_wrote htext)
    | ok features =>
      obtain ⟨p, hdecided, hturn⟩ := hreceives.decided horderly hr
      rw [hturn] at hwrote ⊢
      obtain ⟨motion, rfl, htext, hreverse⟩ := hdecided.of_wrote hwrote
      exact .inr ⟨motion, features, htext, hreverse, hreceives.actor?, hdecided.targetFeatures⟩
  · have hquiet := (turn_apart (fun q hq => hcall ⟨q, hq⟩)
      fun i q r hreceives => hmove ⟨i, q, r, hreceives⟩).2 ht
    exact absurd hwrote (hquiet.not_wrote htext)

/-- Nothing runs backwards without support, and the target is asked with care. -/
structure Cautious (config : Config) (turns : List Turn) : Prop where
  /-- What is known of the target is what the answer told that was received last. -/
  known (features : List String) : (run config turns).session.targetFeatures = some features ↔
    ∃ r, Latest config turns r features
  /-- A call waits for an answer only to the question that it wrote when nothing was known. -/
  asked {i : Nat} {q : Inquiry} {ticket : Nat} (h : (run config turns).Awaits i q ticket) :
    Asked config turns i q ticket
  /-- The question is written by new calls only, and not after an answer was received. -/
  question {t : Turn} (ht : (run config turns).IsFixed t)
    (h : (run config turns).session.Wrote Session.targetQuery (run config (turns ++ [t])).session) :
    (∃ q : Inquiry, t = .call q.op) ∧ ∀ earlier t' later, turns = earlier ++ t' :: later →
      ∀ r features, ¬ (run config earlier).Learns t' r features
  /-- The program is sent backwards only when the last answer has listed that. -/
  attempt {t : Turn} (ht : (run config turns).IsFixed t) {motion : Motion}
    (h : (run config turns).session.Wrote motion.backwards (run config (turns ++ [t])).session) :
    (run config turns).actor? t = some (.move motion true) ∧ ∃ answer,
      "reverse" ∈ Session.listed answer ∧
        Latest config (turns ++ [t]) (.ok answer) (Session.listed answer)
  /-- When nothing is known, a new call asks. -/
  asks (h : (run config turns).session.targetFeatures = none) (q : Inquiry) :
    ∃ p, Asking (run config turns).session q p ∧ run config (turns ++ [.call q.op]) =
      ⟨p.2, (run config turns).calls ++ [q.ongoing (some p.1)]⟩
  /-- What is known decides a new call. -/
  decides {features : List String}
    (h : (run config turns).session.targetFeatures = some features) (q : Inquiry) :
    ∃ p, Decided features (run config turns).session q p ∧ run config (turns ++ [.call q.op]) =
      ⟨p.2, (run config turns).calls ++ [q.ongoing (some p.1)]⟩
  /-- An answer is kept, and it decides the call that receives it. -/
  answered {t : Turn} {i : Nat} {q : Inquiry} {r : Reply} {features : List String}
    (h : (run config turns).Receives t i q r) (hr : verdict r = .ok features) :
    ∃ p, Decided features { (run config turns).session with targetFeatures := some features } q p ∧
      run config (turns ++ [t]) = ⟨p.2, (run config turns).calls.set i (q.ongoing (some p.1))⟩
  /-- A question that was cut off ends its call and changes nothing. -/
  lost {t : Turn} {i : Nat} {q : Inquiry} {r : Reply} {error : Error}
    (h : (run config turns).Receives t i q r) (hr : verdict r = .error error) :
    run config (turns ++ [t]) = ⟨(run config turns).session,
      (run config turns).calls.set i (q.ongoing (some (.done (.error error))))⟩
  /-- A question that is dropped tells nothing. -/
  dropped (i : Nat) : (run config (turns ++ [.move i .giveUp])).session.targetFeatures =
    (run config turns).session.targetFeatures
  /--
  An answer holds for ever, unless a question that was under way when it was received is answered
  otherwise.
  -/
  lasts {earlier later : List Turn} {t : Turn} {r : Reply} {features : List String}
    (hturns : turns = earlier ++ t :: later) (h : (run config earlier).Learns t r features) :
    (run config turns).session.targetFeatures = some features ∨
      ∃ more t' rest i q ticket r' features', later = more ++ t' :: rest ∧
        (run config (earlier ++ [t])).Awaits i q ticket ∧
        (run config (earlier ++ t :: more)).Receives t' i q r' ∧ verdict r' = .ok features' ∧
        features' ≠ features

/--
In every run, nothing runs backwards without support: the target is asked before, the question is
not written any more once an answer was received, and every call is decided by the last answer.
-/
theorem cautious_run (config : Config) (turns : List Turn) : Cautious config turns where
  known := known_run config turns
  asked := asked_run
  question {t} ht hwrote := by
    rcases reserved_of_wrote ht List.mem_cons_self hwrote with
      ⟨-, hcall, hunknown⟩ | ⟨motion, features, hquery, -⟩
    · refine ⟨hcall, ?_⟩
      rintro earlier t' later rfl r features hlearns
      exact known_of_learns hlearns later hunknown
    · exact absurd hquery.symm motion.backwards_ne_targetQuery
  attempt {t} ht {motion} hwrote := by
    rcases reserved_of_wrote ht (Command.backwards_mem_reserved motion) hwrote with
      ⟨hquery, -⟩ | ⟨motion', features, hsame, hreverse, hactor, hknown⟩
    · exact absurd hquery motion.backwards_ne_targetQuery
    · obtain rfl := Motion.backwards_injective hsame
      obtain ⟨r, hlatest⟩ := (known_run config _ features).mp hknown
      obtain ⟨earlier, t₀, later, hturns, ⟨hreceives, hr⟩, hlast⟩ := hlatest
      obtain ⟨answer, rfl, rfl⟩ := Inquiry.exists_answer hr hreverse
      exact ⟨hactor, answer, hreverse, earlier, t₀, later, hturns, ⟨hreceives, hr⟩, hlast⟩
  asks hunknown q := by
    rw [run_snoc]
    exact asking_turn (accounted_run config turns).orderly hunknown q
  decides hknown q := by
    rw [run_snoc]
    exact decided_turn (accounted_run config turns).orderly hknown q
  answered hreceives hr := by
    rw [run_snoc]
    exact hreceives.decided (accounted_run config turns).orderly hr
  lost hreceives hr := by
    rw [run_snoc]
    exact hreceives.lost hr
  dropped i := by
    refine targetFeatures_of_not_learns ?_
    rintro r features ⟨⟨j, q, m, ticket, hmove, hm, -⟩, -⟩
    cases hmove
    exact hm rfl
  lasts {earlier later} := by
    rintro t r features rfl hlearns
    exact answer_lasts hlearns later

/-- A target that lists it is sent backwards, and one that refuses to list anything is not. -/
theorem cautious_run_step :
    let asks (answer : String) : List Turn :=
      [.call (.bringUp { cwd := "/w", mode := .load "a.out" none none }), .call .supportsReverse,
        .news (.hear (Text.Utf8.encode answer)), .move 1 .resume]
    let able := asks "6^done,features=[\"async\",\"reverse\"]\n"
    let unable := asks "6^error,msg=\"x\"\n"
    let step : Turn := .call (.move .step true)
    ((run {} able).session.Wrote "exec-step --reverse" (run {} (able ++ [step])).session ∧
        ∃ answer, "reverse" ∈ Session.listed answer ∧
          Latest {} (able ++ [step]) (.ok answer) (Session.listed answer)) ∧
      (run {} unable).session.targetFeatures = some [] ∧
        run {} (unable ++ [step]) = ⟨(run {} unable).session, (run {} unable).calls ++
          [⟨.move .step true, some (.done (.error (.unsupported
            "reverse execution (exec-step) is not supported by this target")))⟩]⟩ := by
  intro asks able unable step
  have hwrote : (run {} able).session.Wrote (Motion.backwards .step)
      (run {} (able ++ [step])).session := ⟨7, by decide +kernel⟩
  have hfixed : (run {} able).IsFixed step := by
    rintro _ ⟨⟩
    rfl
  have hknown : (run {} unable).session.targetFeatures = some [] := by decide +kernel
  obtain ⟨p, hdecided, hturn⟩ := (cautious_run {} unable).decides hknown (.backwards .step)
  refine ⟨⟨hwrote, ((cautious_run {} able).attempt hfixed hwrote).2⟩, hknown, ?_⟩
  cases hdecided with
  | refused q h => exact hturn
  | written h hissue => cases h
  | unwritten e h hlink => cases h

/--
Two calls ask side by side. The first answer lists that the target can run backwards, and its call
writes its command. The second question is refused, and from then on every call is.
-/
theorem answer_replaced :
    let prints (text : String) : Turn := .news (.hear (Text.Utf8.encode text))
    let asked : List Turn := [.call (.bringUp { cwd := "/w", mode := .load "a.out" none none }),
      .call (.move .continue true), .call (.move .next true)]
    let answered := asked ++ [prints "6^done,features=[\"reverse\"]\n", .move 1 .resume]
    let replaced := answered ++ [prints "7^error,msg=\"x\"\n", .move 2 .resume]
    (run {} asked).session.outbox.drop 5 =
        [.command 6 Session.targetQuery, .command 7 Session.targetQuery] ∧
      (run {} answered).session.targetFeatures = some ["reverse"] ∧
      (run {} answered).session.outbox.drop 7 = [.command 8 "exec-continue --reverse"] ∧
      run {} (replaced ++ [.call (.move .step true)]) = ⟨(run {} replaced).session,
        (run {} replaced).calls ++ [⟨.move .step true, some (.done (.error (.unsupported
          "reverse execution (exec-step) is not supported by this target")))⟩]⟩ := by
  intro prints asked answered replaced
  refine ⟨by decide +kernel, by decide +kernel, by decide +kernel, ?_⟩
  have hknown : (run {} replaced).session.targetFeatures = some [] := by decide +kernel
  obtain ⟨p, hdecided, hturn⟩ :=
    decided_turn (accounted_run {} replaced).orderly hknown (.backwards .step)
  rw [run_snoc]
  cases hdecided with
  | refused q h => exact hturn
  | written h hissue => cases h
  | unwritten e h hlink => cases h

end Ensemble

end MachineInterface

import MachineInterface.Proofs.Exchange.Numbers
import MachineInterface.Proofs.Sequence
import MachineInterface.Proofs.Session.Conduct
import MachineInterface.Proofs.Session.Faults
import MachineInterface.Proofs.Session.Quitting
import Mathlib.Data.List.Infix

/-!
# Ending the debugger

A stop and a detach write a last line and wait for the end of the debugger. When the grace period
passes first, the debugger is killed, and the wait goes on. Meanwhile the debugger may print whatever
it likes, and other calls go on.

* `Parts.move`, `parts_run`: where such a call stands in every run.
* `answered_run`: what becomes of a command that waits.
* `farewell_run`: the call ends, and what holds when it has ended.
-/

namespace MachineInterface

/-- A way of ending the debugger. -/
inductive Farewell where
  | stop
  | detach
  deriving Repr, DecidableEq

/-- Whether a call waits for an end that the grace period may replace. -/
def Ongoing.isImpatient (o : Ongoing) : Bool := o.rest?.any Call.isImpatient

namespace Farewell

/-- The last line that is written. -/
def line : Farewell → String
  | stop => "-gdb-exit"
  | detach => "-target-detach"

def op : Farewell → Operation
  | stop => .stopDebugger
  | detach => .detach

/-- A call of it, and what is left of the call. -/
def ongoing (rest? : Option (Call (Except Error Unit))) : Farewell → Ongoing
  | stop => ⟨.stopDebugger, rest?⟩
  | detach => ⟨.detach, rest?⟩

end Farewell

/-! ## The wait for the end -/

namespace Session

variable {s : Session}

/-- The wait for the end of a debugger that is to be killed. -/
def awaitKilled : CallM Unit := discard (ExceptT.lift (Call.ending true .done))

/-- The wait for the end of the debugger from the last line on. -/
def awaitEnd : CallM Unit := do
  let ended ← ExceptT.lift (Call.ending false .done)
  unless ended do
    CallM.modify killIfAlive
    awaitKilled

theorem isClosed_iff : s.isClosed = true ↔ s.link = .closed := by simp [isClosed]

theorem advance_awaitEnd (s : Session) : awaitEnd.run.advance s =
    if s.isClosed then (.done (.ok ()), s) else (awaitEnd.run, s) := rfl

theorem advance_awaitKilled (s : Session) : awaitKilled.run.advance s =
    if s.isClosed then (.done (.ok ()), s) else (awaitKilled.run, s) := rfl

theorem advance_expire_awaitEnd (s : Session) :
    awaitEnd.run.expire.advance s = awaitKilled.run.advance s.killIfAlive := rfl

theorem advance_endWith_of_open (h : s.link = .open) (line : String) :
    (endWith line).run.advance s =
      (awaitEnd.run, { s with outbox := s.outbox ++ [.raw line] }) := by
  have hwrite : s.write line = (.ok (), { s with outbox := s.outbox ++ [.raw line] }) := by
    simp [write, h]
  change (CallM.locked (write line) >>= fun _ => awaitEnd).run.advance s = _
  rw [CallM.advance_locked_bind hwrite, advance_awaitEnd, if_neg (by simp [isClosed, h])]

theorem advance_endWith_of_error {line : String} {e : Error} (h : s.write line = (.error e, s)) :
    (endWith line).run.advance s = (.done (.error e), s) := by
  change (CallM.locked (write line) >>= fun _ => awaitEnd).run.advance s = _
  exact CallM.advance_locked_bind_error h

end Session

/-! ## Where such a call stands -/

namespace Farewell

open Session

/-- Where a call that has written its last line stands. -/
inductive Parts (s : Session) : Option (Call (Except Error Unit)) → Prop
  | waits : Parts s (some awaitEnd.run)
  /-- The grace period has passed. -/
  | kills (h : s.killRequested = true ∨ s.link = .closed) : Parts s (some awaitKilled.run)
  | ends (h : s.link = .closed) : Parts s (some (.done (.ok ())))
  | leaves : Parts s none

variable {f : Farewell} {s u : Session} {rest? : Option (Call (Except Error Unit))}

theorem Parts.later (h : Parts s rest?) (hclosed : s.link = .closed → u.link = .closed)
    (hkill : s.killRequested = true → u.killRequested = true) : Parts u rest? := by
  cases h with
  | waits => exact .waits
  | kills h => exact .kills (h.imp hkill hclosed)
  | ends h => exact .ends (hclosed h)
  | leaves => exact .leaves

theorem move_some (f : Farewell) (c : Call (Except Error Unit)) (s : Session) :
    (f.ongoing (some c)).move .resume s = (f.ongoing (some (c.advance s).1), (c.advance s).2) ∧
      (f.ongoing (some c)).move .expire s =
        (f.ongoing (some (c.expire.advance s).1), (c.expire.advance s).2) := by
  cases f <;> exact ⟨rfl, rfl⟩

theorem move_none (f : Farewell) (m : Ongoing.Move) (s : Session) :
    (f.ongoing none).move m s = (f.ongoing none, s) := by
  cases f <;> rfl

theorem move_done (f : Farewell) (r : Except Error Unit) (m : Ongoing.Move) (s : Session) :
    (f.ongoing (some (.done r))).move m s = (f.ongoing (some (.done r)), s) := by
  cases f <;> cases m <;> rfl

theorem isImpatient_some (f : Farewell) (c : Call (Except Error Unit)) :
    (f.ongoing (some c)).isImpatient = c.isImpatient := by
  cases f <;> rfl

theorem ongoing_inj {next? : Option (Call (Except Error Unit))}
    (h : f.ongoing rest? = f.ongoing next?) : rest? = next? := by
  cases f <;> (cases h; rfl)

theorem move_giveUp (f : Farewell) (s : Session) :
    (f.ongoing (some awaitEnd.run)).move .giveUp s = (f.ongoing none, s) ∧
      (f.ongoing (some awaitKilled.run)).move .giveUp s = (f.ongoing none, s) := by
  cases f <;> exact ⟨rfl, rfl⟩

/-- What becomes of a call that goes on, or whose grace period passes. -/
theorem Parts.advance {c : Call (Except Error Unit)} (h : Parts s (some c)) :
    (∃ next, c.advance s = (next, s) ∧ Parts s (some next)) ∧
      ∃ next u, c.expire.advance s = (next, u) ∧ Parts u (some next) ∧
        u = if c.isImpatient = true ∧ s.link ≠ .closed then s.kill else s := by
  by_cases hclosed : s.link = .closed
  · have hisClosed := isClosed_iff.mpr hclosed
    have hspared : ¬ (c.isImpatient = true ∧ s.link ≠ .closed) := fun h => h.2 hclosed
    rw [if_neg hspared]
    cases h with
    | waits =>
      have hkill : s.killIfAlive = s := by rw [killIfAlive, if_pos hisClosed]
      refine ⟨⟨_, ?_, .ends hclosed⟩, _, s, ?_, .ends hclosed, rfl⟩
      · rw [advance_awaitEnd, if_pos hisClosed]
      · rw [advance_expire_awaitEnd, hkill, advance_awaitKilled, if_pos hisClosed]
    | kills _ =>
      have hadvance : awaitKilled.run.advance s = (.done (.ok ()), s) := by
        rw [advance_awaitKilled, if_pos hisClosed]
      exact ⟨⟨_, hadvance, .ends hclosed⟩, _, s, hadvance, .ends hclosed, rfl⟩
    | ends _ => exact ⟨⟨_, rfl, .ends hclosed⟩, _, s, rfl, .ends hclosed, rfl⟩
  · have hopen : ¬ s.isClosed = true := fun h => hclosed (isClosed_iff.mp h)
    cases h with
    | waits =>
      have hkill : s.killIfAlive = s.kill := by rw [killIfAlive, if_neg hopen]
      have hkilled : ¬ s.kill.isClosed = true := hopen
      refine ⟨⟨_, ?_, .waits⟩, _, s.kill, ?_, .kills (.inl rfl), (if_pos ⟨rfl, hclosed⟩).symm⟩
      · rw [advance_awaitEnd, if_neg hopen]
      · rw [advance_expire_awaitEnd, hkill, advance_awaitKilled, if_neg hkilled]
    | kills hkill =>
      have hadvance : awaitKilled.run.advance s = (awaitKilled.run, s) := by
        rw [advance_awaitKilled, if_neg hopen]
      exact ⟨⟨_, hadvance, .kills hkill⟩, _, s, hadvance, .kills hkill, rfl⟩
    | ends hend => exact absurd hend hclosed

/-- What a move does to a call: a debugger that has not ended by the grace period is killed. -/
theorem Parts.move (f : Farewell) (h : Parts s rest?) (m : Ongoing.Move) :
    ∃ next? u, (f.ongoing rest?).move m s = (f.ongoing next?, u) ∧ Parts u next? ∧
      (next? = none → rest? = none ∨ m = .giveUp) ∧
      u = if m = .expire ∧ (f.ongoing rest?).isImpatient = true ∧ s.link ≠ .closed then s.kill
        else s := by
  cases rest? with
  | none =>
    refine ⟨none, s, move_none f m s, .leaves, fun _ => .inl rfl, (if_neg ?_).symm⟩
    cases f <;> simp [ongoing, Ongoing.isImpatient]
  | some c =>
    obtain ⟨⟨next, hnext, hgoes⟩, other, u, hother, hexpires, hu⟩ := h.advance
    cases m with
    | resume =>
      refine ⟨some next, s, ?_, hgoes, by rintro ⟨⟩, rfl⟩
      rw [(move_some f c s).1, hnext]
    | expire =>
      refine ⟨some other, u, ?_, hexpires, by rintro ⟨⟩, ?_⟩
      · rw [(move_some f c s).2, hother]
      · rw [hu, isImpatient_some]
        simp
    | giveUp =>
      cases h with
      | ends hclosed => exact ⟨_, s, move_done f _ _ s, .ends hclosed, by rintro ⟨⟩, rfl⟩
      | waits => exact ⟨none, s, (move_giveUp f s).1, .leaves, fun _ => .inr rfl, rfl⟩
      | kills _ => exact ⟨none, s, (move_giveUp f s).2, .leaves, fun _ => .inr rfl, rfl⟩

/-- A call that is done has seen the end. -/
theorem Parts.of_done {r : Except Error Unit} (h : Parts s (some (.done r))) :
    r = .ok () ∧ s.link = .closed := by
  generalize hrest : some (Call.done r) = rest? at h
  cases h with
  | waits => cases congrArg (Option.bind · Call.result?) hrest
  | kills _ => cases congrArg (Option.bind · Call.result?) hrest
  | ends hclosed =>
    cases hrest
    exact ⟨rfl, hclosed⟩
  | leaves => cases hrest

/-- Once the debugger has ended, one move ends the call. -/
theorem Parts.resume (f : Farewell) (h : Parts s rest?) (hclosed : s.link = .closed) :
    (f.ongoing rest?).move .resume s = (f.ongoing (rest?.map fun _ => .done (.ok ())), s) := by
  have hisClosed := isClosed_iff.mpr hclosed
  cases h with
  | waits => rw [(move_some f _ s).1, advance_awaitEnd, if_pos hisClosed, Option.map_some]
  | kills _ => rw [(move_some f _ s).1, advance_awaitKilled, if_pos hisClosed, Option.map_some]
  | ends _ => exact move_done f _ _ s
  | leaves => exact move_none f _ s

end Farewell

/-! ## Commands that wait -/

namespace Exchange

variable {x : Exchange} {p : Pending}

/-- The caller of a command has an answer of the debugger, or knows that the session is closed. -/
def Answered (p : Pending) (x : Exchange) : Prop :=
  ∃ r, x.reply? p.ticket = some r ∧
    ∀ e, r = .error e → (∃ message, e = .command message p.command) ∨ e = .sessionClosed

theorem records_of_waiting (h : x.Orderly) (hp : p ∈ x.pending) (reason : Error → Prop) :
    Records p.ticket p.command reason x := by
  refine ⟨h.waiting p hp, fun q hq hticket => ?_, fun c hc hticket => ?_⟩
  · rw [List.inj_on_of_nodup_map h.distinct hq hp hticket]
  · exact absurd hticket (h.apart c hc p hp)

theorem Records.reason {ticket : Nat} {command : String} {reason : Error → Prop}
    (h : Records ticket command reason x) {r : Reply} (hr : x.reply? ticket = some r) {e : Error}
    (he : r = .error e) : reason e := by
  obtain ⟨c, hc, rfl⟩ := Option.map_eq_some_iff.mp hr
  refine h.answered c (List.mem_of_find?_eq_some hc) ?_ e he
  simpa using List.find?_some hc

/-- A command that waits still waits after some lines, or it was answered. -/
theorem mem_or_answered_lines (h : x.Orderly) (hp : p ∈ x.pending) (hw : p.awaited = true)
    (lines : List String) : p ∈ (lines.foldl Exchange.hearLine x).pending ∨
      Answered p (lines.foldl Exchange.hearLine x) := by
  have hrecords := (records_of_waiting h hp fun e =>
    (∃ message, e = .command message p.command) ∨ e = .sessionClosed).foldl_hearLine
      (fun message => .inl ⟨message, rfl⟩) lines
  rcases h.mem_or_answered_foldl_hearLine hp hw lines with hwaits | ⟨r, hr⟩
  · exact .inl hwaits
  · exact .inr ⟨r, hr, fun e he => hrecords.reason hr he⟩

theorem Answered.of_prefix {y : Exchange} (h : Answered p x)
    (hxy : x.completions <+: y.completions) : Answered p y := by
  obtain ⟨r, hr, he⟩ := h
  exact ⟨r, reply?_of_prefix hxy hr, he⟩

/-- A command that is cancelled at once, under a number that was free, leaves the others alone. -/
theorem pending_cancel_register (hroom : x.HasRoom) (hwaiting : ∀ q ∈ x.pending, q.ticket < x.issued)
    (command : String) (tolerant : Bool) (e : Error) :
    ((x.register command tolerant).2.cancel x.freeToken e).pending = x.pending := by
  have hfree : ∀ q ∈ x.pending, q.token ≠ x.freeToken := by
    simpa [isPending] using (freeToken_isFree hroom).2
  have hfind : (x.register command tolerant).2.pending? x.freeToken =
      some { ticket := x.issued, token := x.freeToken, command, tolerant } := by
    have hnone : x.pending.find? (·.token = x.freeToken) = none :=
      List.find?_eq_none.mpr (by simpa using hfree)
    simp [pending?, register, List.find?_append, hnone]
  have hothers : x.pending.filter (·.ticket ≠ x.issued) = x.pending :=
    List.filter_eq_self.mpr fun q hq => by simpa using Nat.ne_of_lt (hwaiting q hq)
  rw [cancel, hfind]
  change (x.pending ++ [_]).filter (·.ticket ≠ x.issued) = x.pending
  rw [List.filter_append, hothers]
  simp

theorem hasRoom_abandon (ticket : Nat) (h : x.HasRoom) : (x.abandon ticket).HasRoom := by
  obtain ⟨t, hne, ht⟩ := h
  refine ⟨t, hne, ?_⟩
  have htokens : (x.abandon ticket).pending.map (·.token) = x.pending.map (·.token) := by
    rw [abandon, List.map_map]
    refine List.map_congr_left fun q _ => ?_
    simp only [Function.comp_apply]
    split <;> rfl
  rw [Bool.eq_false_iff] at ht ⊢
  rwa [Ne, isPending_iff, htokens, ← isPending_iff]

end Exchange

namespace Session

variable {s u : Session} {p : Pending}

/-- A command waits, and one that cannot be written does not disturb it. -/
structure StillAsks (p : Pending) (s : Session) : Prop where
  waits : p ∈ s.exchange.pending
  orderly : s.exchange.Orderly
  room : s.link = .deaf → s.exchange.HasRoom

theorem StillAsks.of_same (h : s.StillAsks p) (hlink : u.link = s.link ∨ u.link = .open)
    (hexchange : u.exchange = s.exchange) : u.StillAsks p := by
  refine ⟨hexchange ▸ h.waits, hexchange ▸ h.orderly, fun hdeaf => ?_⟩
  rcases hlink with hlink | hopen
  · exact hexchange ▸ h.room (hlink ▸ hdeaf)
  · rw [hopen] at hdeaf
    cases hdeaf

theorem StillAsks.issue (h : s.StillAsks p) (command : String) (tolerant : Bool) :
    (s.issue command tolerant).2.StillAsks p := by
  cases hlink : s.link with
  | none =>
    rw [issue_of_none hlink]
    exact h
  | closed =>
    rw [issue_of_closed hlink]
    exact h
  | «open» =>
    rw [issue_of_open hlink]
    refine ⟨List.mem_append_left _ h.waits, h.orderly.register command tolerant, fun hdeaf => ?_⟩
    cases hlink.symm.trans hdeaf
  | deaf =>
    have hpending := Exchange.pending_cancel_register (h.room hlink) h.orderly.waiting command
      tolerant .brokenPipe
    have hissue : (s.issue command tolerant).2 = { s with
        exchange :=
          (s.exchange.register command tolerant).2.cancel s.exchange.freeToken .brokenPipe } := by
      unfold Session.issue
      rw [hlink]
      rfl
    rw [hissue]
    refine ⟨?_, (h.orderly.register command tolerant).cancel _ _, fun _ => ?_⟩
    · rw [hpending]
      exact h.waits
    · obtain ⟨t, hne, ht⟩ := h.room hlink
      refine ⟨t, hne, ?_⟩
      rw [Exchange.isPending, hpending]
      exact ht

/-- No section of a call takes a command away that waits. -/
theorem conduct_stillAsks (p : Pending) :
    Conduct.Free fun s u => s.StillAsks p → u.StillAsks p where
  quiet h hs := hs.of_same (.inl (congrArg Prod.fst h)) (congrArg (·.2.1) h)
  trans h h' hs := h' (h hs)
  connect s hs := by
    unfold connect
    split
    · exact hs.of_same (.inr rfl) rfl
    · exact hs
  write line s hs := by
    obtain ⟨outbox, hwrite⟩ := exists_write_eq s line
    rw [hwrite]
    exact hs.of_same (.inl rfl) rfl
  issue _ tolerant s hs := hs.issue _ tolerant
  free command tolerant s hs := hs.issue command tolerant
  learn features s hs := hs.of_same (.inl rfl) rfl

theorem StillAsks.abandon (h : s.StillAsks p) {ticket : Nat} (hticket : p.ticket ≠ ticket) :
    StillAsks p { s with exchange := s.exchange.abandon ticket } := by
  refine ⟨List.mem_map.mpr ⟨p, h.waits, if_neg hticket⟩, h.orderly.abandon ticket, fun hdeaf => ?_⟩
  exact Exchange.hasRoom_abandon ticket (h.room hdeaf)

/-- What the debugger does by itself leaves a command waiting, or answers it. -/
theorem waits_or_answered_news (h : s.exchange.Orderly) (hp : p ∈ s.exchange.pending)
    (hw : p.awaited = true) (n : News) :
    p ∈ (n.apply s).exchange.pending ∨ (n.apply s).exchange.Answered p := by
  cases n with
  | hear chunk =>
    rw [News.apply, exchange_receive]
    exact Exchange.mem_or_answered_lines h hp hw _
  | leave =>
    rw [News.apply, exchange_finish]
    have horderly := h.foldl_hearLine (s.output.taken [])
    rcases Exchange.mem_or_answered_lines h hp hw (s.output.taken []) with hwaits | hanswered
    · refine .inr ⟨_, Exchange.reply?_failAll horderly .sessionClosed hwaits hw, fun e he => ?_⟩
      cases he
      exact .inr rfl
    · exact .inr (hanswered.of_prefix (Exchange.completions_failAll _ _))
  | deafen =>
    obtain ⟨link, hdeafen⟩ := exists_deafen_eq s
    rw [News.apply, hdeafen]
    exact .inl hp
  | complain text => exact .inl hp
  | refuse detail => exact .inl hp

end Session

namespace Ensemble

open Session Exchange

/-- The caller of a command gives up its wait in one of some turns. -/
def GivesUp (config : Config) (earlier more : List Turn) (ticket : Nat) : Prop :=
  ∃ before i o, before ++ [.move i .giveUp] <+: more ∧
    (run config (earlier ++ before)).calls[i]? = some o ∧ o.Expects ticket

/-- Some number is free at all times during some turns. -/
def RoomThroughout (config : Config) (earlier more : List Turn) : Prop :=
  ∀ before, before <+: more → (run config (earlier ++ before)).session.exchange.HasRoom

variable {config : Config} {earlier more : List Turn} {p : Pending}

/-- A command that waits still does after a turn, or it was answered, or its caller gave up. -/
theorem waits_or_answered_turn {turns : List Turn}
    (hp : p ∈ (run config turns).session.exchange.pending) (hw : p.awaited = true)
    (hroom : (run config turns).session.exchange.HasRoom) (t : Turn) :
    p ∈ (run config (turns ++ [t])).session.exchange.pending ∨
      (run config (turns ++ [t])).session.exchange.Answered p ∨
      ∃ i o, t = .move i .giveUp ∧ (run config turns).calls[i]? = some o ∧ o.Expects p.ticket := by
  have horderly := (accounted_run config turns).orderly
  have hasks : (run config turns).session.StillAsks p := ⟨hp, horderly, fun _ => hroom⟩
  have hfree := conduct_stillAsks p
  rw [run_snoc]
  by_cases hnews : ∃ n, t = .news n
  · obtain ⟨n, rfl⟩ := hnews
    cases hc : (run config turns).session.isConnected with
    | true =>
      rw [turn_news hc]
      exact (waits_or_answered_news horderly hp hw n).imp_right .inl
    | false =>
      rw [turn_news_of_not_connected hc]
      exact .inl hp
  · rcases relates_turn hfree.toConduct config turns (t := t) (fun _ _ => ⟨fun _ => hfree.free, fun _ => hfree⟩)
      (fun n hn => hnews ⟨n, hn⟩) with hsections | ⟨i, o, ticket, rfl, hi, hexpects, hrest⟩
    · exact .inl (hsections hasks).waits
    · by_cases hticket : p.ticket = ticket
      · exact .inr (.inr ⟨i, o, rfl, hi, hticket ▸ hexpects⟩)
      · exact .inl (hrest (hasks.abandon hticket)).waits

/-- What becomes of a command that waits. -/
theorem answered_run (hp : p ∈ (run config earlier).session.exchange.pending)
    (hw : p.awaited = true) (hroom : RoomThroughout config earlier more) :
    p ∈ (run config (earlier ++ more)).session.exchange.pending ∨
      (run config (earlier ++ more)).session.exchange.Answered p ∨
      GivesUp config earlier more p.ticket := by
  induction more using List.reverseRecOn with
  | nil =>
    rw [List.append_nil]
    exact .inl hp
  | append_singleton more t ih =>
    have hgiven : GivesUp config earlier more p.ticket →
        GivesUp config earlier (more ++ [t]) p.ticket := by
      rintro ⟨before, i, o, hprefix, hcall⟩
      exact ⟨before, i, o, hprefix.trans (List.prefix_append _ _), hcall⟩
    rw [← List.append_assoc]
    rcases ih fun before hb => hroom before (hb.trans (List.prefix_append _ _)) with
      hwaits | hanswered | hgave
    · have hnow := hroom more (List.prefix_append _ _)
      rcases waits_or_answered_turn hwaits hw hnow t with hwaits | hanswered | ⟨i, o, rfl, hi, ho⟩
      · exact .inl hwaits
      · exact .inr (.inl hanswered)
      · exact .inr (.inr ⟨more, i, o, List.prefix_rfl, hi, ho⟩)
    · have hgrows := (Proper.run config (earlier ++ more)).grows_turn t
      rw [run_snoc]
      exact .inr (.inl (hanswered.of_prefix hgrows.answers))
    · exact .inr (.inr (hgiven hgave))

/-! ## Runs -/

theorem killRequested_turn {e : Ensemble} (h : e.Proper) (t : Turn) :
    e.session.killRequested = true → (e.turn t).session.killRequested = true := by
  have hdeed : ∀ (d : Deed) (s : Session),
      s.killRequested = true → (d.apply s).killRequested = true := by
    intro d s hs
    cases d with
    | issue command tolerant =>
      obtain ⟨exchange, outbox, hissue⟩ := exists_issue_eq s command tolerant
      rw [Deed.apply, hissue]
      exact hs
    | write line =>
      obtain ⟨outbox, hwrite⟩ := exists_write_eq s line
      rw [Deed.apply, hwrite]
      exact hs
    | connect =>
      obtain ⟨link, hconnect⟩ := exists_connect_eq s
      rw [Deed.apply, hconnect]
      exact hs
    | reserve l =>
      obtain ⟨board, hreserve⟩ := exists_reserve_eq s l
      rw [Deed.apply, hreserve]
      exact hs
    | markStarted =>
      rw [Deed.apply, Session.markStarted]
      split <;> exact hs
    | requestKill => rfl
    | _ => exact hs
  refine h.session_turn (r := fun u => e.session.killRequested = true → u.killRequested = true)
    t ?_ ?_ ?_
  · intro _ detail _ _ hkill
    have hsame := congrArg Session.killRequested
      (backdrop_onQuit (e.session.emit (.launchError detail)))
    exact hsame.trans hkill
  · intro n _ _ hkill
    have hsame := congrArg Session.killRequested (held_news e.session n)
    exact hsame.trans hkill
  · exact fun _ _ hdoes => hdoes.rel (r := fun s u =>
      s.killRequested = true → u.killRequested = true) (fun _ h => h)
      (fun h h' hs => h' (h hs)) fun d _ s => hdeed d s

theorem link_turn_of_closed {e : Ensemble} (h : e.Proper) (t : Turn)
    (hclosed : e.session.link = .closed) : (e.turn t).session.link = .closed := by
  have hstage := (h.grows_turn t).link
  rw [hclosed] at hstage
  revert hstage
  cases (e.turn t).session.link <;> simp [Link.stage]

theorem turn_farewell (e : Ensemble) (f : Farewell) :
    e.turn (.call f.op) = ⟨((endWith f.line).run.advance e.session).2,
      e.calls ++ [f.ongoing (some ((endWith f.line).run.advance e.session).1)]⟩ := by
  cases f <;> rfl

/-- A debugger that reads gets its last line, and nothing else happens at once. -/
theorem turn_farewell_of_open {e : Ensemble} (hopen : e.session.link = .open) (f : Farewell) :
    e.turn (.call f.op) = ⟨{ e.session with outbox := e.session.outbox ++ [.raw f.line] },
      e.calls ++ [f.ongoing (some awaitEnd.run)]⟩ := by
  rw [turn_farewell, advance_endWith_of_open hopen]

/-- In every run a call that has written its last line stands somewhere. -/
theorem parts_run (hopen : (run config earlier).session.link = .open) (f : Farewell)
    (more : List Turn) :
    ∃ rest?, (run config (earlier ++ .call f.op :: more)).calls[(run config earlier).calls.length]? =
        some (f.ongoing rest?) ∧
      Farewell.Parts (run config (earlier ++ .call f.op :: more)).session rest? ∧
      (run config (earlier ++ .call f.op :: more)).session.link ≠ .none ∧
      (rest? = none → .move (run config earlier).calls.length .giveUp ∈ more) := by
  have hsnoc : ∀ (more : List Turn) t, run config (earlier ++ .call f.op :: (more ++ [t])) =
      (run config (earlier ++ .call f.op :: more)).turn t := by
    intro more t
    rw [append_cons_snoc, run_snoc]
  induction more using List.reverseRecOn with
  | nil =>
    rw [run_snoc, turn_farewell_of_open hopen]
    refine ⟨some awaitEnd.run, by simp, .waits, ?_, by rintro ⟨⟩⟩
    rintro hnone
    cases hopen.symm.trans hnone
  | append_singleton more t ih =>
    obtain ⟨rest?, hi, hparts, hlink, hleft⟩ := ih
    have hproper := Proper.run config (earlier ++ .call f.op :: more)
    have hmore : rest? = none → .move (run config earlier).calls.length .giveUp ∈ more ++ [t] :=
      fun h => List.mem_append_left _ (hleft h)
    have hlink' : (run config (earlier ++ .call f.op :: (more ++ [t]))).session.link ≠ .none := by
      have hstage := (hproper.grows_turn t).link
      rw [hsnoc]
      intro hnone
      rw [hnone] at hstage
      revert hstage hlink
      cases (run config (earlier ++ .call f.op :: more)).session.link <;> simp [Link.stage]
    rw [hsnoc] at hlink' ⊢
    rcases getElem?_calls_turn hi t with hsame | ⟨m, rfl, hmoved⟩
    · refine ⟨rest?, hsame, hparts.later ?_ ?_, hlink', hmore⟩
      · exact link_turn_of_closed hproper t
      · exact killRequested_turn hproper t
    · obtain ⟨next?, u, hmove, hnext, hgone, -⟩ := hparts.move f m
      rw [turn_move hi, hmove] at hlink' ⊢
      rw [turn_move hi, hmove] at hmoved
      refine ⟨next?, hmoved, hnext, hlink', fun h => ?_⟩
      rcases hgone h with hrest | rfl
      · exact hmore hrest
      · simp

/--
Nothing is owed to a call any more: it has gone on as far as it can, no grace period runs, and a
debugger that is to be killed has ended.
-/
structure Served (e : Ensemble) (i : Nat) : Prop where
  resumed : (e.turn (.move i .resume)).calls[i]? = e.calls[i]?
  expired : ∀ o, e.calls[i]? = some o → o.isImpatient = false
  killed : e.session.killRequested = true → e.session.link = .closed

/-- A call to which nothing is owed has ended, unless it was given up. -/
theorem Served.ends {e : Ensemble} {i : Nat} (h : e.Served i) {f : Farewell}
    {rest? : Option (Call (Except Error Unit))} (hi : e.calls[i]? = some (f.ongoing rest?))
    (hparts : Farewell.Parts e.session rest?) :
    rest? = some (.done (.ok ())) ∨ rest? = none := by
  cases hparts with
  | leaves => exact .inr rfl
  | ends _ => exact .inl rfl
  | waits =>
    have hexpired := h.expired _ hi
    rw [Farewell.isImpatient_some] at hexpired
    cases hexpired
  | kills hkill =>
    -- Once the debugger has ended, such a call can go on.
    have hclosed : e.session.link = .closed := hkill.elim h.killed id
    have hresumed := h.resumed
    have hlt := (List.getElem?_eq_some_iff.mp hi).1
    rw [turn_move hi, (Farewell.move_some f _ _).1, advance_awaitKilled,
      if_pos (isClosed_iff.mpr hclosed), hi, List.getElem?_set_self hlt] at hresumed
    have hdone := Farewell.ongoing_inj (Option.some.inj hresumed)
    cases congrArg (Option.bind · Call.result?) hdone

theorem link_leave {e : Ensemble} (h : e.session.link ≠ .none) :
    (e.turn (.news .leave)).session.link = .closed := by
  cases hc : e.session.isConnected with
  | true =>
    rw [turn_news hc]
    exact link_finish e.session
  | false =>
    rw [turn_news_of_not_connected hc]
    rw [isConnected] at hc
    cases hlink : e.session.link <;> simp_all

/--
A stop or a detach of a session whose debugger reads writes exactly one line, which has no number.
Whatever comes next, its moves change nothing else, but that the debugger is killed when the grace
period passes and it has not ended. When the call returns it has succeeded; the session is closed,
the program has ended, the end was told once, no command waits, and whoever waited for a command at
any time has an answer of the debugger or knows that the session is closed, unless he gave up. Once
nothing is owed to the call, it has returned; the end of the grace period, the end of the debugger
and one more move are enough. Where no debugger reads, the call fails at once and nothing changes.
-/
theorem farewell_run (config : Config) (earlier : List Turn) (f : Farewell) :
    let before := (run config earlier).session
    let i := (run config earlier).calls.length
    let after (more : List Turn) := run config (earlier ++ .call f.op :: more)
    (before.link = .open →
      (after []).session = { before with outbox := before.outbox ++ [.raw f.line] } ∧
      (∀ more m, let e := after more
        (e.turn (.move i m)).session =
          if m = .expire ∧ e.calls[i]?.any Ongoing.isImpatient = true ∧ e.session.link ≠ .closed then
            e.session.kill
          else e.session) ∧
      (∀ more r, (after more).calls[i]? = some (f.ongoing (some (.done r))) →
        let s := (after more).session
        r = .ok () ∧ s.link = .closed ∧ s.runState = .terminated ∧ s.events.count .quit = 1 ∧
          s.exchange.pending = [] ∧
          ∀ start rest, start ++ rest = earlier ++ .call f.op :: more →
            RoomThroughout config start rest →
            ∀ p ∈ (run config start).session.exchange.pending, p.awaited = true →
              s.exchange.Answered p ∨ GivesUp config start rest p.ticket) ∧
      ∀ more, .move i .giveUp ∉ more →
        ((after more).Served i →
          (after more).calls[i]? = some (f.ongoing (some (.done (.ok ()))))) ∧
        (after (more ++ [.move i .expire, .news .leave, .move i .resume])).calls[i]? =
          some (f.ongoing (some (.done (.ok ()))))) ∧
    (before.link ≠ .open → (after []).session = before ∧ (after []).calls[i]? =
      some (f.ongoing (some (.done
        (.error (if before.link = .deaf then .brokenPipe else .notConnected)))))) := by
  intro before i after
  refine ⟨fun hopen => ⟨?_, fun more m => ?_, fun more r hdone => ?_, fun more hkept => ⟨?_, ?_⟩⟩,
    fun hlink => ?_⟩
  · change (run config (earlier ++ [.call f.op])).session = _
    rw [run_snoc, turn_farewell_of_open hopen]
  · obtain ⟨rest?, hi, hparts, -⟩ := parts_run hopen f more
    obtain ⟨next?, u, hmove, -, -, hu⟩ := hparts.move f m
    change ((after more).turn (.move i m)).session = _
    rw [turn_move hi, hmove, hu]
    simp only [after, i, hi, Option.any_some]
  · obtain ⟨rest?, hi, hparts, -⟩ := parts_run hopen f more
    obtain rfl := Farewell.ongoing_inj (Option.some.inj (hi.symm.trans hdone))
    obtain ⟨rfl, hclosed⟩ := hparts.of_done
    have haccounted := accounted_run config (earlier ++ .call f.op :: more)
    obtain ⟨hquit, hpending⟩ := haccounted.shut hclosed
    refine ⟨rfl, hclosed, terminated_of_quitEmitted config _ hquit,
      haccounted.toldOnce.trans (if_pos hquit), hpending, fun start rest hsplit hroom p hp hw => ?_⟩
    have hrun : after more = run config (start ++ rest) := by rw [hsplit]
    have hnone : p ∉ (run config (start ++ rest)).session.exchange.pending := by
      rw [hsplit, hpending]
      exact List.not_mem_nil
    rw [hrun]
    exact (answered_run hp hw hroom).resolve_left hnone
  · intro hserved
    obtain ⟨rest?, hi, hparts, -, hleft⟩ := parts_run hopen f more
    rcases hserved.ends hi hparts with rfl | rfl
    · exact hi
    · exact absurd (hleft rfl) hkept
  · obtain ⟨-, -, -, hlink, -⟩ := parts_run hopen f (more ++ [.move i .expire])
    obtain ⟨rest?, hi, hparts, -, hleft⟩ :=
      parts_run hopen f (more ++ [.move i .expire, .news .leave])
    have hclosed := link_leave hlink
    have hleave : (run config (earlier ++ .call f.op :: (more ++ [.move i .expire]))).turn
        (.news .leave) = after (more ++ [.move i .expire, .news .leave]) := by
      rw [← run_snoc]
      simp [after]
    have hresume : after (more ++ [.move i .expire, .news .leave, .move i .resume]) =
        (after (more ++ [.move i .expire, .news .leave])).turn (.move i .resume) := by
      rw [← run_snoc]
      simp [after]
    rw [hleave] at hclosed
    have hlt := (List.getElem?_eq_some_iff.mp hi).1
    rw [hresume, turn_move hi, hparts.resume f hclosed, List.getElem?_set_self hlt]
    cases rest? with
    | some c => rfl
    | none =>
      have hgone := hleft rfl
      simp only [List.mem_append, List.mem_cons, Turn.move.injEq, reduceCtorEq, and_false,
        List.not_mem_nil, or_self, or_false] at hgone
      exact absurd hgone hkept
  · change (run config (earlier ++ [.call f.op])).session = _ ∧
      (run config (earlier ++ [.call f.op])).calls[i]? = _
    have hwrite : before.write f.line =
        (.error (if before.link = .deaf then .brokenPipe else .notConnected), before) := by
      unfold Session.write
      cases h : before.link with
      | «open» => exact absurd h hlink
      | _ => simp
    rw [run_snoc, turn_farewell, advance_endWith_of_error hwrite]
    exact ⟨rfl, by simp [i]⟩

/--
A debugger that is being set up does not answer and is told to detach. It prints a line, does not
end, and is killed. The first command of the set-up waited all the time.
-/
theorem farewell_run_silent :
    let earlier : List Turn := [.call (.bringUp { cwd := "/w", mode := .load "a.out" none none })]
    let more : List Turn := [.news (.hear (Text.Utf8.encode "still here\n"))]
    let e := run {} (earlier ++ .call .detach ::
      (more ++ [.move 1 .expire, .news .leave, .move 1 .resume]))
    (run {} earlier).session.link = .open ∧ e.session.killRequested = true ∧
      e.calls[1]? = some ⟨.detach, some (.done (.ok ()))⟩ ∧ e.session.events.count .quit = 1 ∧
        e.session.exchange.Answered ⟨0, 1, "gdb-set target-async on", true, true⟩ := by
  intro earlier more e
  have hopen : (run {} earlier).session.link = .open := by decide +kernel
  obtain ⟨-, -, hends, hserves⟩ := (farewell_run {} earlier .detach).1 hopen
  have hcalls : (run {} earlier).calls.length = 1 := rfl
  have hkept : Turn.move 1 .giveUp ∉ more := by simp [more]
  have hdone : e.calls[1]? = some ⟨.detach, some (.done (.ok ()))⟩ := (hserves more hkept).2
  obtain ⟨-, -, -, hquit, -, hanswers⟩ := hends _ _ hdone
  refine ⟨hopen, by decide +kernel, hdone, hquit, ?_⟩
  -- From the end of the debugger on, two turns are left in which the caller could give up.
  let start := earlier ++ .call .detach :: (more ++ [.move 1 .expire])
  let rest : List Turn := [.news .leave, .move 1 .resume]
  have hsplit : start ++ rest = earlier ++ .call .detach ::
      (more ++ [.move 1 .expire, .news .leave, .move 1 .resume]) := rfl
  have hroom : RoomThroughout {} start rest := by
    intro before hbefore
    have hfree : ∀ turns ∈ rest.inits,
        (run {} (start ++ turns)).session.exchange.isPending 100 = false := by decide +kernel
    exact ⟨100, by decide, hfree before ((List.mem_inits _ _).mpr hbefore)⟩
  have hwaits : ⟨0, 1, "gdb-set target-async on", true, true⟩ ∈
      (run {} start).session.exchange.pending := by decide +kernel
  refine (hanswers start rest hsplit hroom _ hwaits rfl).resolve_right ?_
  rintro ⟨before, i, o, hprefix, -⟩
  have hmem : Turn.move i .giveUp ∈ rest := hprefix.subset (by simp)
  simp [rest] at hmem

/-- A debugger that runs but does not read any more is neither told to stop nor killed. -/
theorem stop_of_deaf :
    let earlier : List Turn :=
      [.call (.bringUp { cwd := "/w", mode := .load "a.out" none none }), .news .deafen]
    let e := run {} (earlier ++ [.call .stopDebugger])
    (run {} earlier).session.isConnected = true ∧
      e.calls[1]? = some ⟨.stopDebugger, some (.done (.error .brokenPipe))⟩ ∧
      e.session.outbox = (run {} earlier).session.outbox ∧ e.session.link ≠ .closed ∧
        e.session.killRequested = false := by
  intro earlier e
  have hlink : (run {} earlier).session.link = .deaf := by decide +kernel
  have hwrite : (run {} earlier).session.write (Farewell.line .stop) =
      (.error .brokenPipe, (run {} earlier).session) := by
    simp [Session.write, hlink]
  have he : e = ⟨(run {} earlier).session,
      (run {} earlier).calls ++ [⟨.stopDebugger, some (.done (.error .brokenPipe))⟩]⟩ := by
    change run {} (earlier ++ [.call (Farewell.op .stop)]) = _
    rw [run_snoc, turn_farewell, advance_endWith_of_error hwrite]
    rfl
  rw [he]
  exact ⟨by decide +kernel, rfl, rfl, by simp [hlink], by decide +kernel⟩

end Ensemble

end MachineInterface

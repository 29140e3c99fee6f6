import MachineInterface.Proofs.Exchange.Serving
import MachineInterface.Proofs.Session.Asking
import MachineInterface.Proofs.Session.Closing
import MachineInterface.Proofs.Session.Hearing
import MachineInterface.Proofs.Session.Unexpected
import MachineInterface.Proofs.Text.Encoded

/-!
# Dialogues

Callers ask, and a debugger that hears the commands answers each of them once, in any order, while
it prints other lines. All of it takes the way over the bytes that are written and read.

* `Under.foldl_perform`: what holds at every moment of a dialogue.
* `everyone_answered`: in the end each caller has the answer to its own command.
-/

namespace MachineInterface

open Text Line

/-! ## Whole lines -/

theorem Line.classify_eq_result_iff {line : String} {r : ResultRecord} :
    classify line = .record (.result r) ↔ record? line = some (.result r) := by
  unfold record?
  cases classify line with
  | record record => cases record <;> simp
  | _ => simp

/-- The bytes of a line that a debugger prints. -/
def lineBytes (line : String) : List UInt8 := Utf8.encode line ++ [LineBuffer.newline]

/-- What is read of a line that a debugger prints. -/
def readBack (line : String) : String :=
  Utf8.decode (LineBuffer.dropReturn (Utf8.encode line))

theorem record?_readBack (line : String) : record? (readBack line) = record? line := by
  rw [readBack, LineBuffer.record?_decode_dropReturn, Utf8.decode_encode]

theorem classify_readBack {line : String} {r : ResultRecord} :
    classify (readBack line) = .record (.result r) ↔ record? line = some (.result r) := by
  rw [classify_eq_result_iff, record?_readBack]

/-- An answer under a number is read back as its record. -/
theorem classify_readBack_result (h : Heard) (a : Answer) :
    classify (readBack (h.result a.text)) = .record (.result (a.body.record h.token)) := by
  rw [classify_readBack, ← classify_eq_result_iff, ← a.text_body]
  exact classify_reply h a.body

theorem newline_not_mem_answer (h : Heard) (a : Answer) : '\n' ∉ (h.result a.text).toList :=
  a.text_body ▸ newline_not_mem_result h a.body

namespace Session

variable {s : Session}

/-- When no line was started, the bytes of a line bring this line alone. -/
theorem receive_lineBytes (h : s.output = {}) {line : String} (hline : '\n' ∉ line.toList) :
    s.receive (lineBytes line) = s.handleLine (readBack line) := by
  have hbytes : LineBuffer.newline ∉ Utf8.encode line := by
    intro hmem
    obtain ⟨c, hc, heq⟩ := Utf8.mem_encode_of_lt (by decide) hmem
    obtain rfl : c = '\n' := Char.toNat_inj.mp heq
    exact hline hc
  have hpush : s.output.push (lineBytes line) = ([readBack line], {}) := by
    rw [h]
    exact LineBuffer.push_line hbytes []
  have hkept : ({ s with output := {} } : Session) = s := by
    rw [← h]
  have houtput : (s.handleLine (readBack line)).output = {} :=
    (congrArg Session.output (backdrop_handleLine s (readBack line))).trans h
  rw [receive, hpush]
  -- Nothing is left of the line, so nothing is shown before its end.
  change ({ s with output := {} }.handleLine (readBack line)).flush = _
  rw [hkept, flush, houtput]
  rfl

end Session

theorem Ensemble.turn_hear_line {e : Ensemble} (hc : e.session.isConnected = true)
    (ho : e.session.output = {}) {line : String} (hline : '\n' ∉ line.toList) :
    e.turn (.news (.hear (lineBytes line))) =
      { e with session := e.session.handleLine (readBack line) } := by
  rw [turn_news hc, News.apply, Session.receive_lineBytes ho hline]

/-! ## Callers -/

/-- A command was written, and the caller waits for the answer or has received it. -/
def Waits (s : Session) (p : Pending) (rest : Call Reply) : Prop :=
  rest = .reply p.ticket id .done ∨ ∃ r, s.exchange.reply? p.ticket = some r ∧ rest = .done r

namespace Waits

variable {s u : Session} {p : Pending} {rest : Call Reply}

theorem advance (h : Waits s p rest) :
    (rest.advance s).2 = s ∧ Waits s p (rest.advance s).1 := by
  rcases h with rfl | ⟨r, hr, rfl⟩
  · cases hr : s.exchange.reply? p.ticket with
    | none => simp [Call.advance, hr, Waits]
    | some r => simp [Call.advance, hr, Waits]
  · exact ⟨rfl, .inr ⟨r, hr, rfl⟩⟩

theorem advance_of_reply (h : Waits s p rest) {r : Reply} (hr : s.exchange.reply? p.ticket = some r) :
    rest.advance s = (.done r, s) := by
  rcases h with rfl | ⟨r', hr', rfl⟩
  · simp [Call.advance, hr]
  · rw [hr] at hr'
    cases hr'
    rfl

theorem mono (h : Waits s p rest) (hs : s.exchange.completions <+: u.exchange.completions) :
    Waits u p rest := by
  rcases h with h | ⟨r, hr, h⟩
  · exact .inl h
  · exact .inr ⟨r, Exchange.reply?_of_prefix hs hr, h⟩

end Waits

/-- A caller writes a command and waits. -/
theorem advance_send {s : Session} (h : s.link = .open)
    (hr : s.exchange.reply? s.exchange.issued = none) (command : String) (tolerant : Bool) :
    (Operation.send command tolerant).call.advance s =
      (.reply s.exchange.issued id .done, (s.issue command tolerant).2) := by
  have hissue := Session.issue_of_open h command tolerant
  have hwait : (s.issue command tolerant).2.exchange.reply? s.exchange.issued = none := by
    rw [hissue]
    exact hr
  change Call.advance (Call.bind (.done (s.issue command tolerant).1) _)
    (s.issue command tolerant).2 = _
  rw [hissue] at hwait ⊢
  exact Call.advance_eq_self_of_waiting hwait _ _

namespace Dialogue

/-! ## Steps -/

/-- Something that happens while callers ask and a debugger answers. -/
inductive Step where
  /-- One more caller asks. -/
  | ask (command : String) (tolerant : Bool)
  /-- The debugger answers the `i`-th command that it has heard. -/
  | answer (i : Nat) (a : Answer)
  /-- The debugger prints another line. -/
  | other (line : String)
  /-- The `i`-th caller looks for the answer. -/
  | resume (i : Nat)

/-- What the debugger has heard since a dialogue began. -/
def heard (start e : Ensemble) : List Heard :=
  ScriptedDebugger.hears (e.session.outbox.drop start.session.outbox.length)

/-- An ensemble after a step of the dialogue that began with `start`. -/
def perform (start e : Ensemble) : Step → Ensemble
  | .ask command tolerant => e.turn (.call (.send command tolerant))
  | .answer i a =>
    match (heard start e)[i]? with
    | some h => e.turn (.news (.hear (lineBytes (h.result a.text))))
    | none => e
  | .other line => e.turn (.news (.hear (lineBytes line)))
  | .resume i => e.turn (.move (start.calls.length + i) .resume)

/-- The commands of a dialogue, in order. -/
def commands : List Step → List (String × Bool)
  | [] => []
  | .ask command tolerant :: steps => (command, tolerant) :: commands steps
  | _ :: steps => commands steps

/-- The answers of a dialogue and the commands that they answer. -/
def answers : List Step → List (Nat × Answer)
  | [] => []
  | .answer i a :: steps => (i, a) :: answers steps
  | _ :: steps => answers steps

/--
The debugger keeps to the rules when so many commands were asked and some of them answered: it
answers a command once, after it has heard it, and no other line of it is a result. There is a
number for each command that waits.
-/
def Fair (asked : Nat) (given : List Nat) : List Step → Prop
  | [] => True
  | .ask command _ :: steps =>
    IsPlainCommand command ∧ asked + 2 ≤ given.length + 2 ^ 64 ∧ Fair (asked + 1) given steps
  | .answer i _ :: steps => i < asked ∧ i ∉ given ∧ Fair asked (given ++ [i]) steps
  | .other line :: steps =>
    '\n' ∉ line.toList ∧ (∀ r, record? line ≠ some (.result r)) ∧ Fair asked given steps
  | .resume _ :: steps => Fair asked given steps

/-! ## Under way -/

/-- A call that sends a command. -/
def caller (p : Pending) (rest : Call Reply) : Ongoing := ⟨.send p.command p.tolerant, some rest⟩

/-- A dialogue is under way: these commands were asked, and these answers given. -/
structure Under (start : Ensemble) (asked : List Pending) (given : List (Nat × Answer))
    (e : Ensemble) : Prop where
  link : e.session.link = .open
  output : e.session.output = {}
  outbox : e.session.outbox =
    start.session.outbox ++ asked.map fun p => .command p.token p.command
  plain : ∀ p ∈ asked, IsPlainCommand p.command
  unexpected : e.session.unexpected = start.session.unexpected
  serves : Exchange.Serves start.session.exchange.issued asked given e.session.exchange
  size : e.calls.length = start.calls.length + asked.length
  callers : ∀ i p, asked[i]? = some p → ∃ rest,
    e.calls[start.calls.length + i]? = some (caller p rest) ∧ Waits e.session p rest

theorem under_start {e : Ensemble} (ho : e.session.exchange.Orderly) (hl : e.session.link = .open)
    (hb : e.session.output = {}) (hp : e.session.exchange.pending = []) : Under e [] [] e where
  link := hl
  output := hb
  outbox := by simp
  plain := by simp
  unexpected := rfl
  serves := Exchange.serves_start ho hp
  size := rfl
  callers := by simp

namespace Under

variable {start e : Ensemble} {asked : List Pending} {given : List (Nat × Answer)}

theorem heard_of_asked (h : Under start asked given e) {i : Nat} {p : Pending}
    (hi : asked[i]? = some p) : ∃ a, (heard start e)[i]? = some a ∧ a.token = some p.token ∧
      a.command = p.command := by
  have hwritten : e.session.outbox.drop start.session.outbox.length =
      (asked.map fun p => (p.token, p.command)).map fun q => .command q.1 q.2 := by
    rw [h.outbox, List.drop_left, List.map_map]
    rfl
  have hplain : ∀ q ∈ asked.map fun p => (p.token, p.command), IsPlainCommand q.2 := by
    intro q hq
    obtain ⟨p, hp, rfl⟩ := List.mem_map.mp hq
    exact h.plain p hp
  rw [heard, hwritten]
  refine ScriptedDebugger.hears_commands hplain ?_
  rw [List.getElem?_map, hi, Option.map_some]

/-! ### Steps -/

theorem ask (h : Under start asked given e) {command : String} (hc : IsPlainCommand command)
    (hroom : asked.length + 2 ≤ given.length + 2 ^ 64) (tolerant : Bool) :
    Under start (asked ++ [e.session.exchange.nextPending command tolerant]) given
      (e.turn (.call (.send command tolerant))) := by
  have hsend := advance_send h.link h.serves.orderly.reply?_issued command tolerant
  have hissue := Session.issue_of_open h.link command tolerant
  have hturn : e.turn (.call (.send command tolerant)) =
      ⟨(e.session.issue command tolerant).2,
        e.calls ++ [caller (e.session.exchange.nextPending command tolerant)
          (.reply e.session.exchange.issued id .done)]⟩ := by
    rw [Ensemble.turn, hsend]
    rfl
  rw [hturn, hissue]
  refine ⟨h.link, h.output, ?_, ?_, h.unexpected, h.serves.register command tolerant hroom, ?_, ?_⟩
  · simp [h.outbox, Exchange.nextPending]
  · intro q hq
    rcases List.mem_append.mp hq with hq | hq
    · exact h.plain q hq
    · rwa [List.mem_singleton.mp hq]
  · simp [h.size, Nat.add_assoc]
  · intro i q hq
    rcases Nat.lt_or_ge i asked.length with hlt | hge
    · rw [List.getElem?_append_left hlt] at hq
      obtain ⟨rest, hcall, hwaits⟩ := h.callers i q hq
      have hsize := h.size
      refine ⟨rest, ?_, hwaits.mono List.prefix_rfl⟩
      rw [← hcall]
      exact List.getElem?_append_left (by omega)
    · rw [List.getElem?_append_right hge, List.getElem?_singleton] at hq
      obtain ⟨hlast, ⟨⟩⟩ := Option.ite_none_right_eq_some.mp hq
      have hindex : start.calls.length + i = e.calls.length := by
        rw [h.size]
        omega
      refine ⟨.reply e.session.exchange.issued id .done, ?_, .inl rfl⟩
      rw [hindex]
      exact List.getElem?_concat_length

/-- A line keeps a dialogue under way if it serves the commands and is not told as unexpected. -/
theorem hear (h : Under start asked given e) {line : String} (hline : '\n' ∉ line.toList)
    {given' : List (Nat × Answer)}
    (hs : Exchange.Serves start.session.exchange.issued asked given'
      (e.session.exchange.hearLine (readBack line)))
    (hu : (e.session.handleLine (readBack line)).unexpected = e.session.unexpected) :
    Under start asked given' (e.turn (.news (.hear (lineBytes line)))) := by
  have hconnected : e.session.isConnected = true := Session.isConnected_iff.mpr (.inl h.link)
  have hturn := Ensemble.turn_hear_line hconnected h.output hline
  have hbackdrop := Session.backdrop_handleLine e.session (readBack line)
  have hexchange : (e.session.handleLine (readBack line)).exchange =
      e.session.exchange.hearLine (readBack line) := congrArg Session.exchange hbackdrop
  rw [hturn]
  refine ⟨?_, ?_, ?_, h.plain, hu.trans h.unexpected, hexchange ▸ hs, h.size, ?_⟩
  · exact (congrArg Session.link hbackdrop).trans h.link
  · exact (congrArg Session.output hbackdrop).trans h.output
  · exact (congrArg Session.outbox hbackdrop).trans h.outbox
  · intro i p hp
    obtain ⟨rest, hcall, hwaits⟩ := h.callers i p hp
    refine ⟨rest, hcall, hwaits.mono ?_⟩
    rw [hexchange]
    exact Exchange.completions_hearLine _ _

theorem answer (h : Under start asked given e) {i : Nat} (hi : i < asked.length)
    (hnew : i ∉ given.map (·.1)) (a : Answer) :
    Under start asked (given ++ [(i, a)]) (perform start e (.answer i a)) := by
  obtain ⟨p, hp⟩ : ∃ p, asked[i]? = some p := ⟨asked[i], List.getElem?_eq_getElem hi⟩
  obtain ⟨b, hb, htoken, -⟩ := h.heard_of_asked hp
  have hfresh : ∀ q ∈ given, q.1 ≠ i := fun q hq heq => hnew (List.mem_map.mpr ⟨q, hq, heq⟩)
  obtain ⟨hserves, hmatched⟩ := h.serves.resolve hfresh hp a
  -- The line is read back as the record under the number that the debugger heard.
  have hreply := classify_readBack_result b a
  rw [htoken] at hreply
  rw [perform, hb]
  refine h.hear (newline_not_mem_answer b a) ?_ ?_
  · rwa [Exchange.hearLine_result hreply]
  · rw [Session.handleLine_result _ hreply]
    exact Session.unexpected_handleResult _ hmatched _

theorem other (h : Under start asked given e) {line : String} (hline : '\n' ∉ line.toList)
    (hother : ∀ r, record? line ≠ some (.result r)) :
    Under start asked given (e.turn (.news (.hear (lineBytes line)))) := by
  have hnone : ∀ r, classify (readBack line) ≠ .record (.result r) :=
    fun r hr => hother r (classify_readBack.mp hr)
  refine h.hear hline ?_ (Session.unexpected_handleLine _ hnone)
  rw [Exchange.hearLine_of_no_result hnone]
  exact h.serves

theorem resume (h : Under start asked given e) (i : Nat) :
    Under start asked given (e.turn (.move (start.calls.length + i) .resume)) := by
  cases hi : asked[i]? with
  | none =>
    have hnone : e.calls[start.calls.length + i]? = none := by
      rw [List.getElem?_eq_none_iff] at hi ⊢
      rw [h.size]
      omega
    rw [Ensemble.turn_move_none hnone]
    exact h
  | some p =>
    obtain ⟨rest, hcall, hwaits⟩ := h.callers i p hi
    obtain ⟨hsame, hnext⟩ := hwaits.advance
    have hturn : e.turn (.move (start.calls.length + i) .resume) =
        ⟨(rest.advance e.session).2,
          e.calls.set (start.calls.length + i) (caller p (rest.advance e.session).1)⟩ :=
      Ensemble.turn_move hcall .resume
    rw [hturn, hsame]
    refine ⟨h.link, h.output, h.outbox, h.plain, h.unexpected, h.serves, ?_, ?_⟩
    · exact List.length_set.trans h.size
    · intro j q hq
      by_cases hij : i = j
      · subst hij
        rw [hi] at hq
        cases hq
        exact ⟨_, List.getElem?_set_self (List.getElem?_eq_some_iff.mp hcall).1, hnext⟩
      · obtain ⟨rest', hcall', hwaits'⟩ := h.callers j q hq
        refine ⟨rest', ?_, hwaits'⟩
        rw [← hcall']
        exact List.getElem?_set_ne (by omega)

/-- At every moment of a fair dialogue, what was answered was received. -/
theorem foldl_perform (h : Under start asked given e) (steps : List Step)
    (hf : Fair asked.length (given.map (·.1)) steps) :
    ∃ more : List Pending, more.map (fun p => (p.command, p.tolerant)) = commands steps ∧
      Under start (asked ++ more) (given ++ answers steps) (steps.foldl (perform start) e) := by
  -- The induction is on the steps, over all that was asked and answered before them.
  induction steps generalizing asked given e with
  | nil => exact ⟨[], rfl, by simpa [answers] using h⟩
  | cons step steps ih =>
    cases step with
    | ask command tolerant =>
      obtain ⟨hplain, hroom, hrest⟩ := hf
      have hask := h.ask hplain (by simpa using hroom) tolerant
      obtain ⟨more, hmore, hunder⟩ := ih hask (by simpa using hrest)
      refine ⟨e.session.exchange.nextPending command tolerant :: more, ?_, ?_⟩
      · rw [List.map_cons, hmore]
        rfl
      · simpa [answers, perform] using hunder
    | answer i a =>
      obtain ⟨hi, hnew, hrest⟩ := hf
      obtain ⟨more, hmore, hunder⟩ := ih (h.answer hi hnew a) (by simpa using hrest)
      exact ⟨more, hmore, by simpa [answers] using hunder⟩
    | other line =>
      obtain ⟨hline, hother, hrest⟩ := hf
      exact ih (h.other hline hother) hrest
    | resume i => exact ih (h.resume i) hf

/-- A caller whose command was answered completes with what the answer says. -/
theorem turn_resume (h : Under start asked given e) {i : Nat} {p : Pending} {a : Answer}
    (hp : asked[i]? = some p) (ha : (i, a) ∈ given) :
    (e.turn (.move (start.calls.length + i) .resume)).calls[start.calls.length + i]? =
      some (caller p (.done (a.reply p.token p.command p.tolerant))) := by
  obtain ⟨p', hp', hreply⟩ := h.serves.replies _ ha
  obtain rfl : p = p' := Option.some.inj (hp.symm.trans hp')
  obtain ⟨rest, hcall, hwaits⟩ := h.callers i p hp
  rw [Ensemble.turn_move hcall, List.getElem?_set_self (List.getElem?_eq_some_iff.mp hcall).1]
  change some (caller p (rest.advance e.session).1) = _
  rw [hwaits.advance_of_reply hreply]

end Under

/-! ## In the end -/

/-- A result under a number for which nothing waits changes no call and no command. -/
theorem turn_stray {e : Ensemble} (hc : e.session.isConnected = true) (ho : e.session.output = {})
    {line : String} (hline : '\n' ∉ line.toList) {r : ResultRecord}
    (hr : record? line = some (.result r))
    (hfree : ∀ token, r.token = some token → e.session.exchange.isPending token = false) :
    let e' := e.turn (.news (.hear (lineBytes line)))
    e'.calls = e.calls ∧ e'.session.exchange = e.session.exchange ∧ e'.session.unexpected =
      e.session.unexpected ++ [.unexpectedResult r.token r.outcome.text r.message?] := by
  have hclass := classify_readBack.mpr hr
  have hnone : r.token.bind e.session.exchange.pending? = none :=
    Option.bind_eq_none_iff.mpr fun token htoken => by
      simpa [Exchange.isPending, Exchange.pending?] using hfree token htoken
  rw [Ensemble.turn_hear_line hc ho hline]
  exact ⟨rfl, Session.handleLine_unmatched e.session hclass hnone⟩

/--
A debugger was brought up and nothing waits. Then callers ask, and the debugger answers each command
that it hears once, in any order, with other lines in between. In the end each caller completes with
what the answer to its own command says; no result was told as unexpected, and nothing waits.

A result without a number, or with one under which nothing waits, completes no call, and it is told
as unexpected once.
-/
theorem everyone_answered :
    (∀ config turns steps, let start := Ensemble.run config turns
      start.session.link = .open → start.session.output = {} →
      start.session.exchange.pending = [] → Fair 0 [] steps →
      (∀ i < (commands steps).length, i ∈ (answers steps).map (·.1)) →
      let e := steps.foldl (perform start) start
      (∀ i command tolerant, (commands steps)[i]? = some (command, tolerant) →
        ∃ a h token, (i, a) ∈ answers steps ∧ (heard start e)[i]? = some h ∧
          h.token = some token ∧ h.command = command ∧
          (e.turn (.move (start.calls.length + i) .resume)).calls[start.calls.length + i]? =
            some ⟨.send command tolerant, some (.done (a.reply token command tolerant))⟩) ∧
        e.session.exchange.pending = [] ∧ e.session.unexpected = start.session.unexpected) ∧
    ∀ (e : Ensemble) line r, e.session.isConnected = true → e.session.output = {} →
      '\n' ∉ line.toList → record? line = some (.result r) →
      (∀ token, r.token = some token → e.session.exchange.isPending token = false) →
      let e' := e.turn (.news (.hear (lineBytes line)))
      e'.calls = e.calls ∧ e'.session.exchange = e.session.exchange ∧ e'.session.unexpected =
        e.session.unexpected ++ [.unexpectedResult r.token r.outcome.text r.message?] := by
  refine ⟨?_, fun e line r hc ho hline hr hfree => turn_stray hc ho hline hr hfree⟩
  intro config turns steps start hlink houtput hidle hfair hall e
  have horderly := (Ensemble.accounted_run config turns).orderly
  obtain ⟨asked, hasked, hunder⟩ :=
    (under_start horderly hlink houtput hidle).foldl_perform steps hfair
  rw [List.nil_append, List.nil_append] at hunder
  have hcount : asked.length = (commands steps).length := by
    rw [← hasked, List.length_map]
  have hgiven : ∀ i < asked.length, ∃ q ∈ answers steps, q.1 = i :=
    fun i hi => List.mem_map.mp (hall i (hcount ▸ hi))
  refine ⟨?_, hunder.serves.pending_eq_nil hgiven, hunder.unexpected⟩
  intro i command tolerant hi
  rw [← hasked, List.getElem?_map] at hi
  obtain ⟨p, hp, ⟨⟩⟩ := Option.map_eq_some_iff.mp hi
  obtain ⟨⟨_, a⟩, ha, rfl⟩ := hgiven i (List.getElem?_eq_some_iff.mp hp).1
  obtain ⟨h, hh, htoken, hcommand⟩ := hunder.heard_of_asked hp
  exact ⟨a, h, p.token, ha, hh, htoken, hcommand, hunder.turn_resume hp ha⟩

/-- Two commands fail in the other order, and a third one is done. -/
theorem everyone_answered_two_failures :
    let turns : List Turn := [.call (.bringUp { cwd := "/w", mode := .attach "" none }),
      .news (.hear (Utf8.encode "1^done\n2^done\n3^done\n4^done\n5^done\n"))]
    let start := Ensemble.run {} turns
    let steps : List Step := [.ask "a" false, .ask "b" false, .answer 1 (.error "\"b\"\n"),
      .other "~\"text\"", .resume 1, .ask "c" false, .answer 0 (.error "a"), .resume 0,
      .answer 2 (.result ⟨.done, [], [], .nil, List.not_mem_nil⟩)]
    let e := steps.foldl (perform start) start
    start.session.link = .open ∧ start.session.exchange.pending = [] ∧ Fair 0 [] steps ∧
      (e.turn (.move 2 .resume)).calls[2]? =
        some ⟨.send "b" false, some (.done (.error (.command "\"b\"\n" "b")))⟩ ∧
      e.session.exchange.pending = [] ∧
      (start.turn (.news (.hear (lineBytes "^done")))).session.unexpected =
        start.session.unexpected ++ [.unexpectedResult none "done" none] := by
  intro turns start steps e
  have hlink : start.session.link = .open := by decide +kernel
  have houtput : start.session.output = {} := by decide +kernel
  have hidle : start.session.exchange.pending = [] := by decide +kernel
  have htext : record? "~\"text\"" = some (.stream .console "text") := by decide +kernel
  have hfair : Fair 0 [] steps := by
    simp [steps, Fair, IsPlainCommand, htext]
  have hall : ∀ i < (commands steps).length, i ∈ (answers steps).map (·.1) := by
    simp [steps, commands, answers]
    omega
  obtain ⟨hreplies, hpending, -⟩ := everyone_answered.1 {} turns steps hlink houtput hidle hfair hall
  obtain ⟨a, h, token, ha, -, -, -, hcall⟩ := hreplies 1 "b" false rfl
  obtain rfl : a = .error "\"b\"\n" := by simpa [steps, answers] using ha
  have hsize : start.calls.length = 1 := by decide +kernel
  have hbare : record? "^done" = some (.result ⟨none, .done, []⟩) := by decide +kernel
  have hconnected : start.session.isConnected = true := by decide +kernel
  have hstray := (everyone_answered.2 start "^done" ⟨none, .done, []⟩ hconnected houtput
    (by decide) hbare (by rintro _ ⟨⟩)).2.2
  rw [hsize] at hcall
  exact ⟨hlink, hidle, hfair, hcall, hpending, hstray⟩

end Dialogue

end MachineInterface

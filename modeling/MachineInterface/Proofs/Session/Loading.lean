import MachineInterface.Proofs.Breakpoint.Firsts
import MachineInterface.Proofs.Exchange.FirstAnswers
import MachineInterface.Proofs.Session.Accepting
import MachineInterface.Proofs.Session.Dialogue
import MachineInterface.Proofs.Session.Waiting

/-!
# Additions side by side

Some descriptors are added in order, each by a call of its own, while a debugger that accepts every
insert answers in any order. Each call goes on as if it were alone.

* `Loads.add`, `Loads.answer`, `Loads.resume`: what holds at every moment, one step after the other.
-/

namespace MachineInterface

open Session Line

/-- The answer that a call waits for. -/
def Call.ticket? {α : Type} : Call α → Option Nat
  | reply ticket _ _ => some ticket
  | _ => none

/-- The answer that a call waits for, unless it was given up. -/
def Ongoing.ticket? (o : Ongoing) : Option Nat := o.rest?.bind Call.ticket?

namespace Loading

/-! ## Places -/

/-- Two sessions agree on a location and on the template of a number. -/
structure Agree (l : Location) (id : UInt32) (s u : Session) : Prop where
  stands : u.board.get? l = s.board.get? l
  reserved : l ∈ u.board.reserved ↔ l ∈ s.board.reserved
  template : u.logPoints.templates.get? id = s.logPoints.templates.get? id

/-! ## Answers -/

/-- Some commands were asked of a debugger, and these answers given. -/
structure Talks (D : Acceptor) (start : Session) (asked : List Pending)
    (given : List (Nat × Answer)) (s : Session) : Prop where
  link : s.link = .open
  output : s.output = {}
  outbox : s.outbox = start.outbox ++ asked.map fun p => .command p.token p.command
  serves : Exchange.Serves start.exchange.issued asked given s.exchange
  strict : ∀ p ∈ asked, p.tolerant = false
  truthful : ∀ g ∈ given, ∀ p, asked[g.1]? = some p →
    g.2 = D.answer ((asked.take g.1).map (·.command)) p.command

namespace Talks

variable {D : Acceptor} {start s u : Session} {asked : List Pending} {given : List (Nat × Answer)}

theorem ask (h : Talks D start asked given s) (hroom : s.exchange.pending.length + 2 ≤ 2 ^ 64)
    {command : String} (hlink : u.link = s.link) (houtput : u.output = s.output)
    (hexchange : u.exchange = (s.exchange.register command false).2)
    (houtbox : u.outbox = s.outbox ++ [.command s.exchange.freeToken command]) :
    Talks D start (asked ++ [s.exchange.nextPending command false]) given u := by
  have hcount := h.serves.count
  refine ⟨hlink.trans h.link, houtput.trans h.output, ?_, ?_, ?_, ?_⟩
  · rw [houtbox, h.outbox, List.map_append, List.append_assoc]
    rfl
  · rw [hexchange]
    exact h.serves.register command false (by omega)
  · intro p hp
    rcases List.mem_append.mp hp with hp | hp
    · exact h.strict p hp
    · rw [List.mem_singleton.mp hp]
      rfl
  · intro g hg p hp
    have hlt := h.serves.lt_of_given hg
    rw [List.getElem?_append_left hlt] at hp
    rw [List.take_append_of_le_length (Nat.le_of_lt hlt)]
    exact h.truthful g hg p hp

/-- A command waits, or its caller has received the answer of the debugger. -/
theorem reply (h : Talks D start asked given s) {q : Nat} {p : Pending}
    (hq : asked[q]? = some p) : p ∈ s.exchange.pending ∨ s.exchange.reply? p.ticket = some
      ((D.answer ((asked.take q).map (·.command)) p.command).reply p.token p.command false) := by
  by_cases hgiven : ∃ g ∈ given, g.1 = q
  · obtain ⟨g, hg, rfl⟩ := hgiven
    obtain ⟨p', hp', hreply⟩ := h.serves.replies g hg
    obtain rfl := Option.some.inj (hq.symm.trans hp')
    rw [h.truthful g hg p hq, h.strict p (List.mem_of_getElem? hq)] at hreply
    exact .inr hreply
  · refine .inl ((h.serves.mem_pending p).mpr ⟨List.mem_of_getElem? hq, fun g hg heq => ?_⟩)
    have hticket := (h.serves.tickets q p hq).1
    exact hgiven ⟨g, hg, by omega⟩

end Talks

/-! ## Callers -/

variable {D : Acceptor} {start e : Ensemble} {added before : List Descriptor}
  {asked asked' : List Pending} {given : List (Nat × Answer)} {s u : Session} {d : Descriptor}
  {l : Location} {c : Call (Except Error Addition)} {calls : List Ongoing}

/-- How far a call has come that adds a descriptor, and what it has left in the session. -/
inductive Status (D : Acceptor) (start : Session) (asked : List Pending)
    (before : List Descriptor) (d : Descriptor) (s : Session) : Call (Except Error Addition) → Prop
  | unplaced (hl : d.location? = none) : Status D start asked before d s (.done (.error .noLocation))
  | refused {l : Location} (hl : d.location? = some l)
    (hfirst : isFirst start.board before l = false) :
    Status D start asked before d s (.done (.ok .alreadyInstalled))
  | installing {l : Location} {j q : Nat} {c : Call (Except Error Addition)}
    (hl : d.location? = some l) (hfirst : isFirst start.board before l = true)
    (hj : (firsts start.board before).length = j) (hc : D.Installs asked j l d q c)
    (hreserved : l ∈ s.board.reserved)
    (htemplate : s.logPoints.templates.get? (D.number j) =
      start.logPoints.templates.get? (D.number j)) :
    Status D start asked before d s (enclose l c)
  | installed {l : Location} {j : Nat} (hl : d.location? = some l)
    (hfirst : isFirst start.board before l = true) (hj : (firsts start.board before).length = j)
    (hstands : s.board.get? l = some (D.breakpoint j l d)) (hreserved : l ∉ s.board.reserved)
    (htemplate : s.logPoints.templates.get? (D.number j) =
      (D.template? j d).or (start.logPoints.templates.get? (D.number j))) :
    Status D start asked before d s (.done (.ok (D.addition j l d)))

theorem Status.mono (h : Status D s asked before d u c) {v : Session}
    (hagree : ∀ l, d.location? = some l → isFirst s.board before l = true →
      Agree l (D.number (firsts s.board before).length) u v) (more : List Pending) :
    Status D s (asked ++ more) before d v c := by
  cases h with
  | unplaced hl => exact .unplaced hl
  | refused hl hfirst => exact .refused hl hfirst
  | installing hl hfirst hj hc hreserved htemplate =>
    have h := hagree _ hl hfirst
    rw [hj] at h
    exact .installing hl hfirst hj (hc.mono more) (h.reserved.mpr hreserved)
      (h.template.trans htemplate)
  | installed hl hfirst hj hstands hreserved htemplate =>
    have h := hagree _ hl hfirst
    rw [hj] at h
    exact .installed hl hfirst hj (h.stands.trans hstands) (mt h.reserved.mp hreserved)
      (h.template.trans htemplate)

theorem Status.of_agree (h : Status D s asked before d u c) {v : Session}
    (hagree : ∀ l, d.location? = some l → isFirst s.board before l = true →
      Agree l (D.number (firsts s.board before).length) u v) : Status D s asked before d v c := by
  have hmono := h.mono hagree []
  rwa [List.append_nil] at hmono

theorem Status.of_same (h : Status D s asked before d u c) {v : Session}
    (hboard : v.board = u.board) (htemplates : v.logPoints.templates = u.logPoints.templates) :
    Status D s asked before d v c :=
  h.of_agree fun _ _ _ => ⟨by rw [hboard], by rw [hboard], by rw [htemplates]⟩

theorem turn_addBreakpoint (h : (addBreakpoint d).run.advance e.session = (c, u)) :
    e.turn (.call (.addBreakpoint d)) = ⟨u, e.calls ++ [⟨.addBreakpoint d, some c⟩]⟩ := by
  rw [Ensemble.turn, show (Operation.addBreakpoint d).call = (addBreakpoint d).run from rfl, h]

/-- The calls that add some descriptors. -/
def Callers (D : Acceptor) (start : Ensemble) (added : List Descriptor) (asked : List Pending)
    (s : Session) (calls : List Ongoing) : Prop :=
  ∀ i d, added[i]? = some d → ∃ c, calls[start.calls.length + i]? = some ⟨.addBreakpoint d, some c⟩ ∧
    Status D start.session asked (added.take i) d s c

theorem Callers.push (h : Callers D start added asked s calls)
    (hsize : calls.length = start.calls.length + added.length)
    (hothers : ∀ i d c, added[i]? = some d → Status D start.session asked (added.take i) d s c →
      Status D start.session asked' (added.take i) d u c)
    (hnew : Status D start.session asked' added d u c) :
    Callers D start (added ++ [d]) asked' u
      (calls ++ [⟨.addBreakpoint d, some c⟩]) := by
  intro i d' hi
  rcases Nat.lt_or_ge i added.length with hlt | hge
  · rw [List.getElem?_append_left hlt] at hi
    obtain ⟨c', hc', hstatus⟩ := h i d' hi
    refine ⟨c', ?_, ?_⟩
    · rw [List.getElem?_append_left (by omega), hc']
    · rw [List.take_append_of_le_length (by omega)]
      exact hothers i d' c' hi hstatus
  · rw [List.getElem?_append_right hge, List.getElem?_singleton] at hi
    obtain ⟨hlast, ⟨⟩⟩ := Option.ite_none_right_eq_some.mp hi
    obtain rfl : i = added.length := by omega
    refine ⟨c, ?_, ?_⟩
    · rw [← hsize]
      exact List.getElem?_concat_length
    · rwa [List.take_left]

theorem Callers.set (h : Callers D start added asked s calls) {i : Nat}
    (hi : added[i]? = some d)
    (hothers : ∀ k d c, k ≠ i → added[k]? = some d →
      Status D start.session asked (added.take k) d s c →
      Status D start.session asked' (added.take k) d u c)
    (hnew : Status D start.session asked' (added.take i) d u c) :
    Callers D start added asked' u
      (calls.set (start.calls.length + i) ⟨.addBreakpoint d, some c⟩) := by
  intro k d' hk
  obtain ⟨c', hc', hstatus⟩ := h k d' hk
  by_cases hki : k = i
  · subst hki
    obtain rfl := Option.some.inj (hi.symm.trans hk)
    exact ⟨c, List.getElem?_set_self (List.getElem?_eq_some_iff.mp hc').1, hnew⟩
  · refine ⟨c', ?_, hothers k d' c' hki hk hstatus⟩
    rw [List.getElem?_set_ne (by omega), hc']

/-- Each command that waits is waited for. -/
def Awaited (start : Ensemble) (pending : List Pending) (calls : List Ongoing) : Prop :=
  ∀ p ∈ pending, ∃ i o, calls[start.calls.length + i]? = some o ∧ o.ticket? = some p.ticket

theorem Awaited.append {pending : List Pending} (h : Awaited start pending calls)
    (more : List Ongoing) : Awaited start pending (calls ++ more) := by
  intro p hp
  obtain ⟨i, o, ho, hticket⟩ := h p hp
  refine ⟨i, o, ?_, hticket⟩
  rw [List.getElem?_append_left (List.getElem?_eq_some_iff.mp ho).1, ho]

theorem Awaited.set {pending : List Pending} (h : Awaited start pending calls) {i : Nat}
    {o o' : Ongoing} (hi : calls[start.calls.length + i]? = some o)
    (hnone : ∀ p ∈ pending, o.ticket? ≠ some p.ticket) :
    Awaited start pending (calls.set (start.calls.length + i) o') := by
  intro p hp
  obtain ⟨k, o'', hk, hticket⟩ := h p hp
  have hne : k ≠ i := by
    rintro rfl
    obtain rfl := Option.some.inj (hi.symm.trans hk)
    exact hnone p hp hticket
  refine ⟨k, o'', ?_, hticket⟩
  rw [List.getElem?_set_ne (by omega), hk]

/-- Some descriptors were added; these commands were asked, and these answers given. -/
structure Loads (D : Acceptor) (start : Ensemble) (added : List Descriptor) (asked : List Pending)
    (given : List (Nat × Answer)) (e : Ensemble) : Prop
    extends Talks D start.session asked given e.session where
  proper : e.Proper
  inserts : (asked.map (·.command)).filter isInsert =
    (firsts start.session.board added).map fun f => insertCommand f.1 f.2.hitPolicy?
  size : e.calls.length = start.calls.length + added.length
  callers : Callers D start added asked e.session e.calls
  awaited : Awaited start e.session.exchange.pending e.calls
  claimed : ∀ l, Claimed start.session.board added l → e.session.board.isFree l = false
  vacant : ∀ l, ¬ Claimed start.session.board added l →
    e.session.board.get? l = start.session.board.get? l ∧
      (l ∈ e.session.board.reserved ↔ l ∈ start.session.board.reserved)
  others : ∀ id, (∀ j < (firsts start.session.board added).length, D.number j ≠ id) →
    e.session.logPoints.templates.get? id = start.session.logPoints.templates.get? id

theorem loads_start (hp : start.Proper) (ho : start.session.exchange.Orderly)
    (hl : start.session.link = .open) (hb : start.session.output = {})
    (hidle : start.session.exchange.pending = []) : Loads D start [] [] [] start where
  link := hl
  output := hb
  outbox := by simp
  serves := Exchange.serves_start ho hidle
  strict := by simp
  truthful := by simp
  proper := hp
  inserts := rfl
  size := rfl
  callers := by simp [Callers]
  awaited := by simp [Awaited, hidle]
  claimed := by simp [Claimed]
  vacant := fun _ _ => ⟨rfl, Iff.rfl⟩
  others := fun _ _ => rfl

namespace Loads

/-- No more commands wait than descriptors were added. -/
theorem length_pending_le (h : Loads D start added asked given e) :
    e.session.exchange.pending.length ≤ added.length := by
  have hsub : e.session.exchange.pending.map (·.ticket) ⊆
      (List.range added.length).filterMap fun i =>
        e.calls[start.calls.length + i]?.bind Ongoing.ticket? := by
    intro t ht
    obtain ⟨p, hp, rfl⟩ := List.mem_map.mp ht
    obtain ⟨i, o, ho, hticket⟩ := h.awaited p hp
    have hlt := (List.getElem?_eq_some_iff.mp ho).1
    have hsize := h.size
    refine List.mem_filterMap.mpr ⟨i, List.mem_range.mpr (by omega), ?_⟩
    rw [ho, Option.bind_some, hticket]
  have hle := (List.subperm_of_subset h.serves.orderly.distinct hsub).length_le
  have hcalls := List.length_filterMap_le
    (fun i => e.calls[start.calls.length + i]?.bind Ongoing.ticket?) (List.range added.length)
  rw [List.length_map] at hle
  rw [List.length_range] at hcalls
  exact hle.trans hcalls

/-! ## One more descriptor -/

/-- A descriptor that reserves nothing is done at once. -/
theorem push (h : Loads D start added asked given e)
    (hturn : e.turn (.call (.addBreakpoint d)) =
      ⟨e.session, e.calls ++ [⟨.addBreakpoint d, some c⟩]⟩)
    (hfirst : ∀ l, d.location? = some l → isFirst start.session.board added l = false)
    (hstatus : Status D start.session asked added d e.session c) :
    Loads D start (added ++ [d]) asked given (e.turn (.call (.addBreakpoint d))) := by
  have hfirsts := firsts_snoc_of_not_first hfirst
  have hclaimed : ∀ l, Claimed start.session.board (added ++ [d]) l ↔
      Claimed start.session.board added l := by
    intro l
    rw [claimed_snoc, or_iff_left_iff_imp]
    rintro ⟨hfree, hl⟩
    exact (not_isFirst_iff hfree).mp (hfirst l hl)
  have hproper := h.proper.turn (.call (.addBreakpoint d))
  have hcallers := h.callers.push h.size (fun _ _ _ _ hsame => hsame) hstatus
  rw [hturn] at hproper ⊢
  refine ⟨h.toTalks, hproper, ?_, ?_, hcallers, h.awaited.append _, ?_, ?_, ?_⟩
  · rw [hfirsts]
    exact h.inserts
  · rw [List.length_append, List.length_append, h.size, Nat.add_assoc]
    rfl
  · exact fun l hl => h.claimed l ((hclaimed l).mp hl)
  · exact fun l hl => h.vacant l (mt (hclaimed l).mpr hl)
  · rw [hfirsts]
    exact h.others

/-- The location of a descriptor is free exactly if it is the first one that names it. -/
theorem isFirst_eq_isFree (h : Loads D start added asked given e) (l : Location) :
    isFirst start.session.board added l = e.session.board.isFree l := by
  by_cases hclaimed : Claimed start.session.board added l
  · rw [(not_isFirst_iff hclaimed.1).mpr hclaimed, h.claimed l hclaimed]
  · obtain ⟨hget, hreserved⟩ := h.vacant l hclaimed
    rw [Bool.eq_iff_iff, Board.isFree_iff_get?, hget, hreserved, ← Board.isFree_iff_get?]
    constructor
    · exact fun hfirst => (isFirst_iff.mp hfirst).1
    · intro hfree
      rw [← Bool.not_eq_false, not_isFirst_iff hfree]
      exact hclaimed

/-- A descriptor of a free location reserves it, and the insert is written. -/
theorem reserve (h : Loads D start added asked given e) (hroom : added.length + 2 ≤ 2 ^ 64)
    (hdistinct : D.Distinct (added.length + 1)) (hl : d.location? = some l)
    (hfree : e.session.board.isFree l = true) :
    ∃ p, Loads D start (added ++ [d]) (asked ++ [p]) given
      (e.turn (.call (.addBreakpoint d))) := by
  have hfirst : isFirst start.session.board added l = true := (h.isFirst_eq_isFree l).trans hfree
  have hfirsts := firsts_snoc_of_first hl hfirst
  obtain ⟨events, hadvance⟩ := advance_addBreakpoint_free h.link h.serves.orderly.reply?_issued
    (Descriptor.location_of_some hl) hfree
  set command := insertCommand l d.hitPolicy? with hcommand
  set p := e.session.exchange.nextPending command false with hp
  have hturn : e.turn (.call (.addBreakpoint d)) =
      ⟨{ e.session with
          board := e.session.board.withReserved l
          events
          exchange := (e.session.exchange.register command false).2
          outbox := e.session.outbox ++ [.command p.token command] },
        e.calls ++ [⟨.addBreakpoint d, some (enclose l (awaitInsert p.ticket l d))⟩]⟩ :=
    turn_addBreakpoint hadvance
  have hpending := h.length_pending_le
  have hother : ∀ d' ∈ added, ∀ l', d'.location? = some l' → l' ≠ l := by
    rintro d' hd' l' hl' rfl
    exact (isFirst_iff.mp hfirst).2 d' hd' hl'
  have hproper := h.proper.turn (.call (.addBreakpoint d))
  refine ⟨p, ?_⟩
  rw [hturn] at hproper ⊢
  refine ⟨h.toTalks.ask (by omega) rfl rfl rfl rfl, hproper, ?_, ?_, h.callers.push h.size ?_ ?_,
    ?_, ?_, ?_, ?_⟩
  · have hinsert : [command].filter isInsert = [command] := by
      rw [List.filter_eq_self]
      intro c hc
      rw [List.mem_singleton.mp hc, hcommand, isInsert_insertCommand]
    rw [hfirsts, List.map_append, List.filter_append, List.map_append, h.inserts]
    exact congrArg _ hinsert
  · rw [List.length_append, List.length_append, h.size, Nat.add_assoc]
    rfl
  · intro i d' c' hi hstatus
    refine Status.mono hstatus ?_ [p]
    intro l' hl' _
    refine ⟨rfl, ?_, rfl⟩
    have hne := hother d' (List.mem_of_getElem? hi) l' hl'
    exact List.mem_cons.trans (or_iff_right hne)
  · have htemplate := h.others (D.number (firsts start.session.board added).length)
      fun j hj => hdistinct j _ hj (Nat.lt_succ_of_le (length_firsts_le _ _))
    refine .installing hl hfirst rfl (.inserting List.getElem?_concat_length rfl ?_)
      List.mem_cons_self htemplate
    rw [List.take_left, List.countP_eq_length_filter, h.inserts, List.length_map]
  · intro p' hp'
    rcases List.mem_append.mp hp' with hp' | hp'
    · exact h.awaited.append _ p' hp'
    · refine ⟨added.length, ⟨.addBreakpoint d, some (enclose l (awaitInsert p.ticket l d))⟩, ?_, ?_⟩
      · rw [← h.size]
        exact List.getElem?_concat_length
      · rw [List.mem_singleton.mp hp']
        rfl
  · intro l' hl'
    refine Board.isFree_withReserved.mpr ?_
    rcases claimed_snoc.mp hl' with hl' | ⟨-, hl'⟩
    · exact .inl (h.claimed l' hl')
    · exact .inr (Option.some.inj (hl'.symm.trans hl))
  · intro l' hl'
    rw [claimed_snoc, not_or] at hl'
    obtain ⟨hget, hreserved⟩ := h.vacant l' hl'.1
    have hne : l' ≠ l := by
      rintro rfl
      exact hl'.2 ⟨(isFirst_iff.mp hfirst).1, hl⟩
    exact ⟨hget, (List.mem_cons.trans (or_iff_right hne)).trans hreserved⟩
  · intro id hid
    refine h.others id fun j hj => hid j ?_
    rw [hfirsts, List.length_append]
    omega

/-- One more descriptor is added. -/
theorem add (h : Loads D start added asked given e) (hroom : added.length + 2 ≤ 2 ^ 64)
    (hdistinct : D.Distinct (added.length + 1)) (d : Descriptor) :
    ∃ more, Loads D start (added ++ [d]) (asked ++ more) given
      (e.turn (.call (.addBreakpoint d))) := by
  cases hl : d.location? with
  | none =>
    have herror : d.location = .error .noLocation := by
      simp only [Descriptor.location, hl]
    refine ⟨[], ?_⟩
    rw [List.append_nil]
    exact h.push (turn_addBreakpoint (advance_addBreakpoint_of_error herror))
      (fun l hl' => by rw [hl] at hl'; cases hl') (.unplaced hl)
  | some l =>
    cases hfree : e.session.board.isFree l with
    | true =>
      obtain ⟨p, hp⟩ := h.reserve hroom hdistinct hl hfree
      exact ⟨[p], hp⟩
    | false =>
      have hfirst := (h.isFirst_eq_isFree l).trans hfree
      have htaken := advance_of_taken (Descriptor.location_of_some hl)
        (Board.isFree_eq_false_iff.mp hfree)
      refine ⟨[], ?_⟩
      rw [List.append_nil]
      refine h.push (turn_addBreakpoint htaken) (fun l' hl' => ?_) (.refused hl hfirst)
      rwa [← Option.some.inj (hl.symm.trans hl')]

/-! ## One more line -/

/-- A line that serves the calls and keeps to the answers of the debugger. -/
theorem hear (h : Loads D start added asked given e) {line : String} (hline : '\n' ∉ line.toList)
    {answers : List (Nat × Answer)}
    (hs : Exchange.Serves start.session.exchange.issued asked (given ++ answers)
      (e.session.exchange.hearLine (readBack line)))
    (htruthful : ∀ g ∈ answers, ∀ p, asked[g.1]? = some p →
      g.2 = D.answer ((asked.take g.1).map (·.command)) p.command) :
    Loads D start added asked (given ++ answers) (e.turn (.news (.hear (lineBytes line)))) := by
  have hconnected : e.session.isConnected = true := isConnected_iff.mpr (.inl h.link)
  have hturn := Ensemble.turn_hear_line hconnected h.output hline
  have hproper := h.proper.turn (.news (.hear (lineBytes line)))
  rw [hturn] at hproper ⊢
  set u := e.session.handleLine (readBack line)
  have hbackdrop : u.backdrop = _ := backdrop_handleLine e.session (readBack line)
  have hexchange : u.exchange = e.session.exchange.hearLine (readBack line) :=
    congrArg Session.exchange hbackdrop
  obtain ⟨hboard, htemplates, -⟩ : Keeps e.session u := .of_held (held_handleLine _ _)
    (hexchange ▸ Exchange.completions_hearLine _ _)
  have htalks : Talks D start.session asked (given ++ answers) u := by
    refine ⟨?_, ?_, ?_, hexchange ▸ hs, h.strict, ?_⟩
    · exact (congrArg Session.link hbackdrop).trans h.link
    · exact (congrArg Session.output hbackdrop).trans h.output
    · exact (congrArg Session.outbox hbackdrop).trans h.outbox
    · exact fun g hg => (List.mem_append.mp hg).elim (h.truthful g) (htruthful g)
  refine ⟨htalks, hproper, h.inserts, h.size, ?_, ?_, ?_, ?_, ?_⟩
  · intro i d hi
    obtain ⟨c, hc, hstatus⟩ := h.callers i d hi
    exact ⟨c, hc, hstatus.of_same hboard htemplates⟩
  · intro p hp
    rw [hexchange, hs.mem_pending] at hp
    have hstill : p ∈ e.session.exchange.pending := (h.serves.mem_pending p).mpr
      ⟨hp.1, fun g hg => hp.2 g (List.mem_append_left _ hg)⟩
    exact h.awaited p hstill
  · rw [hboard]
    exact h.claimed
  · rw [hboard]
    exact h.vacant
  · rw [htemplates]
    exact h.others

/-- The debugger answers a command that it has not answered before. -/
theorem answer (h : Loads D start added asked given e) {q : Nat} {p : Pending}
    (hq : asked[q]? = some p) (hnew : ∀ g ∈ given, g.1 ≠ q) {a : Answer}
    (ha : a = D.answer ((asked.take q).map (·.command)) p.command) (line : String) :
    Loads D start added asked (given ++ [(q, a)])
      (e.turn (.news (.hear (lineBytes (Heard.result ⟨line, some p.token, p.command⟩ a.text))))) := by
  obtain ⟨hserves, -⟩ := h.serves.resolve hnew hq a
  set b : Heard := ⟨line, some p.token, p.command⟩
  refine h.hear (newline_not_mem_answer b a) ?_ fun g hg p' hp' => ?_
  · rwa [Exchange.hearLine_result (classify_readBack_result b a)]
  · rw [List.mem_singleton.mp hg] at hp' ⊢
    obtain rfl := Option.some.inj (hq.symm.trans hp')
    exact ha

/-- The debugger prints a line that is no answer. -/
theorem other (h : Loads D start added asked given e) {line : String} (hline : '\n' ∉ line.toList)
    (hnone : Line.result? line = none) :
    Loads D start added asked given (e.turn (.news (.hear (lineBytes line)))) := by
  have hother : ∀ r, classify (readBack line) ≠ .record (.result r) := by
    intro r hr
    rw [classify_readBack, ← classify_eq_result_iff, ← Line.result?_eq_some_iff, hnone] at hr
    cases hr
  have hserves : Exchange.Serves start.session.exchange.issued asked (given ++ [])
      (e.session.exchange.hearLine (readBack line)) := by
    rw [Exchange.hearLine_of_no_result hother, List.append_nil]
    exact h.serves
  have hhear := h.hear hline hserves (by simp)
  rwa [List.append_nil] at hhear

/-! ## One more section -/

/-- An addition writes another command than an insert, and waits for the answer. -/
theorem ask (h : Loads D start added asked given e) (hroom : added.length + 2 ≤ 2 ^ 64) {i : Nat}
    (hi : added[i]? = some d) {o : Ongoing} (ho : e.calls[start.calls.length + i]? = some o)
    (hnone : ∀ p ∈ e.session.exchange.pending, o.ticket? ≠ some p.ticket) {command : String}
    (hother : isInsert command = false)
    (hstatus : Status D start.session (asked ++ [e.session.exchange.nextPending command false])
      (added.take i) d e.session c)
    (hc : c.ticket? = some e.session.exchange.issued)
    (hturn : e.turn (.move (start.calls.length + i) .resume) = ⟨(e.session.issue command false).2,
      e.calls.set (start.calls.length + i) ⟨.addBreakpoint d, some c⟩⟩) :
    Loads D start added (asked ++ [e.session.exchange.nextPending command false]) given
      (e.turn (.move (start.calls.length + i) .resume)) := by
  have hpending := h.length_pending_le
  have hproper := h.proper.turn (.move (start.calls.length + i) .resume)
  have hlt := (List.getElem?_eq_some_iff.mp ho).1
  rw [issue_of_open h.link] at hturn
  rw [hturn] at hproper ⊢
  refine ⟨h.toTalks.ask (by omega) rfl rfl rfl rfl, hproper, ?_, ?_, h.callers.set hi ?_ ?_, ?_,
    h.claimed, h.vacant, h.others⟩
  · have hnot : [command].filter isInsert = [] := by simp [hother]
    rw [List.map_append, List.filter_append, h.inserts]
    exact (congrArg _ hnot).trans (List.append_nil _)
  · rw [List.length_set, h.size]
  · intro k d' c' _ _ hstatus'
    have hmore := hstatus'.mono (v := e.session) (fun _ _ _ => ⟨rfl, Iff.rfl, rfl⟩)
      [e.session.exchange.nextPending command false]
    exact hmore.of_same rfl rfl
  · exact hstatus.of_same rfl rfl
  · intro p hp
    rcases List.mem_append.mp hp with hp | hp
    · exact h.awaited.set ho hnone p hp
    · refine ⟨i, _, List.getElem?_set_self hlt, ?_⟩
      rw [List.mem_singleton.mp hp]
      exact hc

/-- The last section of an addition installs the breakpoint and its template. -/
theorem finish (h : Loads D start added asked given e) (hdistinct : D.Distinct added.length)
    {i j : Nat} (hi : added[i]? = some d) {o : Ongoing}
    (ho : e.calls[start.calls.length + i]? = some o)
    (hnone : ∀ p ∈ e.session.exchange.pending, o.ticket? ≠ some p.ticket)
    (hl : d.location? = some l) (hfirst : isFirst start.session.board (added.take i) l = true)
    (hj : (firsts start.session.board (added.take i)).length = j)
    (htemplate : e.session.logPoints.templates.get? (D.number j) =
      start.session.logPoints.templates.get? (D.number j))
    (hturn : e.turn (.move (start.calls.length + i) .resume) =
      ⟨settle l (some (D.breakpoint j l d)) (D.leave j d e.session),
        e.calls.set (start.calls.length + i)
          ⟨.addBreakpoint d, some (.done (.ok (D.addition j l d)))⟩⟩) :
    Loads D start added asked given (e.turn (.move (start.calls.length + i) .resume)) := by
  obtain ⟨logPoints, hleave, hget⟩ := D.exists_leave_eq j d e.session
  have hproper := h.proper.turn (.move (start.calls.length + i) .resume)
  rw [hleave] at hturn
  rw [hturn] at hproper ⊢
  have hjlt := length_firsts_take_lt hi hl hfirst
  rw [hj] at hjlt
  have hbound := length_firsts_le start.session.board added
  have hnumbers : ∀ k < (firsts start.session.board added).length, k ≠ j →
      D.number j ≠ D.number k := by
    intro k hk hne
    rcases Nat.lt_or_gt_of_ne hne with hlt | hgt
    · exact (hdistinct k j hlt (by omega)).symm
    · exact hdistinct j k hgt (by omega)
  have hboard : ∀ l', l' ≠ l →
      (e.session.board.settle l (some (D.breakpoint j l d))).get? l' = e.session.board.get? l' ∧
        (l' ∈ (e.session.board.settle l (some (D.breakpoint j l d))).reserved ↔
          l' ∈ e.session.board.reserved) := by
    intro l' hne
    refine ⟨Board.get?_settle_of_ne _ hne.symm _, ?_⟩
    rw [Board.mem_reserved_settle, and_iff_left hne]
  have hstands : (e.session.board.settle l (some (D.breakpoint j l d))).get? l =
      some (D.breakpoint j l d) := Board.get?_settle_self _ _ _
  have htalks : Talks D start.session asked given
      (settle l (some (D.breakpoint j l d)) { e.session with logPoints }) :=
    ⟨h.link, h.output, h.outbox, h.serves, h.strict, h.truthful⟩
  refine ⟨htalks, hproper, h.inserts, ?_, h.callers.set hi ?_ ?_, h.awaited.set ho hnone, ?_, ?_, ?_⟩
  · rw [List.length_set, h.size]
  · intro k d' c' hki hk hstatus
    refine hstatus.of_agree fun l' hl' hfirst' => ?_
    obtain ⟨hne, hapart⟩ := first_ne hi hl hfirst hk hl' hfirst' hki
    obtain ⟨hget', hreserved⟩ := hboard l' hne
    have hnumber := hnumbers _ (length_firsts_take_lt hk hl' hfirst') (hj ▸ hapart)
    exact ⟨hget', hreserved, (hget _).trans (if_neg hnumber)⟩
  · have hself := (hget (D.number j)).trans (if_pos rfl)
    rw [htemplate] at hself
    refine .installed hl hfirst hj hstands ?_ hself
    exact fun hmem => ((Board.mem_reserved_settle _ _).mp hmem).2 rfl
  · intro l' hl'
    by_cases hne : l = l'
    · subst hne
      exact Board.isFree_settle_self _ _ _
    · exact (Board.isFree_settle_of_ne _ hne _).trans (h.claimed l' hl')
  · intro l' hl'
    have hne : l' ≠ l := by
      rintro rfl
      exact hl' ⟨(isFirst_iff.mp hfirst).1, d, List.mem_of_getElem? hi, hl⟩
    obtain ⟨hget', hreserved⟩ := hboard l' hne
    obtain ⟨hget'', hreserved'⟩ := h.vacant l' hl'
    exact ⟨hget'.trans hget'', hreserved.trans hreserved'⟩
  · intro id hid
    exact (hget id).trans ((if_neg (hid j hjlt)).trans (h.others id hid))

/-- A call goes on, if the answer that it waits for is there. -/
theorem resume (h : Loads D start added asked given e) (hroom : added.length + 2 ≤ 2 ^ 64)
    (hdistinct : D.Distinct added.length) (i : Nat) : ∃ more,
      Loads D start added (asked ++ more) given (e.turn (.move (start.calls.length + i) .resume)) := by
  cases hi : added[i]? with
  | none =>
    have hnone : e.calls[start.calls.length + i]? = none := by
      rw [List.getElem?_eq_none_iff] at hi ⊢
      rw [h.size]
      omega
    refine ⟨[], ?_⟩
    rwa [Ensemble.turn_move_none hnone, List.append_nil]
  | some d =>
    obtain ⟨c, hc, hstatus⟩ := h.callers i d hi
    have hturn : e.turn (.move (start.calls.length + i) .resume) =
        ⟨(c.advance e.session).2, e.calls.set (start.calls.length + i)
          ⟨.addBreakpoint d, some (c.advance e.session).1⟩⟩ := Ensemble.turn_move hc .resume
    have hstays : c.advance e.session = (c, e.session) → ∃ more, Loads D start added
        (asked ++ more) given (e.turn (.move (start.calls.length + i) .resume)) := by
      intro hadvance
      obtain ⟨hlt, hself⟩ := List.getElem?_eq_some_iff.mp hc
      refine ⟨[], ?_⟩
      rwa [hturn, hadvance, List.append_nil, ← hself, List.set_getElem_self]
    cases hstatus with
    | unplaced hl => exact hstays rfl
    | refused hl hfirst => exact hstays rfl
    | installed hl hfirst hj hstands hreserved htemplate => exact hstays rfl
    | @installing l j q c hl hfirst hj hinstalls hreserved htemplate =>
      obtain ⟨p, release, next, hp, hwaits⟩ := hinstalls.waits
      rcases h.toTalks.reply hp with hpending | hreply
      · have hadvance := Call.advance_eq_self_of_waiting (h.serves.orderly.reply?_eq_none hpending)
          release next
        rw [← hwaits] at hadvance
        exact hstays (advance_enclose_waits hadvance hwaits l)
      · have hnone : ∀ p' ∈ e.session.exchange.pending,
            (⟨.addBreakpoint d, some (enclose l c)⟩ : Ongoing).ticket? ≠ some p'.ticket := by
          intro p' hp' hticket
          rw [hwaits] at hticket
          have hsame : p.ticket = p'.ticket := Option.some.inj hticket
          rw [hsame, h.serves.orderly.reply?_eq_none hp'] at hreply
          cases hreply
        have hgoes := hinstalls.advance h.link h.serves.orderly.reply?_issued hp hreply
        generalize hadvance : c.advance e.session = r at hgoes
        cases hgoes with
        | @asks command c' hother hinstalls' =>
          obtain ⟨p', release', next', hp', hwaits'⟩ := hinstalls'.waits
          rw [List.getElem?_concat_length] at hp'
          obtain rfl := Option.some.inj hp'
          rw [advance_enclose_waits hadvance hwaits' l] at hturn
          refine ⟨[_], h.ask hroom hi hc hnone hother
            (.installing hl hfirst hj hinstalls' hreserved htemplate) ?_ hturn⟩
          rw [hwaits']
          rfl
        | ends =>
          rw [advance_enclose_done hadvance, standing, D.breakpoint?_addition] at hturn
          refine ⟨[], ?_⟩
          rw [List.append_nil]
          exact h.finish hdistinct hi hc hnone hl hfirst hj htemplate hturn

end Loads

end Loading

end MachineInterface

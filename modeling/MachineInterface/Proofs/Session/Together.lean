import MachineInterface.Proofs.Session.Framing
import MachineInterface.Proofs.Session.Gathering
import MachineInterface.Proofs.Session.Loading

/-!
# Together or one by one

Descriptors are added side by side, each by a call of its own. The calls are begun in any order, and
meanwhile a debugger that accepts every insert answers, calls go on, and those that are done are
joined, in any order as well. Once all calls are joined, only the order in which they were begun has
made a difference: all is as if each descriptor had been added after the addition begun before it
was through.

* `Reached.perform`, `Reached.foldl_perform`: what holds at every moment.
* `addBreakpoints_together`: all ways to go on come to the same, and what comes of the order in which
  the descriptors are listed.
-/

namespace MachineInterface

open Session Line

/-- What a call gave that adds a breakpoint, if it is done. -/
def Ongoing.given? : Ongoing → Option (Except Error Addition)
  | ⟨.addBreakpoint _, some c⟩ => c.result?
  | _ => none

namespace Loading

variable {D : Acceptor} {start : Ensemble} {ds added : List Descriptor} {asked : List Pending}
  {given : List (Nat × Answer)}

/-! ## Steps -/

/--
Something that happens while descriptors are added. Which call is begun next is up to whoever runs
the calls, and so is which of them goes on or is joined next.
-/
inductive Step where
  /-- The call that adds the `i`-th descriptor is begun, if it was not begun yet. -/
  | add (i : Nat)
  /-- The debugger answers the `q`-th command, if it has heard it and not answered it yet. -/
  | answer (q : Nat)
  /-- The debugger answers all that it has heard. -/
  | answerAll
  /-- The debugger prints a line that is no answer. -/
  | other (line : String)
  /-- The call that was begun as the `k`-th goes on, as far as it can. -/
  | resume (k : Nat)
  /-- The call that was begun as the `k`-th is joined, if it is done and was not joined yet. -/
  | join (k : Nat)

/-- An ensemble, and how far the additions have come. -/
structure State : Type 1 where
  ensemble : Ensemble
  /-- The places of the descriptors whose calls were begun, in the order in which they were. -/
  begun : List Nat := []
  /-- The commands that were answered. -/
  answered : List Nat := []
  /-- What the calls gave that were joined, each with the place of its descriptor. -/
  joined : List (Nat × Except Error Addition) := []

/-- What the debugger has heard since the first descriptor was added. -/
def heard (start : Ensemble) (st : State) : List (Option UInt64 × String) :=
  (st.ensemble.session.outbox.drop start.session.outbox.length).map Outgoing.issued

/-- The debugger answers a command. -/
def answer (D : Acceptor) (start : Ensemble) (st : State) (q : Nat) : State :=
  match (heard start st)[q]? with
  | some (token, command) =>
    if q ∈ st.answered then st
    else
      let a := D.answer (((heard start st).take q).map (·.2)) command
      let line := Heard.result ⟨command, token, command⟩ a.text
      { st with
        ensemble := st.ensemble.turn (.news (.hear (lineBytes line)))
        answered := st.answered ++ [q] }
  | none => st

/-- What the call has given that was begun as the `k`-th, with its place, unless it was joined. -/
def ended? (start : Ensemble) (st : State) (k : Nat) : Option (Nat × Except Error Addition) :=
  match st.begun[k]?, st.ensemble.calls[start.calls.length + k]?.bind Ongoing.given? with
  | some i, some result => if i ∈ st.joined.map (·.1) then none else some (i, result)
  | _, _ => none

/-- What comes of a step. -/
def perform (D : Acceptor) (start : Ensemble) (ds : List Descriptor) (st : State) : Step → State
  | .add i =>
    match ds[i]? with
    | some d =>
      if i ∈ st.begun then st
      else
        { st with
          ensemble := st.ensemble.turn (.call (.addBreakpoint d))
          begun := st.begun ++ [i] }
    | none => st
  | .answer q => answer D start st q
  | .answerAll => (List.range (heard start st).length).foldl (answer D start) st
  | .other line =>
    if '\n' ∉ line.toList ∧ (Line.result? line).isNone then
      { st with ensemble := st.ensemble.turn (.news (.hear (lineBytes line))) }
    else st
  | .resume k =>
    { st with ensemble := st.ensemble.turn (.move (start.calls.length + k) .resume) }
  | .join k => { st with joined := st.joined ++ (ended? start st k).toList }

/-- What adding a descriptor gives, told those that were added before it. -/
def outcome (D : Acceptor) (b : Board) (before : List Descriptor) (d : Descriptor) :
    Except Error Addition :=
  match d.location? with
  | none => .error .noLocation
  | some l =>
    if isFirst b before l then .ok (D.addition (firsts b before).length l d)
    else .ok .alreadyInstalled

/-! ## Calls that are done stay done -/

section

variable {st : State} {i n : Nat}

theorem due_answer (h : st.ensemble.Due i n) (q : Nat) : (answer D start st q).ensemble.Due i n := by
  unfold answer
  split
  · split
    · exact h
    · exact h.turn (by rintro m ⟨⟩)
  · exact h

theorem due_foldl_answer (h : st.ensemble.Due i n) (qs : List Nat) :
    (qs.foldl (answer D start) st).ensemble.Due i n := by
  induction qs generalizing st with
  | nil => exact h
  | cons q qs ih => exact ih (due_answer h q)

/-- No step takes a call back. -/
theorem due_perform (ds : List Descriptor) (h : st.ensemble.Due i n) (step : Step) :
    (perform D start ds st step).ensemble.Due i n := by
  cases step with
  | add k =>
    unfold perform
    dsimp only
    split
    · split
      · exact h
      · exact h.turn (by rintro m ⟨⟩)
    · exact h
  | answer q => exact due_answer h q
  | answerAll => exact due_foldl_answer h _
  | other line =>
    unfold perform
    dsimp only
    split
    · exact h.turn (by rintro m ⟨⟩)
    · exact h
  | resume k =>
    refine h.turn ?_
    rintro m ⟨⟩
    rfl
  | join k => exact h

theorem due_foldl_perform (h : st.ensemble.Due i n) (steps : List Step) :
    (steps.foldl (perform D start ds) st).ensemble.Due i n := by
  induction steps generalizing st with
  | nil => exact h
  | cons step steps ih => exact ih (due_perform ds h step)

end

/-- Once a call is done, it has given its outcome and left its breakpoint. -/
theorem Loads.ended {e : Ensemble} {d : Descriptor} {k : Nat}
    (h : Loads D start added asked given e) (hdone : e.Due (start.calls.length + k) 0)
    (hk : added[k]? = some d) :
    e.calls[start.calls.length + k]? =
        some ⟨.addBreakpoint d, some (.done (outcome D start.session.board (added.take k) d))⟩ ∧
      ∀ l, d.location? = some l → isFirst start.session.board (added.take k) l = true →
        let j := (firsts start.session.board (added.take k)).length
        e.session.board.get? l = some (D.breakpoint j l d) ∧ l ∉ e.session.board.reserved ∧
          e.session.logPoints.templates.get? (D.number j) =
            (D.template? j d).or (start.session.logPoints.templates.get? (D.number j)) := by
  obtain ⟨c, hc, hstatus⟩ := h.callers k d hk
  obtain ⟨o, ho, hnot⟩ := hdone.done
  obtain rfl := Option.some.inj (hc.symm.trans ho)
  rw [hc]
  cases hstatus with
  | unplaced hl =>
    refine ⟨by simp only [outcome, hl], fun l hl' => ?_⟩
    rw [hl] at hl'
    cases hl'
  | refused hl hfirst =>
    refine ⟨by simp [outcome, hl, hfirst], fun l' hl' hfirst' => ?_⟩
    obtain rfl := Option.some.inj (hl.symm.trans hl')
    rw [hfirst] at hfirst'
    cases hfirst'
  | installing hl hfirst hj hinstalls =>
    obtain ⟨p, release, next, -, rfl⟩ := hinstalls.waits
    cases hnot
  | installed hl hfirst hj hstands hreserved htemplate =>
    refine ⟨by simp [outcome, hl, hfirst, hj], fun l' hl' _ => ?_⟩
    obtain rfl := Option.some.inj (hl.symm.trans hl')
    rw [hj]
    exact ⟨hstands, hreserved, htemplate⟩

/-! ## Every moment -/

/-- A call that is done has given a result for the descriptor at a place. -/
def Gave (D : Acceptor) (start : Ensemble) (ds : List Descriptor) (st : State)
    (e : Nat × Except Error Addition) : Prop :=
  ∃ k d, st.begun[k]? = some e.1 ∧ ds[e.1]? = some d ∧
    st.ensemble.Due (start.calls.length + k) 0 ∧
    e.2 = outcome D start.session.board (pick ds (st.begun.take k)) d

/-- Some of the descriptors were added, in the order in which their calls were begun. -/
structure Reached (D : Acceptor) (start : Ensemble) (ds : List Descriptor)
    (asked : List Pending) (given : List (Nat × Answer)) (st : State) : Prop
    extends Loads D start (pick ds st.begun) asked given st.ensemble where
  answered : st.answered = given.map (·.1)
  bound : ∀ i ∈ st.begun, i < ds.length
  begunOnce : st.begun.Nodup
  gave : ∀ e ∈ st.joined, Gave D start ds st e
  joinedOnce : (st.joined.map (·.1)).Nodup

theorem reached_start (h : Loads D start [] [] [] start) :
    Reached D start ds [] [] { ensemble := start } where
  toLoads := h
  answered := rfl
  bound := by simp
  begunOnce := List.nodup_nil
  gave := by simp
  joinedOnce := List.nodup_nil

namespace Reached

variable {st : State} {i k : Nat} {d : Descriptor}

theorem heard_eq (h : Reached D start ds asked given st) :
    heard start st = asked.map fun p => (some p.token, p.command) := by
  rw [heard, h.outbox, List.drop_left, List.map_map]
  rfl

/-- The calls have come further, and no call was begun or joined. -/
theorem later (h : Reached D start ds asked given st) {e : Ensemble} {asked' : List Pending}
    {given' : List (Nat × Answer)} {answered : List Nat}
    (hloads : Loads D start (pick ds st.begun) asked' given' e)
    (hdue : ∀ k, st.ensemble.Due k 0 → e.Due k 0) (hanswered : answered = given'.map (·.1)) :
    Reached D start ds asked' given' { st with ensemble := e, answered } := by
  refine ⟨hloads, hanswered, h.bound, h.begunOnce, fun r hr => ?_, h.joinedOnce⟩
  obtain ⟨k, d, hk, hd, hdone, hresult⟩ := h.gave r hr
  exact ⟨k, d, hk, hd, hdue _ hdone, hresult⟩

theorem answer (h : Reached D start ds asked given st) (q : Nat) : ∃ more,
    Reached D start ds asked (given ++ more) (answer D start st q) ∧
      (q < asked.length → q ∈ (given ++ more).map (·.1)) := by
  unfold Loading.answer
  split
  · rename_i token command hq
    rw [h.heard_eq, List.getElem?_map, Option.map_eq_some_iff] at hq
    obtain ⟨p, hp, ⟨⟩⟩ := hq
    split
    · rename_i hmem
      refine ⟨[], ?_, ?_⟩
      · rwa [List.append_nil]
      · rw [List.append_nil, ← h.answered]
        exact fun _ => hmem
    · rename_i hmem
      have hnew : ∀ g ∈ given, g.1 ≠ q := by
        rintro g hg rfl
        exact hmem (h.answered ▸ List.mem_map_of_mem hg)
      refine ⟨[(q, _)], h.later (h.toLoads.answer hp hnew ?_ _)
        (fun k hdone => hdone.turn (by rintro m ⟨⟩)) ?_, ?_⟩
      · rw [h.heard_eq, ← List.map_take, List.map_map]
        rfl
      · rw [h.answered, List.map_append]
        rfl
      · simp
  · rename_i hq
    rw [h.heard_eq, List.getElem?_map, Option.map_eq_none_iff, List.getElem?_eq_none_iff] at hq
    refine ⟨[], ?_, fun hlt => absurd hlt (by omega)⟩
    rwa [List.append_nil]

theorem foldl_answer (h : Reached D start ds asked given st) (qs : List Nat) : ∃ more,
    Reached D start ds asked (given ++ more) (qs.foldl (Loading.answer D start) st) ∧
      ∀ q ∈ qs, q < asked.length → q ∈ (given ++ more).map (·.1) := by
  induction qs generalizing given st with
  | nil => exact ⟨[], by rwa [List.append_nil], fun q hq => absurd hq List.not_mem_nil⟩
  | cons q qs ih =>
    obtain ⟨first, hfirst, hq⟩ := h.answer q
    obtain ⟨more, hmore, hqs⟩ := ih hfirst
    refine ⟨first ++ more, ?_, fun q' hq' hlt => ?_⟩
    · rwa [← List.append_assoc]
    · rw [← List.append_assoc]
      rcases List.mem_cons.mp hq' with rfl | hq'
      · rw [List.map_append]
        exact List.mem_append_left _ (hq hlt)
      · exact hqs q' hq' hlt

/-- After the debugger has answered all that it has heard, nothing waits. -/
theorem answerAll (h : Reached D start ds asked given st) : ∃ more,
    Reached D start ds asked (given ++ more) (perform D start ds st .answerAll) ∧
      (perform D start ds st .answerAll).ensemble.session.exchange.pending = [] := by
  obtain ⟨more, hmore, hall⟩ := h.foldl_answer (List.range (heard start st).length)
  refine ⟨more, hmore, hmore.serves.pending_eq_nil fun i hi => ?_⟩
  refine List.mem_map.mp (hall i (List.mem_range.mpr ?_) hi)
  rwa [h.heard_eq, List.length_map]

/-- No more calls were begun than there are descriptors. -/
theorem length_begun_le (h : Reached D start ds asked given st) : st.begun.length ≤ ds.length :=
  length_le_of_nodup h.begunOnce h.bound

theorem length_added (h : Reached D start ds asked given st) :
    (pick ds st.begun).length = st.begun.length :=
  length_pick h.bound

/-- There is room for one more call. -/
theorem length_begun_lt (h : Reached D start ds asked given st) (hi : i < ds.length)
    (hnew : i ∉ st.begun) : st.begun.length < ds.length :=
  length_le_of_nodup (List.nodup_cons.mpr ⟨hnew, h.begunOnce⟩)
    (List.forall_mem_cons.mpr ⟨hi, h.bound⟩)

/-- One more call is begun. -/
theorem enter (h : Reached D start ds asked given st) (hi : ds[i]? = some d)
    (hnew : i ∉ st.begun) {more : List Pending}
    (hloads : Loads D start (pick ds st.begun ++ [d]) (asked ++ more) given
      (st.ensemble.turn (.call (.addBreakpoint d)))) :
    Reached D start ds (asked ++ more) given
      { st with
        ensemble := st.ensemble.turn (.call (.addBreakpoint d))
        begun := st.begun ++ [i] } := by
  refine ⟨?_, h.answered, ?_, ?_, fun e he => ?_, h.joinedOnce⟩
  · rwa [pick_snoc hi]
  · intro k hk
    rcases List.mem_append.mp hk with hk | hk
    · exact h.bound k hk
    · rw [List.mem_singleton.mp hk]
      exact (List.getElem?_eq_some_iff.mp hi).1
  · exact List.nodup_append_comm.mp (List.nodup_cons.mpr ⟨hnew, h.begunOnce⟩)
  · obtain ⟨k, d', hk, hd', hdone, hresult⟩ := h.gave e he
    have hlt := (List.getElem?_eq_some_iff.mp hk).1
    refine ⟨k, d', ?_, hd', hdone.turn (by rintro m ⟨⟩), ?_⟩
    · rw [List.getElem?_append_left hlt, hk]
    · rw [List.take_append_of_le_length (Nat.le_of_lt hlt)]
      exact hresult

/-- A call has given something exactly if it is done, and then its outcome. -/
theorem given?_eq_some_iff (h : Reached D start ds asked given st)
    (hk : st.begun[k]? = some i) (hi : ds[i]? = some d) {r : Except Error Addition} :
    st.ensemble.calls[start.calls.length + k]?.bind Ongoing.given? = some r ↔
      st.ensemble.Due (start.calls.length + k) 0 ∧
        r = outcome D start.session.board (pick ds (st.begun.take k)) d := by
  have hpick : (pick ds st.begun)[k]? = some d := by
    rw [getElem?_pick h.bound, hk, Option.bind_some, hi]
  have hended := fun hdone => (h.toLoads.ended hdone hpick).1
  rw [take_pick h.bound] at hended
  constructor
  · intro hr
    obtain ⟨c, hc, -⟩ := h.callers k d hpick
    rw [hc, Option.bind_some] at hr
    have hdone : st.ensemble.Due (start.calls.length + k) 0 := by
      cases c with
      | done a => exact ⟨_, _, hc, rfl, trivial⟩
      | _ => cases hr
    rw [hended hdone, Option.some.injEq] at hc
    cases hc
    exact ⟨hdone, (Option.some.inj hr).symm⟩
  · rintro ⟨hdone, rfl⟩
    rw [hended hdone]
    rfl

/-- A call that is done is joined. -/
theorem join (h : Reached D start ds asked given st) (k : Nat) :
    Reached D start ds asked given (perform D start ds st (.join k)) := by
  unfold perform ended?
  dsimp only
  split
  · rename_i i r hk hr
    split
    · rwa [Option.toList_none, List.append_nil]
    · rename_i hnew
      have hi := List.getElem?_eq_getElem (h.bound i (List.mem_of_getElem? hk))
      obtain ⟨hdone, hresult⟩ := (h.given?_eq_some_iff hk hi).mp hr
      refine ⟨h.toLoads, h.answered, h.bound, h.begunOnce, fun e he => ?_, ?_⟩
      · rcases List.mem_append.mp he with he | he
        · exact h.gave e he
        · rw [List.mem_singleton.mp he]
          exact ⟨k, _, hk, hi, hdone, hresult⟩
      · rw [Option.toList_some, List.map_append]
        exact List.nodup_append_comm.mp (List.nodup_cons.mpr ⟨hnew, h.joinedOnce⟩)
  · rwa [Option.toList_none, List.append_nil]

/-- Every step keeps what holds. -/
theorem perform (h : Reached D start ds asked given st) (hroom : ds.length + 2 ≤ 2 ^ 64)
    (hdistinct : D.Distinct ds.length) (step : Step) : ∃ asked given,
      Reached D start ds asked given (perform D start ds st step) := by
  have hadded := h.length_added
  have hbegun := h.length_begun_le
  have hfewer : ∀ n ≤ ds.length, D.Distinct n := fun n hn i j hij hj => hdistinct i j hij (by omega)
  cases step with
  | add i =>
    unfold Loading.perform
    dsimp only
    split
    · rename_i d hi
      split
      · exact ⟨asked, given, h⟩
      · rename_i hnew
        have hlt := h.length_begun_lt (List.getElem?_eq_some_iff.mp hi).1 hnew
        obtain ⟨more, hmore⟩ := h.toLoads.add (by omega) (hfewer _ (by omega)) d
        exact ⟨_, _, h.enter hi hnew hmore⟩
    · exact ⟨asked, given, h⟩
  | answer q =>
    obtain ⟨more, hmore, -⟩ := h.answer q
    exact ⟨asked, _, hmore⟩
  | answerAll =>
    obtain ⟨more, hmore, -⟩ := h.answerAll
    exact ⟨asked, _, hmore⟩
  | other line =>
    unfold Loading.perform
    dsimp only
    split
    · rename_i hline
      have hother := h.toLoads.other hline.1 (Option.isNone_iff_eq_none.mp hline.2)
      exact ⟨asked, given, h.later hother (fun k hdone => hdone.turn (by rintro m ⟨⟩)) h.answered⟩
    · exact ⟨asked, given, h⟩
  | resume k =>
    obtain ⟨more, hmore⟩ := h.toLoads.resume (by omega) (hfewer _ (by omega)) k
    exact ⟨_, given, h.later hmore (fun k hdone => hdone.turn (by rintro m ⟨⟩; rfl)) h.answered⟩
  | join k => exact ⟨asked, given, h.join k⟩

/-- In every order of steps the same holds. -/
theorem foldl_perform (h : Reached D start ds asked given st)
    (hroom : ds.length + 2 ≤ 2 ^ 64) (hdistinct : D.Distinct ds.length) (steps : List Step) :
    ∃ asked given, Reached D start ds asked given
      (steps.foldl (Loading.perform D start ds) st) := by
  induction steps generalizing asked given st with
  | nil => exact ⟨asked, given, h⟩
  | cons step steps ih =>
    obtain ⟨asked', given', hstep⟩ := h.perform hroom hdistinct step
    exact ih hstep

end Reached

/-! ## In the end -/

/-- No call that was made since `start` waits. -/
def AllDone (start e : Ensemble) : Prop :=
  ∀ o ∈ e.calls.drop start.calls.length, o.isWaiting = false

/-- For each descriptor a call was joined. -/
def State.IsComplete (ds : List Descriptor) (st : State) : Prop :=
  ∀ i < ds.length, i ∈ st.joined.map (·.1)

/-- The results of the calls that were joined, in the order of the descriptors. -/
def State.results (ds : List Descriptor) (st : State) : List (Except Error Addition) :=
  gather ds.length st.joined

/-- The calls were begun in the order in which the descriptors are listed. -/
def State.InOrder (ds : List Descriptor) (st : State) : Prop := st.begun = List.range ds.length

/-- Two sessions have the same breakpoints, reservations and templates. -/
structure SameTables (s u : Session) : Prop where
  installed : ∀ l, s.board.get? l = u.board.get? l
  reserved : ∀ l, l ∈ s.board.reserved ↔ l ∈ u.board.reserved
  templates : ∀ id, s.logPoints.templates.get? id = u.logPoints.templates.get? id

/-- What stands in the end depends on the descriptors alone. -/
theorem Loads.sameTables {e e' : Ensemble} (h : Loads D start added asked given e)
    (hdone : ∀ k < added.length, e.Due (start.calls.length + k) 0)
    {asked' : List Pending} {given' : List (Nat × Answer)}
    (h' : Loads D start added asked' given' e')
    (hdone' : ∀ k < added.length, e'.Due (start.calls.length + k) 0) :
    SameTables e.session e'.session := by
  have hlt : ∀ {k d}, added[k]? = some d → k < added.length := fun hk =>
    (List.getElem?_eq_some_iff.mp hk).1
  have hplace : ∀ l, e.session.board.get? l = e'.session.board.get? l ∧
      (l ∈ e.session.board.reserved ↔ l ∈ e'.session.board.reserved) := by
    intro l
    by_cases hclaimed : Claimed start.session.board added l
    · obtain ⟨k, d, hk, hl, hfirst⟩ := exists_first hclaimed
      obtain ⟨hget, hreserved, -⟩ := (h.ended (hdone k (hlt hk)) hk).2 l hl hfirst
      obtain ⟨hget', hreserved', -⟩ := (h'.ended (hdone' k (hlt hk)) hk).2 l hl hfirst
      exact ⟨hget.trans hget'.symm, iff_of_false hreserved hreserved'⟩
    · obtain ⟨hget, hreserved⟩ := h.vacant l hclaimed
      obtain ⟨hget', hreserved'⟩ := h'.vacant l hclaimed
      exact ⟨hget.trans hget'.symm, hreserved.trans hreserved'.symm⟩
  refine ⟨fun l => (hplace l).1, fun l => (hplace l).2, fun id => ?_⟩
  by_cases hid : ∀ j < (firsts start.session.board added).length, D.number j ≠ id
  · exact (h.others id hid).trans (h'.others id hid).symm
  · simp only [not_forall, not_not] at hid
    obtain ⟨j, hj, rfl⟩ := hid
    obtain ⟨k, hk, hl, hfirst, hlength⟩ := getElem?_firsts (List.getElem?_eq_getElem hj)
    obtain ⟨-, -, htemplate⟩ := (h.ended (hdone k (hlt hk)) hk).2 _ hl hfirst
    obtain ⟨-, -, htemplate'⟩ := (h'.ended (hdone' k (hlt hk)) hk).2 _ hl hfirst
    rw [hlength] at htemplate htemplate'
    exact htemplate.trans htemplate'.symm

/--
All calls are joined that add some descriptors. They were begun in the order of `all`, the one for
the `i`-th descriptor after those for `before i`.
-/
structure Loaded (D : Acceptor) (start : Ensemble) (ds : List Descriptor) (st : State)
    (all : List Descriptor) (before : Nat → List Descriptor) : Prop where
  size : (st.results ds).length = ds.length
  results : ∀ i d, ds[i]? = some d →
    (st.results ds)[i]? = some (outcome D start.session.board (before i) d)
  inserts : ((heard start st).map (·.2)).filter isInsert =
    (firsts start.session.board all).map fun f => insertCommand f.1 f.2.hitPolicy?
  stands : ∀ i d l, ds[i]? = some d → d.location? = some l →
    isFirst start.session.board (before i) l = true → st.ensemble.session.board.get? l =
      some (D.breakpoint (firsts start.session.board (before i)).length l d)

/-- The results are given by the descriptors that came before each. -/
theorem Loaded.results_eq {all all' : List Descriptor} {before : Nat → List Descriptor}
    {st st' : State} (h : Loaded D start ds st all before) (h' : Loaded D start ds st' all' before) :
    st.results ds = st'.results ds := by
  refine List.ext_getElem? fun i => ?_
  rcases Nat.lt_or_ge i ds.length with hlt | hge
  · have hi := List.getElem?_eq_getElem hlt
    rw [h.results i _ hi, h'.results i _ hi]
  · rw [List.getElem?_eq_none (h.size.le.trans hge), List.getElem?_eq_none (h'.size.le.trans hge)]

/-- Where only descriptors of the list are asked for, those before each are all that matters. -/
theorem Loaded.congr {all : List Descriptor} {before before' : Nat → List Descriptor} {st : State}
    (h : Loaded D start ds st all before) (hsame : ∀ i < ds.length, before i = before' i) :
    Loaded D start ds st all before' where
  size := h.size
  results i d hi := hsame i (List.getElem?_eq_some_iff.mp hi).1 ▸ h.results i d hi
  inserts := h.inserts
  stands i d l hi := hsame i (List.getElem?_eq_some_iff.mp hi).1 ▸ h.stands i d l hi

namespace Reached

variable {st : State} {i k : Nat} {d : Descriptor}

theorem results_of_joined (h : Reached D start ds asked given st) {r : Except Error Addition}
    (hr : (i, r) ∈ st.joined) : (st.results ds)[i]? = some r := by
  obtain ⟨k, d, -, hd, -⟩ := h.gave _ hr
  exact getElem?_gather_of_mem (List.getElem?_eq_some_iff.mp hd).1 hr h.joinedOnce

section

variable (h : Reached D start ds asked given st) (hcomplete : st.IsComplete ds)

include h hcomplete

/-- In the end, the call of each descriptor was joined. -/
theorem gave_of_complete (hi : i < ds.length) :
    ∃ r, (i, r) ∈ st.joined ∧ Gave D start ds st (i, r) := by
  obtain ⟨⟨i', r⟩, hr, rfl⟩ := List.mem_map.mp (hcomplete i hi)
  exact ⟨r, hr, h.gave _ hr⟩

theorem perm_begun : st.begun.Perm (List.range ds.length) := by
  refine (List.perm_ext_iff_of_nodup h.begunOnce List.nodup_range).mpr fun i => ?_
  rw [List.mem_range]
  refine ⟨h.bound i, fun hi => ?_⟩
  obtain ⟨r, -, k, d, hk, -⟩ := h.gave_of_complete hcomplete hi
  exact List.mem_of_getElem? hk

/-- In the end, each call is done and was joined with its outcome. -/
theorem joined_of_complete (hi : ds[i]? = some d) : ∃ k, (pick ds st.begun)[k]? = some d ∧
    (pick ds st.begun).take k = earlier ds st.begun i ∧
    st.ensemble.Due (start.calls.length + k) 0 ∧
    (i, outcome D start.session.board (earlier ds st.begun i) d) ∈ st.joined := by
  obtain ⟨r, hr, k, d', hk, hd', hdone, hresult⟩ :=
    h.gave_of_complete hcomplete (List.getElem?_eq_some_iff.mp hi).1
  obtain rfl := Option.some.inj (hi.symm.trans hd')
  dsimp only at hk hresult
  refine ⟨k, ?_, ?_, hdone, ?_⟩
  · rw [getElem?_pick h.bound, hk, Option.bind_some, hi]
  · rw [take_pick h.bound, earlier_eq h.begunOnce hk]
  · rwa [earlier_eq h.begunOnce hk, ← hresult]

theorem loaded : Loaded D start ds st (pick ds st.begun) (earlier ds st.begun) where
  size := length_gather _ _
  results i d hi := by
    obtain ⟨k, -, -, -, hjoined⟩ := h.joined_of_complete hcomplete hi
    exact h.results_of_joined hjoined
  inserts := by
    rw [h.heard_eq, List.map_map]
    exact h.inserts
  stands i d l hi hl hfirst := by
    obtain ⟨k, hpick, htake, hdone, -⟩ := h.joined_of_complete hcomplete hi
    rw [← htake] at hfirst ⊢
    exact ((h.toLoads.ended hdone hpick).2 l hl hfirst).1

/-- In the end, no call that was begun waits. -/
theorem due_of_complete (hk : k < (pick ds st.begun).length) :
    st.ensemble.Due (start.calls.length + k) 0 := by
  rw [h.length_added] at hk
  obtain ⟨r, -, k', d, hk', -, hdone, -⟩ :=
    h.gave_of_complete hcomplete (h.bound _ (List.getElem_mem hk))
  obtain rfl : k = k' :=
    (List.getElem?_inj hk h.begunOnce).mp ((List.getElem?_eq_getElem hk).trans hk'.symm)
  exact hdone

/-- All ways to go on come to the same in the end, if the calls were begun in the same order. -/
theorem same {st' : State} {asked' : List Pending} {given' : List (Nat × Answer)}
    (h' : Reached D start ds asked' given' st') (hcomplete' : st'.IsComplete ds)
    (hbegun : st'.begun = st.begun) :
    st.results ds = st'.results ds ∧ SameTables st.ensemble.session st'.ensemble.session := by
  have hloads' := h'.toLoads
  have hloaded' := h'.loaded hcomplete'
  have hdue' := fun k => h'.due_of_complete hcomplete' (k := k)
  rw [hbegun] at hloads' hloaded' hdue'
  exact ⟨(h.loaded hcomplete).results_eq hloaded',
    h.toLoads.sameTables (fun k => h.due_of_complete hcomplete) hloads' hdue'⟩

end

end Reached

/-! ## Orders -/

/-- Calls are made, one after the other. -/
def startAll {α : Type} : List (Call α) → Session → List (Call α) × Session
  | [], s => ([], s)
  | c :: calls, s =>
    let (c, s) := c.advance s
    let (calls, s) := startAll calls s
    (c :: calls, s)

/-- All calls that add some descriptors side by side are made, in the order of these. -/
def startLoad (e : Ensemble) (ds : List Descriptor) : Ensemble :=
  let (calls, session) := startAll ((addBreakpoints ds).map (·.run)) e.session
  ⟨session, e.calls ++ List.zipWith (fun d c => ⟨.addBreakpoint d, some c⟩) ds calls⟩

/-- To begin calls in some order is to make them one after the other. -/
theorem foldl_add {order : List Nat} (st : State) (hbound : ∀ i ∈ order, i < ds.length)
    (honce : (st.begun ++ order).Nodup) :
    (order.map Step.add).foldl (perform D start ds) st =
      { st with ensemble := startLoad st.ensemble (pick ds order), begun := st.begun ++ order } := by
  induction order generalizing st with
  | nil => simp [startLoad, addBreakpoints, startAll, pick]
  | cons i order ih =>
    obtain ⟨hi, hrest⟩ := List.forall_mem_cons.mp hbound
    have hnew : i ∉ st.begun := fun hmem =>
      (List.nodup_append.mp honce).2.2 i hmem i List.mem_cons_self rfl
    have hsome := List.getElem?_eq_getElem hi
    have hadd : perform D start ds st (.add i) = { st with
        ensemble := ⟨((addBreakpoint ds[i]).run.advance st.ensemble.session).2, st.ensemble.calls ++
          [⟨.addBreakpoint ds[i], some ((addBreakpoint ds[i]).run.advance st.ensemble.session).1⟩]⟩
        begun := st.begun ++ [i] } := by
      simp only [perform, hsome, if_neg hnew]
      rw [turn_addBreakpoint rfl]
    rw [List.map_cons, List.foldl_cons, hadd, ih _ hrest (by simpa using honce), pick_cons hsome]
    simp [startLoad, addBreakpoints, startAll]

/-- So many times, the debugger answers all that it has heard, and then some calls go on. -/
def attend (calls : List Nat) (times : Nat) : List Step :=
  (List.replicate times (.answerAll :: calls.map .resume)).flatten

/-- All calls are begun in some order, then they go on in step, and in the end they are joined. -/
def atOnce (order : List Nat) : List Step :=
  order.map .add ++ attend (List.range order.length) 3 ++ (List.range order.length).map .join

/-- Each descriptor is added after the addition before it is through. -/
def oneByOne (order : List Nat) : List Step :=
  order.zipIdx.flatMap fun (i, k) => .add i :: attend [k] 3 ++ [.join k]

theorem oneByOne_snoc (order : List Nat) (i : Nat) : oneByOne (order ++ [i]) =
    oneByOne order ++ .add i :: (attend [order.length] 3 ++ [order.length].map .join) := by
  simp [oneByOne, List.zipIdx_append]

section

variable {st : State} {i k n : Nat} {d : Descriptor} {steps : List Step}

theorem ne_add_of_mem_attend {calls : List Nat} {times : Nat} {step : Step}
    (h : step ∈ attend calls times) (i : Nat) : step ≠ .add i := by
  obtain ⟨steps, hsteps, hmem⟩ := List.mem_flatten.mp h
  rw [List.eq_of_mem_replicate hsteps] at hmem
  rcases List.mem_cons.mp hmem with rfl | hmem
  · rintro ⟨⟩
  · obtain ⟨k, -, rfl⟩ := List.mem_map.mp hmem
    rintro ⟨⟩

theorem exists_answer_eq (D : Acceptor) (start : Ensemble) (st : State) (q : Nat) :
    ∃ ensemble answered, answer D start st q = { st with ensemble, answered } := by
  unfold answer
  split
  · split
    · exact ⟨_, _, rfl⟩
    · exact ⟨_, _, rfl⟩
  · exact ⟨_, _, rfl⟩

theorem exists_foldl_answer_eq (D : Acceptor) (start : Ensemble) (st : State) (qs : List Nat) :
    ∃ ensemble answered, qs.foldl (answer D start) st = { st with ensemble, answered } := by
  induction qs generalizing st with
  | nil => exact ⟨_, _, rfl⟩
  | cons q qs ih =>
    obtain ⟨ensemble, answered, hq⟩ := exists_answer_eq D start st q
    rw [List.foldl_cons, hq]
    exact ih _

/-- What was joined stays so, and nothing but the beginning of a call is recorded as one. -/
theorem records_perform (st : State) (step : Step) :
    st.joined <+: (perform D start ds st step).joined ∧
      ((∀ i, step ≠ .add i) → (perform D start ds st step).begun = st.begun) := by
  cases step with
  | add i =>
    refine ⟨?_, fun h => absurd rfl (h i)⟩
    unfold perform
    dsimp only
    split
    · split
      · exact List.prefix_rfl
      · exact List.prefix_rfl
    · exact List.prefix_rfl
  | answer q =>
    obtain ⟨ensemble, answered, hsame⟩ := exists_answer_eq D start st q
    rw [perform, hsame]
    exact ⟨List.prefix_rfl, fun _ => rfl⟩
  | answerAll =>
    obtain ⟨ensemble, answered, hsame⟩ := exists_foldl_answer_eq D start st
      (List.range (heard start st).length)
    rw [perform, hsame]
    exact ⟨List.prefix_rfl, fun _ => rfl⟩
  | other line =>
    unfold perform
    dsimp only
    split
    · exact ⟨List.prefix_rfl, fun _ => rfl⟩
    · exact ⟨List.prefix_rfl, fun _ => rfl⟩
  | resume k => exact ⟨List.prefix_rfl, fun _ => rfl⟩
  | join k => exact ⟨List.prefix_append _ _, fun _ => rfl⟩

theorem begun_foldl_perform (st : State) (h : ∀ step ∈ steps, ∀ i, step ≠ .add i) :
    (steps.foldl (perform D start ds) st).begun = st.begun := by
  induction steps generalizing st with
  | nil => rfl
  | cons step steps ih =>
    obtain ⟨hstep, hsteps⟩ := List.forall_mem_cons.mp h
    exact (ih _ hsteps).trans ((records_perform st step).2 hstep)

/-- What was joined once stays so. -/
theorem mem_joined_perform (h : i ∈ st.joined.map (·.1)) (step : Step) :
    i ∈ (perform D start ds st step).joined.map (·.1) :=
  ((records_perform st step).1.map _).subset h

theorem mem_joined_foldl_perform (h : i ∈ st.joined.map (·.1)) (steps : List Step) :
    i ∈ (steps.foldl (perform D start ds) st).joined.map (·.1) := by
  induction steps generalizing st with
  | nil => exact h
  | cons step steps ih => exact ih (mem_joined_perform h step)

/-- A call whose answer is there has it less to wait for after it has gone on. -/
theorem due_resumes (calls : List Nat) (hp : st.ensemble.Proper)
    (h : k ∈ calls ∧ st.ensemble.Ready (start.calls.length + k) n ∨
      st.ensemble.Due (start.calls.length + k) n) :
    ((calls.map Step.resume).foldl (perform D start ds) st).ensemble.Due
      (start.calls.length + k) n := by
  induction calls generalizing st with
  | nil =>
    rcases h with ⟨hmem, -⟩ | hdue
    · cases hmem
    · exact hdue
  | cons i calls ih =>
    refine ih (hp.turn _) ?_
    rcases h with ⟨hmem, hready⟩ | hdue
    · by_cases hki : k = i
      · subst hki
        exact .inr hready.resume
      · refine .inl ⟨(List.mem_cons.mp hmem).resolve_left hki, hready.turn hp ?_⟩
        intro m hmove
        obtain ⟨hsame, -⟩ := Turn.move.inj hmove
        exact hki (by omega)
    · exact .inr (due_perform ds hdue (.resume i))

/-- When nothing waits, each call that waits has its answer. -/
theorem Loads.reply?_ne_none {e : Ensemble} (h : Loads D start added asked given e)
    (hidle : e.session.exchange.pending = []) (hk : k < added.length) {o : Ongoing}
    (ho : e.calls[start.calls.length + k]? = some o) {ticket : Nat} (ht : o.ticket? = some ticket) :
    e.session.exchange.reply? ticket ≠ none := by
  obtain ⟨c, hc, hstatus⟩ := h.callers k _ (List.getElem?_eq_getElem hk)
  obtain rfl := Option.some.inj (hc.symm.trans ho)
  cases hstatus with
  | unplaced hl => cases ht
  | refused hl hfirst => cases ht
  | installed hl hfirst hj hstands hreserved htemplate => cases ht
  | installing hl hfirst hj hinstalls =>
    obtain ⟨p, release, next, hp, rfl⟩ := hinstalls.waits
    obtain rfl : p.ticket = ticket := Option.some.inj ht
    rcases h.toTalks.reply hp with hpending | hreply
    · rw [hidle] at hpending
      cases hpending
    · rw [hreply]
      exact Option.some_ne_none _

namespace Reached

theorem due_round (h : Reached D start ds asked given st) {calls : List Nat}
    (hmem : k ∈ calls) (hk : k < st.begun.length)
    (hdue : st.ensemble.Due (start.calls.length + k) (n + 1)) :
    ((Step.answerAll :: calls.map .resume).foldl (Loading.perform D start ds) st).ensemble.Due
      (start.calls.length + k) n := by
  obtain ⟨more, hmore, hidle⟩ := h.answerAll
  refine due_resumes calls hmore.proper (.inl ⟨hmem, ?_⟩)
  have hbegun : (Loading.perform D start ds st .answerAll).begun = st.begun :=
    (records_perform st .answerAll).2 (by rintro i ⟨⟩)
  refine (due_perform ds hdue .answerAll).ready fun op ticket release next hc => ?_
  exact hmore.toLoads.reply?_ne_none hidle (by rwa [hmore.length_added, hbegun]) hc rfl

/-- A call is done once it was attended to as often as it may have to wait. -/
theorem due_attend (h : Reached D start ds asked given st) (hroom : ds.length + 2 ≤ 2 ^ 64)
    (hdistinct : D.Distinct ds.length) {calls : List Nat} (hmem : k ∈ calls)
    (hk : k < st.begun.length) (hdue : st.ensemble.Due (start.calls.length + k) n) :
    ((attend calls n).foldl (Loading.perform D start ds) st).ensemble.Due
      (start.calls.length + k) 0 := by
  induction n generalizing asked given st with
  | zero => exact hdue
  | succ n ih =>
    have hsteps : attend calls (n + 1) = (.answerAll :: calls.map .resume) ++ attend calls n := by
      rw [attend, List.replicate_succ, List.flatten_cons]
      rfl
    obtain ⟨asked', given', hround⟩ :=
      h.foldl_perform hroom hdistinct (.answerAll :: calls.map .resume)
    have hbegun : (List.foldl (Loading.perform D start ds) st
        (.answerAll :: calls.map .resume)).begun = st.begun := begun_foldl_perform st (by simp)
    rw [hsteps, List.foldl_append]
    exact ih hround (by rwa [hbegun]) (h.due_round hmem hk hdue)

/-- One more descriptor is added, and its call is done after three answers at most. -/
theorem due_add (h : Reached D start ds asked given st) (hi : ds[i]? = some d)
    (hnew : i ∉ st.begun) : (Loading.perform D start ds st (.add i)).begun = st.begun ++ [i] ∧
      (Loading.perform D start ds st (.add i)).ensemble.Due
        (start.calls.length + st.begun.length) 3 := by
  have hsize := h.size
  rw [h.length_added] at hsize
  simp only [Loading.perform, hi, if_neg hnew, true_and]
  rw [← hsize]
  exact Ensemble.due_call _ (within_addBreakpoint _)

theorem allDone (h : Reached D start ds asked given st)
    (hdue : ∀ k < st.begun.length, st.ensemble.Due (start.calls.length + k) 0) :
    AllDone start st.ensemble := by
  intro o ho
  obtain ⟨k, hk⟩ := List.mem_iff_getElem?.mp ho
  rw [List.getElem?_drop] at hk
  have hlt := (List.getElem?_eq_some_iff.mp hk).1
  have hsize := h.size
  rw [h.length_added] at hsize
  obtain ⟨o', ho', hdone⟩ := (hdue k (by omega)).done
  rwa [Option.some.inj (hk.symm.trans ho')]

/-- A call that is done is there among the joined ones once it was joined. -/
theorem mem_joined_join (h : Reached D start ds asked given st) (hk : st.begun[k]? = some i)
    (hdone : st.ensemble.Due (start.calls.length + k) 0) :
    i ∈ (Loading.perform D start ds st (.join k)).joined.map (·.1) := by
  have hi := List.getElem?_eq_getElem (h.bound i (List.mem_of_getElem? hk))
  have hgave := (h.given?_eq_some_iff hk hi).mpr ⟨hdone, rfl⟩
  by_cases hmem : i ∈ st.joined.map (·.1)
  · exact mem_joined_perform hmem _
  · simp only [Loading.perform, ended?, hk, hgave, if_neg hmem, Option.toList_some, List.map_append]
    exact List.mem_append_right _ (List.mem_singleton_self i)

theorem mem_joined_joins (h : Reached D start ds asked given st) {ks : List Nat} (hmem : k ∈ ks)
    (hk : st.begun[k]? = some i) (hdone : st.ensemble.Due (start.calls.length + k) 0) :
    i ∈ ((ks.map Step.join).foldl (Loading.perform D start ds) st).joined.map (·.1) := by
  induction ks generalizing st with
  | nil => cases hmem
  | cons k' ks ih =>
    rcases List.mem_cons.mp hmem with rfl | hmem
    · exact mem_joined_foldl_perform (h.mem_joined_join hk hdone) _
    · exact ih (h.join k') hmem hk hdone

end Reached

end

/-- The first calls of an order were begun, and each of them has so many answers left at most. -/
def Through (start : Ensemble) (order : List Nat) (n answers : Nat) (st : State) : Prop :=
  st.begun = order.take n ∧ ∀ k < n, st.ensemble.Due (start.calls.length + k) answers

section

variable {order : List Nat} {st : State} {n : Nat}

theorem Through.add {answers : Nat} (h : Reached D start ds asked given st)
    (horder : order.Perm (List.range ds.length)) (hthrough : Through start order n answers st)
    (hanswers : answers ≤ 3) {i : Nat} (hi : order[n]? = some i) :
    Through start order (n + 1) 3 (perform D start ds st (.add i)) := by
  obtain ⟨hbegun, hdue⟩ := hthrough
  have hlt := (List.getElem?_eq_some_iff.mp hi).1
  have htake : order.take (n + 1) = order.take n ++ [i] := by
    rw [List.take_add_one, hi, Option.toList_some]
  have hnodup : (order.take (n + 1)).Nodup :=
    (horder.nodup_iff.mpr List.nodup_range).sublist (List.take_sublist _ _)
  have hnew : i ∉ st.begun := by
    rw [htake, List.nodup_append_comm] at hnodup
    rw [hbegun]
    exact (List.nodup_cons.mp hnodup).1
  have hbound := List.mem_range.mp (horder.mem_iff.mp (List.mem_of_getElem? hi))
  obtain ⟨hbegun', hnext⟩ := h.due_add (List.getElem?_eq_getElem hbound) hnew
  rw [hbegun, List.length_take_of_le hlt.le] at hnext
  refine ⟨hbegun'.trans (by rw [hbegun, htake]), fun k hk => ?_⟩
  rcases Nat.lt_succ_iff_lt_or_eq.mp hk with hlt | rfl
  · exact due_perform ds ((hdue k hlt).mono hanswers) _
  · exact hnext

theorem Through.attend (h : Reached D start ds asked given st) (hroom : ds.length + 2 ≤ 2 ^ 64)
    (hdistinct : D.Distinct ds.length) (hthrough : Through start order n 3 st)
    (hn : n ≤ order.length) (calls : List Nat)
    (hothers : ∀ k < n, k ∉ calls → st.ensemble.Due (start.calls.length + k) 0) :
    Through start order n 0 ((attend calls 3).foldl (perform D start ds) st) := by
  obtain ⟨hbegun, hdue⟩ := hthrough
  refine ⟨(begun_foldl_perform st fun _ => ne_add_of_mem_attend).trans hbegun, fun k hk => ?_⟩
  by_cases hmem : k ∈ calls
  · refine h.due_attend hroom hdistinct hmem ?_ (hdue k hk)
    rwa [hbegun, List.length_take_of_le hn]
  · exact due_foldl_perform (hothers k hk hmem) _

/-- Calls that are through and are joined then have their results among the joined ones. -/
theorem Through.joins (h : Reached D start ds asked given st)
    (hthrough : Through start order n 0 st) (ks : List Nat) :
    let after := (ks.map Step.join).foldl (perform D start ds) st
    Through start order n 0 after ∧
      ∀ k < n, k ∈ ks → ∀ i, order[k]? = some i → i ∈ after.joined.map (·.1) := by
  obtain ⟨hbegun, hdue⟩ := hthrough
  refine ⟨⟨(begun_foldl_perform st fun step hstep i => ?_).trans hbegun,
    fun k hk => due_foldl_perform (hdue k hk) _⟩, fun k hk hmem i hi => ?_⟩
  · obtain ⟨k, -, rfl⟩ := List.mem_map.mp hstep
    rintro ⟨⟩
  · refine h.mem_joined_joins hmem ?_ (hdue k hk)
    rw [hbegun, List.getElem?_take, if_pos hk, hi]

end

section

variable {order : List Nat} {st : State} {n : Nat}
  (h : Reached D start ds [] [] { ensemble := start })
  (hroom : ds.length + 2 ≤ 2 ^ 64) (hdistinct : D.Distinct ds.length)
  (horder : order.Perm (List.range ds.length))

include h hroom hdistinct horder

theorem through_adds (hn : n ≤ order.length) : Through start order n 3
    (((order.take n).map Step.add).foldl (perform D start ds) { ensemble := start }) := by
  induction n with
  | zero => exact ⟨rfl, fun k hk => absurd hk (Nat.not_lt_zero k)⟩
  | succ n ih =>
    obtain ⟨asked, given, hreached⟩ :=
      h.foldl_perform hroom hdistinct ((order.take n).map Step.add)
    have hi : order[n]? = some order[n] := List.getElem?_eq_getElem hn
    rw [List.take_add_one, hi, Option.toList_some, List.map_append, List.foldl_append]
    exact Through.add hreached horder (ih (by omega)) le_rfl hi

/-- Begun at once, all calls come to their end, and each is joined. -/
theorem through_atOnce :
    let after := (atOnce order).foldl (perform D start ds) { ensemble := start }
    Through start order order.length 0 after ∧ ∀ i ∈ order, i ∈ after.joined.map (·.1) := by
  have hadds := through_adds h hroom hdistinct horder le_rfl
  rw [List.take_length] at hadds
  obtain ⟨asked, given, hreached⟩ := h.foldl_perform hroom hdistinct (order.map Step.add)
  have hattend := Through.attend hreached hroom hdistinct hadds le_rfl (List.range order.length)
    fun k hk hmem => absurd (List.mem_range.mpr hk) hmem
  obtain ⟨asked', given', hreached'⟩ :=
    hreached.foldl_perform hroom hdistinct (attend (List.range order.length) 3)
  obtain ⟨hthrough, hjoined⟩ := hattend.joins hreached' (List.range order.length)
  rw [atOnce, List.foldl_append, List.foldl_append]
  refine ⟨hthrough, fun i hi => ?_⟩
  obtain ⟨k, hk⟩ := List.mem_iff_getElem?.mp hi
  have hlt := (List.getElem?_eq_some_iff.mp hk).1
  exact hjoined k hlt (List.mem_range.mpr hlt) i hk

/-- One by one, each call comes to its end and is joined before the next one is begun. -/
theorem through_oneByOne (hn : n ≤ order.length) :
    let after := (oneByOne (order.take n)).foldl (perform D start ds) { ensemble := start }
    Through start order n 0 after ∧ ∀ i ∈ order.take n, i ∈ after.joined.map (·.1) := by
  induction n with
  | zero =>
    exact ⟨⟨rfl, fun k hk => absurd hk (Nat.not_lt_zero k)⟩, fun i hi => absurd hi (by simp)⟩
  | succ n ih =>
    obtain ⟨hbefore, hbeforeJoined⟩ := ih (by omega)
    have hi : order[n]? = some order[n] := List.getElem?_eq_getElem hn
    obtain ⟨asked, given, hreached⟩ := h.foldl_perform hroom hdistinct (oneByOne (order.take n))
    have hadded := Through.add hreached horder hbefore (Nat.zero_le 3) hi
    obtain ⟨asked', given', hreached'⟩ := hreached.perform hroom hdistinct (.add order[n])
    have hattend := Through.attend hreached' hroom hdistinct hadded hn [n]
      fun k hk hmem => due_perform ds (hbefore.2 k (by grind)) _
    obtain ⟨asked'', given'', hreached''⟩ := hreached'.foldl_perform hroom hdistinct (attend [n] 3)
    obtain ⟨hthrough, hjoined⟩ := hattend.joins hreached'' [n]
    have htake : order.take (n + 1) = order.take n ++ [order[n]] := by
      rw [List.take_add_one, hi, Option.toList_some]
    rw [htake, oneByOne_snoc, List.length_take_of_le (by omega), List.foldl_append]
    refine ⟨?_, fun i hmem => ?_⟩
    · rw [List.foldl_cons, List.foldl_append]
      exact hthrough
    · rcases List.mem_append.mp hmem with hmem | hmem
      · exact mem_joined_foldl_perform (hbeforeJoined i hmem) _
      · obtain rfl := List.mem_singleton.mp hmem
        rw [List.foldl_cons, List.foldl_append]
        exact hjoined n (Nat.lt_succ_self n) (List.mem_singleton_self n) _ hi

end

theorem complete_of_through {order : List Nat} {st : State}
    (horder : order.Perm (List.range ds.length))
    (h : Through start order order.length 0 st ∧ ∀ i ∈ order, i ∈ st.joined.map (·.1)) :
    st.begun = order ∧ st.IsComplete ds := by
  obtain ⟨⟨hbegun, -⟩, hjoined⟩ := h
  rw [List.take_length] at hbegun
  exact ⟨hbegun, fun i hi => hjoined i (horder.mem_iff.mpr (List.mem_range.mpr hi))⟩

end Loading

end MachineInterface

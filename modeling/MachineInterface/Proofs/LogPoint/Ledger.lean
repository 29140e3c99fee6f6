import MachineInterface.Proofs.LogPoint.Shares

/-!
# The ledger of log points

What has happened to the log points, without a queue: which templates are registered, which hits ask
for values, and which texts came while a hit was asking.

* `Keeps.note`: the queue agrees with the ledger after one more act.
* `served_in_order`: what waits, what has been told, and what each act tells, by the ledger.
-/

namespace MachineInterface.LogPoints

/-! ## Acts -/

/-- What happens to the log points. -/
inductive Act where
  | register (id : UInt32) (template : LogTemplate)
  | remove (id : UInt32)
  | hit (id : UInt32)
  | console (line : String)
  deriving Repr, DecidableEq

/-- The message that an act returns, and the log points after it. -/
def act (l : LogPoints) : Act → Option String × LogPoints
  | .register id template => (none, l.register id template)
  | .remove id => (none, l.remove id)
  | .hit id => l.onHit id
  | .console line => l.onConsole line

/-- The log points after some acts. -/
def run (acts : List Act) : LogPoints := acts.foldl (fun l a => (l.act a).2) {}

/-- The messages that console lines complete, in order. -/
def toldFrom (l : LogPoints) : List Act → List String
  | [] => []
  | .console line :: acts => (l.onConsole line).1.toList ++ toldFrom (l.onConsole line).2 acts
  | a :: acts => toldFrom (l.act a).2 acts

/-- The messages that console lines complete from the start, in order. -/
def told (acts : List Act) : List String := toldFrom {} acts

theorem run_concat (acts : List Act) (a : Act) : run (acts ++ [a]) = ((run acts).act a).2 := by
  simp [run]

theorem toldFrom_append (l : LogPoints) (before after : List Act) :
    toldFrom l (before ++ after) =
      toldFrom l before ++ toldFrom (before.foldl (fun l a => (l.act a).2) l) after := by
  induction before generalizing l with
  | nil => rfl
  | cons a before ih => cases a <;> simp [toldFrom, ih, act]

theorem told_concat (acts : List Act) (a : Act) :
    told (acts ++ [a]) = told acts ++ toldFrom (run acts) [a] := toldFrom_append {} acts [a]

/-! ## The ledger -/

/-- What has happened to the log points. -/
structure Ledger where
  /-- The template that a hit of a breakpoint asks values for. -/
  registered : UInt32 → Option LogTemplate := fun _ => none
  /-- The hits that ask for values, each with the template at its moment, oldest first. -/
  hits : List LogTemplate := []
  /-- The texts after a dollar sign that came while a hit was asking, oldest first. -/
  texts : List String := []

namespace Ledger

/-- The ledger after one more act. -/
def note (b : Ledger) : Act → Ledger
  | .register id template =>
    { b with registered := fun k => if id = k then some template else b.registered k }
  | .remove id => { b with registered := fun k => if id = k then none else b.registered k }
  | .hit id =>
    match b.registered id with
    | none => b
    | some template =>
      if template.expressions = [] then b else { b with hits := b.hits ++ [template] }
  | .console line =>
    if line.toList.head? = some '$' ∧ b.texts.length < demand b.hits then
      { b with texts := b.texts ++ [line] }
    else b

/-- The hits with the texts that belong to each. -/
def shares (b : Ledger) : List Share := split b.hits b.texts

/-- An act makes a message be told. -/
inductive Tells (b : Ledger) : Act → String → Prop
  /-- A hit that asks for nothing. -/
  | atOnce {id : UInt32} {t : LogTemplate} (ht : b.registered id = some t) (he : t.expressions = []) :
      Tells b (.hit id) (String.ofList t.text)
  /-- The last text that a hit asks for. -/
  | last {line : String} {i : Nat} {s : Share} (hline : line.toList.head? = some '$')
      (hs : (b.note (.console line)).shares[i]? = some s)
      (hlast : b.texts.length + 1 = demand (b.hits.take (i + 1))) : Tells b (.console line) s.message

end Ledger

/-- The ledger of some acts. -/
def ledger (acts : List Act) : Ledger := acts.foldl Ledger.note {}

theorem ledger_concat (acts : List Act) (a : Act) :
    ledger (acts ++ [a]) = (ledger acts).note a := by
  simp [ledger]

/-! ## The queue by the ledger -/

/-- The log points and what they have told agree with a ledger. -/
structure Keeps (l : LogPoints) (said : List String) (b : Ledger) : Prop where
  registered : ∀ id, l.templates.get? id = b.registered id
  asking : ∀ t ∈ b.hits, t.expressions ≠ []
  bounded : b.texts.length ≤ demand b.hits
  waiting : l.waiting = (b.shares.filter (!·.isComplete)).map Share.hit
  said : said = (b.shares.filter (·.isComplete)).map Share.message

variable {l : LogPoints} {said : List String} {b : Ledger}

/-- What stands on both sides of the first hit that lacks a text. -/
structure Asks (b : Ledger) (served : List LogTemplate) (s : Share) (others : List LogTemplate) :
    Prop where
  hits : b.hits = served ++ s.template :: others
  texts : s.texts = b.texts.drop (demand served)
  served : demand served ≤ b.texts.length
  lacks : s.texts.length < s.need

section

variable {served others : List LogTemplate} {s : Share}

theorem Asks.shares (h : Asks b served s others) :
    b.shares = split served b.texts ++ s :: split others [] := by
  have hle : s.texts.length ≤ s.template.expressions.length := h.lacks.le
  rw [Ledger.shares, h.hits, split_append, split_cons, ← h.texts, List.take_of_length_le hle,
    List.drop_of_length_le hle]

/-- A text goes to the first hit that lacks one. -/
theorem Asks.split_concat (h : Asks b served s others) (line : String) :
    split b.hits (b.texts ++ [line]) = split served b.texts ++ s.add line :: split others [] := by
  have hle : (s.texts ++ [line]).length ≤ s.template.expressions.length := by
    have hlacks : s.texts.length < s.template.expressions.length := h.lacks
    rw [List.length_append, List.length_singleton]
    omega
  rw [h.hits, split_append, split_cons, List.drop_append_of_le_length h.served, ← h.texts,
    (split_of_demand_le h.served [line]).1, List.take_of_length_le hle, List.drop_of_length_le hle]
  rfl

theorem Asks.not_complete (h : Asks b served s others) : s.isComplete = false := by
  simpa [Share.isComplete] using h.lacks

/-- What the hits up to the first one that lacks a text ask for. -/
theorem Asks.demand_take (h : Asks b served s others) :
    demand (b.hits.take (served.length + 1)) = demand served + s.need := by
  have hfirst : b.hits[served.length]? = some s.template := by simp [h.hits]
  have hbefore : demand (b.hits.take served.length) = demand served := by
    rw [h.hits, List.take_left]
  rw [demand_take_succ hfirst, hbefore, Share.need]

end

theorem exists_asks (hlt : b.texts.length < demand b.hits) :
    ∃ served s others, Asks b served s others := by
  obtain ⟨served, t, others, hhits, hserved, hlacks⟩ := exists_asking hlt
  refine ⟨served, ⟨t, b.texts.drop (demand served)⟩, others, hhits, rfl, hserved, ?_⟩
  simp only [Share.need, List.length_drop]
  omega

namespace Keeps

theorem waiting_eq_nil (h : Keeps l said b) (hle : demand b.hits ≤ b.texts.length) :
    l.waiting = [] := by
  have hall := (split_of_demand_le hle []).2
  rw [h.waiting, List.map_eq_nil_iff]
  simpa [Ledger.shares] using hall

variable {served others : List LogTemplate} {s : Share}

theorem asks_filter (h : Keeps l said b) (hask : Asks b served s others) (u : Share) :
    (split served b.texts ++ u :: split others []).filter (!·.isComplete) =
        (if u.isComplete then split others [] else u :: split others []) ∧
      (split served b.texts ++ u :: split others []).filter (·.isComplete) =
        (if u.isComplete then split served b.texts ++ [u] else split served b.texts) := by
  refine filter_shares (split_of_demand_le hask.served []).2 fun x hx => ?_
  refine isComplete_of_mem_split_nil (fun t ht => h.asking t ?_) hx
  rw [hask.hits]
  exact List.mem_append_right _ (List.mem_cons_of_mem _ ht)

/-- What a text does to the first hit that lacks one. -/
theorem onConsole_of_asks (h : Keeps l said b) (hask : Asks b served s others) {line : String}
    (hline : line.toList.head? = some '$') :
    l.onConsole line =
      if (s.add line).isComplete then
        (some (s.add line).message, { l with waiting := (split others []).map Share.hit })
      else
        (none, { l with waiting := (s.add line).hit :: (split others []).map Share.hit }) := by
  have hwaiting : l.waiting = s.hit :: (split others []).map Share.hit := by
    rw [h.waiting, hask.shares, (h.asks_filter hask s).1, hask.not_complete]
    rfl
  have hadd : ({ s.hit with values := s.hit.values ++ [LogTemplate.printedValue? line] } : Hit) =
      (s.add line).hit := by
    simp [Share.hit, Share.add]
  have hle : (s.add line).texts.length ≤ (s.add line).need := by
    have hlt := hask.lacks
    simp only [Share.add, List.length_append, List.length_singleton, Share.need] at hlt ⊢
    omega
  rw [onConsole, if_pos (by simpa [printsValue] using hline), hwaiting]
  dsimp only
  rw [hadd, Share.isComplete_hit, Share.message_hit hle]

/-- A text that no hit asks for changes nothing. -/
theorem onConsole_of_served (h : Keeps l said b) (hle : demand b.hits ≤ b.texts.length)
    (line : String) : l.onConsole line = (none, l) := by
  unfold onConsole
  rw [h.waiting_eq_nil hle]
  split <;> rfl

/-- What a hit that asks for values does. -/
theorem onHit_of_asking (h : Keeps l said b) {id : UInt32} {t : LogTemplate}
    (ht : b.registered id = some t) (he : t.expressions ≠ []) :
    l.onHit id = (none, { l with waiting := l.waiting ++ [(Share.mk t []).hit] }) := by
  have hlacks : (Share.mk t []).hit.isComplete = false := by
    rw [Share.isComplete_hit, Share.isComplete_nil he]
  rw [onHit, h.registered, ht]
  dsimp only
  rw [show ({ template := t } : Hit) = (Share.mk t []).hit from rfl, hlacks]
  rfl

/-- What a hit of a message without expressions does. -/
theorem onHit_of_plain (h : Keeps l said b) {id : UInt32} {t : LogTemplate}
    (ht : b.registered id = some t) (he : t.expressions = []) :
    l.onHit id = (some (String.ofList t.text), l) :=
  onHit_of_no_expressions ((h.registered id).trans ht) he

theorem onHit_of_unknown (h : Keeps l said b) {id : UInt32} (hid : b.registered id = none) :
    l.onHit id = (none, l) := by
  rw [onHit, h.registered, hid]

/-! ### One more act -/

theorem note_hit (h : Keeps l said b) (id : UInt32) :
    Keeps (l.onHit id).2 said (b.note (.hit id)) := by
  cases hid : b.registered id with
  | none => rwa [h.onHit_of_unknown hid, Ledger.note, hid]
  | some t =>
    by_cases he : t.expressions = []
    · simp only [h.onHit_of_plain hid he, Ledger.note, hid, if_pos he]
      exact h
    · simp only [h.onHit_of_asking hid he, Ledger.note, hid, if_neg he]
      have hshares : split (b.hits ++ [t]) b.texts = b.shares ++ [Share.mk t []] := by
        rw [split_append, List.drop_of_length_le h.bounded, split_cons, List.take_nil]
        rfl
      have hlacks := Share.isComplete_nil he
      refine ⟨h.registered, ?_, ?_, ?_, ?_⟩
      · simpa [or_imp, forall_and, he] using h.asking
      · rw [demand_append]
        exact h.bounded.trans (Nat.le_add_right _ _)
      · simp [Ledger.shares, hshares, List.filter_append, hlacks, h.waiting]
      · simp [Ledger.shares, hshares, List.filter_append, hlacks, h.said]

theorem note_console (h : Keeps l said b) (line : String) :
    Keeps (l.onConsole line).2 (said ++ (l.onConsole line).1.toList) (b.note (.console line)) := by
  by_cases hline : line.toList.head? = some '$'
  · by_cases hlt : b.texts.length < demand b.hits
    · obtain ⟨served, s, others, hask⟩ := exists_asks hlt
      have hfilter := h.asks_filter hask
      have hsaid := h.said
      rw [hask.shares, (hfilter s).2, hask.not_complete, if_neg Bool.false_ne_true] at hsaid
      simp only [h.onConsole_of_asks hask hline, Ledger.note, hline, hlt, true_and, if_true]
      refine ⟨?_, h.asking, ?_, ?_, ?_⟩
      · cases (s.add line).isComplete <;> exact h.registered
      · rw [List.length_append, List.length_singleton]
        exact hlt
      · rw [Ledger.shares, hask.split_concat, (hfilter (s.add line)).1]
        cases (s.add line).isComplete <;> rfl
      · rw [Ledger.shares, hask.split_concat, (hfilter (s.add line)).2, hsaid]
        cases (s.add line).isComplete <;> simp
    · have hserved := h.onConsole_of_served (Nat.le_of_not_lt hlt) line
      simp only [hserved, Ledger.note, hlt, and_false, if_false, Option.toList_none, List.append_nil]
      exact h
  · have hplain : l.onConsole line = (none, l) :=
      onConsole_of_not_value (by simpa [printsValue] using hline)
    simp only [hplain, Ledger.note, hline, false_and, if_false, Option.toList_none, List.append_nil]
    exact h

/-- The queue agrees with the ledger after one more act. -/
theorem note (h : Keeps l said b) (a : Act) :
    Keeps (l.act a).2 (said ++ toldFrom l [a]) (b.note a) := by
  cases a with
  | register id t =>
    rw [show toldFrom l [.register id t] = [] from rfl, List.append_nil]
    refine { h with registered := fun k => ?_ }
    exact (Table.get?_insert l.templates id k t).trans (by rw [h.registered, Ledger.note])
  | remove id =>
    rw [show toldFrom l [.remove id] = [] from rfl, List.append_nil]
    refine { h with registered := fun k => ?_ }
    exact (Table.get?_erase l.templates id k).trans (by rw [h.registered, Ledger.note])
  | hit id =>
    rw [show toldFrom l [.hit id] = [] from rfl, List.append_nil]
    exact h.note_hit id
  | console line =>
    rw [show toldFrom l [.console line] = (l.onConsole line).1.toList from List.append_nil _]
    exact h.note_console line

/-! ### What an act tells -/

theorem tells_hit_iff (h : Keeps l said b) (id : UInt32) (m : String) :
    (l.onHit id).1 = some m ↔ b.Tells (.hit id) m := by
  constructor
  · intro hm
    cases hid : b.registered id with
    | none =>
      rw [h.onHit_of_unknown hid] at hm
      cases hm
    | some t =>
      by_cases he : t.expressions = []
      · rw [h.onHit_of_plain hid he] at hm
        cases hm
        exact .atOnce hid he
      · rw [h.onHit_of_asking hid he] at hm
        cases hm
  · rintro (⟨ht, he⟩ | _)
    rw [h.onHit_of_plain ht he]

end Keeps

/-- The text that completes a share is the last one that its hit and those before it ask for. -/
theorem Asks.last_iff {served others : List LogTemplate} {s : Share} (h : Asks b served s others)
    {line : String} : (s.add line).isComplete = true ↔
      b.texts.length + 1 = demand (b.hits.take (served.length + 1)) := by
  have hlacks := h.lacks
  have hserved := h.served
  rw [h.texts, List.length_drop, Share.need] at hlacks
  rw [h.demand_take]
  simp only [Share.isComplete, Share.add, Share.need, decide_eq_true_eq, List.length_append,
    List.length_singleton, h.texts, List.length_drop]
  omega

namespace Keeps

variable {served others : List LogTemplate} {s : Share}

/-- The share that a text completes is the one of the first hit that lacks a text. -/
theorem index_eq (h : Keeps l said b) (hask : Asks b served s others) {i : Nat} {t : LogTemplate}
    (hi : b.hits[i]? = some t) (hlast : b.texts.length + 1 = demand (b.hits.take (i + 1))) :
    i = served.length := by
  have hlacks := hask.lacks
  have hserved := hask.served
  rw [hask.texts, List.length_drop] at hlacks
  have hbefore : demand (b.hits.take served.length) = demand served := by
    rw [hask.hits, List.take_left]
  have hafter := hask.demand_take
  have hpos : 0 < t.expressions.length :=
    List.length_pos_iff.mpr (h.asking t (List.mem_of_getElem? hi))
  rcases Nat.lt_trichotomy i served.length with hlt | heq | hlt
  · have hle := demand_take_le b.hits (Nat.succ_le_of_lt hlt)
    rw [Nat.succ_eq_add_one] at hle
    omega
  · exact heq
  · have hle := demand_take_le b.hits (Nat.succ_le_of_lt hlt)
    have hstep := demand_take_succ hi
    rw [Nat.succ_eq_add_one] at hle
    omega

theorem tells_console_iff (h : Keeps l said b) (line m : String) :
    (l.onConsole line).1 = some m ↔ b.Tells (.console line) m := by
  constructor
  · intro hm
    by_cases hline : line.toList.head? = some '$'
    · by_cases hlt : b.texts.length < demand b.hits
      · obtain ⟨served, s, others, hask⟩ := exists_asks hlt
        rw [h.onConsole_of_asks hask hline] at hm
        by_cases hcomplete : (s.add line).isComplete = true
        · rw [if_pos hcomplete] at hm
          cases hm
          have hshares : (b.note (.console line)).shares[served.length]? = some (s.add line) := by
            rw [Ledger.note, if_pos ⟨hline, hlt⟩, Ledger.shares, hask.split_concat]
            simp [length_split]
          exact .last hline hshares (hask.last_iff.mp hcomplete)
        · rw [if_neg hcomplete] at hm
          cases hm
      · rw [h.onConsole_of_served (Nat.le_of_not_lt hlt)] at hm
        cases hm
    · rw [onConsole_of_not_value (by simpa [printsValue] using hline)] at hm
      cases hm
  · rintro (_ | ⟨hline, hs, hlast⟩)
    rename_i i u
    have hlt : b.texts.length < demand b.hits := by
      have hle := demand_take_le b.hits (Nat.le_max_left (i + 1) b.hits.length)
      rw [List.take_of_length_le (Nat.le_max_right _ _)] at hle
      omega
    obtain ⟨served, s, others, hask⟩ := exists_asks hlt
    rw [Ledger.note, if_pos ⟨hline, hlt⟩, Ledger.shares] at hs
    obtain ⟨t, hi⟩ : ∃ t, b.hits[i]? = some t := by
      obtain ⟨hlength, -⟩ := List.getElem?_eq_some_iff.mp hs
      rw [length_split] at hlength
      exact ⟨_, List.getElem?_eq_getElem hlength⟩
    obtain rfl := h.index_eq hask hi hlast
    rw [hask.split_concat] at hs
    have hu : s.add line = u := by simpa [length_split] using hs
    rw [h.onConsole_of_asks hask hline, if_pos (hask.last_iff.mpr hlast), hu]

end Keeps

/-- The queue agrees with the ledger at every time. -/
theorem keeps_run (acts : List Act) : Keeps (run acts) (told acts) (ledger acts) := by
  induction acts using List.reverseRecOn with
  | nil => exact ⟨fun _ => rfl, by simp [ledger], Nat.zero_le _, rfl, rfl⟩
  | append_singleton acts a ih =>
    rw [run_concat, told_concat, ledger_concat]
    exact ih.note a

theorem Keeps.waiting_ne_nil_iff (h : Keeps l said b) :
    l.waiting ≠ [] ↔ b.texts.length < demand b.hits := by
  constructor
  · intro hwaiting
    by_contra hle
    exact hwaiting (h.waiting_eq_nil (Nat.le_of_not_lt hle))
  · intro hlt
    obtain ⟨served, s, others, hask⟩ := exists_asks hlt
    rw [h.waiting, hask.shares, (h.asks_filter hask s).1, hask.not_complete]
    simp

theorem Keeps.tells_iff (h : Keeps l said b) (a : Act) (m : String) :
    (l.act a).1 = some m ↔ b.Tells a m := by
  cases a with
  | register id t => exact ⟨by rintro ⟨⟩, by rintro ⟨⟩⟩
  | remove id => exact ⟨by rintro ⟨⟩, by rintro ⟨⟩⟩
  | hit id => exact h.tells_hit_iff id m
  | console line => exact h.tells_console_iff line m

/--
Hits are served first in, first out. A hit waits with the template of its moment until it has as many
texts as it asks for, counted on from those of the hits before it; the text that is its last one makes
its message be told. A hit that asks for nothing is told at once, and nothing else tells anything.
-/
theorem served_in_order (acts : List Act) :
    (∀ id, (run acts).templates.get? id = (ledger acts).registered id) ∧
      ((run acts).waiting ≠ [] ↔ (ledger acts).texts.length < demand (ledger acts).hits) ∧
      (run acts).waiting = ((ledger acts).shares.filter (!·.isComplete)).map Share.hit ∧
      told acts = ((ledger acts).shares.filter (·.isComplete)).map Share.message ∧
      (∀ a m, ((run acts).act a).1 = some m ↔ (ledger acts).Tells a m) ∧
      ∀ line value, LogTemplate.printedValue? line = some value ↔ LogTemplate.PrintsValue line value :=
  have h := keeps_run acts
  ⟨h.registered, h.waiting_ne_nil_iff, h.waiting, h.said, h.tells_iff,
    fun _ _ => LogTemplate.printedValue?_eq_some_iff⟩

end MachineInterface.LogPoints

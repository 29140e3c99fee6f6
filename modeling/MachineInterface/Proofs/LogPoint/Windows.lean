import MachineInterface.Proofs.LogPoint.Ledger

/-!
# The windows of the hits

A debugger prints the values of a hit before the next breakpoint is hit. The window of a hit is what
is printed in between; the queue does not know it, as a text carries no link to its hit.

* `texts_note`: as long as no window ends short, the texts counted are those of the windows.
* `told_own_iff`: exactly then every message shows the values of its own window.
* `shifted_values`: what is told when one value is missing.
-/

namespace MachineInterface.LogPoints

/-- The hits that ask for values, each with the texts that came before the next breakpoint was hit. -/
structure Windows where
  registered : UInt32 → Option LogTemplate := fun _ => none
  /-- The hits after which another breakpoint was hit, oldest first. -/
  closed : List Share := []
  /-- The last hit, if it asks for values and no other breakpoint was hit since. -/
  current : Option Share := none

namespace Windows

/-- All hits that ask for values, oldest first. -/
def all (w : Windows) : List Share := w.closed ++ w.current.toList

def note (w : Windows) : Act → Windows
  | .register id template =>
    { w with registered := fun k => if id = k then some template else w.registered k }
  | .remove id => { w with registered := fun k => if id = k then none else w.registered k }
  | .hit id =>
    { w with
      closed := w.all
      current := ((w.registered id).filter (·.expressions ≠ [])).map (Share.mk · []) }
  | .console line =>
    if line.toList.head? = some '$' then { w with current := w.current.map (·.add line) } else w

/-- No window ended before the hit had as many texts as it asks for. -/
def NoneShort (w : Windows) : Prop := ∀ s ∈ w.closed, s.isComplete = true

end Windows

/-- The windows of some acts. -/
def windows (acts : List Act) : Windows := acts.foldl Windows.note {}

theorem windows_concat (acts : List Act) (a : Act) :
    windows (acts ++ [a]) = (windows acts).note a := by
  simp [windows]

/-- The texts that count in complete windows are dealt out to the hits of these windows. -/
theorem split_of_complete {ss : List Share} (h : ∀ s ∈ ss, s.isComplete = true)
    (texts : List String) :
    split (ss.map Share.template) (ss.flatMap Share.counted ++ texts) =
        ss.map Share.cut ∧
      demand (ss.map Share.template) = (ss.flatMap Share.counted).length := by
  induction ss with
  | nil => simp [split, demand]
  | cons s ss ih =>
    obtain ⟨hsplit, hdemand⟩ := ih fun t ht => h t (List.mem_cons_of_mem _ ht)
    have hlength : s.counted.length = s.template.expressions.length :=
      Share.length_counted (h s List.mem_cons_self)
    constructor
    · rw [List.map_cons, split_cons, List.flatMap_cons, List.append_assoc,
        List.take_left' hlength, List.drop_left' hlength, hsplit]
      rfl
    · rw [List.map_cons, demand_cons, List.flatMap_cons, List.length_append, hdemand, hlength]

/-! ## The ledger by the windows -/

/-- A ledger and windows are about the same acts. -/
structure Matches (b : Ledger) (w : Windows) : Prop where
  registered : b.registered = w.registered
  hits : b.hits = w.all.map Share.template
  texts : w.NoneShort → b.texts = w.all.flatMap Share.counted

namespace Matches

variable {b : Ledger} {w : Windows}

theorem of_all_eq (h : Matches b w) {v : Windows} (hregistered : v.registered = w.registered)
    (hall : v.all = w.all) (hshort : v.NoneShort → w.NoneShort) : Matches b v :=
  ⟨h.registered.trans hregistered.symm, h.hits.trans (congrArg _ hall.symm),
    fun hv => (h.texts (hshort hv)).trans (congrArg _ hall.symm)⟩

theorem note_hit (h : Matches b w) (id : UInt32) :
    Matches (b.note (.hit id)) (w.note (.hit id)) := by
  have hshort (hv : (w.note (.hit id)).NoneShort) : w.NoneShort := fun s hs =>
    hv s (List.mem_append_left _ hs)
  cases hid : w.registered id with
  | none =>
    rw [Ledger.note, h.registered, hid]
    exact h.of_all_eq rfl (by simp [Windows.note, Windows.all, hid]) hshort
  | some t =>
    rw [Ledger.note, h.registered, hid]
    dsimp only
    by_cases he : t.expressions = []
    · rw [if_pos he]
      exact h.of_all_eq rfl (by simp [Windows.note, Windows.all, hid, he]) hshort
    · have hall : (w.note (.hit id)).all = w.all ++ [⟨t, []⟩] := by
        simp [Windows.note, Windows.all, hid, he]
      rw [if_neg he]
      refine ⟨rfl, ?_, fun hv => ?_⟩
      · rw [hall, List.map_append, h.hits]
        rfl
      · rw [hall, List.flatMap_append, h.texts (hshort hv)]
        simp [Share.counted]

/-- If no window ended short, a text is asked for exactly if the last window lacks one. -/
theorem lt_demand_iff (h : Matches b w) (hw : w.NoneShort) :
    b.texts.length < demand b.hits ↔ ∃ s, w.current = some s ∧ s.isComplete = false := by
  have hclosed := (split_of_complete hw []).2
  rw [h.hits, h.texts hw, Windows.all, List.map_append, demand_append, List.flatMap_append,
    List.length_append, hclosed]
  cases w.current with
  | none => simp [demand]
  | some s =>
    have hiff := s.isComplete_iff_length_counted
    have hdemand : demand [s.template] = s.need := by simp [demand, Share.need]
    simp only [Option.toList_some, List.map_cons, List.map_nil, hdemand, List.flatMap_cons,
      List.flatMap_nil, List.append_nil, Option.some.injEq, exists_eq_left', ← Bool.not_eq_true,
      hiff]
    omega

theorem note_console (h : Matches b w) {line : String} (hline : line.toList.head? = some '$') :
    Matches (b.note (.console line)) (w.note (.console line)) := by
  have hnote : w.note (.console line) = { w with current := w.current.map (·.add line) } := by
    rw [Windows.note, if_pos hline]
  have hhits : (w.note (.console line)).all.map Share.template = w.all.map Share.template := by
    rw [hnote, Windows.all, Windows.all]
    cases w.current <;> simp [Share.add]
  refine ⟨?_, ?_, fun hv => ?_⟩
  · rw [hnote, Ledger.note]
    split <;> exact h.registered
  · rw [hhits, ← h.hits, Ledger.note]
    split <;> rfl
  · have hw : w.NoneShort := by rwa [hnote] at hv
    have hasks := h.lt_demand_iff hw
    have htexts := h.texts hw
    rw [Windows.all, List.flatMap_append] at htexts
    rw [hnote, Windows.all, List.flatMap_append, Ledger.note]
    cases hcurrent : w.current with
    | none =>
      rw [hcurrent] at hasks htexts
      have hnot : ¬ b.texts.length < demand b.hits := by simp [hasks]
      rw [if_neg (fun hand => hnot hand.2), htexts]
      rfl
    | some s =>
      rw [hcurrent] at hasks htexts
      cases hs : s.isComplete with
      | true =>
        have hnot : ¬ b.texts.length < demand b.hits := by simp [hasks, hs]
        rw [if_neg (fun hand => hnot hand.2), htexts]
        simp [Share.counted_add, hs]
      | false =>
        have hlt : b.texts.length < demand b.hits := hasks.mpr ⟨s, rfl, hs⟩
        rw [if_pos ⟨hline, hlt⟩, htexts]
        simp [Share.counted_add, hs]

theorem note (h : Matches b w) (a : Act) : Matches (b.note a) (w.note a) := by
  cases a with
  | register id t =>
    refine ⟨?_, h.hits, h.texts⟩
    rw [Ledger.note, Windows.note, h.registered]
  | remove id =>
    refine ⟨?_, h.hits, h.texts⟩
    rw [Ledger.note, Windows.note, h.registered]
  | hit id => exact h.note_hit id
  | console line =>
    by_cases hline : line.toList.head? = some '$'
    · exact h.note_console hline
    · rw [Ledger.note, Windows.note, if_neg hline, if_neg fun hand => hline hand.1]
      exact h

end Matches

theorem matches_run (acts : List Act) : Matches (ledger acts) (windows acts) := by
  induction acts using List.reverseRecOn with
  | nil => exact ⟨rfl, rfl, fun _ => rfl⟩
  | append_singleton acts a ih =>
    rw [ledger_concat, windows_concat]
    exact ih.note a

/-! ## What is told -/

/-- If no window ended short, each hit has the texts that count in its own window. -/
theorem Matches.shares_eq {b : Ledger} {w : Windows} (h : Matches b w) (hw : w.NoneShort) :
    b.shares = w.all.map Share.cut := by
  obtain ⟨hclosed, hdemand⟩ := split_of_complete hw (w.current.toList.flatMap Share.counted)
  rw [Ledger.shares, h.hits, h.texts hw, Windows.all, List.map_append, List.flatMap_append,
    split_append, hclosed, hdemand, List.drop_left, List.map_append]
  cases w.current with
  | none => rfl
  | some s =>
    have hcounted : s.counted.take s.template.expressions.length = s.counted := s.counted_cut
    simp [split, demand, hcounted, Share.cut]

/-- If no window ended short, every message shows the values of its own window. -/
theorem told_of_noneShort {acts : List Act} (hw : (windows acts).NoneShort) :
    told acts = ((windows acts).all.filter (·.isComplete)).map Share.message := by
  rw [(keeps_run acts).said, (matches_run acts).shares_eq hw, List.filter_map, List.map_map]
  have hcomplete : ((·.isComplete) ∘ Share.cut : Share → Bool) = (·.isComplete) :=
    funext Share.isComplete_cut
  have hmessage : Share.message ∘ Share.cut = Share.message := funext Share.message_cut
  rw [hcomplete, hmessage]

/-! ## More lines, no more hits -/

theorem closed_consoles (acts : List Act) (lines : List String) :
    (windows (acts ++ lines.map .console)).closed = (windows acts).closed := by
  induction lines using List.reverseRecOn with
  | nil => simp
  | append_singleton lines line ih =>
    rw [List.map_append, ← List.append_assoc, List.map_cons, List.map_nil, windows_concat, ← ih,
      Windows.note]
    split <;> rfl

/-- Enough texts serve every hit. -/
theorem demand_le_consoles (acts : List Act) (n : Nat) :
    let b := ledger (acts ++ (List.replicate n "$").map .console)
    b.hits = (ledger acts).hits ∧ (n ≤ b.texts.length ∨ demand b.hits ≤ b.texts.length) := by
  induction n with
  | zero => simp
  | succ n ih =>
    obtain ⟨hhits, hle⟩ := ih
    rw [List.replicate_succ', List.map_append, ← List.append_assoc, List.map_cons, List.map_nil,
      ledger_concat, Ledger.note]
    split
    · refine ⟨hhits, .inl ?_⟩
      rw [List.length_append, List.length_singleton]
      omega
    · rename_i hnot
      refine ⟨hhits, .inr (Nat.le_of_not_lt fun hlt => hnot ⟨rfl, hlt⟩)⟩

/-- After a window that ended short, some message will show a value that is not of its window. -/
theorem noneShort_of_told {acts : List Act}
    (h : ∀ lines : List String, told (acts ++ lines.map .console) =
      ((windows (acts ++ lines.map .console)).all.filter (·.isComplete)).map Share.message) :
    (windows acts).NoneShort := by
  intro s hs
  by_contra hshort
  -- After so many more lines every hit has been told, but by the windows the short one has not.
  obtain ⟨n, hn⟩ : ∃ n, n = demand (ledger acts).hits := ⟨_, rfl⟩
  obtain ⟨hhits, hle⟩ := demand_le_consoles acts n
  have htold := h (List.replicate n "$")
  rw [← closed_consoles acts (List.replicate n "$")] at hs
  generalize acts ++ (List.replicate n "$").map .console = more at *
  have hserved : demand (ledger more).hits ≤ (ledger more).texts.length := by
    rw [← hhits] at hn
    omega
  have hall := (split_of_demand_le hserved []).2
  rw [(keeps_run more).said, Ledger.shares, List.filter_eq_self.mpr hall] at htold
  have hlength := congrArg List.length htold
  rw [List.length_map, List.length_map, length_split, (matches_run more).hits, List.length_map]
    at hlength
  have hlt := List.length_filter_lt_length_iff_exists.mpr
    ⟨s, List.mem_append_left (windows more).current.toList hs, hshort⟩
  exact absurd hlength.symm hlt.ne

/-! ## Texts before a hit -/

theorem ledger_append (before after : List Act) : ∃ hits texts,
    (ledger (before ++ after)).hits = (ledger before).hits ++ hits ∧
      (ledger (before ++ after)).texts = (ledger before).texts ++ texts := by
  induction after using List.reverseRecOn with
  | nil => exact ⟨[], [], by simp, by simp⟩
  | append_singleton after a ih =>
    obtain ⟨hits, texts, hhits, htexts⟩ := ih
    rw [← List.append_assoc, ledger_concat]
    cases a with
    | register id t => exact ⟨hits, texts, hhits, htexts⟩
    | remove id => exact ⟨hits, texts, hhits, htexts⟩
    | hit id =>
      rw [Ledger.note]
      split
      · exact ⟨hits, texts, hhits, htexts⟩
      · split
        · exact ⟨hits, texts, hhits, htexts⟩
        · exact ⟨hits ++ [_], texts, by rw [hhits, List.append_assoc], htexts⟩
    | console line =>
      rw [Ledger.note]
      split
      · exact ⟨hits, texts ++ [line], hhits, by rw [htexts, List.append_assoc]⟩
      · exact ⟨hits, texts, hhits, htexts⟩

/-- No text that came before a hit belongs to it. -/
theorem texts_after_hit (before after : List Act) :
    ∀ s ∈ (ledger (before ++ after)).shares.drop (ledger before).hits.length,
      s.texts <:+: (ledger (before ++ after)).texts.drop (ledger before).texts.length := by
  intro s hs
  obtain ⟨hits, texts, hhits, -⟩ := ledger_append before after
  rw [Ledger.shares, hhits, split_append, List.drop_left' (length_split _ _)] at hs
  obtain ⟨i, t, rfl⟩ := List.mem_mapIdx.mp hs
  obtain ⟨k, hk⟩ := Nat.exists_eq_add_of_le (keeps_run before).bounded
  rw [hk, ← List.drop_drop]
  exact ((List.take_prefix _ _).isInfix.trans (List.drop_suffix _ _).isInfix).trans
    (List.drop_suffix _ _).isInfix

/--
What belongs to a hit came after it. Every message shows the values of its own window, no matter what
the console prints next, if and only if no window ended short.
-/
theorem told_own_iff (acts : List Act) :
    (∀ before after, acts = before ++ after →
      ∀ s ∈ (ledger acts).shares.drop (ledger before).hits.length,
        s.texts <:+: (ledger acts).texts.drop (ledger before).texts.length) ∧
      ((windows acts).NoneShort ↔ ∀ lines : List String,
        told (acts ++ lines.map .console) =
          ((windows (acts ++ lines.map .console)).all.filter (·.isComplete)).map Share.message) := by
  refine ⟨?_, ?_, noneShort_of_told⟩
  · rintro before after rfl
    exact texts_after_hit before after
  · intro hw lines
    refine told_of_noneShort fun s hs => hw s ?_
    rwa [closed_consoles] at hs

/--
If the value of a hit is missing, the hit shows the value of the next one, and so does every hit after
it. By the windows, the first message would keep its marker and the others would show their own values.
-/
theorem shifted_values :
    let x : LogTemplate := ⟨['x', '=', LogTemplate.marker], ["x"]⟩
    let y : LogTemplate := ⟨['y', '=', LogTemplate.marker], ["y"]⟩
    let acts : List Act := [.register 1 x, .register 2 y, .hit 1, .hit 2, .console "$1 = 5\n", .hit 2,
      .console "$2 = 6\n"]
    told acts = ["x=5", "y=6"] ∧
      (windows acts).all.map Share.message = ["x=\uFFFC", "y=5", "y=6"] := by
  decide

end MachineInterface.LogPoints

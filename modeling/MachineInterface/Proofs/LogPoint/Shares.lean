import MachineInterface.LogPoint.Queue
import MachineInterface.Proofs.LogPoint.Filling
import Mathlib.Algebra.GroupWithZero.Nat
import Mathlib.Data.List.Induction

/-!
# Shares of the hits

The texts that a debugger prints are dealt out to the hits in order, to each as many as it has
expressions.

* `split_append`: the first hits are served before the others see a text.
* `exists_asking`: if not all texts have come, there is a first hit that lacks one.
-/

namespace MachineInterface.LogPoints

/-- A hit with the texts that belong to it. -/
structure Share where
  template : LogTemplate
  texts : List String := []
  deriving Repr, DecidableEq

namespace Share

/-- How many texts a hit asks for. -/
def need (s : Share) : Nat := s.template.expressions.length

/-- Whether a hit has all of its texts. -/
def isComplete (s : Share) : Bool := s.need ≤ s.texts.length

/-- The hit as it stands in the queue. -/
def hit (s : Share) : Hit := ⟨s.template, s.texts.map LogTemplate.printedValue?⟩

/-- The texts up to the last one that the hit asks for. -/
def counted (s : Share) : List String := s.texts.take s.need

/-- The message of a hit, with the values that its texts print. -/
def message (s : Share) : String :=
  String.ofList (LogTemplate.filled s.template.text (s.counted.map LogTemplate.printedValue?))

/-- The share with one more text. -/
def add (s : Share) (line : String) : Share := { s with texts := s.texts ++ [line] }

theorem isComplete_hit (s : Share) : s.hit.isComplete = s.isComplete := by
  rw [Hit.isComplete, hit, isComplete, need, List.length_map]

theorem message_hit {s : Share} (h : s.texts.length ≤ s.need) : s.hit.message = s.message := by
  rw [Hit.message, LogTemplate.fill, LogTemplate.fillChars_eq_filled, message, counted,
    List.take_of_length_le h]
  rfl

/-- A text counts until the hit has all that it asks for. -/
theorem counted_add (s : Share) (line : String) :
    (s.add line).counted = if s.isComplete then s.counted else s.counted ++ [line] := by
  have hcounted : (s.add line).counted = (s.texts ++ [line]).take s.need := rfl
  rw [hcounted, counted, isComplete]
  by_cases hle : s.need ≤ s.texts.length
  · rw [List.take_append_of_le_length hle, if_pos (by simpa using hle)]
  · have hlt : (s.texts ++ [line]).length ≤ s.need := by
      rw [List.length_append, List.length_singleton]
      omega
    rw [List.take_of_length_le hlt, List.take_of_length_le (Nat.le_of_not_le hle),
      if_neg (by simpa using hle)]

theorem length_counted {s : Share} (h : s.isComplete = true) : s.counted.length = s.need := by
  rw [counted, List.length_take]
  exact Nat.min_eq_left (by simpa [isComplete] using h)

theorem isComplete_nil {t : LogTemplate} (h : t.expressions ≠ []) :
    (Share.mk t []).isComplete = false := by
  simpa [isComplete, need, List.length_pos_iff] using h

/-- The share without the texts that do not count. -/
def cut (s : Share) : Share := ⟨s.template, s.counted⟩

theorem counted_cut (s : Share) : s.cut.counted = s.counted := by
  rw [counted, cut, counted, List.take_take, need, need, Nat.min_self]

theorem message_cut (s : Share) : s.cut.message = s.message := by
  rw [message, counted_cut, message, cut]

theorem isComplete_iff_length_counted (s : Share) :
    s.isComplete = true ↔ s.need ≤ s.counted.length := by
  rw [counted, List.length_take, Nat.le_min]
  simp [isComplete]

theorem isComplete_cut (s : Share) : s.cut.isComplete = s.isComplete := by
  rw [Bool.eq_iff_iff, isComplete_iff_length_counted, isComplete_iff_length_counted, counted_cut]
  rfl

end Share

/-- How many texts some hits ask for. -/
def demand (hits : List LogTemplate) : Nat := (hits.map (·.expressions.length)).sum

/-- The texts dealt out: each hit takes as many as it asks for, after those of the hits before it. -/
def split (hits : List LogTemplate) (texts : List String) : List Share :=
  hits.mapIdx fun i t =>
    ⟨t, (texts.drop (demand (hits.take i))).take t.expressions.length⟩

theorem demand_append (hits more : List LogTemplate) :
    demand (hits ++ more) = demand hits + demand more := by
  simp [demand]

theorem demand_cons (t : LogTemplate) (hits : List LogTemplate) :
    demand (t :: hits) = t.expressions.length + demand hits := by
  simp [demand]

theorem split_cons (t : LogTemplate) (hits : List LogTemplate) (texts : List String) :
    split (t :: hits) texts =
      ⟨t, texts.take t.expressions.length⟩ :: split hits (texts.drop t.expressions.length) := by
  simp [split, List.mapIdx_cons, demand]

/-- The first hits are served before the others see a text. -/
theorem split_append (hits more : List LogTemplate) (texts : List String) :
    split (hits ++ more) texts = split hits texts ++ split more (texts.drop (demand hits)) := by
  induction hits generalizing texts with
  | nil => simp [split, demand]
  | cons t hits ih => simp [split_cons, ih, demand_cons]

theorem length_split (hits : List LogTemplate) (texts : List String) :
    (split hits texts).length = hits.length := by
  simp [split]

theorem demand_take_le (hits : List LogTemplate) {i j : Nat} (hij : i ≤ j) :
    demand (hits.take i) ≤ demand (hits.take j) := by
  obtain ⟨k, rfl⟩ := Nat.exists_eq_add_of_le hij
  rw [List.take_add, demand_append]
  exact Nat.le_add_right _ _

theorem demand_take_succ {hits : List LogTemplate} {i : Nat} {t : LogTemplate}
    (h : hits[i]? = some t) :
    demand (hits.take (i + 1)) = demand (hits.take i) + t.expressions.length := by
  rw [List.take_add_one, h, demand_append]
  simp [demand]

/-! ## Who is served -/

/-- Hits that have got all of their texts do not take another. -/
theorem split_of_demand_le {hits : List LogTemplate} {texts : List String}
    (h : demand hits ≤ texts.length) (more : List String) :
    split hits (texts ++ more) = split hits texts ∧ ∀ s ∈ split hits texts, s.isComplete = true := by
  induction hits generalizing texts with
  | nil => simp [split]
  | cons t hits ih =>
    rw [demand_cons] at h
    have hle : t.expressions.length ≤ texts.length := by omega
    have hrest : demand hits ≤ (texts.drop t.expressions.length).length := by
      rw [List.length_drop]
      omega
    obtain ⟨hsame, hall⟩ := ih hrest
    rw [split_cons, split_cons, List.take_append_of_le_length hle, List.drop_append_of_le_length hle,
      hsame]
    refine ⟨rfl, ?_⟩
    rintro s (_ | ⟨_, hs⟩)
    · simp [Share.isComplete, Share.need, hle]
    · exact hall s hs

/-- Hits that have got no text are not complete, as each asks for one. -/
theorem isComplete_of_mem_split_nil {hits : List LogTemplate} (h : ∀ t ∈ hits, t.expressions ≠ [])
    {s : Share} (hs : s ∈ split hits []) : s.isComplete = false := by
  induction hits with
  | nil => simp [split] at hs
  | cons t hits ih =>
    rw [split_cons, List.take_nil, List.drop_nil] at hs
    rcases List.mem_cons.mp hs with rfl | hs
    · exact Share.isComplete_nil (h t List.mem_cons_self)
    · exact ih (fun t ht => h t (List.mem_cons_of_mem _ ht)) hs

/-- If not all texts have come, there is a first hit that lacks one. -/
theorem exists_asking {hits : List LogTemplate} {texts : List String}
    (h : texts.length < demand hits) : ∃ served t others, hits = served ++ t :: others ∧
      demand served ≤ texts.length ∧ texts.length < demand served + t.expressions.length := by
  induction hits using List.reverseRecOn with
  | nil => simp [demand] at h
  | append_singleton hits t ih =>
    by_cases hlt : texts.length < demand hits
    · obtain ⟨served, u, others, rfl, hserved⟩ := ih hlt
      exact ⟨served, u, others ++ [t], by simp, hserved⟩
    · rw [demand_append, demand_cons] at h
      exact ⟨hits, t, [], rfl, by omega, by simpa [demand] using h⟩

/-- The shares before the first one that lacks a text are complete, those after it are not. -/
theorem filter_shares {before after : List Share} {s : Share}
    (hbefore : ∀ x ∈ before, x.isComplete = true)
    (hafter : ∀ x ∈ after, x.isComplete = false) :
    (before ++ s :: after).filter (!·.isComplete) =
        (if s.isComplete then after else s :: after) ∧
      (before ++ s :: after).filter (·.isComplete) =
        (if s.isComplete then before ++ [s] else before) := by
  have hb : before.filter (!·.isComplete) = [] := by simpa using hbefore
  have ha : after.filter (!·.isComplete) = after := by simpa using hafter
  have hb' : before.filter (·.isComplete) = before := by simpa using hbefore
  have ha' : after.filter (·.isComplete) = [] := by simpa using hafter
  rw [List.filter_append, List.filter_append, List.filter_cons, List.filter_cons, hb, ha, hb', ha']
  cases s.isComplete <;> simp

end MachineInterface.LogPoints

import Mathlib.Data.List.Basic

/-!
# Sequences of events

What has happened, looked at from its end.

* `snoc_eq_append_cons_iff`: an event was the last one, or it came before the last one.
* `since_snoc`: what holds was begun by the last event, or held before and was not ended by it.
-/

namespace MachineInterface

variable {α : Type} {earlier later past : List α} {a b : α}

theorem append_cons_snoc : earlier ++ b :: (later ++ [a]) = (earlier ++ b :: later) ++ [a] := by simp

/-- An event of a longer sequence is one before the last, or the last. -/
theorem snoc_eq_append_cons_iff : past ++ [a] = earlier ++ b :: later ↔
    (∃ rest, later = rest ++ [a] ∧ past = earlier ++ b :: rest) ∨
      (later = [] ∧ a = b ∧ past = earlier) := by
  constructor
  · intro h
    rcases List.eq_nil_or_concat later with rfl | ⟨rest, last, rfl⟩
    · obtain ⟨hpast, ha⟩ := List.append_inj' h rfl
      exact .inr ⟨rfl, List.singleton_inj.mp ha, hpast⟩
    · rw [List.concat_eq_append, ← List.cons_append, ← List.append_assoc] at h
      obtain ⟨hpast, ha⟩ := List.append_inj' h rfl
      exact .inl ⟨rest, by rw [List.concat_eq_append, List.singleton_inj.mp ha], hpast⟩
  · rintro (⟨rest, rfl, rfl⟩ | ⟨rfl, rfl, rfl⟩)
    · simp
    · rfl

/-- An event began something, told what came before it, and no event since has ended it. -/
def Since (begins : List α → α → Prop) (ends : α → Prop) (past : List α) : Prop :=
  ∃ earlier a later, past = earlier ++ a :: later ∧ begins earlier a ∧ ∀ b ∈ later, ¬ ends b

variable {begins : List α → α → Prop} {ends : α → Prop}

theorem since_snoc :
    Since begins ends (past ++ [a]) ↔ begins past a ∨ Since begins ends past ∧ ¬ ends a := by
  constructor
  · rintro ⟨earlier, b, later, hsplit, hbegins, hlater⟩
    rcases snoc_eq_append_cons_iff.mp hsplit with ⟨rest, rfl, rfl⟩ | ⟨rfl, rfl, rfl⟩
    · obtain ⟨hrest, hlast⟩ := List.forall_mem_append.mp hlater
      exact .inr ⟨⟨earlier, b, rest, rfl, hbegins, hrest⟩, hlast a (List.mem_singleton_self a)⟩
    · exact .inl hbegins
  · rintro (hbegins | ⟨⟨earlier, b, later, rfl, hbegins, hlater⟩, hlast⟩)
    · exact ⟨past, a, [], rfl, hbegins, fun _ hb => absurd hb List.not_mem_nil⟩
    · refine ⟨earlier, b, later ++ [a], by simp, hbegins, List.forall_mem_append.mpr ⟨hlater, ?_⟩⟩
      simpa using hlast

theorem not_since_nil : ¬ Since begins ends ([] : List α) := by
  rintro ⟨earlier, a, later, hsplit, -⟩
  simp at hsplit

end MachineInterface

import MachineInterface.Breakpoint.Board

/-!
# Changes of a board

A free location is reserved, and the reservation ends with a breakpoint or without one. A location
is emptied, or a file is cleared.

* `settle_withReserved_none`: a reservation that came to nothing leaves the board as it was.
* `entries_settle_withReserved`, `reserved_settle_withReserved`: one that came to a breakpoint adds
  just this.
* `get?_settle_self`, `get?_settle_of_ne`, `get?_remove`: what stands at a location after a change.
* `get?_takeSource`: a breakpoint is taken with its file, or it stays where it is.
-/

namespace MachineInterface

/-- A new key comes last. -/
theorem Table.entries_insert_of_not_contains {κ α : Type} [DecidableEq κ] {t : Table κ α} {k : κ}
    (h : t.contains k = false) (a : α) : (t.insert k a).entries = t.entries ++ [(k, a)] := by
  obtain ⟨es⟩ := t
  simp only [contains, insert] at h ⊢
  induction es with
  | nil => rfl
  | cons e es ih =>
    rw [List.any_cons, Bool.or_eq_false_iff, decide_eq_false_iff_not] at h
    rw [put, if_neg h.1, ih h.2]
    rfl

namespace Board

variable {b : Board} {l : Location}

/-- The board with a location reserved. -/
def withReserved (b : Board) (l : Location) : Board := { b with reserved := l :: b.reserved }

theorem isFree_eq_false_iff :
    b.isFree l = false ↔ b.installed.contains l = true ∨ l ∈ b.reserved := by
  cases h : b.installed.contains l <;> simp [isFree, h]

theorem isFree_iff : b.isFree l = true ↔ b.installed.contains l = false ∧ l ∉ b.reserved := by
  rw [← Bool.not_eq_false, isFree_eq_false_iff, not_or, Bool.not_eq_true]

theorem reserve?_of_isFree (h : b.isFree l = true) : b.reserve? l = some (b.withReserved l) := by
  rw [reserve?, if_pos h]
  rfl

/-- The reservation of a location that was free is the only one of it. -/
theorem reserved_settle_withReserved (h : b.isFree l = true) (outcome : Option Breakpoint) :
    ((b.withReserved l).settle l outcome).reserved = b.reserved := by
  have hothers : b.reserved.filter (fun k => decide (k ≠ l)) = b.reserved := by
    rw [List.filter_eq_self]
    intro k hk
    rw [decide_eq_true_eq]
    rintro rfl
    exact (isFree_iff.mp h).2 hk
  simpa [settle, withReserved] using hothers

/-- A reservation that came to nothing leaves the board as it was. -/
theorem settle_withReserved_none (h : b.isFree l = true) : (b.withReserved l).settle l none = b := by
  have hreserved := reserved_settle_withReserved h none
  calc (b.withReserved l).settle l none
      = ⟨b.installed, ((b.withReserved l).settle l none).reserved⟩ := rfl
    _ = b := by rw [hreserved]

/-- A reservation that came to a breakpoint adds just this one. -/
theorem entries_settle_withReserved (h : b.isFree l = true) (bp : Breakpoint) :
    ((b.withReserved l).settle l (some bp)).installed.entries =
      b.installed.entries ++ [(l, bp)] :=
  Table.entries_insert_of_not_contains (isFree_iff.mp h).1 bp

/-! ## What a board holds after a change -/

variable {l' : Location} {bp : Breakpoint}

theorem isFree_iff_get? : b.isFree l = true ↔ b.get? l = none ∧ l ∉ b.reserved := by
  rw [isFree_iff, Table.contains_eq_isSome, Option.isSome_eq_false_iff,
    Option.isNone_iff_eq_none]
  rfl

theorem get?_of_isFree (h : b.isFree l = true) : b.get? l = none := (isFree_iff_get?.mp h).1

theorem isFree_withReserved :
    (b.withReserved l).isFree l' = false ↔ b.isFree l' = false ∨ l' = l := by
  rw [isFree_eq_false_iff, isFree_eq_false_iff, or_assoc, withReserved, List.mem_cons,
    or_comm (a := l' = l)]

theorem get?_settle_self (b : Board) (l : Location) (bp : Breakpoint) :
    (b.settle l (some bp)).get? l = some bp :=
  (Table.get?_insert b.installed l l bp).trans (if_pos rfl)

theorem get?_settle_of_ne (b : Board) (h : l ≠ l') (outcome : Option Breakpoint) :
    (b.settle l outcome).get? l' = b.get? l' := by
  cases outcome with
  | none => rfl
  | some bp => exact (Table.get?_insert b.installed l l' bp).trans (if_neg h)

theorem get?_remove (b : Board) (l l' : Location) :
    (b.remove l).get? l' = if l = l' then none else b.get? l' :=
  Table.get?_erase b.installed l l'

theorem mem_reserved_settle (b : Board) (outcome : Option Breakpoint) :
    l' ∈ (b.settle l outcome).reserved ↔ l' ∈ b.reserved ∧ l' ≠ l := by
  simp [settle]

theorem isFree_settle_self (b : Board) (l : Location) (bp : Breakpoint) :
    (b.settle l (some bp)).isFree l = false := by
  rw [← Bool.not_eq_true, isFree_iff_get?, get?_settle_self]
  rintro ⟨⟨⟩, -⟩

theorem isFree_settle_of_ne (b : Board) (h : l ≠ l') (outcome : Option Breakpoint) :
    (b.settle l outcome).isFree l' = b.isFree l' := by
  rw [Bool.eq_iff_iff, isFree_iff_get?, isFree_iff_get?, get?_settle_of_ne b h,
    mem_reserved_settle, and_iff_left h.symm]

/-- A breakpoint is taken with its file, or it stays where it is. -/
theorem get?_takeSource (h : b.get? l = some bp) (source : Option String) :
    bp ∈ (b.takeSource source).1 ∨ (b.takeSource source).2.get? l = some bp := by
  obtain ⟨e, he, rfl⟩ := Option.map_eq_some_iff.mp h
  have hmem := List.mem_of_find?_eq_some he
  by_cases hfile : e.2.file = source
  · refine .inl (List.mem_mergeSort.mpr (List.mem_filter.mpr ⟨List.mem_map_of_mem hmem, ?_⟩))
    simpa using hfile
  · right
    obtain ⟨hkey, before, after, hentries, hbefore⟩ := List.find?_eq_some_iff_append.mp he
    have hnone : ∀ e' ∈ before.filter (·.2.file ≠ source), (!decide (e'.1 = l)) = true :=
      fun e' he' => hbefore e' (List.mem_filter.mp he').1
    have hfind : (b.installed.entries.filter (·.2.file ≠ source)).find? (·.1 = l) = some e := by
      rw [List.find?_eq_some_iff_append]
      refine ⟨hkey, before.filter (·.2.file ≠ source), after.filter (·.2.file ≠ source), ?_, hnone⟩
      rw [hentries, List.filter_append, List.filter_cons_of_pos (by simpa using hfile)]
    simp only [takeSource, get?, Table.get?, hfind, Option.map_some]

theorem get?_takeSource_eq_none (h : b.get? l = none) (source : Option String) :
    (b.takeSource source).2.get? l = none := by
  rw [get?, Table.get?, Option.map_eq_none_iff, List.find?_eq_none] at h ⊢
  intro e he
  exact h e (List.mem_filter.mp he).1

end Board

end MachineInterface

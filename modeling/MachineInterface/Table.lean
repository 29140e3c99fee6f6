/-!
# Tables

A finite map as a list of keyed entries, in the order in which the keys were first inserted.

* `get?_insert`, `get?_erase`: what a table holds after each change.
-/

namespace MachineInterface

/-- Entries by key, oldest key first. -/
structure Table (κ α : Type) where
  entries : List (κ × α) := []
  deriving Repr, DecidableEq, Inhabited

namespace Table

variable {κ α : Type} [DecidableEq κ]

/-- The entry of a key. -/
def get? (t : Table κ α) (k : κ) : Option α := (t.entries.find? (·.1 = k)).map (·.2)

/-- Whether a key has an entry. -/
def contains (t : Table κ α) (k : κ) : Bool := t.entries.any (·.1 = k)

/-- The entries with one more, or one replaced in its place. -/
def put (k : κ) (a : α) : List (κ × α) → List (κ × α)
  | [] => [(k, a)]
  | e :: es => if e.1 = k then (k, a) :: es else e :: put k a es

/-- The table with an entry for a key; an earlier entry of the key is replaced. -/
def insert (t : Table κ α) (k : κ) (a : α) : Table κ α := ⟨put k a t.entries⟩

/-- The table without a key. -/
def erase (t : Table κ α) (k : κ) : Table κ α := ⟨t.entries.filter (·.1 ≠ k)⟩

/-- The keys in order. -/
def keys {κ α : Type} (t : Table κ α) : List κ := t.entries.map (·.1)

/-- The entries in order. -/
def values (t : Table κ α) : List α := t.entries.map (·.2)

/-- The number of entries. -/
def size (t : Table κ α) : Nat := t.entries.length

/-! ## What a table holds -/

theorem find?_put (k k' : κ) (a : α) (es : List (κ × α)) :
    ((put k a es).find? (·.1 = k')).map (·.2) =
      if k = k' then some a else (es.find? (·.1 = k')).map (·.2) := by
  induction es with
  | nil => by_cases h : k = k' <;> simp [put, h]
  | cons e es ih =>
    by_cases he : e.1 = k
    · subst he
      by_cases h : e.1 = k' <;> simp [put, h]
    · by_cases h : e.1 = k'
      · subst h
        have : ¬ k = e.1 := fun hk => he hk.symm
        simp [put, he, this]
      · simp [put, he, h, ih]

theorem get?_insert (t : Table κ α) (k k' : κ) (a : α) :
    (t.insert k a).get? k' = if k = k' then some a else t.get? k' :=
  find?_put k k' a t.entries

theorem get?_erase (t : Table κ α) (k k' : κ) :
    (t.erase k).get? k' = if k = k' then none else t.get? k' := by
  obtain ⟨es⟩ := t
  simp only [get?, erase]
  induction es with
  | nil => simp
  | cons e es ih =>
    by_cases he : e.1 = k
    · by_cases h : k = k'
      · simp_all
      · have : ¬ e.1 = k' := fun hk => h (he.symm.trans hk)
        simp_all
    · by_cases h : e.1 = k'
      · have : ¬ k = k' := fun hk => he (h.trans hk.symm)
        simp_all
      · simp_all

theorem contains_eq_isSome (t : Table κ α) (k : κ) : t.contains k = (t.get? k).isSome := by
  obtain ⟨es⟩ := t
  induction es with
  | nil => rfl
  | cons e es ih =>
    simp only [contains, get?, List.any_cons, List.find?_cons] at ih ⊢
    by_cases h : e.1 = k <;> simp_all

/-- An entry is replaced in its place. -/
theorem keys_insert_of_contains {t : Table κ α} {k : κ} (h : t.contains k = true) (a : α) :
    (t.insert k a).keys = t.keys := by
  obtain ⟨es⟩ := t
  simp only [contains, keys, insert] at h ⊢
  induction es with
  | nil => cases h
  | cons e es ih =>
    by_cases he : e.1 = k
    · rw [put, if_pos he, List.map_cons, List.map_cons, he]
    · have hrest : es.any (·.1 = k) = true := by simpa [he] using h
      rw [put, if_neg he, List.map_cons, List.map_cons, ih hrest]

end Table

end MachineInterface

import MachineInterface.Breakpoint.Board
import Mathlib.Data.List.Induction
import Mathlib.Data.List.Nodup

/-!
# First descriptors

Among descriptors that are added one after the other, the first one of a free location brings a
breakpoint. All others find their location taken.

* `mem_keys_firsts`, `nodup_keys_firsts`: there is one first descriptor for each free location that
  is named.
* `getElem?_firsts`, `exists_first`: where the first descriptors stand.
-/

namespace MachineInterface

variable {b : Board} {ds before : List Descriptor} {d : Descriptor} {l : Location} {i j k : Nat}

/-- Whether a location is free and named by no descriptor before. -/
def isFirst (b : Board) (before : List Descriptor) (l : Location) : Bool :=
  b.isFree l && before.all (·.location? ≠ some l)

theorem isFirst_iff :
    isFirst b before l = true ↔ b.isFree l = true ∧ ∀ d ∈ before, d.location? ≠ some l := by
  simp [isFirst]

/-- A descriptor with its location, if it is the first one of a free location. -/
def first? (b : Board) (before : List Descriptor) (d : Descriptor) :
    Option (Location × Descriptor) :=
  (d.location?.filter (isFirst b before)).map (·, d)

theorem first?_eq_some_iff {f : Location × Descriptor} : first? b before d = some f ↔
    d.location? = some f.1 ∧ isFirst b before f.1 = true ∧ d = f.2 := by
  obtain ⟨l, d'⟩ := f
  simp only [first?, Option.map_eq_some_iff, Option.filter_eq_some_iff, Prod.mk.injEq]
  constructor
  · rintro ⟨l', ⟨hl, hfirst⟩, rfl, rfl⟩
    exact ⟨hl, hfirst, rfl⟩
  · rintro ⟨hl, hfirst, rfl⟩
    exact ⟨l, ⟨hl, hfirst⟩, rfl, rfl⟩

/-- The first descriptors of free locations, in order. -/
def firsts (b : Board) (ds : List Descriptor) : List (Location × Descriptor) :=
  (List.range ds.length).filterMap fun i => ds[i]?.bind (first? b (ds.take i))

theorem firsts_snoc (b : Board) (ds : List Descriptor) (d : Descriptor) :
    firsts b (ds ++ [d]) = firsts b ds ++ (first? b ds d).toList := by
  have hbefore : ∀ i ∈ List.range ds.length,
      (ds ++ [d])[i]?.bind (first? b ((ds ++ [d]).take i)) = ds[i]?.bind (first? b (ds.take i)) := by
    intro i hi
    have hlt := List.mem_range.mp hi
    rw [List.getElem?_append_left hlt, List.take_append_of_le_length (Nat.le_of_lt hlt)]
  rw [firsts, List.length_append, List.length_singleton, List.range_succ, List.filterMap_append,
    List.filterMap_congr hbefore, firsts]
  cases hfirst : first? b ds d <;> simp [hfirst]

theorem firsts_snoc_of_first (hl : d.location? = some l) (hfirst : isFirst b ds l = true) :
    firsts b (ds ++ [d]) = firsts b ds ++ [(l, d)] := by
  have hsome : first? b ds d = some (l, d) := first?_eq_some_iff.mpr ⟨hl, hfirst, rfl⟩
  rw [firsts_snoc, hsome, Option.toList_some]

theorem firsts_snoc_of_not_first (h : ∀ l, d.location? = some l → isFirst b ds l = false) :
    firsts b (ds ++ [d]) = firsts b ds := by
  have hnone : first? b ds d = none := by
    rw [Option.eq_none_iff_forall_ne_some]
    intro f hf
    obtain ⟨hl, hfirst, -⟩ := first?_eq_some_iff.mp hf
    rw [h f.1 hl] at hfirst
    cases hfirst
  rw [firsts_snoc, hnone, Option.toList_none, List.append_nil]

theorem length_firsts_le (b : Board) (ds : List Descriptor) : (firsts b ds).length ≤ ds.length := by
  have hle := List.length_filterMap_le (fun i => ds[i]?.bind (first? b (ds.take i)))
    (List.range ds.length)
  rwa [List.length_range] at hle

theorem mem_firsts {f : Location × Descriptor} : f ∈ firsts b ds ↔
    ∃ i d, ds[i]? = some d ∧ first? b (ds.take i) d = some f := by
  simp only [firsts, List.mem_filterMap, List.mem_range, Option.bind_eq_some_iff]
  constructor
  · rintro ⟨i, -, d, hd, hfirst⟩
    exact ⟨i, d, hd, hfirst⟩
  · rintro ⟨i, d, hd, hfirst⟩
    exact ⟨i, (List.getElem?_eq_some_iff.mp hd).1, d, hd, hfirst⟩

/-- Descriptors name a location that is free. -/
def Claimed (b : Board) (ds : List Descriptor) (l : Location) : Prop :=
  b.isFree l = true ∧ ∃ d ∈ ds, d.location? = some l

theorem claimed_snoc :
    Claimed b (ds ++ [d]) l ↔ Claimed b ds l ∨ b.isFree l = true ∧ d.location? = some l := by
  simp only [Claimed, List.mem_append, List.mem_singleton, or_and_right, exists_or,
    exists_eq_left, and_or_left]

theorem not_isFirst_iff (h : b.isFree l = true) : isFirst b ds l = false ↔ Claimed b ds l := by
  rw [← Bool.not_eq_true, isFirst_iff, Claimed]
  simp [h]

/-- The first descriptor that names a location comes before all others. -/
theorem exists_first (h : Claimed b ds l) :
    ∃ i d, ds[i]? = some d ∧ d.location? = some l ∧ isFirst b (ds.take i) l = true := by
  induction ds using List.reverseRecOn with
  | nil =>
    obtain ⟨-, d, hd, -⟩ := h
    cases hd
  | append_singleton ds d ih =>
    by_cases hclaimed : Claimed b ds l
    · obtain ⟨i, d', hd', hl, hfirst⟩ := ih hclaimed
      have hlt := (List.getElem?_eq_some_iff.mp hd').1
      refine ⟨i, d', ?_, hl, ?_⟩
      · rw [List.getElem?_append_left hlt, hd']
      · rwa [List.take_append_of_le_length (Nat.le_of_lt hlt)]
    · obtain ⟨hfree, hl⟩ := (claimed_snoc.mp h).resolve_left hclaimed
      refine ⟨ds.length, d, List.getElem?_concat_length, hl, ?_⟩
      rw [List.take_left, ← Bool.not_eq_false, not_isFirst_iff hfree]
      exact hclaimed

/-- The location of a first descriptor is free and named, and each such location has one. -/
theorem mem_keys_firsts : l ∈ (firsts b ds).map (·.1) ↔ Claimed b ds l := by
  simp only [List.mem_map, mem_firsts, first?_eq_some_iff]
  constructor
  · rintro ⟨f, ⟨i, d, hd, hl, hfirst, rfl⟩, rfl⟩
    exact ⟨(isFirst_iff.mp hfirst).1, _, List.mem_of_getElem? hd, hl⟩
  · intro h
    obtain ⟨i, d, hd, hl, hfirst⟩ := exists_first h
    exact ⟨(l, d), ⟨i, d, hd, hl, hfirst, rfl⟩, rfl⟩

theorem nodup_keys_firsts (b : Board) (ds : List Descriptor) :
    ((firsts b ds).map (·.1)).Nodup := by
  induction ds using List.reverseRecOn with
  | nil => exact List.nodup_nil
  | append_singleton ds d ih =>
    rw [firsts_snoc]
    cases hfirst : first? b ds d with
    | none => simpa using ih
    | some f =>
      obtain ⟨-, hisFirst, -⟩ := first?_eq_some_iff.mp hfirst
      rw [Option.toList_some, List.map_append, List.map_singleton]
      refine List.nodup_append.mpr ⟨ih, List.nodup_singleton _, ?_⟩
      rintro l hl _ hlast rfl
      rw [List.mem_singleton.mp hlast] at hl
      obtain ⟨-, d', hd', hl'⟩ := mem_keys_firsts.mp hl
      exact (isFirst_iff.mp hisFirst).2 d' hd' hl'

/-- The first descriptors are counted in the order in which they stand. -/
theorem getElem?_firsts (h : (firsts b ds)[j]? = some (l, d)) :
    ∃ i, ds[i]? = some d ∧ d.location? = some l ∧ isFirst b (ds.take i) l = true ∧
      (firsts b (ds.take i)).length = j := by
  induction ds using List.reverseRecOn with
  | nil => cases h
  | append_singleton ds d' ih =>
    rw [firsts_snoc] at h
    rcases Nat.lt_or_ge j (firsts b ds).length with hlt | hge
    · rw [List.getElem?_append_left hlt] at h
      obtain ⟨i, hd, hl, hfirst, hlength⟩ := ih h
      have hi := (List.getElem?_eq_some_iff.mp hd).1
      refine ⟨i, ?_, hl, ?_⟩
      · rw [List.getElem?_append_left hi, hd]
      · rw [List.take_append_of_le_length (Nat.le_of_lt hi)]
        exact ⟨hfirst, hlength⟩
    · rw [List.getElem?_append_right hge] at h
      cases hfirst : first? b ds d' with
      | none =>
        rw [hfirst] at h
        cases h
      | some f =>
        rw [hfirst, Option.toList_some, List.getElem?_singleton] at h
        obtain ⟨hj, ⟨⟩⟩ := Option.ite_none_right_eq_some.mp h
        obtain ⟨hl, hisFirst, rfl⟩ := first?_eq_some_iff.mp hfirst
        refine ⟨ds.length, List.getElem?_concat_length, hl, ?_⟩
        rw [List.take_left]
        exact ⟨hisFirst, by omega⟩

theorem length_firsts_le_append (b : Board) (ds more : List Descriptor) :
    (firsts b ds).length ≤ (firsts b (ds ++ more)).length := by
  induction more using List.reverseRecOn with
  | nil => simp
  | append_singleton more d ih =>
    rw [← List.append_assoc, firsts_snoc, List.length_append]
    exact Nat.le_add_right_of_le ih

/-- A first descriptor is counted after those that stand before it. -/
theorem length_firsts_lt (hi : ds[i]? = some d) (hl : d.location? = some l)
    (hfirst : isFirst b (ds.take i) l = true) (hik : i < k) :
    (firsts b (ds.take i)).length < (firsts b (ds.take k)).length := by
  have hsnoc : ds.take (i + 1) = ds.take i ++ [d] := by
    rw [List.take_add_one, hi, Option.toList_some]
  have hlonger : ds.take k = ds.take (i + 1) ++ (ds.drop (i + 1)).take (k - (i + 1)) := by
    rw [← List.take_add]
    congr 1
    omega
  have hle := length_firsts_le_append b (ds.take (i + 1)) ((ds.drop (i + 1)).take (k - (i + 1)))
  rw [← hlonger, hsnoc, firsts_snoc_of_first hl hfirst, List.length_append] at hle
  exact hle

theorem length_firsts_take_lt (hi : ds[i]? = some d) (hl : d.location? = some l)
    (hfirst : isFirst b (ds.take i) l = true) :
    (firsts b (ds.take i)).length < (firsts b ds).length := by
  have hlt := length_firsts_lt hi hl hfirst (List.getElem?_eq_some_iff.mp hi).1
  rwa [List.take_length] at hlt

/-- Two first descriptors have different locations, and they are counted apart. -/
theorem first_ne {d' : Descriptor} {l' : Location} (hi : ds[i]? = some d)
    (hl : d.location? = some l) (hfirst : isFirst b (ds.take i) l = true) (hk : ds[k]? = some d')
    (hl' : d'.location? = some l') (hfirst' : isFirst b (ds.take k) l' = true) (hne : k ≠ i) :
    l' ≠ l ∧ (firsts b (ds.take k)).length ≠ (firsts b (ds.take i)).length := by
  have hnamed : ∀ {i k d}, ds[i]? = some d → i < k → d ∈ ds.take k := by
    intro i k d hi hik
    refine List.mem_of_getElem? (i := i) ?_
    rw [List.getElem?_take, if_pos hik, hi]
  rcases Nat.lt_or_gt_of_ne hne with hki | hik
  · refine ⟨?_, Nat.ne_of_lt (length_firsts_lt hk hl' hfirst' hki)⟩
    rintro rfl
    exact (isFirst_iff.mp hfirst).2 d' (hnamed hk hki) hl'
  · refine ⟨?_, Nat.ne_of_gt (length_firsts_lt hi hl hfirst hik)⟩
    rintro rfl
    exact (isFirst_iff.mp hfirst').2 d (hnamed hi hik) hl

end MachineInterface

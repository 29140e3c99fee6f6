import MachineInterface.Proofs.Breakpoint.Firsts
import MachineInterface.Session.Breakpoints
import Mathlib.Data.List.Perm.Subperm

/-!
# Orders and places

Descriptors are taken up in some order, and the results of their calls are put back in their places.

* `take_pick`, `claimed_pick`: what was taken up, part by part and as a whole.
* `getElem?_gather_of_mem`, `getElem?_gather_of_not_mem`: what stands at a place in the end.
-/

namespace MachineInterface

/-! ## Orders -/

/-- The descriptors at some places, in the order of the places given. -/
def pick (ds : List Descriptor) (places : List Nat) : List Descriptor :=
  places.filterMap (ds[·]?)

variable {b : Board} {ds : List Descriptor} {d : Descriptor} {l : Location} {places : List Nat}
  {i k : Nat}

theorem pick_cons (hi : ds[i]? = some d) (places : List Nat) :
    pick ds (i :: places) = d :: pick ds places :=
  List.filterMap_cons_some hi

theorem pick_snoc (hi : ds[i]? = some d) (places : List Nat) :
    pick ds (places ++ [i]) = pick ds places ++ [d] := by
  simp [pick, List.filterMap_append, hi]

theorem length_pick (h : ∀ i ∈ places, i < ds.length) :
    (pick ds places).length = places.length := by
  induction places with
  | nil => rfl
  | cons i places ih =>
    obtain ⟨hi, hrest⟩ := List.forall_mem_cons.mp h
    rw [pick_cons (List.getElem?_eq_getElem hi), List.length_cons, List.length_cons, ih hrest]

/-- No more descriptors are taken up than there are. -/
theorem length_le_of_nodup {n : Nat} (hnodup : places.Nodup) (h : ∀ i ∈ places, i < n) :
    places.length ≤ n := by
  have hsub : places ⊆ List.range n := fun i hi => List.mem_range.mpr (h i hi)
  have hle := (List.subperm_of_subset hnodup hsub).length_le
  rwa [List.length_range] at hle

/-- The `k`-th descriptor that was taken up is the one at the `k`-th place. -/
theorem getElem?_pick (h : ∀ i ∈ places, i < ds.length) (k : Nat) :
    (pick ds places)[k]? = places[k]?.bind (ds[·]?) := by
  induction places generalizing k with
  | nil => rfl
  | cons i places ih =>
    obtain ⟨hi, hrest⟩ := List.forall_mem_cons.mp h
    rw [pick_cons (List.getElem?_eq_getElem hi)]
    cases k with
    | zero => exact (List.getElem?_eq_getElem hi).symm
    | succ k => exact ih hrest k

theorem take_pick (h : ∀ i ∈ places, i < ds.length) (k : Nat) :
    (pick ds places).take k = pick ds (places.take k) := by
  refine List.ext_getElem? fun j => ?_
  rw [List.getElem?_take, getElem?_pick h,
    getElem?_pick fun i hi => h i (List.mem_of_mem_take hi), List.getElem?_take]
  split <;> rfl

/-- In the order in which they stand, the descriptors are taken up as they are. -/
theorem pick_range (ds : List Descriptor) : pick ds (List.range ds.length) = ds := by
  refine List.ext_getElem? fun k => ?_
  rw [getElem?_pick fun i hi => List.mem_range.mp hi]
  rcases Nat.lt_or_ge k ds.length with hlt | hge
  · rw [List.getElem?_range hlt, Option.bind_some]
  · rw [List.getElem?_eq_none (by simpa using hge), List.getElem?_eq_none hge, Option.bind_none]

/-- The descriptors that were taken up before the one at the place `i`. -/
def earlier (ds : List Descriptor) (places : List Nat) (i : Nat) : List Descriptor :=
  pick ds (places.takeWhile (· ≠ i))

theorem takeWhile_ne_of_nodup (h : places.Nodup) (hk : places[k]? = some i) :
    places.takeWhile (· ≠ i) = places.take k := by
  induction places generalizing k with
  | nil => cases hk
  | cons j places ih =>
    obtain ⟨hnew, hnodup⟩ := List.nodup_cons.mp h
    cases k with
    | zero =>
      obtain rfl := Option.some.inj hk
      simp
    | succ k =>
      have hne : j ≠ i := by
        rintro rfl
        exact hnew (List.mem_of_getElem? hk)
      rw [List.takeWhile_cons_of_pos (by simpa using hne), List.take_succ_cons, ih hnodup hk]

theorem earlier_eq (h : places.Nodup) (hk : places[k]? = some i) (ds : List Descriptor) :
    earlier ds places i = pick ds (places.take k) := by
  rw [earlier, takeWhile_ne_of_nodup h hk]

/-- In the order in which they stand, each descriptor comes after those that stand before it. -/
theorem earlier_range (hi : i < ds.length) : earlier ds (List.range ds.length) i = ds.take i := by
  rw [earlier_eq List.nodup_range (List.getElem?_range hi),
    ← take_pick fun k hk => List.mem_range.mp hk, pick_range]

/-- In every order the same descriptors are taken up. -/
theorem mem_pick (h : places.Perm (List.range ds.length)) : d ∈ pick ds places ↔ d ∈ ds := by
  have hperm : (pick ds places).Perm (pick ds (List.range ds.length)) := h.filterMap _
  rw [pick_range] at hperm
  exact hperm.mem_iff

theorem claimed_pick (h : places.Perm (List.range ds.length)) :
    Claimed b (pick ds places) l ↔ Claimed b ds l := by
  simp only [Claimed, mem_pick h]

/-! ## Places -/

section

variable {α : Type} {joined : List (Nat × α)} {slots : List (Option α)} {r : α}

theorem length_foldl_set (joined : List (Nat × α)) (slots : List (Option α)) :
    (joined.foldl (fun slots e => slots.set e.1 (some e.2)) slots).length = slots.length := by
  induction joined generalizing slots with
  | nil => rfl
  | cons e joined ih => rw [List.foldl_cons, ih, List.length_set]

/-- A place keeps what stands there if nothing is put there. -/
theorem getElem?_foldl_set_of_not_mem (h : i ∉ joined.map (·.1)) :
    (joined.foldl (fun slots e => slots.set e.1 (some e.2)) slots)[i]? = slots[i]? := by
  induction joined generalizing slots with
  | nil => rfl
  | cons e joined ih =>
    rw [List.map_cons, List.mem_cons, not_or] at h
    rw [List.foldl_cons, ih h.2, List.getElem?_set_ne (Ne.symm h.1)]

/-- What is put in a place once stands there in the end. -/
theorem getElem?_foldl_set_of_mem (hi : i < slots.length) (hr : (i, r) ∈ joined)
    (honce : (joined.map (·.1)).Nodup) :
    (joined.foldl (fun slots e => slots.set e.1 (some e.2)) slots)[i]? = some (some r) := by
  induction joined generalizing slots with
  | nil => cases hr
  | cons e joined ih =>
    rw [List.map_cons, List.nodup_cons] at honce
    rw [List.foldl_cons]
    rcases List.mem_cons.mp hr with rfl | hr
    · rw [getElem?_foldl_set_of_not_mem honce.1, List.getElem?_set_self hi]
    · exact ih (by rwa [List.length_set]) hr honce.2

end

namespace Session

variable {α : Type} {count : Nat} {joined : List (Nat × Except Error α)} {r : Except Error α}

@[simp] theorem length_gather (count : Nat) (joined : List (Nat × Except Error α)) :
    (gather count joined).length = count := by
  rw [gather, List.length_map, length_foldl_set, List.length_replicate]

/-- A call that was joined has its result at its place. -/
theorem getElem?_gather_of_mem (hi : i < count) (hr : (i, r) ∈ joined)
    (honce : (joined.map (·.1)).Nodup) : (gather count joined)[i]? = some r := by
  have hslots : i < (List.replicate count (none : Option (Except Error α))).length := by
    rwa [List.length_replicate]
  rw [gather, List.getElem?_map, getElem?_foldl_set_of_mem hslots hr honce]
  rfl

/-- A call that was not joined counts as one of a closed session. -/
theorem getElem?_gather_of_not_mem (hi : i < count) (hnone : i ∉ joined.map (·.1)) :
    (gather count joined)[i]? = some (.error .sessionClosed) := by
  rw [gather, List.getElem?_map, getElem?_foldl_set_of_not_mem hnone,
    List.getElem?_replicate_of_lt hi]
  rfl

end Session

end MachineInterface

import MachineInterface.Exchange
import Mathlib.Algebra.Group.Nat.Defs
import Mathlib.Data.List.Nodup
import Mathlib.Data.List.Perm.Subperm
import Mathlib.Data.Nat.Find

/-!
# The search for a number

Numbers are tried one after another, past the largest one back to zero. The search is cut off after
two more tries than commands wait. That is never too early: as long as some number is free, one of
the numbers tried is free.

* `firstFree?_eq_none`: a search without success has met no free number.
* `freeToken_isFree`: the number given out is free.
* `exists_search_iff`: a search without a limit ends exactly if some number is free.
* `register_first_free`: the number given out is the first free one, and no number is tried twice.
-/

namespace MachineInterface.Exchange

/-! ## One search -/

/-- A number can be given out if it is not zero and not taken. -/
def IsFree (taken : UInt64 → Bool) (t : UInt64) : Prop := t ≠ 0 ∧ taken t = false

theorem not_isFree_iff {taken : UInt64 → Bool} {t : UInt64} :
    ¬ IsFree taken t ↔ t = 0 ∨ taken t = true := by
  simp only [IsFree, not_and_or, not_not, Bool.not_eq_false]

/-- The number that is tried after `i` others. -/
def nth (start : UInt64) (i : Nat) : UInt64 := start + UInt64.ofNat i

theorem nth_zero (start : UInt64) : nth start 0 = start := by simp [nth]

theorem nth_succ (start : UInt64) (i : Nat) : nth start (i + 1) = nth (start + 1) i := by
  simp only [nth, UInt64.ofNat_add]
  rw [UInt64.add_comm (UInt64.ofNat i), ← UInt64.add_assoc]
  rfl

/-- All numbers can be reached from any start. -/
theorem exists_nth_eq (start t : UInt64) : ∃ i < 2 ^ 64, nth start i = t := by
  refine ⟨(t - start).toNat, (t - start).toNat_lt, ?_⟩
  rw [nth, UInt64.ofNat_toNat, UInt64.add_comm, UInt64.sub_add_cancel]

theorem nth_injective {start : UInt64} {i j : Nat} (hi : i < 2 ^ 64) (hj : j < 2 ^ 64)
    (h : nth start i = nth start j) : i = j := by
  have h' := congrArg UInt64.toNat h
  simp only [nth, UInt64.toNat_add, UInt64.toNat_ofNat'] at h'
  have := start.toNat_lt
  omega

/-- No number comes twice before all were tried. -/
theorem nodup_nth (start : UInt64) {count : Nat} (h : count ≤ 2 ^ 64) :
    ((List.range count).map (nth start)).Nodup := by
  refine List.Nodup.map_on ?_ List.nodup_range
  intro i hi j hj hij
  simp only [List.mem_range] at hi hj
  exact nth_injective (by omega) (by omega) hij

/-- A search without success has met no free number. -/
theorem firstFree?_eq_none {taken : UInt64 → Bool} {count : Nat} {start : UInt64}
    (h : firstFree? taken count start = none) : ∀ i < count, ¬ IsFree taken (nth start i) := by
  induction count generalizing start with
  | zero => intro i hi; omega
  | succ count ih =>
    unfold firstFree? at h
    split at h
    · rename_i hs
      intro i hi
      cases i with
      | zero =>
        rw [nth_zero]
        exact not_isFree_iff.mpr hs
      | succ i =>
        rw [nth_succ]
        exact ih h i (by omega)
    · cases h

/-! ## The number for the next command -/

theorem isPending_iff {x : Exchange} {t : UInt64} :
    x.isPending t = true ↔ t ∈ x.pending.map (·.token) := by
  simp [isPending]

/-- Some number is free. -/
def HasRoom (x : Exchange) : Prop := ∃ t, IsFree x.isPending t

/-- Among more numbers than commands wait, and zero, one is free. -/
theorem exists_isFree_nth (x : Exchange) (h : x.pending.length + 2 ≤ 2 ^ 64) :
    ∃ i < x.pending.length + 2, IsFree x.isPending (nth x.nextToken i) := by
  by_contra hn
  have hnone : ∀ i < x.pending.length + 2, ¬ IsFree x.isPending (nth x.nextToken i) :=
    fun i hi hf => hn ⟨i, hi, hf⟩
  have hnodup := nodup_nth x.nextToken h
  have hsub : (List.range (x.pending.length + 2)).map (nth x.nextToken) ⊆
      0 :: x.pending.map (·.token) := by
    intro t ht
    obtain ⟨i, hi, rfl⟩ := List.mem_map.mp ht
    rcases not_isFree_iff.mp (hnone i (List.mem_range.mp hi)) with h0 | ht
    · rw [h0]
      exact List.mem_cons_self
    · exact List.mem_cons_of_mem _ (isPending_iff.mp ht)
  have hlen := (List.subperm_of_subset hnodup hsub).length_le
  simp only [List.length_map, List.length_range, List.length_cons] at hlen
  omega

/-- The search is not cut off before it meets a free number. -/
theorem firstFree?_isSome {x : Exchange} (h : x.HasRoom) :
    firstFree? x.isPending (x.pending.length + 2) x.nextToken ≠ none := by
  intro hnone
  by_cases hlen : x.pending.length + 2 ≤ 2 ^ 64
  · obtain ⟨i, hi, hf⟩ := x.exists_isFree_nth hlen
    exact firstFree?_eq_none hnone i hi hf
  · -- So many tries go once around, and meet every number there is.
    obtain ⟨t, ht⟩ := h
    obtain ⟨i, hi, rfl⟩ := exists_nth_eq x.nextToken t
    exact firstFree?_eq_none hnone i (by omega) ht

/-- The number given out is free, as long as some number is. -/
theorem freeToken_isFree {x : Exchange} (h : x.HasRoom) : IsFree x.isPending x.freeToken := by
  obtain ⟨t, ht⟩ := Option.ne_none_iff_exists'.mp (firstFree?_isSome h)
  rw [freeToken, ht, Option.getD_some]
  exact firstFree?_eq_some ht

theorem freeToken_of_next {x : Exchange} (h : IsFree x.isPending x.nextToken) :
    x.freeToken = x.nextToken := by
  obtain ⟨hne, htaken⟩ := h
  simp [freeToken, firstFree?, hne, htaken]

/-! ## The search without a limit -/

/--
The search that goes on until it meets a free number: where it starts, the numbers that it tries in
their order, and the number at which it ends.
-/
inductive Search (taken : UInt64 → Bool) : UInt64 → List UInt64 → UInt64 → Prop where
  | found {start : UInt64} (h : IsFree taken start) : Search taken start [start] start
  | next {start token : UInt64} {tried : List UInt64} (h : ¬ IsFree taken start)
      (rest : Search taken (start + 1) tried token) : Search taken start (start :: tried) token

/-- A search that passes over `i` numbers has tried these and the one at which it ends. -/
theorem search_of_passed {taken : UInt64 → Bool} {start : UInt64} {i : Nat}
    (hpassed : ∀ j < i, ¬ IsFree taken (nth start j)) (hfree : IsFree taken (nth start i)) :
    Search taken start ((List.range (i + 1)).map (nth start)) (nth start i) := by
  induction i generalizing start with
  | zero =>
    rw [nth_zero] at hfree ⊢
    simpa [nth_zero] using Search.found hfree
  | succ i ih =>
    have hfirst : ¬ IsFree taken start := by simpa [nth_zero] using hpassed 0 (by omega)
    rw [nth_succ] at hfree ⊢
    have hrest := ih (fun j hj => by simpa [nth_succ] using hpassed (j + 1) (by omega)) hfree
    rw [List.range_succ_eq_map, List.map_cons, List.map_map, nth_zero]
    simpa [Function.comp_def, nth_succ] using Search.next hfirst hrest

/-- A search ends in one way only. -/
theorem Search.unique {taken : UInt64 → Bool} {start t u : UInt64} {tried other : List UInt64}
    (h : Search taken start tried t) (h' : Search taken start other u) :
    tried = other ∧ t = u := by
  induction h generalizing other with
  | found hfree =>
    cases h' with
    | found _ => exact ⟨rfl, rfl⟩
    | next hn _ => exact absurd hfree hn
  | next hn _ ih =>
    cases h' with
    | found hfree => exact absurd hfree hn
    | next _ rest =>
      obtain ⟨rfl, rfl⟩ := ih rest
      exact ⟨rfl, rfl⟩

theorem Search.isFree {taken : UInt64 → Bool} {start t : UInt64} {tried : List UInt64}
    (h : Search taken start tried t) : IsFree taken t := by
  induction h with
  | found h => exact h
  | next _ _ ih => exact ih

/-- From any start a free number is met before all numbers are tried. -/
theorem exists_first_free {taken : UInt64 → Bool} (start : UInt64) (h : ∃ t, IsFree taken t) :
    ∃ k < 2 ^ 64, IsFree taken (nth start k) ∧ ∀ j < k, ¬ IsFree taken (nth start j) := by
  classical
  obtain ⟨t, ht⟩ := h
  obtain ⟨i, hi, rfl⟩ := exists_nth_eq start t
  have hex : ∃ k, IsFree taken (nth start k) := ⟨i, ht⟩
  exact ⟨Nat.find hex, Nat.lt_of_le_of_lt (Nat.find_min' hex ht) hi, Nat.find_spec hex,
    fun j hj => Nat.find_min hex hj⟩

/-- A search without a limit ends exactly if some number is free. -/
theorem exists_search_iff {taken : UInt64 → Bool} {start : UInt64} :
    (∃ tried t, Search taken start tried t) ↔ ∃ t, IsFree taken t := by
  constructor
  · rintro ⟨_, t, h⟩
    exact ⟨t, h.isFree⟩
  · intro h
    obtain ⟨k, _, hfree, hpassed⟩ := exists_first_free start h
    exact ⟨_, _, search_of_passed hpassed hfree⟩

/-- Where a limited search ends, it is the first free number from its start on. -/
theorem firstFree?_of_passed {taken : UInt64 → Bool} {count k : Nat} {start : UInt64}
    (hk : k < count) (hpassed : ∀ j < k, ¬ IsFree taken (nth start j))
    (hfree : IsFree taken (nth start k)) : firstFree? taken count start = some (nth start k) := by
  induction count generalizing start k with
  | zero => omega
  | succ count ih =>
    cases k with
    | zero =>
      rw [nth_zero] at hfree ⊢
      rw [firstFree?, if_neg (fun h => not_isFree_iff.mpr h hfree)]
    | succ k =>
      have hfirst : ¬ IsFree taken start := by simpa [nth_zero] using hpassed 0 (by omega)
      rw [firstFree?, if_pos (not_isFree_iff.mp hfirst), nth_succ]
      refine ih (by omega) (fun j hj => ?_) (by rwa [← nth_succ])
      simpa [nth_succ] using hpassed (j + 1) (by omega)

/--
As long as some number other than zero is free, the search for the number of the next command ends.
It tries the numbers from `nextToken` on, past the largest one back to zero, each at most once and
at most two more than commands wait; it passes over zero and over the numbers of the commands that
wait only; and the number at which it ends is given out. The next search starts right after it.
-/
theorem register_first_free (x : Exchange) (command : String) (tolerant : Bool)
    (h : ∃ t, t ≠ 0 ∧ x.isPending t = false) :
    ∃ k, k < 2 ^ 64 ∧ k < x.pending.length + 2 ∧
      (∀ tried t, Search x.isPending x.nextToken tried t ↔
        tried = (List.range (k + 1)).map (nth x.nextToken) ∧ t = nth x.nextToken k) ∧
      ((List.range (k + 1)).map (nth x.nextToken)).Nodup ∧
      (nth x.nextToken k ≠ 0 ∧ x.isPending (nth x.nextToken k) = false) ∧
      (∀ j < k, nth x.nextToken j = 0 ∨ x.isPending (nth x.nextToken j) = true) ∧
      (x.register command tolerant).1.2 = nth x.nextToken k ∧
      (x.register command tolerant).2.nextToken = nth x.nextToken k + 1 := by
  obtain ⟨k, hk, hfree, hpassed⟩ := exists_first_free x.nextToken h
  -- Among so many numbers one is free, and none before the `k`-th one is.
  have hlimit : k < x.pending.length + 2 := by
    by_contra hlt
    obtain ⟨i, hi, hf⟩ := x.exists_isFree_nth (by omega)
    exact hpassed i (by omega) hf
  have htoken : x.freeToken = nth x.nextToken k := by
    rw [freeToken, firstFree?_of_passed hlimit hpassed hfree, Option.getD_some]
  have hsearch := search_of_passed hpassed hfree
  refine ⟨k, hk, hlimit, fun tried t => ⟨fun ht => ht.unique hsearch, ?_⟩,
    nodup_nth x.nextToken hk, hfree, fun j hj => not_isFree_iff.mp (hpassed j hj), htoken,
    congrArg (· + 1) htoken⟩
  rintro ⟨rfl, rfl⟩
  exact hsearch

/-- From the largest number, which is taken, past zero and one, which is taken, to two. -/
theorem register_first_free_wrapped :
    let x : Exchange :=
      { nextToken := 18446744073709551615, issued := 2,
        pending := [⟨0, 18446744073709551615, "a", false, true⟩, ⟨1, 1, "b", false, true⟩] }
    (∃ t, t ≠ 0 ∧ x.isPending t = false) ∧ (x.register "c" false).1.2 = 2 ∧
      ∃ k, k < 2 ^ 64 ∧ Search x.isPending x.nextToken ((List.range (k + 1)).map (nth x.nextToken))
        (x.register "c" false).1.2 := by
  intro x
  have hroom : ∃ t, t ≠ 0 ∧ x.isPending t = false := ⟨2, by decide, by decide⟩
  obtain ⟨k, hk, _, hsearch, _, _, _, htoken, _⟩ := x.register_first_free "c" false hroom
  exact ⟨hroom, by decide, k, hk, (hsearch _ _).mpr ⟨rfl, htoken⟩⟩

end MachineInterface.Exchange

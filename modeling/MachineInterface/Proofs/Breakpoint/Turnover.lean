import MachineInterface.Proofs.Breakpoint.Tables
import MachineInterface.Proofs.Sequence
import Mathlib.Data.List.Induction

/-!
# Turnover on a board

Locations are reserved, settled and emptied, and files are cleared, in any order and any number of
times.

* `Board.Sound`: no location is reserved twice, none has two breakpoints, and none has a breakpoint
  while it is reserved.
* `Board.sound_run`: a board that starts empty stays so.
* `Board.turnover`: what is reserved and what stands after any changes, and what a clearing takes.
-/

namespace MachineInterface

namespace Table

variable {κ α : Type} [DecidableEq κ] {t : Table κ α}

theorem nodup_keys_insert (h : t.keys.Nodup) (k : κ) (a : α) : (t.insert k a).keys.Nodup := by
  cases hk : t.contains k with
  | true => rwa [keys_insert_of_contains hk]
  | false =>
    rw [keys, entries_insert_of_not_contains hk, List.map_append]
    exact List.Nodup.append h (List.nodup_singleton k) (List.disjoint_singleton.mpr (notMem_keys hk))

end Table

namespace Board

/-- One change of a board. -/
inductive Change where
  | reserve (l : Location)
  | settle (l : Location) (outcome : Option Breakpoint)
  | remove (l : Location)
  | takeSource (source : Option String)

/-- The board after a change. A refused reservation changes nothing. -/
def after (b : Board) : Change → Board
  | .reserve l => (b.reserve? l).getD b
  | .settle l outcome => b.settle l outcome
  | .remove l => b.remove l
  | .takeSource source => (b.takeSource source).2

/-- The board after a sequence of changes, from the empty one. -/
def run (changes : List Change) : Board := changes.foldl after {}

theorem run_snoc (changes : List Change) (c : Change) :
    run (changes ++ [c]) = (run changes).after c :=
  List.foldl_concat ..

/-! ## Soundness -/

/-- A location is reserved once, has one breakpoint, or neither. -/
structure Sound (b : Board) : Prop where
  keys : b.installed.keys.Nodup
  reserved : b.reserved.Nodup
  vacant : ∀ l ∈ b.reserved, b.get? l = none

variable {b : Board} {l : Location} {bp : Breakpoint}

theorem Sound.after (h : b.Sound) (c : Change) : (b.after c).Sound := by
  cases c with
  | reserve l =>
    cases hfree : b.isFree l with
    | false =>
      rw [Board.after, reserve?_eq_none_iff.mpr hfree]
      exact h
    | true =>
      rw [Board.after, reserve?_of_isFree hfree]
      refine ⟨h.keys, List.nodup_cons.mpr ⟨(isFree_iff.mp hfree).2, h.reserved⟩, ?_⟩
      intro k hk
      rcases List.mem_cons.mp hk with rfl | hk
      · have hvacant : b.get? k = none := get?_of_isFree hfree
        exact hvacant
      · exact h.vacant k hk
  | settle l outcome =>
    refine ⟨?_, h.reserved.filter _, fun k hk => ?_⟩
    · cases outcome with
      | none => exact h.keys
      | some bp => exact Table.nodup_keys_insert h.keys l bp
    · obtain ⟨hk, hne⟩ := (mem_reserved_settle b outcome).mp hk
      exact (get?_settle_of_ne b hne.symm outcome).trans (h.vacant k hk)
  | remove l =>
    refine ⟨h.keys.sublist (List.filter_sublist.map _), h.reserved, fun k hk => ?_⟩
    rw [Board.after, get?_remove, h.vacant k hk, ite_self]
  | takeSource source =>
    refine ⟨h.keys.sublist (List.filter_sublist.map _), h.reserved, fun k hk => ?_⟩
    exact get?_takeSource_eq_none (h.vacant k hk) source

theorem sound_run (changes : List Change) : (run changes).Sound := by
  induction changes using List.reverseRecOn with
  | nil => exact ⟨List.nodup_nil, List.nodup_nil, fun _ hl => absurd hl List.not_mem_nil⟩
  | append_singleton changes c ih =>
    rw [run_snoc]
    exact ih.after c

/-! ## Reservations -/

theorem isSome_reserve? : (b.reserve? l).isSome ↔ b.get? l = none ∧ l ∉ b.reserved := by
  rw [← isFree_iff_get?, reserve?]
  split <;> simp_all

/-- A location is reserved while a reservation that was granted has not been settled. -/
theorem mem_reserved_run (changes : List Change) (l : Location) : l ∈ (run changes).reserved ↔
    Since (fun earlier c => c = .reserve l ∧ ((run earlier).reserve? l).isSome)
      (fun c => ∃ outcome, c = .settle l outcome) changes := by
  induction changes using List.reverseRecOn with
  | nil => exact iff_of_false List.not_mem_nil not_since_nil
  | append_singleton changes c ih =>
    rw [run_snoc, since_snoc, ← ih]
    cases c with
    | reserve k =>
      have hkept : ¬ ∃ outcome, Change.reserve k = .settle l outcome := by rintro ⟨_, ⟨⟩⟩
      cases hfree : (run changes).isFree k with
      | false =>
        have hnone := reserve?_eq_none_iff.mpr hfree
        rw [Board.after, hnone, Option.getD_none]
        refine ⟨fun h => .inr ⟨h, hkept⟩, ?_⟩
        rintro (⟨⟨⟩, hsome⟩ | ⟨h, -⟩)
        · rw [hnone] at hsome
          cases hsome
        · exact h
      | true =>
        have hsome := reserve?_of_isFree hfree
        rw [Board.after, hsome, Option.getD_some, withReserved, List.mem_cons]
        constructor
        · rintro (rfl | h)
          · exact .inl ⟨rfl, by rw [hsome]; rfl⟩
          · exact .inr ⟨h, hkept⟩
        · rintro (⟨⟨⟩, -⟩ | ⟨h, -⟩)
          · exact .inl rfl
          · exact .inr h
    | settle k outcome =>
      rw [Board.after, mem_reserved_settle]
      constructor
      · rintro ⟨h, hne⟩
        refine .inr ⟨h, ?_⟩
        rintro ⟨_, ⟨⟩⟩
        exact hne rfl
      · rintro (⟨⟨⟩, -⟩ | ⟨h, hkept⟩)
        refine ⟨h, ?_⟩
        rintro rfl
        exact hkept ⟨outcome, rfl⟩
    | remove _ | takeSource _ => simp [Board.after, Board.remove, Board.takeSource]

/-! ## What a clearing takes -/

theorem Sound.get?_takeSource (h : b.Sound) (source : Option String) (l : Location) :
    (b.takeSource source).2.get? l = (b.get? l).filter (·.file ≠ source) := by
  cases hget : b.get? l with
  | none => exact get?_takeSource_eq_none hget source
  | some bp =>
    have hmem := Table.mem_entries_of_get? hget
    have hkeys : (b.takeSource source).2.installed.keys.Nodup := (h.after (.takeSource source)).keys
    by_cases hfile : bp.file = source
    · rw [Option.filter_some, if_neg (by simpa using hfile), Option.eq_none_iff_forall_not_mem]
      intro bp' hbp'
      obtain ⟨hmem', hne⟩ := mem_takeSource_kept.mp (Table.mem_entries_of_get? hbp')
      have hsame : some bp' = some bp := (Table.get?_of_mem h.keys hmem').symm.trans hget
      exact hne (Option.some.inj hsame ▸ hfile)
    · rw [Option.filter_some, if_pos (by simpa using hfile)]
      exact Table.get?_of_mem hkeys (mem_takeSource_kept.mpr ⟨hmem, hfile⟩)

/-- The entries of a file, by number. -/
def taken (b : Board) (source : Option String) : List (Location × Breakpoint) :=
  (b.installed.entries.filter (·.2.file = source)).mergeSort (·.2.id ≤ ·.2.id)

theorem map_taken (b : Board) (source : Option String) :
    (b.taken source).map (·.2) = (b.takeSource source).1 := by
  rw [taken, takeSource, sortById, Table.values, List.filter_map]
  exact List.map_mergeSort fun _ _ _ _ => rfl

theorem nodup_taken (h : b.Sound) (source : Option String) :
    ((b.taken source).map (·.1)).Nodup := by
  have hperm := (List.mergeSort_perm (b.installed.entries.filter (·.2.file = source))
    (·.2.id ≤ ·.2.id)).map (·.1)
  exact hperm.nodup_iff.mpr (h.keys.sublist (List.filter_sublist.map _))

theorem Sound.mem_taken (h : b.Sound) {source : Option String} :
    (l, bp) ∈ b.taken source ↔ b.get? l = some bp ∧ bp.file = source := by
  rw [taken, List.mem_mergeSort, List.mem_filter, decide_eq_true_eq]
  exact and_congr_left fun _ => ⟨Table.get?_of_mem h.keys, Table.mem_entries_of_get?⟩

theorem pairwise_takeSource (b : Board) (source : Option String) :
    (b.takeSource source).1.Pairwise (fun bp bp' => bp.id ≤ bp'.id) := by
  have htrans : ∀ bp bp' bp'' : Breakpoint, decide (bp.id ≤ bp'.id) = true →
      decide (bp'.id ≤ bp''.id) = true → decide (bp.id ≤ bp''.id) = true := by
    intro bp bp' bp'' h h'
    rw [decide_eq_true_eq] at h h' ⊢
    exact UInt32.le_trans h h'
  have htotal : ∀ bp bp' : Breakpoint,
      (decide (bp.id ≤ bp'.id) || decide (bp'.id ≤ bp.id)) = true := by
    intro bp bp'
    rw [Bool.or_eq_true, decide_eq_true_eq, decide_eq_true_eq]
    exact UInt32.le_total bp.id bp'.id
  have hsorted := List.pairwise_mergeSort htrans htotal
    (b.installed.values.filter (·.file = source))
  exact hsorted.imp of_decide_eq_true

/-! ## Breakpoints -/

/-- A change empties a location, or puts another breakpoint there, if `bp` stands there. -/
def Change.Ousts (l : Location) (bp : Breakpoint) : Change → Prop
  | .reserve _ => False
  | .settle k outcome => k = l ∧ outcome ≠ none
  | .remove k => k = l
  | .takeSource source => bp.file = source

/-- A breakpoint stands while it has been put and nothing since has ousted it. -/
theorem get?_run (changes : List Change) (l : Location) (bp : Breakpoint) :
    (run changes).get? l = some bp ↔
      Since (fun _ c => c = .settle l (some bp)) (Change.Ousts l bp) changes := by
  induction changes using List.reverseRecOn with
  | nil =>
    refine iff_of_false ?_ not_since_nil
    rintro ⟨⟩
  | append_singleton changes c ih =>
    rw [run_snoc, since_snoc, ← ih]
    cases c with
    | reserve k =>
      have hget : ((run changes).after (.reserve k)).get? l = (run changes).get? l := by
        rw [Board.after, reserve?]
        split <;> rfl
      rw [hget]
      simp [Change.Ousts]
    | settle k outcome =>
      by_cases hk : k = l
      · subst hk
        cases outcome with
        | none =>
          have hget : ((run changes).settle k none).get? k = (run changes).get? k := rfl
          rw [Board.after, hget]
          simp [Change.Ousts]
        | some bp' =>
          rw [Board.after, get?_settle_self]
          simp [Change.Ousts]
      · rw [Board.after, get?_settle_of_ne _ hk]
        simp [Change.Ousts, hk]
    | remove k =>
      rw [Board.after, get?_remove]
      by_cases hk : k = l <;> simp [Change.Ousts, hk]
    | takeSource source =>
      rw [Board.after, (sound_run changes).get?_takeSource, Option.filter_eq_some_iff]
      simp [Change.Ousts]

/--
Whatever has changed a board, no location is reserved twice, has two breakpoints, or has one while
it is reserved. It can be reserved exactly when it is neither. Reservations end where they are
settled and nowhere else. A clearing takes the breakpoints of its file, each once and by number, and
leaves all others.
-/
theorem turnover (changes : List Change) :
    (∀ l ∈ (run changes).reserved, (run changes).get? l = none) ∧
      (run changes).reserved.Nodup ∧ (run changes).installed.keys.Nodup ∧
      (∀ l, ((run changes).reserve? l).isSome ↔
        (run changes).get? l = none ∧ l ∉ (run changes).reserved) ∧
      (∀ l, l ∈ (run changes).reserved ↔
        Since (fun earlier c => c = .reserve l ∧ ((run earlier).reserve? l).isSome)
          (fun c => ∃ outcome, c = .settle l outcome) changes) ∧
      (∀ l bp, (run changes).get? l = some bp ↔
        Since (fun _ c => c = .settle l (some bp)) (Change.Ousts l bp) changes) ∧
      (∀ l, ((run changes).remove l).reserved = (run changes).reserved ∧
        ∀ k, ((run changes).remove l).get? k = if l = k then none else (run changes).get? k) ∧
      ∀ source, ((run changes).takeSource source).2.reserved = (run changes).reserved ∧
        (∃ locations : List Location, locations.Nodup ∧
          (∀ l, l ∈ locations ↔ ∃ bp, (run changes).get? l = some bp ∧ bp.file = source) ∧
          locations.map (run changes).get? = ((run changes).takeSource source).1.map some) ∧
        ((run changes).takeSource source).1.Pairwise (fun bp bp' => bp.id ≤ bp'.id) ∧
        ∀ l, ((run changes).takeSource source).2.get? l =
          ((run changes).get? l).filter (·.file ≠ source) := by
  have hsound := sound_run changes
  refine ⟨hsound.vacant, hsound.reserved, hsound.keys, fun _ => isSome_reserve?,
    mem_reserved_run changes, get?_run changes, fun l => ⟨rfl, get?_remove _ l⟩, fun source => ?_⟩
  refine ⟨rfl, ⟨((run changes).taken source).map (·.1), nodup_taken hsound source, ?_, ?_⟩,
    pairwise_takeSource _ source, hsound.get?_takeSource source⟩
  · intro l
    simp only [List.mem_map, Prod.exists, exists_and_right, exists_eq_right, hsound.mem_taken]
  · rw [← map_taken, List.map_map, List.map_map]
    refine List.map_congr_left fun e he => ?_
    exact (hsound.mem_taken.mp he).1

end Board

end MachineInterface

import MachineInterface.Variable.Registry
import Mathlib.Data.List.Induction

/-!
# Changes to variable objects

The debugger tells what has changed as a list, in which an object may be named several times or not
be known at all. The registry follows the list change by change.

* `patched_foldl`: what an object keeps over its changes, and what it takes from these.
* `patches_applyAll`: each object takes its own changes in their order, and nothing else changes.
-/

namespace MachineInterface

/-! ## The changes of one object -/

namespace VariableObject

variable {c : Value} {o : VariableObject}

theorem newType?_eq_some_iff {t : String} : newType? c = some t ↔
    isSet (c.lookupText? "type_changed") = true ∧ c.lookupText? "new_type" = some t := by
  unfold newType?
  split <;> simp_all

/--
An object before and after some changes. It stays the object that it was, of a type that only a
change replaces which says so and gives a new one; all else is as the last change has it.
-/
structure Patched (changes : List Value) (o o' : VariableObject) : Prop where
  name : o'.name = o.name
  expression : o'.expression = o.expression
  childCount : o'.childCount = o.childCount
  threadId : o'.threadId = o.threadId
  frozen : o'.frozen = o.frozen
  typeName : o'.typeName = ((changes.filterMap newType?).getLast?.or o.typeName)
  latest : ∀ c, changes.getLast? = some c → o'.value = c.lookupText? "value" ∧
    o'.dynamic = isSet (c.lookupText? "dynamic") ∧
    o'.displayHint = c.lookupText? "displayhint" ∧ o'.hasMore = isSet (c.lookupText? "has_more")

theorem Patched.concat {changes : List Value} {o' : VariableObject} (h : Patched changes o o')
    (c : Value) : Patched (changes ++ [c]) o (o'.apply c) where
  name := h.name
  expression := h.expression
  childCount := h.childCount
  threadId := h.threadId
  frozen := h.frozen
  typeName := by
    have hlast : ((changes ++ [c]).filterMap newType?).getLast? =
        (newType? c).or (changes.filterMap newType?).getLast? := by
      rw [List.filterMap_append]
      cases hnew : newType? c with
      | none => rw [List.filterMap_cons_none hnew, List.filterMap_nil, List.append_nil, Option.none_or]
      | some t =>
        rw [List.filterMap_cons_some hnew, List.filterMap_nil, List.getLast?_concat, Option.some_or]
    have hstep : (o'.apply c).typeName = (newType? c).or o'.typeName := by
      unfold apply
      cases newType? c <;> rfl
    rw [hstep, hlast, Option.or_assoc, ← h.typeName]
  latest d hd := by
    rw [List.getLast?_concat] at hd
    cases hd
    exact ⟨rfl, rfl, rfl, rfl⟩

/-- What an object keeps over its changes, and what it takes from these. -/
theorem patched_foldl (changes : List Value) (o : VariableObject) :
    Patched changes o (changes.foldl apply o) := by
  induction changes using List.reverseRecOn with
  | nil => exact ⟨rfl, rfl, rfl, rfl, rfl, rfl, fun c hc => by cases hc⟩
  | append_singleton changes c ih =>
    rw [List.foldl_append, List.foldl_cons, List.foldl_nil]
    exact ih.concat c

/-- A type is only replaced by a change that says so and gives a new one. -/
theorem Patched.retyped {changes : List Value} {o' : VariableObject} (h : Patched changes o o')
    (hne : o'.typeName ≠ o.typeName) : ∃ c ∈ changes, ∃ t,
      isSet (c.lookupText? "type_changed") = true ∧ c.lookupText? "new_type" = some t ∧
      o'.typeName = some t := by
  cases hlast : (changes.filterMap newType?).getLast? with
  | none =>
    rw [h.typeName, hlast] at hne
    exact absurd rfl hne
  | some t =>
    obtain ⟨c, hc, ht⟩ := List.mem_filterMap.mp (List.mem_of_getLast? hlast)
    obtain ⟨hset, hnew⟩ := newType?_eq_some_iff.mp ht
    exact ⟨c, hc, t, hset, hnew, by rw [h.typeName, hlast, Option.some_or]⟩

end VariableObject

/-! ## The changes of a registry -/

/-- What some changes make of an entry; they are changes of objects only. -/
def HandleEntry.patch (changes : List Value) : HandleEntry → HandleEntry
  | scope key => scope key
  | object o => object (changes.foldl VariableObject.apply o)

theorem HandleEntry.map_patch_nil (e : Option HandleEntry) : e.map (·.patch []) = e := by
  rcases e with _ | ⟨_ | _⟩ <;> rfl

theorem HandleEntry.patch_append (e : HandleEntry) (changes more : List Value) :
    e.patch (changes ++ more) = (e.patch changes).patch more := by
  cases e with
  | scope key => rfl
  | object o => rw [patch, patch, patch, List.foldl_append]

namespace Registry

variable {r r' r'' : Registry} {changes : List Value}

/-- The handle of the object that a change names, if it is known. -/
def target? (r : Registry) (c : Value) : Option Handle := (c.lookupText? "name").bind r.handle?

/-- The changes to the object with a handle, in their order. -/
def changesOf (r : Registry) (n : Handle) (changes : List Value) : List Value :=
  changes.filter (r.target? · = some n)

theorem changesOf_append (r : Registry) (n : Handle) (changes more : List Value) :
    r.changesOf n (changes ++ more) = r.changesOf n changes ++ r.changesOf n more :=
  List.filter_append changes more

theorem changesOf_of_others {n : Handle} (h : ∀ c ∈ changes, r.target? c ≠ some n) :
    r.changesOf n changes = [] := by
  rw [changesOf, List.filter_eq_nil_iff]
  exact fun c hc => by simpa using h c hc

/--
A registry before and after some changes. Each entry takes the changes that name it, in their order.
There are the same entries as before, and each name and each scope has the handle that it had.
-/
structure Patches (changes : List Value) (r r' : Registry) : Prop where
  entry? : ∀ n, r'.entry? n = (r.entry? n).map (·.patch (r.changesOf n changes))
  keys : r'.entries.keys = r.entries.keys
  objects : r'.objects = r.objects
  scopes : r'.scopes = r.scopes
  next : r'.next = r.next

namespace Patches

theorem handle? (h : Patches changes r r') : r'.handle? = r.handle? := by
  funext name
  rw [Registry.handle?, Registry.handle?, h.objects]

theorem target? (h : Patches changes r r') : r'.target? = r.target? := by
  funext c
  rw [Registry.target?, Registry.target?, h.handle?]

theorem refl (r : Registry) : Patches [] r r where
  entry? n := (HandleEntry.map_patch_nil (r.entry? n)).symm
  keys := rfl
  objects := rfl
  scopes := rfl
  next := rfl

/-- The changes of an object after some changes are those of both lists. -/
theorem trans {more : List Value} (h : Patches changes r r') (h' : Patches more r' r'') :
    Patches (changes ++ more) r r'' where
  entry? n := by
    have hmore : r'.changesOf n more = r.changesOf n more := by
      unfold changesOf
      rw [h.target?]
    rw [h'.entry?, h.entry?, hmore, changesOf_append, Option.map_map]
    exact congrArg (Option.map · _) (funext fun e => (e.patch_append _ _).symm)
  keys := h'.keys.trans h.keys
  objects := h'.objects.trans h.objects
  scopes := h'.scopes.trans h.scopes
  next := h'.next.trans h.next

end Patches

/-- Entries that no change names stay as they are. -/
theorem Patches.entry?_of_others (h : Patches changes r r') {n : Handle}
    (hothers : ∀ c ∈ changes, r.target? c ≠ some n) : r'.entry? n = r.entry? n := by
  rw [h.entry?, changesOf_of_others hothers, HandleEntry.map_patch_nil]

/-- An object stays under its handle, and it takes the changes that name it. -/
theorem Patches.exists_object (h : Patches changes r r') {n : Handle} {o : VariableObject}
    (ho : r.object? n = some o) :
    ∃ o', r'.object? n = some o' ∧ VariableObject.Patched (r.changesOf n changes) o o' := by
  refine ⟨_, ?_, VariableObject.patched_foldl _ o⟩
  rw [object?, h.entry?, entry?_of_object? ho]
  rfl

/-- Changes take no name from the registry and no object from its name. -/
theorem Patches.isSome_byName? (h : Patches changes r r') {name : String}
    (hname : (r.byName? name).isSome = true) : (r'.byName? name).isSome = true := by
  obtain ⟨o, ho⟩ := Option.isSome_iff_exists.mp hname
  obtain ⟨n, hn, hobject⟩ := Option.bind_eq_some_iff.mp ho
  obtain ⟨o', ho', -⟩ := h.exists_object hobject
  rw [byName?, h.handle?, hn, Option.bind_some, ho', Option.isSome_some]

/-- A change that finds no object leaves the registry as it is. -/
theorem patches_of_no_object {c : Value} (h : ∀ n, r.target? c = some n → r.object? n = none) :
    Patches [c] r r where
  entry? n := by
    cases hn : r.entry? n with
    | none => rfl
    | some e =>
      cases e with
      | scope key => rfl
      | object o =>
        have hobject : r.object? n = some o := by rw [object?, hn]
        have hother : r.target? c ≠ some n := fun htarget => by
          cases (h n htarget).symm.trans hobject
        rw [changesOf_of_others (by simpa using hother), HandleEntry.map_patch_nil]
  keys := rfl
  objects := rfl
  scopes := rfl
  next := rfl

/-- A change that finds an object replaces its entry. -/
theorem patches_of_object {c : Value} {n : Handle} {o : VariableObject}
    (htarget : r.target? c = some n) (ho : r.entry? n = some (.object o)) :
    Patches [c] r { r with entries := r.entries.insert n (.object (o.apply c)) } where
  entry? m := by
    change (r.entries.insert n _).get? m = _
    rw [Table.get?_insert]
    by_cases hm : n = m
    · subst hm
      rw [if_pos rfl, ho]
      simp [changesOf, htarget, HandleEntry.patch]
    · have hother : r.target? c ≠ some m := fun h => hm (Option.some.inj (htarget.symm.trans h))
      rw [if_neg hm, changesOf_of_others (by simpa using hother), HandleEntry.map_patch_nil]
      rfl
  keys := by
    refine Table.keys_insert_of_contains ?_ _
    rw [Table.contains_eq_isSome]
    exact Option.isSome_iff_exists.mpr ⟨_, ho⟩
  objects := rfl
  scopes := rfl
  next := rfl

theorem patches_apply (r : Registry) (c : Value) :
    (r.apply c).1 = r.target? c ∧ Patches [c] r (r.apply c).2 := by
  have htarget : (c.lookupText? "name").bind r.handle? = r.target? c := rfl
  rw [apply, htarget]
  cases hc : r.target? c with
  | none => exact ⟨rfl, patches_of_no_object fun n hn => by cases hc.symm.trans hn⟩
  | some n =>
    cases ho : r.object? n with
    | none =>
      have hnone : ∀ m, r.target? c = some m → r.object? m = none := fun m hm => by
        cases hc.symm.trans hm
        exact ho
      simp only [ho]
      exact ⟨trivial, patches_of_no_object hnone⟩
    | some o =>
      simp only [ho]
      exact ⟨trivial, patches_of_object hc (entry?_of_object? ho)⟩

/-- Each object takes its own changes in their order, and nothing else changes. -/
theorem patches_applyAll (r : Registry) (changes : List Value) :
    (r.applyAll changes).1 = changes.map r.target? ∧ Patches changes r (r.applyAll changes).2 := by
  induction changes generalizing r with
  | nil => exact ⟨rfl, .refl r⟩
  | cons c changes ih =>
    obtain ⟨hhandle, hfirst⟩ := r.patches_apply c
    obtain ⟨hhandles, hrest⟩ := ih (r.apply c).2
    refine ⟨?_, hfirst.trans hrest⟩
    change (r.apply c).1 :: ((r.apply c).2.applyAll changes).1 = _
    rw [hhandle, hhandles, hfirst.target?, List.map_cons]

end Registry

end MachineInterface

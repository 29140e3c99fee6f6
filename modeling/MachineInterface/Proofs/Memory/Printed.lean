import MachineInterface.Proofs.Memory.References
import MachineInterface.Text.Cut
import MachineInterface.Variable.Object

/-!
# Addresses in printed values

A printed value can serve as a memory reference when it starts with an address, or when one stands
after a group in braces at its start. What is taken from the value is read again as a reference.

* `addressText?_eq_some`: what is taken from a value is a reference to the address that it shows.
* `ShownBy.of_flat_group`: the address stands after a group that has none inside.
* `IsGroup`: a group in braces, which ends where its own brace is closed.
-/

namespace MachineInterface

open Text

/-- A text is what is left of it when it is trimmed, with blanks around. -/
theorem Text.exists_eq_trimChars (cs : List Char) :
    ∃ lead tail, cs = lead ++ (trimChars cs ++ tail) ∧
      (∀ b ∈ lead, isBlank b = true) ∧ ∀ b ∈ tail, isBlank b = true := by
  have hdrop : trimChars cs ++ ((dropBlanks cs).reverse.takeWhile isBlank).reverse =
      dropBlanks cs := by
    rw [trimChars, dropTrailingBlanks, ← List.reverse_append, List.takeWhile_append_dropWhile,
      List.reverse_reverse]
  refine ⟨cs.takeWhile isBlank, ((dropBlanks cs).reverse.takeWhile isBlank).reverse, ?_,
    fun b hb => List.all_eq_true.mp List.all_takeWhile b hb,
    fun b hb => List.all_eq_true.mp List.all_takeWhile b (List.mem_reverse.mp hb)⟩
  rw [hdrop]
  exact List.takeWhile_append_dropWhile.symm

namespace Address

variable {a : UInt64} {cs value : List Char}

/-! ## Values -/

/--
The address that a printed value shows: the one at its start, or, for a value that starts with a
brace, the one after the first closing brace.
-/
inductive ShownBy (a : UInt64) : List Char → Prop
  | start {value : List Char} (hstart : value.head? ≠ some '{') (h : Opens value a) :
    ShownBy a value
  | group {inside after : List Char} (hinside : '}' ∉ inside) (h : Opens after a) :
    ShownBy a ('{' :: (inside ++ '}' :: after))

/-- Blanks around a text do not count. -/
theorem Opens.of_trimChars (h : Opens (trimChars cs) a) : Opens cs a := by
  obtain ⟨blanks, word, rest, htrim, hblanks, hword, hrest⟩ := h
  obtain ⟨lead, tail, hcs, hlead, htail⟩ := exists_eq_trimChars cs
  rw [htrim] at hcs
  refine ⟨lead ++ blanks, word, rest ++ tail, by simpa only [List.append_assoc] using hcs,
    List.forall_mem_append.mpr ⟨hlead, hblanks⟩, hword, fun c hc => ?_⟩
  cases rest with
  | nil => exact htail c (List.mem_of_mem_head? hc)
  | cons b rest => exact hrest c hc

/-- What is taken from a value is a reference to the address that it shows. -/
theorem addressText?_eq_some {value reference : String}
    (h : VariableObject.addressText? value = some reference) :
    ∃ a, ShownBy a value.toList ∧ Opens reference.toList a := by
  unfold VariableObject.addressText? at h
  dsimp only at h
  split at h
  · rename_i rest hvalue
    obtain ⟨text, htext, h⟩ := Option.bind_eq_some_iff.mp h
    obtain ⟨a, ha, rfl⟩ := Option.map_eq_some_iff.mp h
    obtain ⟨⟨inside, after⟩, hcut, rfl⟩ := Option.map_eq_some_iff.mp htext
    obtain ⟨hinside, rfl⟩ := cut?_eq_some_iff.mp hcut
    have hopens := ofReference?_eq_some_iff.mp ha
    refine ⟨a, ?_, hopens⟩
    rw [String.toList_ofList] at hopens
    rw [hvalue]
    exact .group hinside hopens.of_trimChars
  · rename_i hbrace
    obtain ⟨a, ha, rfl⟩ := Option.map_eq_some_iff.mp h
    have hopens := ofReference?_eq_some_iff.mp ha
    refine ⟨a, .start (fun hhead => ?_) hopens, hopens⟩
    obtain ⟨rest, hrest⟩ := List.head?_eq_some_iff.mp hhead
    exact hbrace rest hrest

/-! ## Groups -/

/-- A text in which each brace that opens is closed. -/
inductive Balanced : List Char → Prop
  | nil : Balanced []
  | char {c : Char} {rest : List Char} (hopen : c ≠ '{') (hclose : c ≠ '}') (h : Balanced rest) :
    Balanced (c :: rest)
  | group {inside rest : List Char} (hinside : Balanced inside) (h : Balanced rest) :
    Balanced ('{' :: (inside ++ '}' :: rest))

/-- A text without braces may stand in front. -/
theorem Balanced.append_left {front : List Char} (hopen : '{' ∉ front) (hclose : '}' ∉ front)
    (h : Balanced cs) : Balanced (front ++ cs) := by
  induction front with
  | nil => exact h
  | cons c front ih =>
    exact .char (Ne.symm (List.ne_of_not_mem_cons hopen)) (Ne.symm (List.ne_of_not_mem_cons hclose))
      (ih (List.not_mem_of_not_mem_cons hopen) (List.not_mem_of_not_mem_cons hclose))

/-- A group in braces with what is inside it, perhaps other groups. -/
def IsGroup (group : List Char) : Prop :=
  ∃ inside, Balanced inside ∧ group = '{' :: (inside ++ ['}'])

/-- A text in which no brace is opened closes none. -/
theorem Balanced.not_mem_close (h : Balanced cs) (hopen : '{' ∉ cs) : '}' ∉ cs := by
  induction h with
  | nil => exact List.not_mem_nil
  | char _ hclose _ ih =>
    exact List.not_mem_cons_of_ne_of_not_mem (Ne.symm hclose)
      (ih (List.not_mem_of_not_mem_cons hopen))
  | group => exact absurd List.mem_cons_self hopen

/-- The address stands after a group that has no other group inside. -/
theorem ShownBy.of_flat_group {group after : List Char} (h : ShownBy a (group ++ after))
    (hgroup : IsGroup group) (hflat : '{' ∉ group.tail) : Opens after a := by
  obtain ⟨inside, hbalanced, rfl⟩ := hgroup
  rw [List.tail_cons] at hflat
  have hinside := hbalanced.not_mem_close fun hmem => hflat (List.mem_append_left _ hmem)
  rw [List.cons_append, List.append_assoc, List.singleton_append] at h
  generalize hvalue : '{' :: (inside ++ '}' :: after) = value at h
  cases h with
  | start hstart => exact absurd (hvalue ▸ rfl) hstart
  | group hinside' h =>
    -- Both cuts are made at the first closing brace.
    have hcut : cut? '}' (inside ++ '}' :: after) = some (inside, after) :=
      cut?_eq_some_iff.mpr ⟨hinside, rfl⟩
    rw [(List.cons.inj hvalue).2, cut?_eq_some_iff.mpr ⟨hinside', rfl⟩] at hcut
    rwa [← (Prod.mk.inj (Option.some.inj hcut)).2]

end Address

end MachineInterface
